import Mathlib

/-!
# Public addresses

* `Block` : the addresses that start with given bits;
* `isPublic` : whether an address is somewhere a public server could be, by masks and comparisons;
* `isPublic_eq_false` : it is not just where one of the special blocks holds it, or holds the IPv4 address
  it carries.
-/

namespace HxdNg.Fetch

/-! ## Blocks -/

/-- A low mask's complement keeps the multiple below. -/
theorem and_high {w k x : Nat} (hk : k ≤ w) (hx : x < 2 ^ w) : x &&& (2 ^ w - 2 ^ k) = x / 2 ^ k * 2 ^ k := by
  have hmask : 2 ^ w - 2 ^ k = (2 ^ (w - k) - 1) <<< k := by
    rw [Nat.shiftLeft_eq, Nat.sub_mul, ← pow_add, Nat.sub_add_cancel hk, Nat.one_mul]
  rw [hmask, ← Nat.shiftRight_eq_div_pow, ← Nat.shiftLeft_eq]
  refine Nat.eq_of_testBit_eq fun i => ?_
  rw [Nat.testBit_and, Nat.testBit_shiftLeft, Nat.testBit_shiftLeft, Nat.testBit_two_pow_sub_one]
  by_cases hki : k ≤ i
  · rw [Nat.testBit_shiftRight, Nat.add_sub_cancel' hki]
    by_cases hlt : i - k < w - k
    · simp [hki, hlt]
    · have hwi : 2 ^ w ≤ 2 ^ i := Nat.pow_le_pow_right (by decide) (by omega)
      have hbit : x.testBit i = false := Nat.testBit_lt_two_pow (hx.trans_le hwi)
      simp [hbit]
  · simp [hki]

theorem and_eq_iff {w k c : Nat} (hk : k ≤ w) {x : Nat} (hx : x < 2 ^ w) :
    x &&& (2 ^ w - 2 ^ k) = c * 2 ^ k ↔ x / 2 ^ k = c := by
  rw [and_high hk hx]
  exact Nat.mul_left_inj (by positivity)

/-- The numbers of `width` bits that start with the first `len` bits of `base`. -/
structure Block (width : Nat) where
  base : Nat
  len : Nat

def Block.Holds {width : Nat} (b : Block width) (n : Nat) : Prop :=
  n / 2 ^ (width - b.len) = b.base / 2 ^ (width - b.len)

instance {width : Nat} (b : Block width) (n : Nat) : Decidable (b.Holds n) := inferInstanceAs (Decidable (_ = _))

/-! ## Addresses -/

structure Ipv4Addr where
  a : UInt8
  b : UInt8
  c : UInt8
  d : UInt8
  deriving DecidableEq

def Ipv4Addr.value (x : Ipv4Addr) : Nat :=
  x.a.toNat * 2 ^ 24 + x.b.toNat * 2 ^ 16 + x.c.toNat * 2 ^ 8 + x.d.toNat

/-- By segments. -/
structure Ipv6Addr where
  s0 : UInt16
  s1 : UInt16
  s2 : UInt16
  s3 : UInt16
  s4 : UInt16
  s5 : UInt16
  s6 : UInt16
  s7 : UInt16
  deriving DecidableEq

def Ipv6Addr.value (x : Ipv6Addr) : Nat :=
  x.s0.toNat * 2 ^ 112 + x.s1.toNat * 2 ^ 96 + x.s2.toNat * 2 ^ 80 + x.s3.toNat * 2 ^ 64 + x.s4.toNat * 2 ^ 48 +
    x.s5.toNat * 2 ^ 32 + x.s6.toNat * 2 ^ 16 + x.s7.toNat

inductive IpAddr where
  | v4 (x : Ipv4Addr)
  | v6 (x : Ipv6Addr)
  deriving DecidableEq

/-- The four octets of two segments. -/
def ofSegments (s t : UInt16) : Ipv4Addr :=
  ⟨UInt8.ofNat (s.toNat / 256), UInt8.ofNat (s.toNat % 256), UInt8.ofNat (t.toNat / 256),
    UInt8.ofNat (t.toNat % 256)⟩

theorem ofSegments_value (s t : UInt16) : (ofSegments s t).value = s.toNat * 2 ^ 16 + t.toNat := by
  have hs := s.toNat_lt
  have ht := t.toNat_lt
  simp only [ofSegments, Ipv4Addr.value, UInt8.toNat_ofNat']
  omega

/-! ## The test -/

def Ipv4Addr.isPrivate (x : Ipv4Addr) : Bool :=
  x.a = 10 || (x.a = 172 && 16 ≤ x.b && x.b ≤ 31) || (x.a = 192 && x.b = 168)

def Ipv4Addr.isDocumentation (x : Ipv4Addr) : Bool :=
  (x.a = 192 && x.b = 0 && x.c = 2) || (x.a = 198 && x.b = 51 && x.c = 100) || (x.a = 203 && x.b = 0 && x.c = 113)

def Ipv4Addr.isPublic (x : Ipv4Addr) : Bool :=
  !(x.a = 127 || x.isPrivate || (x.a = 169 && x.b = 254) ||
    (x.a = 255 && x.b = 255 && x.c = 255 && x.d = 255) || x.isDocumentation || (224 ≤ x.a && x.a ≤ 239) ||
    (x.a = 0 && x.b = 0 && x.c = 0 && x.d = 0) || (x.a = 100 && 64 ≤ x.b && x.b < 128) ||
    (x.a = 192 && x.b = 0 && x.c = 0) || (x.a = 192 && x.b = 88 && x.c = 99) || (x.a = 198 && x.b &&& 0xfe = 18) ||
    240 ≤ x.a || x.a = 0)

def Ipv6Addr.isLoopback (x : Ipv6Addr) : Bool := x = ⟨0, 0, 0, 0, 0, 0, 0, 1⟩

def Ipv6Addr.isUnspecified (x : Ipv6Addr) : Bool := x = ⟨0, 0, 0, 0, 0, 0, 0, 0⟩

def Ipv6Addr.toIpv4Mapped (x : Ipv6Addr) : Option Ipv4Addr :=
  if x.s0 = 0 && x.s1 = 0 && x.s2 = 0 && x.s3 = 0 && x.s4 = 0 && x.s5 = 0xffff then some (ofSegments x.s6 x.s7)
  else none

/-- The IPv4 address an IPv6 one delivers to, for the forms that carry one in a fixed place. -/
def embeddedV4 (x : Ipv6Addr) : Option Ipv4Addr :=
  let tail := ofSegments x.s6 x.s7
  match x.toIpv4Mapped with
  | some v4 => some v4
  | none =>
    if x.s0 = 0 && x.s1 = 0 && x.s2 = 0 && x.s3 = 0 && x.s4 = 0 && x.s5 = 0 && !x.isUnspecified && !x.isLoopback then
      some tail
    else if x.s0 = 0x64 && x.s1 = 0xff9b && x.s2 = 0 && x.s3 = 0 && x.s4 = 0 && x.s5 = 0 then some tail
    else if x.s0 = 0x2002 then some (ofSegments x.s1 x.s2)
    else none

def Ipv6Addr.isSpecial (x : Ipv6Addr) : Bool :=
  x.isLoopback || x.isUnspecified || x.s0 &&& 0xff00 = 0xff00 || x.s0 &&& 0xfe00 = 0xfc00 ||
    x.s0 &&& 0xffc0 = 0xfe80 || x.s0 &&& 0xffc0 = 0xfec0 || (x.s0 = 0x2001 && x.s1 < 0x0200) ||
    (x.s0 = 0x2001 && x.s1 = 0x0db8) || x.s0 &&& 0xfff0 = 0x3ff0 || (x.s0 = 0x64 && x.s1 = 0xff9b && x.s2 = 1) ||
    (x.s0 = 0x0100 && x.s1 = 0 && x.s2 = 0 && x.s3 = 0) || x.s0 = 0

def isPublic : IpAddr → Bool
  | .v4 x => x.isPublic
  | .v6 x =>
    match embeddedV4 x with
    | some v4 => v4.isPublic
    | none => !x.isSpecial

/-! ## The special blocks -/

/-- This network, private use, carrier-grade NAT, loopback, link-local, protocol assignments,
documentation, the 6to4 relay, benchmarking, multicast, and what is reserved. -/
def blocks4 : List (Block 32) :=
  [⟨Ipv4Addr.value ⟨0, 0, 0, 0⟩, 8⟩, ⟨Ipv4Addr.value ⟨10, 0, 0, 0⟩, 8⟩, ⟨Ipv4Addr.value ⟨100, 64, 0, 0⟩, 10⟩,
    ⟨Ipv4Addr.value ⟨127, 0, 0, 0⟩, 8⟩, ⟨Ipv4Addr.value ⟨169, 254, 0, 0⟩, 16⟩, ⟨Ipv4Addr.value ⟨172, 16, 0, 0⟩, 12⟩,
    ⟨Ipv4Addr.value ⟨192, 0, 0, 0⟩, 24⟩, ⟨Ipv4Addr.value ⟨192, 0, 2, 0⟩, 24⟩, ⟨Ipv4Addr.value ⟨192, 88, 99, 0⟩, 24⟩,
    ⟨Ipv4Addr.value ⟨192, 168, 0, 0⟩, 16⟩, ⟨Ipv4Addr.value ⟨198, 18, 0, 0⟩, 15⟩, ⟨Ipv4Addr.value ⟨198, 51, 100, 0⟩, 24⟩,
    ⟨Ipv4Addr.value ⟨203, 0, 113, 0⟩, 24⟩, ⟨Ipv4Addr.value ⟨224, 0, 0, 0⟩, 4⟩, ⟨Ipv4Addr.value ⟨240, 0, 0, 0⟩, 4⟩]

def Special4 (n : Nat) : Prop := ∃ b ∈ blocks4, b.Holds n

/-- What is not given out yet at the bottom, NAT64 for local use, discard-only, protocol assignments,
documentation twice, unique local, link-local, site-local and multicast. -/
def blocks6 : List (Block 128) :=
  [⟨Ipv6Addr.value ⟨0, 0, 0, 0, 0, 0, 0, 0⟩, 16⟩, ⟨Ipv6Addr.value ⟨0x64, 0xff9b, 1, 0, 0, 0, 0, 0⟩, 48⟩,
    ⟨Ipv6Addr.value ⟨0x100, 0, 0, 0, 0, 0, 0, 0⟩, 64⟩, ⟨Ipv6Addr.value ⟨0x2001, 0, 0, 0, 0, 0, 0, 0⟩, 23⟩,
    ⟨Ipv6Addr.value ⟨0x2001, 0xdb8, 0, 0, 0, 0, 0, 0⟩, 32⟩, ⟨Ipv6Addr.value ⟨0x3ff0, 0, 0, 0, 0, 0, 0, 0⟩, 12⟩,
    ⟨Ipv6Addr.value ⟨0xfc00, 0, 0, 0, 0, 0, 0, 0⟩, 7⟩, ⟨Ipv6Addr.value ⟨0xfe80, 0, 0, 0, 0, 0, 0, 0⟩, 10⟩,
    ⟨Ipv6Addr.value ⟨0xfec0, 0, 0, 0, 0, 0, 0, 0⟩, 10⟩, ⟨Ipv6Addr.value ⟨0xff00, 0, 0, 0, 0, 0, 0, 0⟩, 8⟩]

/-- The mapped, compatible, NAT64 and 6to4 blocks, each with how many bits follow the IPv4 address. -/
def carriers : List (Block 128 × Nat) :=
  [(⟨Ipv6Addr.value ⟨0, 0, 0, 0, 0, 0xffff, 0, 0⟩, 96⟩, 0), (⟨Ipv6Addr.value ⟨0, 0, 0, 0, 0, 0, 0, 0⟩, 96⟩, 0),
    (⟨Ipv6Addr.value ⟨0x64, 0xff9b, 0, 0, 0, 0, 0, 0⟩, 96⟩, 0),
    (⟨Ipv6Addr.value ⟨0x2002, 0, 0, 0, 0, 0, 0, 0⟩, 16⟩, 80)]

/-- `::` and `::1` carry nothing. -/
def Carries (n m : Nat) : Prop := 1 < n ∧ ∃ c ∈ carriers, c.1.Holds n ∧ n / 2 ^ c.2 % 2 ^ 32 = m

/-- An address that carries an IPv4 one is as that one is. -/
def Special6 (n : Nat) : Prop :=
  (∃ m, Carries n m ∧ Special4 m) ∨ (∀ m, ¬ Carries n m) ∧ ∃ b ∈ blocks6, b.Holds n

def Special : IpAddr → Prop
  | .v4 x => Special4 x.value
  | .v6 x => Special6 x.value

theorem isPublic4_eq_false (x : Ipv4Addr) : x.isPublic = false ↔ Special4 x.value := by
  obtain ⟨a, b, c, d⟩ := x
  have ha := a.toNat_lt
  have hb := b.toNat_lt
  have hc := c.toNat_lt
  have hd := d.toNat_lt
  have hmask : b &&& 0xfe = 18 ↔ b.toNat / 2 = 9 := by
    rw [← UInt8.toNat_inj, UInt8.toNat_and]
    exact and_eq_iff (w := 8) (k := 1) (c := 9) (by decide) hb
  have hvalue : Ipv4Addr.value ⟨a, b, c, d⟩ = a.toNat * 2 ^ 24 + b.toNat * 2 ^ 16 + c.toNat * 2 ^ 8 + d.toNat := rfl
  generalize Ipv4Addr.value ⟨a, b, c, d⟩ = n at hvalue ⊢
  simp only [Special4, blocks4, Block.Holds, List.exists_mem_cons_iff, List.not_mem_nil, false_and, exists_false,
    or_false]
  simp only [Ipv4Addr.isPublic, Ipv4Addr.isPrivate, Ipv4Addr.isDocumentation, Bool.not_eq_false', Bool.or_eq_true,
    Bool.and_eq_true, decide_eq_true_eq, hmask, ← UInt8.toNat_inj, UInt8.le_iff_toNat_le, UInt8.lt_iff_toNat_lt]
  generalize a.toNat = a at *
  generalize b.toNat = b at *
  generalize c.toNat = c at *
  generalize d.toNat = d at *
  simp only [Ipv4Addr.value, UInt8.reduceToNat, Nat.reduceSub, Nat.reducePow, Nat.reduceMul, Nat.reduceAdd,
    Nat.reduceDiv]
  have h8 : ∀ p, n / 16777216 = p ↔ a = p := fun p => by omega
  have h401 : n / 4194304 = 401 ↔ a = 100 ∧ 64 ≤ b ∧ b < 128 := by omega
  have h43518 : n / 65536 = 43518 ↔ a = 169 ∧ b = 254 := by omega
  have h2753 : n / 1048576 = 2753 ↔ a = 172 ∧ 16 ≤ b ∧ b ≤ 31 := by omega
  have h24 : ∀ p q r, q < 256 → r < 256 → (n / 256 = p * 65536 + q * 256 + r ↔ a = p ∧ b = q ∧ c = r) :=
    fun p q r hq hr => by omega
  have h49320 : n / 65536 = 49320 ↔ a = 192 ∧ b = 168 := by omega
  have h25353 : n / 131072 = 25353 ↔ a = 198 ∧ b / 2 = 9 := by omega
  have h14 : n / 268435456 = 14 ↔ 224 ≤ a ∧ a ≤ 239 := by omega
  have h15 : n / 268435456 = 15 ↔ 240 ≤ a := by omega
  rw [h8, h8, h401, h8, h43518, h2753, h24 192 0 0 (by decide) (by decide), h24 192 0 2 (by decide) (by decide),
    h24 192 88 99 (by decide) (by decide), h49320, h25353, h24 198 51 100 (by decide) (by decide),
    h24 203 0 113 (by decide) (by decide), h14, h15]
  clear hvalue hmask h8 h401 h43518 h2753 h24 h49320 h25353 h14 h15 ha hb hc hd
  -- the broadcast address is among the reserved ones, the unspecified one in this network
  constructor
  · intro h
    simp only [or_assoc] at h
    rcases h with h | h | h | h | h | h | h | h | h | h | h | h | h | h | h | h | h <;> simp [h]
  · intro h
    rcases h with h | h | h | h | h | h | h | h | h | h | h | h | h | h | h <;> simp [h]


/-! ## What carries an IPv4 address -/

namespace Ipv6Addr
variable (x : Ipv6Addr)

theorem holds_96 (p0 p1 p2 p3 p4 p5 : UInt16) :
    (⟨value ⟨p0, p1, p2, p3, p4, p5, 0, 0⟩, 96⟩ : Block 128).Holds x.value ↔
      x.s0 = p0 ∧ x.s1 = p1 ∧ x.s2 = p2 ∧ x.s3 = p3 ∧ x.s4 = p4 ∧ x.s5 = p5 := by
  have h0 := x.s0.toNat_lt
  have h1 := x.s1.toNat_lt
  have h2 := x.s2.toNat_lt
  have h3 := x.s3.toNat_lt
  have h4 := x.s4.toNat_lt
  have h5 := x.s5.toNat_lt
  have h6 := x.s6.toNat_lt
  have h7 := x.s7.toNat_lt
  have hp0 := p0.toNat_lt
  have hp1 := p1.toNat_lt
  have hp2 := p2.toNat_lt
  have hp3 := p3.toNat_lt
  have hp4 := p4.toNat_lt
  have hp5 := p5.toNat_lt
  simp only [Block.Holds, value, ← UInt16.toNat_inj, UInt16.reduceToNat]
  omega

theorem holds_16 (p0 : UInt16) :
    (⟨value ⟨p0, 0, 0, 0, 0, 0, 0, 0⟩, 16⟩ : Block 128).Holds x.value ↔ x.s0 = p0 := by
  have h1 := x.s1.toNat_lt
  have h2 := x.s2.toNat_lt
  have h3 := x.s3.toNat_lt
  have h4 := x.s4.toNat_lt
  have h5 := x.s5.toNat_lt
  have h6 := x.s6.toNat_lt
  have h7 := x.s7.toNat_lt
  simp only [Block.Holds, value, ← UInt16.toNat_inj, UInt16.reduceToNat]
  omega

theorem value_mod : x.value / 2 ^ 0 % 2 ^ 32 = (ofSegments x.s6 x.s7).value := by
  have h6 := x.s6.toNat_lt
  have h7 := x.s7.toNat_lt
  rw [ofSegments_value, value]
  omega

theorem value_div_mod : x.value / 2 ^ 80 % 2 ^ 32 = (ofSegments x.s1 x.s2).value := by
  have h1 := x.s1.toNat_lt
  have h2 := x.s2.toNat_lt
  have h3 := x.s3.toNat_lt
  have h4 := x.s4.toNat_lt
  have h5 := x.s5.toNat_lt
  have h6 := x.s6.toNat_lt
  have h7 := x.s7.toNat_lt
  rw [ofSegments_value, value]
  omega

theorem one_lt_value : 1 < x.value ↔ x.isUnspecified = false ∧ x.isLoopback = false := by
  obtain ⟨s0, s1, s2, s3, s4, s5, s6, s7⟩ := x
  simp only [isUnspecified, isLoopback, decide_eq_false_iff_not, mk.injEq, value, ← UInt16.toNat_inj,
    UInt16.reduceToNat]
  omega

end Ipv6Addr

theorem carries_iff {x : Ipv6Addr} {m : Nat} : Carries x.value m ↔ ∃ v, embeddedV4 x = some v ∧ v.value = m := by
  simp only [Carries, carriers, List.exists_mem_cons_iff, List.not_mem_nil, false_and, exists_false, or_false,
    x.holds_96, x.holds_16, x.value_mod, x.value_div_mod, x.one_lt_value]
  obtain ⟨s0, s1, s2, s3, s4, s5, s6, s7⟩ := x
  simp only [embeddedV4, Ipv6Addr.toIpv4Mapped, Ipv6Addr.isUnspecified, Ipv6Addr.isLoopback, Ipv6Addr.mk.injEq]
  by_cases hmapped : s0 = 0 ∧ s1 = 0 ∧ s2 = 0 ∧ s3 = 0 ∧ s4 = 0 ∧ s5 = 0xffff
  · obtain ⟨rfl, rfl, rfl, rfl, rfl, rfl⟩ := hmapped
    simp
  by_cases hcompatible : s0 = 0 ∧ s1 = 0 ∧ s2 = 0 ∧ s3 = 0 ∧ s4 = 0 ∧ s5 = 0
  · obtain ⟨rfl, rfl, rfl, rfl, rfl, rfl⟩ := hcompatible
    by_cases h0 : s6 = 0 ∧ s7 = 0
    · simp [h0]
    · by_cases h1 : s6 = 0 ∧ s7 = 1
      · simp [h1]
      · have hdigits : (s6 = 0 → ¬s7 = 0) ∧ (s6 = 0 → ¬s7 = 1) :=
          ⟨fun h h' => h0 ⟨h, h'⟩, fun h h' => h1 ⟨h, h'⟩⟩
        simp only [imp_iff_not_or] at hdigits
        simp [hdigits, imp_iff_not_or]
  by_cases hnat : s0 = 0x64 ∧ s1 = 0xff9b ∧ s2 = 0 ∧ s3 = 0 ∧ s4 = 0 ∧ s5 = 0
  · obtain ⟨rfl, rfl, rfl, rfl, rfl, rfl⟩ := hnat
    simp
  by_cases hsix : s0 = 0x2002
  · subst hsix
    simp
  simp only [Bool.and_eq_true, decide_eq_true_eq, and_assoc]
  rw [if_neg hmapped, if_neg hnat, if_neg hsix]
  simp only []
  rw [if_neg fun h => hcompatible ⟨h.1, h.2.1, h.2.2.1, h.2.2.2.1, h.2.2.2.2.1, h.2.2.2.2.2.1⟩]
  constructor
  · rintro ⟨-, -, ⟨h0, h1, h2, h3, h4, h5, -⟩ | ⟨h0, h1, h2, h3, h4, h5, -⟩ | ⟨h0, h1, h2, h3, h4, h5, -⟩ | ⟨h, -⟩⟩
    · exact absurd ⟨h0, h1, h2, h3, h4, h5⟩ hmapped
    · exact absurd ⟨h0, h1, h2, h3, h4, h5⟩ hcompatible
    · exact absurd ⟨h0, h1, h2, h3, h4, h5⟩ hnat
    · exact absurd h hsix
  · rintro ⟨v, h, -⟩
    cases h

/-! ## What the test refuses -/

theorem segment_and {s m c : UInt16} {k p : Nat} (hk : k ≤ 16) (hm : m.toNat = 2 ^ 16 - 2 ^ k)
    (hc : c.toNat = p * 2 ^ k) : s &&& m = c ↔ s.toNat / 2 ^ k = p := by
  rw [← UInt16.toNat_inj, UInt16.toNat_and, hm, hc]
  exact and_eq_iff hk s.toNat_lt

theorem isSpecial_iff (x : Ipv6Addr) : x.isSpecial = true ↔ ∃ b ∈ blocks6, b.Holds x.value := by
  have h0 := x.s0.toNat_lt
  have h1 := x.s1.toNat_lt
  have h2 := x.s2.toNat_lt
  have h3 := x.s3.toNat_lt
  have h4 := x.s4.toNat_lt
  have h5 := x.s5.toNat_lt
  have h6 := x.s6.toNat_lt
  have h7 := x.s7.toNat_lt
  have hff : x.s0 &&& 0xff00 = 0xff00 ↔ x.s0.toNat / 2 ^ 8 = 0xff := segment_and (by decide) (by decide) (by decide)
  have hfc : x.s0 &&& 0xfe00 = 0xfc00 ↔ x.s0.toNat / 2 ^ 9 = 0x7e := segment_and (by decide) (by decide) (by decide)
  have hfe : x.s0 &&& 0xffc0 = 0xfe80 ↔ x.s0.toNat / 2 ^ 6 = 0x3fa :=
    segment_and (by decide) (by decide) (by decide)
  have hfec : x.s0 &&& 0xffc0 = 0xfec0 ↔ x.s0.toNat / 2 ^ 6 = 0x3fb :=
    segment_and (by decide) (by decide) (by decide)
  have hdoc : x.s0 &&& 0xfff0 = 0x3ff0 ↔ x.s0.toNat / 2 ^ 4 = 0x3ff :=
    segment_and (by decide) (by decide) (by decide)
  have hvalue : x.value = x.s0.toNat * 2 ^ 112 + x.s1.toNat * 2 ^ 96 + x.s2.toNat * 2 ^ 80 + x.s3.toNat * 2 ^ 64 +
    x.s4.toNat * 2 ^ 48 + x.s5.toNat * 2 ^ 32 + x.s6.toNat * 2 ^ 16 + x.s7.toNat := rfl
  simp only [Ipv6Addr.isSpecial, Ipv6Addr.isLoopback, Ipv6Addr.isUnspecified, Bool.or_eq_true, Bool.and_eq_true,
    decide_eq_true_eq, hff, hfc, hfe, hfec, hdoc, UInt16.lt_iff_toNat_lt]
  obtain ⟨s0, s1, s2, s3, s4, s5, s6, s7⟩ := x
  simp only [Ipv6Addr.mk.injEq, ← UInt16.toNat_inj, UInt16.reduceToNat]
  clear hff hfc hfe hfec hdoc
  simp only at h0 h1 h2 h3 h4 h5 h6 h7 hvalue
  simp only [blocks6, List.exists_mem_cons_iff, List.not_mem_nil, false_and, exists_false, or_false, Block.Holds]
  generalize Ipv6Addr.value ⟨s0, s1, s2, s3, s4, s5, s6, s7⟩ = n at *
  generalize s0.toNat = s0 at *
  generalize s1.toNat = s1 at *
  generalize s2.toNat = s2 at *
  generalize s3.toNat = s3 at *
  generalize s4.toNat = s4 at *
  generalize s5.toNat = s5 at *
  generalize s6.toNat = s6 at *
  generalize s7.toNat = s7 at *
  simp only [Ipv6Addr.value, UInt16.reduceToNat, Nat.reduceSub, Nat.reducePow, Nat.reduceMul, Nat.reduceAdd,
    Nat.reduceDiv] at *
  have h16 : n / 5192296858534827628530496329220096 = 0 ↔ s0 = 0 := by omega
  have h48 : n / 1208925819614629174706176 = 433785077761 ↔ s0 = 100 ∧ s1 = 65435 ∧ s2 = 1 := by omega
  have h64 : n / 18446744073709551616 = 72057594037927936 ↔ s0 = 256 ∧ s1 = 0 ∧ s2 = 0 ∧ s3 = 0 := by omega
  have h23 : n / 40564819207303340847894502572032 = 1048704 ↔ s0 = 8193 ∧ s1 < 512 := by omega
  have h32 : n / 79228162514264337593543950336 = 536939960 ↔ s0 = 8193 ∧ s1 = 3512 := by omega
  have h12 : n / 83076749736557242056487941267521536 = 1023 ↔ s0 / 16 = 1023 := by omega
  have h7 : n / 2658455991569831745807614120560689152 = 126 ↔ s0 / 512 = 126 := by omega
  have h10 : ∀ p, n / 332306998946228968225951765070086144 = p ↔ s0 / 64 = p := fun p => by omega
  have h8 : n / 1329227995784915872903807060280344576 = 255 ↔ s0 / 256 = 255 := by omega
  rw [h16, h48, h64, h23, h32, h12, h7, h10, h10, h8]
  clear hvalue h0 h1 h2 h3 h4 h5 h6 h7 h16 h48 h64 h23 h32 h12 h10 h8
  -- the loopback address and the unspecified one are at the bottom
  constructor
  · intro h
    simp only [or_assoc] at h
    rcases h with h | h | h | h | h | h | h | h | h | h | h | h <;> simp [h]
  · intro h
    rcases h with h | h | h | h | h | h | h | h | h | h <;> simp [h]

theorem isPublic_eq_false (x : IpAddr) : isPublic x = false ↔ Special x := by
  cases x with
  | v4 x => exact isPublic4_eq_false x
  | v6 x =>
    simp only [isPublic, Special, Special6, carries_iff]
    cases hx : embeddedV4 x with
    | some v => simp [isPublic4_eq_false v]
    | none => simp [isSpecial_iff]

end HxdNg.Fetch
