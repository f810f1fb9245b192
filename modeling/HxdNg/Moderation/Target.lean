import Mathlib
import HxdNg.Identity.Keys
import HxdNg.Relationships.Rows

/-!
# What a ban refuses

* `IpAddr`, `octets` : an address in the one form both families share, IPv4 mapped;
* `mask` : an address cut to a prefix; `mask_eq_iff` : the mask of an address is a block exactly when
  their first bits agree;
* `BanTarget` : a block of addresses, a login, an identity or a registrar; `CoversAddress` and
  `CoversPerson` say whom each refuses.
-/

namespace HxdNg.Moderation

open Identity (Fingerprint)

/-! ## Addresses -/

inductive IpAddr where
  | v4 (octets : Bytes 4)
  | v6 (octets : Bytes 16)
  deriving DecidableEq

/-- `::ffff:a.b.c.d` -/
def mappedPrefix : List UInt8 := List.replicate 10 0 ++ [0xff, 0xff]

def toMapped (v4 : Bytes 4) : Bytes 16 :=
  ⟨mappedPrefix ++ v4.val, by rw [List.length_append, v4.property]; rfl⟩

theorem length_drop_mapped (o : Bytes 16) : (o.val.drop 12).length = 4 := by
  rw [List.length_drop, o.property]

/-- An IPv6 address that maps an IPv4 one is that one. -/
def IpAddr.toCanonical : IpAddr → IpAddr
  | .v4 o => .v4 o
  | .v6 o =>
    if o.val.take 12 = mappedPrefix then
      .v4 ⟨o.val.drop 12, length_drop_mapped o⟩
    else .v6 o

def IpAddr.isIpv4 (ip : IpAddr) : Bool :=
  match ip.toCanonical with
  | .v4 _ => true
  | .v6 _ => false

def v6Octets (ip : IpAddr) : Bytes 16 :=
  match ip.toCanonical with
  | .v4 o => toMapped o
  | .v6 o => o

/-- The byte at `i` of an address cut to `len` bits. -/
def maskByte (len i : Nat) (byte : UInt8) : UInt8 :=
  if len ≤ i * 8 then 0
  else if len - i * 8 < 8 then byte &&& (0xff <<< UInt8.ofNat (8 - (len - i * 8)))
  else byte

def mask (octets : Bytes 16) (len : Nat) : Bytes 16 :=
  ⟨octets.val.mapIdx fun i byte => maskByte (min len 128) i byte, by
    rw [List.length_mapIdx, octets.property]⟩

/-- Bit `i` of an address, the first the highest of the first byte. -/
def bit (octets : Bytes 16) (i : Nat) : Bool := (octets.val.getD (i / 8) 0).toNat.testBit (7 - i % 8)

theorem testBit_high : ∀ k < 8, 0 < k → ∀ j < 8,
    ((0xff : UInt8) <<< UInt8.ofNat (8 - k)).toNat.testBit (7 - j) = decide (j < k) := by
  decide

theorem testBit_maskByte (len i : Nat) (byte : UInt8) {j : Nat} (hj : j < 8) :
    (maskByte len i byte).toNat.testBit (7 - j) =
      (decide (i * 8 + j < len) && byte.toNat.testBit (7 - j)) := by
  unfold maskByte
  split
  case isTrue h =>
    rw [decide_eq_false (by omega), Bool.false_and]
    exact Nat.zero_testBit _
  case isFalse h =>
    split
    case isTrue hk =>
      rw [UInt8.toNat_and, Nat.testBit_and, testBit_high _ hk (by omega) j hj, Bool.and_comm]
      refine congrArg (· && _) (decide_eq_decide.2 ?_)
      omega
    case isFalse hk => rw [decide_eq_true (by omega), Bool.true_and]

theorem bit_mask (octets : Bytes 16) (len : Nat) {i : Nat} (hi : i < 128) :
    bit (mask octets len) i = (decide (i < len) && bit octets i) := by
  have hlt : i / 8 < octets.val.length := by rw [octets.property]; omega
  have hget : (mask octets len).val.getD (i / 8) 0 =
      maskByte (min len 128) (i / 8) (octets.val.getD (i / 8) 0) := by
    show (octets.val.mapIdx _).getD (i / 8) 0 = _
    rw [List.getD_eq_getElem?_getD, List.getD_eq_getElem?_getD, List.getElem?_mapIdx,
      List.getElem?_eq_getElem hlt]
    rfl
  rw [bit, hget, testBit_maskByte _ _ _ (Nat.mod_lt _ (by decide)), bit]
  refine congrArg (· && _) (decide_eq_decide.2 ?_)
  omega

theorem byte_ext {a b : UInt8} (h : ∀ j < 8, a.toNat.testBit (7 - j) = b.toNat.testBit (7 - j)) :
    a = b := by
  refine UInt8.toNat_inj.1 (Nat.eq_of_testBit_eq fun i => ?_)
  by_cases hi : i < 8
  · have := h (7 - i) (by omega)
    rwa [show 7 - (7 - i) = i by omega] at this
  · have hpow : 2 ^ 8 ≤ 2 ^ i := Nat.pow_le_pow_right (by decide) (by omega)
    rw [Nat.testBit_lt_two_pow (Nat.lt_of_lt_of_le a.toNat_lt hpow),
      Nat.testBit_lt_two_pow (Nat.lt_of_lt_of_le b.toNat_lt hpow)]

theorem octets_ext {a b : Bytes 16} (h : ∀ i < 128, bit a i = bit b i) : a = b := by
  refine Subtype.ext (List.ext_getElem (a.property.trans b.property.symm) fun n hn hn' => ?_)
  have hn₁₆ : n < 16 := a.property ▸ hn
  refine byte_ext fun j hj => ?_
  have := h (n * 8 + j) (by omega)
  rw [bit, bit, show (n * 8 + j) / 8 = n by omega, show (n * 8 + j) % 8 = j by omega,
    List.getD_eq_getElem _ _ hn, List.getD_eq_getElem _ _ hn'] at this
  exact this

/-- A block of addresses: the bits past the prefix are zero. -/
structure Block where
  net : Bytes 16
  len : Nat
  le : len ≤ 128
  masked : mask net len = net
  deriving DecidableEq

/-- An address masks to a block's network exactly when its first bits are the block's. -/
theorem mask_eq_iff (b : Block) (octets : Bytes 16) :
    mask octets b.len = b.net ↔ ∀ i < b.len, bit octets i = bit b.net i := by
  constructor
  · intro h i hi
    have hi₁₂₈ : i < 128 := Nat.lt_of_lt_of_le hi b.le
    rw [← h, bit_mask _ _ hi₁₂₈, decide_eq_true hi, Bool.true_and]
  · intro h
    refine octets_ext fun i hi => ?_
    rw [bit_mask _ _ hi, ← b.masked, bit_mask _ _ hi]
    by_cases hlt : i < b.len
    · rw [h i hlt]
    · rw [decide_eq_false hlt, Bool.false_and, Bool.false_and]

/-! ## Targets -/

inductive BanTarget where
  | address (block : Block)
  | login (login : String)
  | identity (fp : Fingerprint)
  | registrar (host : String)
  deriving DecidableEq

/-- What is after the last `@`. -/
def afterLast (c : Char) (s : String) : Option String :=
  if c ∈ s.toList then some (String.ofList (s.toList.reverse.takeWhile (· ≠ c)).reverse) else none

/-- A person as a login proves them. -/
structure Person where
  login : Option String
  identity : Option Fingerprint
  handle : Option String

/-- The registrar that issued a person's handle, as bans spell it. -/
def Person.registrar (p : Person) : Option String :=
  p.handle.bind fun h => (afterLast '@' h).map fun host => host.map Char.toLower

/-- Does a ban of a block refuse an address? Each family has its own blocks: those of IPv4 are 96 bits
or longer in the mapped form. -/
def BanTarget.CoversAddress (t : BanTarget) (ip : IpAddr) : Prop :=
  ∃ b, t = .address b ∧ (ip.isIpv4 = true → 96 ≤ b.len) ∧
    ∀ i < b.len, bit (v6Octets ip) i = bit b.net i

/-- Does a ban refuse a person? `lower` is the lowercase of a login. -/
def BanTarget.CoversPerson (lower : String → String) (t : BanTarget) (p : Person) : Prop :=
  match t with
  | .address _ => False
  | .login l => p.login.map lower = some l
  | .identity fp => p.identity = some fp
  | .registrar host => p.registrar = some host

end HxdNg.Moderation
