import HxdNg.Lib.Bytes

/-!
# Machine words and fixed-width byte arrays

* `satAdd`, `satSub`, `absDiff` : the saturating operations of `UInt64`, with their values;
* `Bytes n` : byte arrays of a fixed width, and the checked conversion `Bytes.ofList`.
-/

namespace HxdNg

/-- The largest 64-bit word. -/
def maxWord : Nat := 2 ^ 64 - 1

def satAdd (a b : UInt64) : UInt64 := UInt64.ofNat (min (a.toNat + b.toNat) maxWord)

def satSub (a b : UInt64) : UInt64 := UInt64.ofNat (a.toNat - b.toNat)

def absDiff (a b : UInt64) : UInt64 := UInt64.ofNat (max a.toNat b.toNat - min a.toNat b.toNat)

theorem toNat_ofNat_of_lt_size {n : Nat} (h : n < 2 ^ 64) : (UInt64.ofNat n).toNat = n := by
  rw [UInt64.toNat_ofNat', Nat.mod_eq_of_lt h]

theorem toNat_satAdd (a b : UInt64) : (satAdd a b).toNat = min (a.toNat + b.toNat) maxWord := by
  refine toNat_ofNat_of_lt_size ?_
  unfold maxWord
  omega

theorem toNat_satSub (a b : UInt64) : (satSub a b).toNat = a.toNat - b.toNat := by
  have := a.toNat_lt
  exact toNat_ofNat_of_lt_size (by omega)

theorem toNat_max (a b : UInt64) : (max a b).toNat = max a.toNat b.toNat := by
  show (if a ≤ b then b else a).toNat = max a.toNat b.toNat
  by_cases h : a ≤ b
  · rw [if_pos h, Nat.max_eq_right (UInt64.le_iff_toNat_le.mp h)]
  · rw [if_neg h, Nat.max_eq_left]
    rw [UInt64.le_iff_toNat_le] at h
    omega

instance instLawfulOrderMaxUInt64 : Std.LawfulOrderMax UInt64 where
  max_le_iff a b c := by
    rw [UInt64.le_iff_toNat_le, UInt64.le_iff_toNat_le, UInt64.le_iff_toNat_le, toNat_max]
    omega
  max_eq_or a b := by
    rcases Nat.le_total a.toNat b.toNat with h | h
    · exact Or.inr (UInt64.toNat_inj.mp (by rw [toNat_max, Nat.max_eq_right h]))
    · exact Or.inl (UInt64.toNat_inj.mp (by rw [toNat_max, Nat.max_eq_left h]))

theorem satAdd_le_satAdd {a a' b b' : UInt64} (ha : a ≤ a') (hb : b ≤ b') : satAdd a b ≤ satAdd a' b' := by
  rw [UInt64.le_iff_toNat_le] at *
  rw [toNat_satAdd, toNat_satAdd]
  omega

/-- A byte array of width `n`. -/
abbrev Bytes (n : Nat) := { b : List UInt8 // b.length = n }

instance instLawfulBEqBytes {n : Nat} : LawfulBEq (Bytes n) := inferInstance

instance instLawfulBEqBytes32 : LawfulBEq (Bytes 32) := instLawfulBEqBytes

/-- The conversion of a slice to an array, which only its length can fail. -/
def Bytes.ofList (n : Nat) (b : List UInt8) : Option (Bytes n) :=
  if h : b.length = n then some ⟨b, h⟩ else none

@[simp] theorem Bytes.ofList_val {n : Nat} (b : Bytes n) : Bytes.ofList n b.val = some b :=
  dif_pos b.property

theorem Bytes.ofList_eq_some {n : Nat} {b : List UInt8} {x : Bytes n} :
    Bytes.ofList n b = some x ↔ b = x.val := by
  constructor
  · intro h
    simp only [Bytes.ofList, Option.dite_none_right_eq_some, Option.some.injEq] at h
    obtain ⟨_, rfl⟩ := h
    rfl
  · rintro rfl
    exact Bytes.ofList_val x

/-- The array of `n` equal bytes. -/
def Bytes.replicate (n : Nat) (x : UInt8) : Bytes n := ⟨List.replicate n x, List.length_replicate⟩

end HxdNg
