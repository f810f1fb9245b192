import Mathlib
import HxdNg.Lib.Bytes

/-!
# Elements of distinguished encoding

* `width`, `beBytes_ofBe` : a number in the fewest big-endian bytes;
* `derLength`, `element` : a length in its one encoding, and an element with its tag and content.
-/

namespace HxdNg

/-! ## Numbers in the fewest bytes -/

theorem foldl_ofBe (b : List UInt8) (acc : Nat) :
    b.foldl (fun acc x => acc * 256 + x.toNat) acc = acc * 256 ^ b.length + ofBe b := by
  unfold ofBe
  induction b generalizing acc with
  | nil => simp
  | cons x b ih =>
    rw [List.foldl_cons, List.foldl_cons, ih, ih (0 * 256 + x.toNat), List.length_cons, Nat.pow_succ]
    ring

theorem ofBe_cons (x : UInt8) (b : List UInt8) : ofBe (x :: b) = x.toNat * 256 ^ b.length + ofBe b := by
  have h := foldl_ofBe b x.toNat
  unfold ofBe at h ⊢
  rw [List.foldl_cons, Nat.zero_mul, Nat.zero_add]
  exact h

theorem ofBe_lt (b : List UInt8) : ofBe b < 256 ^ b.length := by
  induction b with
  | nil => decide
  | cons x b ih =>
    rw [ofBe_cons, List.length_cons, Nat.pow_succ]
    have hx : x.toNat + 1 ≤ 256 := x.toNat_lt
    calc x.toNat * 256 ^ b.length + ofBe b < x.toNat * 256 ^ b.length + 256 ^ b.length := by omega
      _ = (x.toNat + 1) * 256 ^ b.length := by ring
      _ ≤ 256 * 256 ^ b.length := Nat.mul_le_mul_right _ hx
      _ = 256 ^ b.length * 256 := Nat.mul_comm _ _

theorem beBytes_add (k a n : Nat) : beBytes k (a * 256 ^ k + n) = beBytes k n := by
  induction k generalizing a with
  | zero => rfl
  | succ k ih =>
    have hshift : a * 256 ^ (k + 1) + n = a * 256 * 256 ^ k + n := by
      rw [Nat.pow_succ]
      ring
    have hdiv : (a * 256 * 256 ^ k + n) / 256 ^ k = a * 256 + n / 256 ^ k := by
      rw [Nat.add_comm, Nat.add_mul_div_right _ _ (by positivity), Nat.add_comm]
    unfold beBytes
    rw [hshift, ih, hdiv]
    congr 1
    apply UInt8.toNat_inj.mp
    rw [UInt8.toNat_ofNat', UInt8.toNat_ofNat']
    omega

theorem beBytes_ofBe (b : List UInt8) : beBytes b.length (ofBe b) = b := by
  induction b with
  | nil => rfl
  | cons x b ih =>
    rw [List.length_cons, beBytes, ofBe_cons, beBytes_add, ih]
    congr 1
    rw [Nat.add_comm, Nat.add_mul_div_right _ _ (by positivity), Nat.div_eq_of_lt (ofBe_lt b),
      Nat.zero_add]
    exact UInt8.ofNat_toNat

/-- How many bytes a number takes. -/
def width (n : Nat) : Nat := Nat.log 256 n + 1

/-- Bytes that do not start with a zero are as many as their number takes. -/
theorem width_ofBe {x : UInt8} {b : List UInt8} (hx : x ≠ 0) : width (ofBe (x :: b)) = b.length + 1 := by
  have hpos : 1 ≤ x.toNat := by
    refine Nat.one_le_iff_ne_zero.mpr fun h => hx ?_
    exact UInt8.toNat_inj.mp h
  refine congrArg (· + 1) (Nat.log_eq_of_pow_le_of_lt_pow ?_ (ofBe_lt (x :: b)))
  rw [ofBe_cons]
  calc 256 ^ b.length = 1 * 256 ^ b.length := (Nat.one_mul _).symm
    _ ≤ x.toNat * 256 ^ b.length := Nat.mul_le_mul_right _ hpos
    _ ≤ x.toNat * 256 ^ b.length + ofBe b := Nat.le_add_right _ _

theorem lt_pow_width (n : Nat) : n < 256 ^ width n := Nat.lt_pow_succ_log_self (by decide) n

/-- The fewest bytes do not start with a zero. -/
theorem head_beBytes_width {n : Nat} (hn : n ≠ 0) :
    ∃ x b, beBytes (width n) n = x :: b ∧ x ≠ 0 := by
  refine ⟨_, _, rfl, fun hzero => ?_⟩
  have hle : 256 ^ Nat.log 256 n ≤ n := Nat.pow_log_le_self 256 hn
  have hdiv : n / 256 ^ Nat.log 256 n < 256 := by
    rw [Nat.div_lt_iff_lt_mul (by positivity), Nat.mul_comm, ← Nat.pow_succ]
    exact lt_pow_width n
  have hpos : 1 ≤ n / 256 ^ Nat.log 256 n := (Nat.one_le_div_iff (by positivity)).mpr hle
  have hnat := congrArg UInt8.toNat hzero
  rw [UInt8.toNat_ofNat', Nat.mod_eq_of_lt hdiv] at hnat
  exact absurd hnat (by
    show ¬ _ = 0
    omega)

/-! ## Elements -/

/-- A length: in one byte where it fits seven bits, else behind how many bytes it takes. -/
def derLength (n : Nat) : List UInt8 :=
  if n < 0x80 then [UInt8.ofNat n] else UInt8.ofNat (0x80 + width n) :: beBytes (width n) n

def element (tag : UInt8) (content : List UInt8) : List UInt8 :=
  tag :: derLength content.length ++ content

end HxdNg
