import Mathlib

/-!
# Following links

A partial map `next` links some elements to another. `follow next n a` is `n` links on from `a`,
`Reaches next a b` that `b` lies on the way, `Ends next a` that the way stops.

* `Reaches.mono` : more links reach what fewer did;
* `Ends.link` : a link from an element without one to another without one leaves every way ending.
-/

namespace HxdNg

variable {α : Type*} {next next' : α → Option α} {a b c : α}

/-- `n` links on. -/
def follow (next : α → Option α) : Nat → α → Option α
  | 0, a => some a
  | n + 1, a => (next a).bind (follow next n)

def Reaches (next : α → Option α) (a b : α) : Prop := ∃ n, follow next n a = some b

/-- The way on stops, so it is no cycle. -/
def Ends (next : α → Option α) (a : α) : Prop := ∃ n, follow next n a = none

theorem follow_succ (n : Nat) (a : α) : follow next (n + 1) a = (next a).bind (follow next n) := rfl

namespace Reaches

theorem refl (a : α) : Reaches next a a := ⟨0, rfl⟩

theorem head (h : next a = some b) (hb : Reaches next b c) : Reaches next a c := by
  obtain ⟨n, hn⟩ := hb
  exact ⟨n + 1, by rw [follow_succ, h, Option.bind_some, hn]⟩

theorem single (h : next a = some b) : Reaches next a b := head h (refl b)

theorem trans (hab : Reaches next a b) (hbc : Reaches next b c) : Reaches next a c := by
  obtain ⟨n, hn⟩ := hab
  induction n generalizing a with
  | zero =>
    obtain rfl : a = b := Option.some.inj hn
    exact hbc
  | succ n ih =>
    obtain ⟨x, hx, hrest⟩ := Option.bind_eq_some_iff.mp (follow_succ n a ▸ hn)
    exact head hx (ih hrest)

theorem mono (hsub : ∀ a b, next a = some b → next' a = some b) (h : Reaches next a b) :
    Reaches next' a b := by
  obtain ⟨n, hn⟩ := h
  induction n generalizing a with
  | zero => exact ⟨0, hn⟩
  | succ n ih =>
    obtain ⟨x, hx, hrest⟩ := Option.bind_eq_some_iff.mp (follow_succ n a ▸ hn)
    exact head (hsub a x hx) (ih hrest)

end Reaches

namespace Ends

theorem root (h : next a = none) : Ends next a := ⟨1, by rw [follow_succ, h, Option.bind_none]⟩

theorem head (h : next a = some b) (hb : Ends next b) : Ends next a := by
  obtain ⟨n, hn⟩ := hb
  exact ⟨n + 1, by rw [follow_succ, h, Option.bind_some, hn]⟩

/-- One link more, between two elements that had none. -/
theorem link [DecidableEq α] (hall : ∀ x, Ends next x) (ha : next a = none) (hb : next b = none)
    (hne : a ≠ b) (hnext : ∀ x, next' x = if x = a then some b else next x) (x : α) :
    Ends next' x := by
  have hroot : ∀ y, next y = none → Ends next' y := fun y hy => by
    by_cases hya : y = a
    · have hb' : next' b = none := by rw [hnext, if_neg hne.symm, hb]
      exact head (by rw [hnext, if_pos hya]) (root hb')
    · exact root (by rw [hnext, if_neg hya, hy])
  obtain ⟨n, hn⟩ := hall x
  induction n generalizing x with
  | zero => cases hn
  | succ n ih =>
    cases hx : next x with
    | none => exact hroot x hx
    | some y =>
      rw [follow_succ, hx, Option.bind_some] at hn
      have hxa : x ≠ a := fun h => by
        rw [h, ha] at hx
        cases hx
      exact head (by rw [hnext, if_neg hxa, hx]) (ih y hn)

end Ends

end HxdNg
