import Mathlib

/-!
# Lists numbered without gaps

`Numbered num first xs` says that the numbers of `xs` are `first`, `first + 1`, and so on: nothing is
missing, repeated or out of order.

* `Numbered.append` : how numbered lists join;
* `Numbered.filter_lt` : what lies past a number is numbered from the next one.
-/

namespace HxdNg

variable {α : Type*} {num : α → Nat} {first : Nat} {xs ys : List α}

def Numbered (num : α → Nat) (first : Nat) (xs : List α) : Prop :=
  xs.map num = List.range' first xs.length

namespace Numbered

@[simp] theorem nil : Numbered num first [] := rfl

theorem cons_iff {x : α} : Numbered num first (x :: xs) ↔
    num x = first ∧ Numbered num (first + 1) xs := by
  simp only [Numbered, List.map_cons, List.length_cons, List.range'_succ, List.cons.injEq]

theorem append_iff :
    Numbered num first (xs ++ ys) ↔
      Numbered num first xs ∧ Numbered num (first + xs.length) ys := by
  induction xs generalizing first with
  | nil => simp
  | cons x xs ih =>
    rw [List.cons_append, cons_iff, cons_iff, ih, List.length_cons, and_assoc,
      show first + 1 + xs.length = first + (xs.length + 1) by omega]

theorem append (hx : Numbered num first xs) (hy : Numbered num (first + xs.length) ys) :
    Numbered num first (xs ++ ys) := append_iff.mpr ⟨hx, hy⟩

theorem mem_bounds (hx : Numbered num first xs) {x : α} (h : x ∈ xs) :
    first ≤ num x ∧ num x < first + xs.length := by
  have hmem : num x ∈ List.range' first xs.length := hx ▸ List.mem_map_of_mem h
  rw [List.mem_range'_1] at hmem
  exact hmem

/-- Past any number of the list, or just before it, lie the next ones. -/
theorem filter_lt (hx : Numbered num first xs) {n : Nat} (hlo : first ≤ n + 1)
    (hhi : n + 1 ≤ first + xs.length) :
    Numbered num (n + 1) (xs.filter fun x => n < num x) ∧
      n + 1 + (xs.filter fun x => n < num x).length = first + xs.length := by
  induction xs generalizing first with
  | nil =>
    simp only [List.length_nil, Nat.add_zero] at hhi
    exact ⟨nil, by simp; omega⟩
  | cons x xs ih =>
    obtain ⟨hnum, hrest⟩ := cons_iff.mp hx
    rw [List.length_cons] at hhi
    by_cases hn : n < first
    · -- The whole list lies past `n`.
      have hall : (x :: xs).filter (fun x => n < num x) = x :: xs := by
        rw [List.filter_eq_self]
        intro y hy
        have := (hx.mem_bounds hy).1
        exact decide_eq_true (by omega)
      rw [hall, show n + 1 = first by omega]
      exact ⟨hx, rfl⟩
    · have hskip : (x :: xs).filter (fun x => n < num x) = xs.filter fun x => n < num x := by
        rw [List.filter_cons_of_neg]
        simpa [hnum] using hn
      obtain ⟨hf, hlen⟩ := ih hrest (by omega) (by omega)
      rw [hskip]
      exact ⟨hf, by rw [hlen, List.length_cons]; omega⟩

end Numbered

end HxdNg
