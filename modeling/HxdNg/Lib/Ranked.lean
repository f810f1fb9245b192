import Mathlib
import HxdNg.Lib.Sorting

/-!
# The first of a sorted list

`mem_take_sortBy` : among the first `k` by their keys is what has fewer than `k` before it; so adding to
a list puts nothing among them that was not (`mem_take_sortBy_append`).
-/

namespace HxdNg

variable {α κ : Type*} [LinearOrder κ] {key : α → κ} {l l' : List α} {a : α} {k : Nat}

theorem mem_take_of_strict (h : l.Pairwise fun a b => key a < key b) :
    a ∈ l.take k ↔ a ∈ l ∧ l.countP (fun b => key b < key a) < k := by
  induction l generalizing k with
  | nil => simp
  | cons x t ih =>
    obtain ⟨hfirst, ht⟩ := List.pairwise_cons.mp h
    cases k with
    | zero => simp
    | succ k =>
      rw [List.take_succ_cons, List.mem_cons, List.mem_cons, ih ht, List.countP_cons]
      constructor
      · rintro (rfl | ⟨ha, hcount⟩)
        · refine ⟨.inl rfl, ?_⟩
          have hnone : t.countP (fun b => key b < key a) = 0 := by
            rw [List.countP_eq_zero]
            intro b hb
            simpa using (hfirst b hb).le
          rw [hnone, if_neg (by simp)]
          exact Nat.succ_pos k
        · refine ⟨.inr ha, ?_⟩
          split <;> omega
      · rintro ⟨rfl | ha, hcount⟩
        · exact .inl rfl
        · refine .inr ⟨ha, ?_⟩
          rw [if_pos (by simpa using hfirst a ha)] at hcount
          omega

theorem mem_take_sortBy (h : (l.map key).Nodup) :
    a ∈ (sortBy key l).take k ↔ a ∈ l ∧ l.countP (fun b => key b < key a) < k := by
  rw [mem_take_of_strict (pairwise_lt_sortBy h), mem_sortBy, (perm_sortBy key l).countP_eq]

/-- What is among the first of more was among the first. -/
theorem mem_take_sortBy_append (h : ((l ++ l').map key).Nodup) (ha : a ∈ l)
    (hfirst : a ∈ (sortBy key (l ++ l')).take k) : a ∈ (sortBy key l).take k := by
  obtain ⟨-, hcount⟩ := (mem_take_sortBy h).mp hfirst
  rw [List.countP_append] at hcount
  rw [List.map_append] at h
  exact (mem_take_sortBy (List.nodup_append.mp h).1).mpr ⟨ha, by omega⟩

end HxdNg
