import Mathlib

/-!
# Sorting a list by a key

`sortBy key l` is the stable sort of `l` by `key`. On a list with distinct keys the result depends
on the entries alone and not on their order (`sortBy_eq_of_perm`), and a list already in strict key
order is left as it is (`sortBy_of_strict`).
-/

namespace HxdNg

variable {α β κ : Type*} [LinearOrder κ]

/-- `l` sorted by `key`, entries of equal key in the order they stood. -/
def sortBy (key : α → κ) (l : List α) : List α :=
  l.insertionSort fun a b => key a ≤ key b

theorem perm_sortBy (key : α → κ) (l : List α) : (sortBy key l).Perm l :=
  List.perm_insertionSort _ l

@[simp] theorem mem_sortBy {key : α → κ} {l : List α} {a : α} : a ∈ sortBy key l ↔ a ∈ l :=
  (perm_sortBy key l).mem_iff

@[simp] theorem length_sortBy (key : α → κ) (l : List α) : (sortBy key l).length = l.length :=
  (perm_sortBy key l).length_eq

theorem pairwise_sortBy (key : α → κ) (l : List α) :
    (sortBy key l).Pairwise fun a b => key a ≤ key b := by
  have : Std.Total fun a b : α => key a ≤ key b := ⟨fun a b => le_total _ _⟩
  have : IsTrans α fun a b : α => key a ≤ key b := ⟨fun _ _ _ => le_trans⟩
  exact List.pairwise_insertionSort _ l

/-- Sorted with distinct keys is strictly sorted. -/
theorem pairwise_lt_sortBy {key : α → κ} {l : List α} (h : (l.map key).Nodup) :
    (sortBy key l).Pairwise fun a b => key a < key b := by
  have hnd : ((sortBy key l).map key).Nodup := ((perm_sortBy key l).map key).nodup_iff.mpr h
  rw [List.Nodup, List.pairwise_map] at hnd
  exact (pairwise_sortBy key l).imp₂ (fun _ _ => lt_of_le_of_ne) hnd

theorem sortBy_of_le {key : α → κ} {l : List α} (h : l.Pairwise fun a b => key a ≤ key b) :
    sortBy key l = l :=
  h.insertionSort_eq

theorem sortBy_of_strict {key : α → κ} {l : List α} (h : l.Pairwise fun a b => key a < key b) :
    sortBy key l = l :=
  sortBy_of_le (h.imp le_of_lt)

theorem nodup_map_of_strict {key : α → κ} {l : List α} (h : l.Pairwise fun a b => key a < key b) :
    (l.map key).Nodup := by
  rw [List.Nodup, List.pairwise_map]
  exact h.imp ne_of_lt

/-- Two strictly sorted lists of the same entries are the same list. -/
theorem eq_of_perm_of_strict (key : α → κ) {l₁ l₂ : List α} (hp : l₁.Perm l₂)
    (h₁ : l₁.Pairwise fun a b => key a < key b) (h₂ : l₂.Pairwise fun a b => key a < key b) :
    l₁ = l₂ :=
  hp.eq_of_pairwise (fun _ _ _ _ hab hba => absurd (lt_trans hab hba) (lt_irrefl _)) h₁ h₂

theorem sortBy_eq_of_perm {key : α → κ} {l₁ l₂ : List α} (hp : l₁.Perm l₂)
    (hnd : (l₁.map key).Nodup) : sortBy key l₁ = sortBy key l₂ := by
  refine eq_of_perm_of_strict key ?_ (pairwise_lt_sortBy hnd)
    (pairwise_lt_sortBy ((hp.map key).nodup_iff.mp hnd))
  exact ((perm_sortBy key l₁).trans hp).trans (perm_sortBy key l₂).symm

/-- Sorting commutes with a map that keeps the key. -/
theorem map_sortBy {key : α → κ} {key' : β → κ} (f : α → β) (l : List α)
    (h : ∀ a ∈ l, key' (f a) = key a) : (sortBy key l).map f = sortBy key' (l.map f) := by
  apply List.map_insertionSort
  intro a ha b hb
  rw [h a ha, h b hb]

end HxdNg
