import Mathlib
import HxdNg.Lib.Results

/-!
# Groups in a flat list, each opened by an element of one kind

* `openings p xs` : the suffixes of `xs` that begin with an opener;
* `GroupOf p g` : an opener and elements that are none; `openings_group` : a group opens one suffix;
* `map_openings` : reading every suffix of a list of groups side by side reads each group, if what
  reads one stops where the next opens.
-/

namespace HxdNg

variable {α β : Type*} {p : α → Bool}

/-- The suffixes of a list that begin with an element with `p`. -/
def openings (p : α → Bool) (xs : List α) : List (List α) := xs.tails.filter fun t => t.head?.any p

/-- An element with `p`, and elements without. -/
structure GroupOf (p : α → Bool) (g : List α) : Prop where
  opens : g.head?.any p = true
  rest : ∀ x ∈ g.tail, p x = false

theorem group_cons {x : α} {xs : List α} : GroupOf p (x :: xs) ↔ p x = true ∧ ∀ y ∈ xs, p y = false :=
  ⟨fun h => ⟨h.opens, h.rest⟩, fun h => ⟨h.1, h.2⟩⟩

theorem openings_cons (x : α) (xs : List α) :
    openings p (x :: xs) = if p x then (x :: xs) :: openings p xs else openings p xs := by
  show List.filter _ ((x :: xs) :: xs.tails) = _
  rw [List.filter_cons]
  rfl

/-- Elements that open nothing leave what is after them. -/
theorem openings_append {xs : List α} (h : ∀ x ∈ xs, p x = false) (ys : List α) :
    openings p (xs ++ ys) = openings p ys := by
  induction xs with
  | nil => rfl
  | cons x xs ih =>
    rw [List.cons_append, openings_cons, if_neg (by simp [h x List.mem_cons_self])]
    exact ih fun y hy => h y (List.mem_cons_of_mem _ hy)

theorem openings_eq_nil {xs : List α} (h : ∀ x ∈ xs, p x = false) : openings p xs = [] := by
  have happend := openings_append h []
  rw [List.append_nil] at happend
  exact happend

theorem openings_group {g : List α} (hg : GroupOf p g) (xs : List α) :
    openings p (g ++ xs) = (g ++ xs) :: openings p xs := by
  cases g with
  | nil => exact absurd hg.opens (by simp)
  | cons x g =>
    obtain ⟨hx, hrest⟩ := group_cons.1 hg
    rw [List.cons_append, openings_cons, if_pos hx, openings_append hrest]

/-- What is read of each group, of groups side by side with `tail` behind them. -/
theorem map_openings {f : List α → β} {gs : List (List α)} {tail : List α}
    (hgs : ∀ g ∈ gs, GroupOf p g) (htail : ∀ x ∈ tail, p x = false)
    (hnext : ∀ g ∈ gs, ∀ xs, xs.head?.any p = true → f (g ++ xs) = f g)
    (hlast : ∀ g ∈ gs, f (g ++ tail) = f g) :
    (openings p (gs.flatten ++ tail)).map f = gs.map f := by
  induction gs with
  | nil => rw [List.flatten_nil, List.nil_append, openings_eq_nil htail, List.map_nil]
  | cons g gs ih =>
    have hread : f (g ++ (gs.flatten ++ tail)) = f g := by
      cases gs with
      | nil => exact hlast g List.mem_cons_self
      | cons g' gs =>
        refine hnext g List.mem_cons_self _ ?_
        have hopens := (hgs g' (List.mem_cons_of_mem _ List.mem_cons_self)).opens
        cases g' with
        | nil => exact absurd hopens (by simp)
        | cons x g' => exact hopens
    rw [List.flatten_cons, List.append_assoc, openings_group (hgs g List.mem_cons_self),
      List.map_cons, List.map_cons, hread]
    rw [ih (fun g' hg' => hgs g' (List.mem_cons_of_mem _ hg'))
      (fun g' hg' => hnext g' (List.mem_cons_of_mem _ hg'))
      fun g' hg' => hlast g' (List.mem_cons_of_mem _ hg')]

/-- Readings that all succeed, read in turn. -/
theorem mapM_eq_ok {ε α β : Type} {f : α → Except ε β} {xs : List α} {ys : List β}
    (h : xs.map f = ys.map Except.ok) : xs.mapM f = .ok ys := by
  induction xs generalizing ys with
  | nil =>
    rw [List.map_nil, eq_comm, List.map_eq_nil_iff] at h
    subst h
    rfl
  | cons x xs ih =>
    cases ys with
    | nil => cases h
    | cons y ys =>
      rw [List.map_cons, List.map_cons, List.cons.injEq] at h
      rw [List.mapM_cons, h.1, ok_bind, ih h.2]
      rfl

end HxdNg
