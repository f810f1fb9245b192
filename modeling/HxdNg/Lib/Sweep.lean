import Mathlib

/-!
# Sweeping a list

A sweep brings the elements of a list up to date, or takes them away, so many of them at most. What
is read through that same update is not changed by it.

* `sweep` : the first elements an update changes, changed;
* `filterMap_sweep`, `filter_sweep` : what is read alike before and after;
* `sweep_eq_filterMap`, `stale_again` : a sweep that reaches every element leaves nothing to sweep.
-/

namespace HxdNg

variable {α β : Type*} [DecidableEq α]

/-- The first `n` elements that `f` changes, changed, and dropped where it leaves nothing. -/
def sweep (f : α → Option α) : Nat → List α → List α
  | _, [] => []
  | 0, l => l
  | n + 1, a :: l => if f a = some a then a :: sweep f (n + 1) l else (f a).toList ++ sweep f n l

/-- Take away what a test names. -/
def dropping (gone : α → Bool) (a : α) : Option α := if gone a then none else some a

/-- How many elements there are to change. -/
def stale (f : α → Option α) (l : List α) : Nat := l.countP fun a => f a ≠ some a

section Sweep
variable {f : α → Option α} {n : Nat} {l : List α}

@[simp] theorem sweep_nil : sweep f n [] = [] := by
  cases n <;> rfl

@[simp] theorem sweep_zero : sweep f 0 l = l := by
  cases l <;> rfl

/-- What is read of an element as it is brought up to date is read the same after a sweep. -/
theorem filterMap_sweep {g : α → Option β} (hg : ∀ a, (f a).bind g = g a) :
    (sweep f n l).filterMap g = l.filterMap g := by
  induction l generalizing n with
  | nil => rw [sweep_nil]
  | cons a l ih =>
    cases n with
    | zero => rw [sweep_zero]
    | succ n =>
      rw [sweep]
      split
      · rw [List.filterMap_cons, List.filterMap_cons, ih]
      · rw [List.filterMap_append, ih]
        have ha := hg a
        cases hf : f a with
        | none =>
          rw [hf] at ha
          rw [List.filterMap_cons, ← ha]
          rfl
        | some b =>
          rw [hf] at ha
          rw [List.filterMap_cons, ← ha, Option.toList_some, Option.bind_some, List.filterMap_cons,
            List.filterMap_nil]
          cases g b <;> rfl

/-- Of a sweep that takes elements away: what is asked of those it does not take. -/
theorem filter_sweep {gone p : α → Bool} (hp : ∀ a, p a = true → gone a = false) :
    (sweep (dropping gone) n l).filter p = l.filter p := by
  have h := filterMap_sweep (f := dropping gone) (n := n) (l := l)
    (g := fun a => if p a then some a else none) fun a => by
    unfold dropping
    cases ha : gone a with
    | false => rfl
    | true =>
      have hpa : ¬p a = true := fun hpa => by
        rw [hp a hpa] at ha
        cases ha
      rw [if_pos rfl, if_neg hpa]
      rfl
  have heq : ∀ l : List α, l.filterMap (fun a => if p a then some a else none) = l.filter p :=
    fun l => by rw [← List.filterMap_eq_filter]; rfl
  rwa [heq, heq] at h

theorem any_sweep {gone p : α → Bool} (hp : ∀ a, p a = true → gone a = false) :
    (sweep (dropping gone) n l).any p = l.any p := by
  have hany : ∀ l : List α, l.any p = !(l.filter p).isEmpty := fun l => by
    induction l with
    | nil => rfl
    | cons a l ih =>
      rw [List.any_cons, List.filter_cons, ih]
      cases p a <;> rfl
  rw [hany, hany, filter_sweep hp]

/-- A sweep that may change as many as there are to change changes them all, -/
theorem sweep_eq_filterMap (h : stale f l ≤ n) : sweep f n l = l.filterMap f := by
  induction l generalizing n with
  | nil => rw [sweep_nil, List.filterMap_nil]
  | cons a l ih =>
    unfold stale at h
    rw [List.countP_cons] at h
    cases n with
    | zero =>
      have hfixed : f a = some a := by
        by_contra hne
        simp [hne] at h
      have hrest : stale f l ≤ 0 := Nat.le_trans (Nat.le_add_right _ _) h
      have htail := ih hrest
      rw [sweep_zero] at htail
      rw [sweep_zero, List.filterMap_cons, hfixed]
      exact congrArg (a :: ·) htail
    | succ n =>
      rw [sweep]
      split
      · rename_i hfixed
        rw [List.filterMap_cons, hfixed, ih (Nat.le_trans (Nat.le_add_right _ _) h)]
      · rename_i hne
        have hrest : stale f l ≤ n := by
          simp only [ne_eq, hne, not_false_eq_true, decide_true, if_true] at h
          exact Nat.le_of_succ_le_succ h
        rw [ih hrest, List.filterMap_cons]
        cases f a <;> rfl

theorem stale_eq_zero (h : ∀ a ∈ l, f a = some a) : stale f l = 0 := by
  refine List.countP_eq_zero.mpr fun a ha => ?_
  simp [h a ha]

/-- and a second finds nothing to change. -/
theorem stale_again (hf : ∀ a b, f a = some b → f b = some b) (h : stale f l ≤ n) :
    stale f (sweep f n l) = 0 := by
  rw [sweep_eq_filterMap h]
  refine stale_eq_zero fun b hb => ?_
  obtain ⟨a, -, hfa⟩ := List.mem_filterMap.mp hb
  exact hf a b hfa

theorem sweep_of_stale (h : stale f l = 0) : sweep f n l = l := by
  rw [sweep_eq_filterMap (h ▸ Nat.zero_le n)]
  have hall := List.countP_eq_zero.mp h
  induction l with
  | nil => rfl
  | cons a l ih =>
    have ha : f a = some a := by simpa using hall a List.mem_cons_self
    have hrest := List.countP_eq_zero.mpr fun b hb => hall b (List.mem_cons_of_mem _ hb)
    rw [List.filterMap_cons, ha, ih hrest fun b hb => hall b (List.mem_cons_of_mem _ hb)]

theorem countP_eq_stale (gone : α → Bool) (l : List α) :
    l.countP gone = stale (dropping gone) l := by
  refine List.countP_congr fun a _ => ?_
  unfold dropping
  cases gone a <;> simp

omit [DecidableEq α] in
theorem dropping_again {gone : α → Bool} (a b : α) (h : dropping gone a = some b) :
    dropping gone b = some b := by
  unfold dropping at h ⊢
  split at h
  · cases h
  · rename_i hgone
    obtain rfl := Option.some.inj h
    rw [if_neg hgone]

theorem stale_dropping_again {gone : α → Bool} (h : l.countP gone ≤ n) :
    stale (dropping gone) (sweep (dropping gone) n l) = 0 := by
  rw [countP_eq_stale] at h
  exact stale_again dropping_again h

end Sweep

end HxdNg
