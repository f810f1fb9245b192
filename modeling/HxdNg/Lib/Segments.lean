import Mathlib

/-!
# The maximal runs of a list

* `segments p s` : the runs of elements with `p`, as splitting at the others and dropping what is empty
  leaves them;
* `mem_segments` : each is maximal; `segments_append` : those of two lists side by side are theirs, unless a
  run goes across; `segments_across` : what is cut where one does.
-/

namespace HxdNg

variable {α : Type*} (p : α → Bool)

/-- The runs of elements with `p`, in order. -/
def segments (s : List α) : List (List α) := (s.splitOnP (! p ·)).filter (! ·.isEmpty)

@[simp] theorem segments_nil : segments p [] = [] := by
  simp [segments]

variable {p}

theorem segments_cons_of_not {x : α} (h : p x = false) (s : List α) : segments p (x :: s) = segments p s := by
  rw [segments, List.splitOnP_cons_eq_if_modifyHead, if_pos (by rw [h]; rfl), List.filter_cons,
    if_neg (by simp), segments]

/-- Splitting leaves first what is before the first of the others. -/
theorem splitOnP_eq (s : List α) :
    s.splitOnP (! p ·) = s.takeWhile p :: match s.dropWhile p with
      | [] => []
      | _ :: t => t.splitOnP (! p ·) := by
  induction s with
  | nil => simp
  | cons x s ih =>
    rw [List.splitOnP_cons_eq_if_modifyHead]
    cases hx : p x with
    | false => simp [hx]
    | true =>
      rw [if_neg (by simp), ih, List.modifyHead_cons, List.takeWhile_cons, if_pos hx, List.dropWhile_cons, if_pos hx]

theorem segments_eq (s : List α) :
    segments p s = (if s.takeWhile p = [] then [] else [s.takeWhile p]) ++ segments p (s.dropWhile p) := by
  have hrest : segments p (s.dropWhile p) =
      (match s.dropWhile p with
        | [] => []
        | _ :: t => t.splitOnP (! p ·)).filter (! ·.isEmpty) := by
    cases hd : s.dropWhile p with
    | nil => exact segments_nil p
    | cons x t =>
      have hx : p x = false := by
        have hhead := List.head?_dropWhile_not p s
        rw [hd] at hhead
        simpa using hhead
      exact segments_cons_of_not hx t
  rw [hrest, segments, splitOnP_eq, List.filter_cons]
  cases s.takeWhile p with
  | nil => simp
  | cons x t => simp

/-- A run alone. -/
theorem segments_of_all {s : List α} (h : ∀ x ∈ s, p x = true) (hne : s ≠ []) : segments p s = [s] := by
  have htake : s.takeWhile p = s := List.takeWhile_eq_self_iff.mpr h
  have hdrop : s.dropWhile p = [] := List.dropWhile_eq_nil_iff.mpr h
  rw [segments_eq, htake, hdrop, if_neg hne, segments_nil, List.append_nil]

/-- Where a run does not go across, the runs of two lists side by side are those of each. -/
theorem segments_append {a b : List α}
    (h : a.getLast?.all (! p ·) = true ∨ b.head?.all (! p ·) = true) :
    segments p (a ++ b) = segments p a ++ segments p b := by
  induction hn : a.length using Nat.strong_induction_on generalizing a with
  | _ n ih =>
    cases a with
    | nil => simp
    | cons x a =>
      have hlast : a ≠ [] → (x :: a).getLast? = a.getLast? := fun hne => by
        rw [List.getLast?_cons, List.getLast?_eq_some_getLast hne, Option.getD_some]
      cases hx : p x with
      | false =>
        rw [List.cons_append, segments_cons_of_not hx, segments_cons_of_not hx]
        by_cases hne : a = []
        · rw [hne]
          simp
        · refine ih a.length (by rw [← hn]; exact Nat.lt_succ_self _) ?_ rfl
          rwa [hlast hne] at h
      | true =>
        have hpos : (x :: a).takeWhile p ≠ [] := by
          rw [List.takeWhile_cons, if_pos hx]
          simp
        by_cases hd : (x :: a).dropWhile p = []
        · -- All of it is a run, so the next list begins with something else.
          have hall : ∀ y ∈ x :: a, p y = true := List.dropWhile_eq_nil_iff.mp hd
          have hb : b.head?.all (! p ·) = true := by
            refine h.resolve_left fun hl => ?_
            rw [List.getLast?_eq_some_getLast (List.cons_ne_nil x a), Option.all_some,
              hall _ (List.getLast_mem _)] at hl
            cases hl
          have htake : b.takeWhile p = [] := by
            cases b with
            | nil => rfl
            | cons y b =>
              rw [List.takeWhile_cons, if_neg]
              simpa using hb
          have hdrop : b.dropWhile p = b := by
            cases b with
            | nil => rfl
            | cons y b =>
              rw [List.dropWhile_cons, if_neg]
              simpa using hb
          rw [segments_of_all hall (List.cons_ne_nil x a), segments_eq (x :: a ++ b),
            List.takeWhile_append_of_pos hall, List.dropWhile_append_of_pos hall, htake, hdrop, List.append_nil,
            if_neg (List.cons_ne_nil x a)]
        · have hsplit := List.takeWhile_append_dropWhile (p := p) (l := x :: a)
          have htake : (x :: a ++ b).takeWhile p = (x :: a).takeWhile p := by
            rw [List.takeWhile_append, if_neg]
            intro hlen
            apply hd
            have := congrArg List.length hsplit
            rw [List.length_append, hlen] at this
            exact List.length_eq_zero_iff.mp (by omega)
          have hdrop : (x :: a ++ b).dropWhile p = (x :: a).dropWhile p ++ b := by
            rw [List.dropWhile_append, if_neg]
            simpa using hd
          have hshorter : ((x :: a).dropWhile p).length < n := by
            rw [← hn]
            have := congrArg List.length hsplit
            rw [List.length_append] at this
            have := List.length_pos_iff.mpr hpos
            omega
          have hrest := ih _ hshorter (a := (x :: a).dropWhile p) (by
            rw [← hsplit, List.getLast?_append, List.getLast?_eq_some_getLast hd, Option.some_or] at h
            rwa [List.getLast?_eq_some_getLast hd]) rfl
          rw [segments_eq (x :: a ++ b), htake, hdrop, hrest, segments_eq (x :: a), List.append_assoc]

/-- A run is in the list, is not empty, and goes as far as it can. -/
theorem mem_segments {s r : List α} (h : r ∈ segments p s) :
    ∃ a b, s = a ++ r ++ b ∧ r ≠ [] ∧ (∀ x ∈ r, p x = true) ∧ a.getLast?.all (! p ·) = true ∧
      b.head?.all (! p ·) = true := by
  induction hn : s.length using Nat.strong_induction_on generalizing s with
  | _ n ih =>
    cases s with
    | nil => simp at h
    | cons x s =>
      cases hx : p x with
      | false =>
        rw [segments_cons_of_not hx] at h
        obtain ⟨a, b, rfl, hne, hall, hlast, hhead⟩ := ih s.length (by rw [← hn]; exact Nat.lt_succ_self _) h rfl
        refine ⟨x :: a, b, rfl, hne, hall, ?_, hhead⟩
        by_cases ha : a = []
        · rw [ha]
          simp [hx]
        · rwa [List.getLast?_cons, List.getLast?_eq_some_getLast ha, Option.getD_some,
            ← List.getLast?_eq_some_getLast ha]
      | true =>
        have hpos : (x :: s).takeWhile p ≠ [] := by
          rw [List.takeWhile_cons, if_pos hx]
          simp
        have hsplit := List.takeWhile_append_dropWhile (p := p) (l := x :: s)
        rw [segments_eq, if_neg hpos, List.singleton_append] at h
        rcases List.mem_cons.mp h with rfl | h
        · refine ⟨[], (x :: s).dropWhile p, hsplit.symm, hpos, fun y hy => List.mem_takeWhile_imp hy, rfl, ?_⟩
          have hhead := List.head?_dropWhile_not p (x :: s)
          cases hd : ((x :: s).dropWhile p).head? with
          | none => rfl
          | some y =>
            rw [hd] at hhead
            simpa using hhead
        · have hshorter : ((x :: s).dropWhile p).length < n := by
            rw [← hn]
            have := congrArg List.length hsplit
            rw [List.length_append] at this
            have := List.length_pos_iff.mpr hpos
            omega
          obtain ⟨a, b, heq, hne, hall, hlast, hhead⟩ := ih _ hshorter h rfl
          refine ⟨(x :: s).takeWhile p ++ a, b, ?_, hne, hall, ?_, hhead⟩
          · rw [List.append_assoc, List.append_assoc, ← List.append_assoc a, ← heq, hsplit]
          · have ha : a ≠ [] := by
              rintro rfl
              -- What is left after a run does not begin with one.
              have hstop := List.head?_dropWhile_not p (x :: s)
              rw [heq, List.nil_append, List.head?_append, List.head?_eq_some_head hne, Option.some_or] at hstop
              have := hall _ (List.head_mem hne)
              simp [this] at hstop
            rw [List.getLast?_eq_some_getLast ha] at hlast
            rwa [List.getLast?_append, List.getLast?_eq_some_getLast ha, Option.some_or]

/-- What is cut where a run goes across: the runs before it, and its first part. -/
theorem segments_across {a b : List α} (ha : a.getLast?.any p = true) (hb : b.head?.any p = true) :
    ∃ before r r' after, r ≠ [] ∧ r' ≠ [] ∧ segments p a = before ++ [r] ∧
      segments p (a ++ b) = before ++ (r ++ r') :: after := by
  -- The run at the end of the first list, and that at the start of the second.
  have hra := List.takeWhile_append_dropWhile (p := p) (l := a.reverse)
  have ha' : a = (a.reverse.dropWhile p).reverse ++ (a.reverse.takeWhile p).reverse := by
    rw [← List.reverse_append, hra, List.reverse_reverse]
  have hne : (a.reverse.takeWhile p).reverse ≠ [] := by
    rw [← List.head?_reverse] at ha
    cases hr : a.reverse with
    | nil =>
      rw [hr] at ha
      cases ha
    | cons x s =>
      rw [hr] at ha
      rw [List.takeWhile_cons, if_pos (by simpa using ha)]
      simp
  have hne' : b.takeWhile p ≠ [] := by
    cases b with
    | nil => cases hb
    | cons x s =>
      rw [List.takeWhile_cons, if_pos (by simpa using hb)]
      simp
  have hall : ∀ x ∈ (a.reverse.takeWhile p).reverse, p x = true := fun x hx =>
    List.mem_takeWhile_imp (List.mem_reverse.mp hx)
  have hall' : ∀ x ∈ b.takeWhile p, p x = true := fun x hx => List.mem_takeWhile_imp hx
  have hlast : ((a.reverse.dropWhile p).reverse).getLast?.all (! p ·) = true := by
    rw [List.getLast?_reverse]
    have hhead := List.head?_dropWhile_not p a.reverse
    cases hd : (a.reverse.dropWhile p).head? with
    | none => rfl
    | some y =>
      rw [hd] at hhead
      simpa using hhead
  have hhead : (b.dropWhile p).head?.all (! p ·) = true := by
    have hstop := List.head?_dropWhile_not p b
    cases hd : (b.dropWhile p).head? with
    | none => rfl
    | some y =>
      rw [hd] at hstop
      simpa using hstop
  generalize (a.reverse.takeWhile p).reverse = r at ha' hne hall
  generalize (a.reverse.dropWhile p).reverse = a₀ at ha' hlast
  have hb' := (List.takeWhile_append_dropWhile (p := p) (l := b)).symm
  generalize b.takeWhile p = r' at hb' hne' hall'
  generalize b.dropWhile p = b₀ at hb' hhead
  refine ⟨segments p a₀, r, r', segments p b₀, hne, hne', ?_, ?_⟩
  · rw [ha', segments_append (.inl hlast), segments_of_all hall hne]
  · have hmid : ∀ x ∈ r ++ r', p x = true := fun x hx => (List.mem_append.mp hx).elim (hall x) (hall' x)
    have hmidne : r ++ r' ≠ [] := by simp [hne]
    rw [ha', hb', show a₀ ++ r ++ (r' ++ b₀) = a₀ ++ ((r ++ r') ++ b₀) by simp, segments_append (.inl hlast),
      segments_append (.inr hhead), segments_of_all hmid hmidne]
    rfl

end HxdNg
