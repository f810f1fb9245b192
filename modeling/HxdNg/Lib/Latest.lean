import HxdNg.Lib.Sorting

/-!
# Keeping the latest

While a list holds more than it may, the least of its elements by a key is dropped, of equals the
first. What is left is told by counting: an element stays when fewer than that many are after it.

* `least_split` : what the least is, where it stands;
* `keepLatest` : the loop; `length_keepLatest` : what it leaves, `keepLatest_least` : that it drops
  the least;
* `later` : how many are after an element; `mem_keepLatest` : who stays.
-/

namespace HxdNg

variable {α κ : Type*} [LinearOrder κ] {key : α → κ}

/-- The least stands before every other it equals. -/
theorem least_split {l : List α} {h : α} (hhead : (sortBy key l).head? = some h) :
    ∃ pre post, l = pre ++ h :: post ∧ (∀ y ∈ pre, key h < key y) ∧ ∀ y ∈ post, key h ≤ key y := by
  induction l generalizing h with
  | nil => simp [sortBy] at hhead
  | cons a l ih =>
    have hsort : sortBy key (a :: l) = (sortBy key l).orderedInsert (fun a b => key a ≤ key b) a := rfl
    rw [hsort] at hhead
    cases hl : sortBy key l with
    | nil =>
      rw [hl] at hhead
      obtain rfl : a = h := by simpa using hhead
      have hlength := length_sortBy key l
      rw [hl] at hlength
      obtain rfl := List.length_eq_zero_iff.mp hlength.symm
      exact ⟨[], [], rfl, by simp, by simp⟩
    | cons g t =>
      rw [hl, List.orderedInsert_cons] at hhead
      by_cases hag : key a ≤ key g
      · rw [if_pos hag] at hhead
        obtain rfl : a = h := by simpa using hhead
        refine ⟨[], l, rfl, by simp, fun y hy => hag.trans ?_⟩
        obtain ⟨pre, post, rfl, hpre, hpost⟩ := ih (by rw [hl]; rfl)
        rcases List.mem_append.mp hy with hy | hy
        · exact (hpre y hy).le
        · rcases List.mem_cons.mp hy with rfl | hy
          · exact le_rfl
          · exact hpost y hy
      · rw [if_neg hag] at hhead
        obtain rfl : g = h := by simpa using hhead
        obtain ⟨pre, post, rfl, hpre, hpost⟩ := ih (by rw [hl]; rfl)
        refine ⟨a :: pre, post, rfl, fun y hy => ?_, hpost⟩
        rcases List.mem_cons.mp hy with rfl | hy
        · exact not_le.mp hag
        · exact hpre y hy

variable (key) in
theorem exists_least {l : List α} (h : l ≠ []) : ∃ a, (sortBy key l).head? = some a := by
  cases hs : sortBy key l with
  | nil =>
    have hlength := length_sortBy key l
    rw [hs] at hlength
    exact absurd (List.length_eq_zero_iff.mp hlength.symm) h
  | cons a t => exact ⟨a, rfl⟩

section Later
variable [DecidableEq α]

/-- How many are after `x`: of a greater key, or of the same and further on. -/
def later (key : α → κ) (x : α) : List α → Nat
  | [] => 0
  | y :: l =>
    if y = x then l.countP (fun z => key x ≤ key z)
    else (if key x < key y then 1 else 0) + later key x l

variable {x : α} {pre l : List α}

theorem later_append_of_mem (hx : x ∈ pre) :
    later key x (pre ++ l) = later key x pre + l.countP fun z => key x ≤ key z := by
  induction pre with
  | nil => exact absurd hx List.not_mem_nil
  | cons y pre ih =>
    rw [List.cons_append, later, later]
    by_cases hy : y = x
    · rw [if_pos hy, if_pos hy, List.countP_append]
    · have hmem : x ∈ pre := (List.mem_cons.mp hx).resolve_left (Ne.symm hy)
      rw [if_neg hy, if_neg hy, ih hmem, Nat.add_assoc]

theorem later_append_of_notMem (hx : x ∉ pre) :
    later key x (pre ++ l) = (pre.countP fun z => key x < key z) + later key x l := by
  induction pre with
  | nil => simp
  | cons y pre ih =>
    rw [List.mem_cons, not_or] at hx
    rw [List.cons_append, later, if_neg (Ne.symm hx.1), ih hx.2, List.countP_cons]
    by_cases hlt : key x < key y
    · simp only [hlt, if_true, decide_true]
      omega
    · simp only [hlt, if_false, decide_false, Bool.false_eq_true]
      omega

variable (key) in
/-- Fewer are after an element of a list than the list has. -/
theorem later_lt_length (hx : x ∈ l) : later key x l < l.length := by
  induction l with
  | nil => exact absurd hx List.not_mem_nil
  | cons y l ih =>
    rw [later, List.length_cons]
    by_cases hy : y = x
    · rw [if_pos hy]
      exact Nat.lt_succ_of_le List.countP_le_length
    · have h := ih ((List.mem_cons.mp hx).resolve_left (Ne.symm hy))
      rw [if_neg hy]
      split <;> omega

/-- All the others are after the least, -/
theorem later_least {h : α} (hhead : (sortBy key l).head? = some h) (hn : l.Nodup) :
    later key h l + 1 = l.length := by
  obtain ⟨pre, post, rfl, hpre, hpost⟩ := least_split hhead
  have hnot : h ∉ pre := fun hmem =>
    (List.nodup_append.mp hn).2.2 h hmem h List.mem_cons_self rfl
  have hp : (pre.countP fun z => decide (key h < key z)) = pre.length :=
    List.countP_eq_length.mpr fun y hy => decide_eq_true (hpre y hy)
  have hq : (post.countP fun z => decide (key h ≤ key z)) = post.length :=
    List.countP_eq_length.mpr fun y hy => decide_eq_true (hpost y hy)
  rw [later_append_of_notMem hnot, later, if_pos rfl, hp, hq, List.length_append, List.length_cons]
  omega

/-- and it is after none of them. -/
theorem later_erase_least [BEq α] [LawfulBEq α] {h : α} (hhead : (sortBy key l).head? = some h) (hn : l.Nodup)
    (hx : x ∈ l) (hne : x ≠ h) : later key x (l.erase h) = later key x l := by
  obtain ⟨pre, post, rfl, hpre, hpost⟩ := least_split hhead
  have hnot : h ∉ pre := fun hmem =>
    (List.nodup_append.mp hn).2.2 h hmem h List.mem_cons_self rfl
  rw [List.erase_append_right _ hnot, List.erase_cons_head]
  by_cases hmem : x ∈ pre
  · have hlt := hpre x hmem
    rw [later_append_of_mem hmem, later_append_of_mem hmem, List.countP_cons]
    simp [not_le.mpr hlt]
  · have hle : key h ≤ key x := by
      rcases List.mem_append.mp hx with hx | hx
      · exact absurd hx hmem
      · exact hpost x ((List.mem_cons.mp hx).resolve_left hne)
    rw [later_append_of_notMem hmem, later_append_of_notMem hmem, later, if_neg (Ne.symm hne),
      if_neg (not_lt.mpr hle), Nat.zero_add]

end Later

section Keep
variable [BEq α]

/-- Drop the least while more than `cap` are left, at most so many times. -/
def keepLatest (key : α → κ) (cap : Nat) : Nat → List α → List α
  | 0, l => l
  | n + 1, l =>
    if l.length ≤ cap then l
    else
      match (sortBy key l).head? with
      | none => l
      | some h => keepLatest key cap n (l.erase h)

variable {cap n : Nat} {l : List α} {x : α}

theorem keepLatest_of_le (h : l.length ≤ cap) : keepLatest key cap n l = l := by
  cases n with
  | zero => rfl
  | succ n => rw [keepLatest, if_pos h]

variable (key) in
theorem keepLatest_of_gt (h : cap < l.length) :
    ∃ a, (sortBy key l).head? = some a ∧ a ∈ l ∧
      keepLatest key cap (n + 1) l = keepLatest key cap n (l.erase a) := by
  have hne : l ≠ [] := by
    rintro rfl
    simp at h
  obtain ⟨a, ha⟩ := exists_least key hne
  refine ⟨a, ha, mem_sortBy.mp (List.mem_of_head? ha), ?_⟩
  rw [keepLatest, if_neg (not_le.mpr h), ha]

variable [LawfulBEq α]

/-- Given turns enough, it leaves as many as it may. -/
theorem length_keepLatest (h : l.length ≤ cap + n) :
    (keepLatest key cap n l).length = min l.length cap := by
  induction n generalizing l with
  | zero =>
    rw [keepLatest]
    omega
  | succ n ih =>
    by_cases hle : l.length ≤ cap
    · rw [keepLatest_of_le hle]
      omega
    · obtain ⟨a, -, hmem, heq⟩ := keepLatest_of_gt (n := n) key (not_le.mp hle)
      have hlength := List.length_erase_of_mem hmem
      rw [heq, ih (by omega), hlength]
      omega

omit [LawfulBEq α] in
theorem keepLatest_sublist : (keepLatest key cap n l).Sublist l := by
  induction n generalizing l with
  | zero => exact List.Sublist.refl l
  | succ n ih =>
    by_cases hle : l.length ≤ cap
    · rw [keepLatest_of_le hle]
    · obtain ⟨a, -, -, heq⟩ := keepLatest_of_gt (n := n) key (not_le.mp hle)
      rw [heq]
      exact ih.trans List.erase_sublist

/-- What it drops is no later than what it keeps. -/
theorem keepLatest_least (hn : l.Nodup) (hx : x ∈ l) (hout : x ∉ keepLatest key cap n l) {y : α}
    (hy : y ∈ keepLatest key cap n l) : key x ≤ key y := by
  induction n generalizing l with
  | zero => exact absurd hx hout
  | succ n ih =>
    by_cases hle : l.length ≤ cap
    · rw [keepLatest_of_le hle] at hout
      exact absurd hx hout
    · obtain ⟨a, hhead, -, heq⟩ := keepLatest_of_gt (n := n) key (not_le.mp hle)
      rw [heq] at hout hy
      by_cases hxa : x = a
      · subst hxa
        have hyl : y ∈ l := List.mem_of_mem_erase (keepLatest_sublist.subset hy)
        obtain ⟨pre, post, rfl, hpre, hpost⟩ := least_split hhead
        rcases List.mem_append.mp hyl with hyl | hyl
        · exact (hpre y hyl).le
        · rcases List.mem_cons.mp hyl with rfl | hyl
          · exact le_rfl
          · exact hpost y hyl
      · exact ih (hn.erase a) ((List.mem_erase_of_ne hxa).mpr hx) hout hy

/-- An element stays when fewer than may be left are after it. -/
theorem mem_keepLatest [DecidableEq α] (hn : l.Nodup) (hturns : l.length ≤ cap + n) (hx : x ∈ l) :
    x ∈ keepLatest key cap n l ↔ later key x l < cap := by
  induction n generalizing l with
  | zero =>
    have hlt := later_lt_length key hx
    rw [keepLatest]
    exact iff_of_true hx (by omega)
  | succ n ih =>
    by_cases hle : l.length ≤ cap
    · have hlt := later_lt_length key hx
      rw [keepLatest_of_le hle]
      exact iff_of_true hx (by omega)
    · obtain ⟨a, hhead, hmem, heq⟩ := keepLatest_of_gt (n := n) key (not_le.mp hle)
      rw [heq]
      by_cases hxa : x = a
      · subst hxa
        have hlast := later_least hhead hn
        refine iff_of_false (fun hin => ?_) (by omega)
        exact (List.Nodup.mem_erase_iff hn).mp (keepLatest_sublist.subset hin) |>.1 rfl
      · have hlength := List.length_erase_of_mem hmem
        rw [ih (hn.erase a) (by omega) ((List.mem_erase_of_ne hxa).mpr hx),
          later_erase_least hhead hn hx hxa]

end Keep

end HxdNg
