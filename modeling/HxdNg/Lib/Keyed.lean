import Mathlib

/-!
# Lists with one element per key

A list whose keys are distinct is a finite map in the order its entries were made.

* `find?_key_iff`, `find?_key_map` : what a key finds;
* `editFirst` : change or drop the first element a test names; `find?_key_editFirst`,
  `nodup_key_editFirst` : as an update of the map;
* `foldInto` : elements that move onto a target some unmoving element is at are folded into it;
  `foldInto_eq`, `filter_flatMap_leaves` : what is left, without the loop; `foldInto_content` : what
  the folds lose.
-/

namespace HxdNg

variable {α β γ κ : Type*}

section Find
variable [DecidableEq κ] {key : α → κ} {xs : List α}

theorem find?_key_iff (hn : (xs.map key).Nodup) {k : κ} {x : α} :
    xs.find? (fun y => key y = k) = some x ↔ x ∈ xs ∧ key x = k := by
  refine ⟨fun h => ⟨List.mem_of_find?_eq_some h, by simpa using List.find?_some h⟩, ?_⟩
  rintro ⟨hx, rfl⟩
  obtain ⟨pre, post, rfl⟩ := List.append_of_mem hx
  refine List.find?_eq_some_iff_append.mpr ⟨by simp, pre, post, rfl, fun y hy => ?_⟩
  rw [List.map_append, List.nodup_append] at hn
  simpa using hn.2.2 (key y) (List.mem_map_of_mem hy) (key x) (by simp)

end Find

theorem findSome?_of_length_le_one {xs : List α} (h : xs.length ≤ 1) (f : α → Option β) :
    xs.findSome? f = xs.head?.bind f := by
  match xs, h with
  | [], _ => rfl
  | [x], _ => simp

/-! ## Changing the first element a test names -/

/-- Change the first element `p` names, or drop it, with what the change answers. -/
def editFirst (p : α → Bool) (g : α → β × Option α) : List α → Option (β × List α)
  | [] => none
  | x :: xs =>
    if p x then some ((g x).1, (g x).2.toList ++ xs)
    else (editFirst p g xs).map fun r => (r.1, x :: r.2)

section EditFirst
variable {p : α → Bool} {g : α → β × Option α} {xs ys : List α} {b : β}

theorem editFirst_eq_none : editFirst p g xs = none ↔ ∀ x ∈ xs, p x = false := by
  induction xs with
  | nil => simp [editFirst]
  | cons x xs ih =>
    unfold editFirst
    by_cases hp : p x = true
    · simp [hp]
    · rw [if_neg hp, Option.map_eq_none_iff, ih]
      simp [hp]

/-- The list splits at the first element named. -/
theorem editFirst_eq_some (h : editFirst p g xs = some (b, ys)) :
    ∃ pre x post, xs = pre ++ x :: post ∧ p x = true ∧ (∀ y ∈ pre, p y = false) ∧
      b = (g x).1 ∧ ys = pre ++ ((g x).2.toList ++ post) := by
  induction xs generalizing ys with
  | nil => cases h
  | cons x xs ih =>
    unfold editFirst at h
    by_cases hp : p x = true
    · rw [if_pos hp, Option.some.injEq, Prod.mk.injEq] at h
      exact ⟨[], x, xs, rfl, hp, by simp, h.1.symm, h.2.symm⟩
    · rw [if_neg hp, Option.map_eq_some_iff] at h
      obtain ⟨⟨b', ys'⟩, hrec, heq⟩ := h
      obtain ⟨rfl, rfl⟩ := Prod.mk.inj heq
      obtain ⟨pre, y, post, rfl, hy, hpre, hb, rfl⟩ := ih hrec
      refine ⟨x :: pre, y, post, rfl, hy, ?_, hb, rfl⟩
      intro z hz
      rcases List.mem_cons.mp hz with rfl | hz
      · simpa using hp
      · exact hpre z hz

variable {key : α → κ} {k : κ}

theorem nodup_key_editFirst (hg : ∀ x y, (g x).2 = some y → key y = key x)
    (hn : (xs.map key).Nodup) (h : editFirst p g xs = some (b, ys)) : (ys.map key).Nodup := by
  obtain ⟨pre, x, post, rfl, -, -, -, rfl⟩ := editFirst_eq_some h
  refine hn.sublist ?_
  simp only [List.map_append, List.map_cons]
  refine List.Sublist.append_left ?_ _
  cases hx : (g x).2 with
  | none => exact List.sublist_cons_self ..
  | some y => simp [hg x y hx]

/-- Changing the element at a key changes what that key finds, and no other. -/
theorem find?_key_editFirst [DecidableEq κ] (hg : ∀ x y, (g x).2 = some y → key y = key x)
    (hn : (xs.map key).Nodup)
    (h : editFirst (fun x => key x = k) g xs = some (b, ys)) (k' : κ) :
    ∃ x, xs.find? (fun y => key y = k) = some x ∧ b = (g x).1 ∧
      ys.find? (fun y => key y = k') =
        if k' = k then (g x).2 else xs.find? (fun y => key y = k') := by
  have hn' := nodup_key_editFirst hg hn h
  obtain ⟨pre, x, post, rfl, hx, -, hb, rfl⟩ := editFirst_eq_some h
  have hx : key x = k := by simpa using hx
  have hne : ∀ y ∈ pre ++ post, key y ≠ k := by
    have hperm : (pre ++ x :: post).Perm (x :: (pre ++ post)) := List.perm_middle
    have := (hperm.map key).nodup_iff.mp hn
    rw [List.map_cons, List.nodup_cons, hx] at this
    intro y hy hk
    exact this.1 (hk ▸ List.mem_map_of_mem hy)
  refine ⟨x, (find?_key_iff hn).mpr ⟨by simp, hx⟩, hb, ?_⟩
  have hfind (z : α) : (pre ++ ((g x).2.toList ++ post)).find? (fun y => key y = k') = some z ↔
      z ∈ pre ++ ((g x).2.toList ++ post) ∧ key z = k' := find?_key_iff hn'
  by_cases hk : k' = k
  · subst hk
    rw [if_pos rfl]
    refine Option.ext fun z => ?_
    rw [hfind]
    constructor
    · rintro ⟨hz, hzk⟩
      simp only [List.mem_append, Option.mem_toList] at hz
      rcases hz with hz | hz | hz
      · exact absurd hzk (hne z (by simp [hz]))
      · exact hz
      · exact absurd hzk (hne z (by simp [hz]))
    · intro hz
      exact ⟨by simp [hz], (hg x z hz).trans hx⟩
  · rw [if_neg hk]
    refine Option.ext fun z => ?_
    rw [hfind, find?_key_iff hn]
    refine and_congr_left fun hzk => ?_
    have hzx : z ≠ x := by rintro rfl; exact hk (hzk.symm.trans hx)
    have hzg : (g x).2 ≠ some z := fun hz => hk (hzk.symm.trans ((hg x z hz).trans hx))
    simp [hzx, hzg]

end EditFirst

/-! ## Folding moved elements into those they move onto -/

section Fold
variable [DecidableEq κ] (moving : α → Bool) (target : α → κ) (absorb : α → α → β × α)

/-- The unmoving elements at a target. -/
def staying (q : κ) (x : α) : Bool := !moving x && target x = q

/-- The elements that move onto a target. -/
def arriving (q : κ) (x : α) : Bool := moving x && target x = q

/-- Walk `todo`, folding each moving element into the first unmoving one at its target, where there
is one. The number is how many are left to walk; the answers are those of the folds, in order. -/
def foldInto : Nat → List α → List α → List β × List α
  | 0, walked, todo => ([], walked ++ todo)
  | _ + 1, walked, [] => ([], walked)
  | n + 1, walked, r :: todo =>
    if moving r then
      let change k := ((absorb k r).1, some (absorb k r).2)
      match editFirst (staying moving target (target r)) change walked with
      | some (b, walked) =>
        let (bs, out) := foldInto n walked todo
        (b :: bs, out)
      | none =>
        match editFirst (staying moving target (target r)) change todo with
        | some (b, todo) =>
          let (bs, out) := foldInto n walked todo
          (b :: bs, out)
        | none => foldInto n (walked ++ [r]) todo
    else foldInto n (walked ++ [r]) todo

/-- What becomes of one element of `xs`: gone where it is folded into another, and with what is
folded into it otherwise. -/
def leaves (xs : List α) (x : α) : List α :=
  if moving x then if xs.any (staying moving target (target x)) then [] else [x]
  else [(xs.filter (arriving moving target (target x))).foldl (fun k r => (absorb k r).2) x]

variable {moving target absorb} {xs ys : List α} {k r x : α} {q : κ}

theorem staying_iff : staying moving target q x = true ↔ moving x = false ∧ target x = q := by
  simp [staying]

theorem arriving_iff : arriving moving target q x = true ↔ moving x = true ∧ target x = q := by
  simp [arriving]

section Step
variable (hmoving : ∀ k r, moving (absorb k r).2 = moving k)
variable (htarget : ∀ k r, target (absorb k r).2 = target k)
variable (hr : moving r = true) (hk : staying moving target (target r) k = true)
include hmoving htarget hr hk

variable (xs ys) in
/-- What a fold of `r` into `k` leaves of each element, told by what it changes at each target. -/
theorem leaves_fold
    (hat : ∀ q, ys.any (staying moving target q) = xs.any (staying moving target q))
    (hto : ∀ q, xs.filter (arriving moving target q) =
      if q = target r then r :: ys.filter (arriving moving target q)
      else ys.filter (arriving moving target q))
    (hmem : k ∈ xs) :
    leaves moving target absorb xs r = [] ∧
      leaves moving target absorb xs k = leaves moving target absorb ys (absorb k r).2 ∧
      ∀ x, staying moving target (target r) x = false →
        leaves moving target absorb xs x = leaves moving target absorb ys x := by
  obtain ⟨hkm, hkt⟩ := staying_iff.mp hk
  refine ⟨?_, ?_, fun x hx => ?_⟩
  · unfold leaves
    rw [if_pos hr, if_pos (List.any_eq_true.mpr ⟨k, hmem, hk⟩)]
  · unfold leaves
    rw [if_neg (by simp [hkm]), if_neg (by simp [hmoving, hkm]), htarget, hto, if_pos hkt,
      List.foldl_cons]
  · unfold leaves
    by_cases hm : moving x = true
    · rw [if_pos hm, if_pos hm, hat]
    · have hne : target x ≠ target r := by
        intro heq
        simp [staying, heq, hm] at hx
      rw [if_neg hm, if_neg hm, hto, if_neg hne]

/-- Folding an element met after the one it is folded into. -/
theorem flatMap_leaves_fold_back {a b c : List α}
    (hunique : ∀ x ∈ a ++ b ++ c, staying moving target (target r) x = false)
    (hfirst : ∀ x ∈ a ++ b, arriving moving target (target r) x = false) :
    (a ++ k :: b ++ r :: c).flatMap (leaves moving target absorb (a ++ k :: b ++ r :: c)) =
      (a ++ (absorb k r).2 :: b ++ c).flatMap
        (leaves moving target absorb (a ++ (absorb k r).2 :: b ++ c)) := by
  obtain ⟨hkm, -⟩ := staying_iff.mp hk
  obtain ⟨hgone, hinto, hother⟩ := leaves_fold (a ++ k :: b ++ r :: c)
    (a ++ (absorb k r).2 :: b ++ c) hmoving htarget hr hk
    (fun q => by simp [staying, hr, hmoving, htarget])
    (fun q => by
      by_cases hq : q = target r
      · subst hq
        have ha : a.filter (arriving moving target (target r)) = [] := by
          simpa using fun x hx => hfirst x (by simp [hx])
        have hb : b.filter (arriving moving target (target r)) = [] := by
          simpa using fun x hx => hfirst x (by simp [hx])
        simp [ha, hb, arriving, hkm, hr, hmoving]
      · simp [arriving, hkm, hmoving, Ne.symm hq, hq])
    (by simp)
  have hcongr (l : List α) (hl : l ⊆ a ++ b ++ c) :
      l.flatMap (leaves moving target absorb (a ++ k :: b ++ r :: c)) =
        l.flatMap (leaves moving target absorb (a ++ (absorb k r).2 :: b ++ c)) :=
    List.flatMap_congr fun x hx => hother x (hunique x (hl hx))
  simp only [List.flatMap_append, List.flatMap_cons, hgone, hinto, List.nil_append]
  rw [hcongr a fun x hx => by simp [hx], hcongr b fun x hx => by simp [hx],
    hcongr c fun x hx => by simp [hx]]

/-- Folding an element met before the one it is folded into. -/
theorem flatMap_leaves_fold_ahead {a b c : List α}
    (hunique : ∀ x ∈ a ++ b ++ c, staying moving target (target r) x = false)
    (hfirst : ∀ x ∈ a, arriving moving target (target r) x = false) :
    (a ++ r :: (b ++ k :: c)).flatMap (leaves moving target absorb (a ++ r :: (b ++ k :: c))) =
      (a ++ (b ++ (absorb k r).2 :: c)).flatMap
        (leaves moving target absorb (a ++ (b ++ (absorb k r).2 :: c))) := by
  obtain ⟨hkm, -⟩ := staying_iff.mp hk
  obtain ⟨hgone, hinto, hother⟩ := leaves_fold (a ++ r :: (b ++ k :: c))
    (a ++ (b ++ (absorb k r).2 :: c)) hmoving htarget hr hk
    (fun q => by simp [staying, hr, hmoving, htarget])
    (fun q => by
      by_cases hq : q = target r
      · subst hq
        have ha : a.filter (arriving moving target (target r)) = [] := by
          simpa using hfirst
        simp [ha, arriving, hkm, hr, hmoving]
      · simp [arriving, hkm, hmoving, Ne.symm hq, hq])
    (by simp)
  have hcongr (l : List α) (hl : l ⊆ a ++ b ++ c) :
      l.flatMap (leaves moving target absorb (a ++ r :: (b ++ k :: c))) =
        l.flatMap (leaves moving target absorb (a ++ (b ++ (absorb k r).2 :: c))) :=
    List.flatMap_congr fun x hx => hother x (hunique x (hl hx))
  simp only [List.flatMap_append, List.flatMap_cons, hgone, hinto, List.nil_append]
  rw [hcongr a fun x hx => by simp [hx], hcongr b fun x hx => by simp [hx],
    hcongr c fun x hx => by simp [hx]]

end Step

section Run

/-- The targets of the unmoving elements are distinct. -/
def Settled (moving : α → Bool) (target : α → κ) (xs : List α) : Prop :=
  ((xs.filter fun x => !moving x).map target).Nodup

/-- Of a settled list only one element stays at a target. -/
theorem Settled.staying_unique {a c : List α} (hs : Settled moving target (a ++ k :: c))
    (hk : staying moving target q k = true) {y : α} (hy : y ∈ a ++ c) :
    staying moving target q y = false := by
  obtain ⟨hkm, hkq⟩ := staying_iff.mp hk
  have hmiddle : (a ++ k :: c).Perm (k :: (a ++ c)) := List.perm_middle
  have hperm := (hmiddle.filter fun x => !moving x).map target
  have hnodup := hperm.nodup_iff.mp hs
  rw [List.filter_cons_of_pos (by simp [hkm]), List.map_cons, List.nodup_cons] at hnodup
  by_contra h
  obtain ⟨hym, hyq⟩ := staying_iff.mp (by simpa using h)
  exact hnodup.1 (List.mem_map.mpr ⟨y, by simpa [hym] using hy, hyq.trans hkq.symm⟩)

theorem flatMap_leaves_of_done
    (h : ∀ x ∈ xs, moving x = true → xs.any (staying moving target (target x)) = false) :
    xs.flatMap (leaves moving target absorb xs) = xs := by
  have hself : ∀ x ∈ xs, leaves moving target absorb xs x = [x] := by
    intro x hx
    unfold leaves
    by_cases hm : moving x = true
    · rw [if_pos hm, h x hx hm, if_neg Bool.false_ne_true]
    · have hnone : xs.filter (arriving moving target (target x)) = [] := by
        rw [List.filter_eq_nil_iff]
        intro y hy hyx
        obtain ⟨hym, hyt⟩ := arriving_iff.mp hyx
        have hno := List.any_eq_false.mp (h y hy hym) x hx
        exact hno (staying_iff.mpr ⟨by simpa using hm, hyt.symm⟩)
      rw [if_neg hm, hnone, List.foldl_nil]
  rw [List.flatMap_congr hself, List.flatMap_singleton']

/-- Where the walk stands: no moving element walked has one to be folded into. -/
def Ready (moving : α → Bool) (target : α → κ) (walked todo : List α) : Prop :=
  Settled moving target (walked ++ todo) ∧
    ∀ x ∈ walked, moving x = true → (walked ++ todo).any (staying moving target (target x)) = false

theorem Ready.skip {walked todo : List α} (h : Ready moving target walked (r :: todo))
    (hr : moving r = true → (walked ++ r :: todo).any (staying moving target (target r)) = false) :
    Ready moving target (walked ++ [r]) todo := by
  have happ : walked ++ [r] ++ todo = walked ++ r :: todo := by simp
  unfold Ready
  rw [happ]
  refine ⟨h.1, fun x hx hm => ?_⟩
  rcases List.mem_append.mp hx with hx | hx
  · exact h.2 x hx hm
  · obtain rfl := List.mem_singleton.mp hx
    exact hr hm

variable (hmoving : ∀ k r, moving (absorb k r).2 = moving k)
variable (htarget : ∀ k r, target (absorb k r).2 = target k)
include hmoving htarget

section Kept
variable (hr : moving r = true) (hk : staying moving target (target r) k = true)
include hr hk

theorem Ready.back {a c todo : List α} (h : Ready moving target (a ++ k :: c) (r :: todo)) :
    Ready moving target (a ++ (absorb k r).2 :: c) todo ∧
      ((a ++ k :: c) ++ r :: todo).flatMap
          (leaves moving target absorb ((a ++ k :: c) ++ r :: todo)) =
        ((a ++ (absorb k r).2 :: c) ++ todo).flatMap
          (leaves moving target absorb ((a ++ (absorb k r).2 :: c) ++ todo)) := by
  obtain ⟨hs, hw⟩ := h
  have hkm := (staying_iff.mp hk).1
  have hfirst : ∀ x ∈ a ++ c, arriving moving target (target r) x = false := by
    intro x hx
    by_contra harr
    obtain ⟨hxm, hxt⟩ := arriving_iff.mp (by simpa using harr)
    have hno := hw x (by simp at hx ⊢; tauto) hxm
    rw [hxt, List.any_eq_false] at hno
    exact hno k (by simp) hk
  refine ⟨⟨?_, fun x hx hm => ?_⟩, ?_⟩
  · simpa [Settled, List.filter_cons, hkm, hr, hmoving, htarget] using hs
  · have hx : x ∈ a ++ k :: c := by
      simp only [List.mem_append, List.mem_cons] at hx ⊢
      rcases hx with hx | rfl | hx
      · exact .inl hx
      · simp [hmoving, hkm] at hm
      · exact .inr (.inr hx)
    simpa [staying, hmoving, htarget, hr] using hw x hx hm
  · have hunique : ∀ x ∈ a ++ c ++ todo, staying moving target (target r) x = false := by
      intro x hx
      rw [List.append_assoc, List.cons_append] at hs
      exact hs.staying_unique hk (by simp at hx ⊢; tauto)
    simpa using flatMap_leaves_fold_back hmoving htarget hr hk hunique hfirst

theorem Ready.ahead {walked b c : List α}
    (h : Ready moving target walked (r :: (b ++ k :: c))) :
    Ready moving target walked (b ++ (absorb k r).2 :: c) ∧
      (walked ++ r :: (b ++ k :: c)).flatMap
          (leaves moving target absorb (walked ++ r :: (b ++ k :: c))) =
        (walked ++ (b ++ (absorb k r).2 :: c)).flatMap
          (leaves moving target absorb (walked ++ (b ++ (absorb k r).2 :: c))) := by
  obtain ⟨hs, hw⟩ := h
  have hkm := (staying_iff.mp hk).1
  refine ⟨⟨?_, fun x hx hm => ?_⟩, flatMap_leaves_fold_ahead hmoving htarget hr hk ?_ ?_⟩
  · simpa [Settled, List.filter_cons, hkm, hr, hmoving, htarget] using hs
  · simpa [staying, hmoving, htarget, hr] using hw x hx hm
  · intro x hx
    rw [show walked ++ r :: (b ++ k :: c) = (walked ++ r :: b) ++ k :: c by simp] at hs
    exact hs.staying_unique hk (by simp at hx ⊢; tauto)
  · intro x hx
    by_contra harr
    obtain ⟨hxm, hxt⟩ := arriving_iff.mp (by simpa using harr)
    have hno := hw x hx hxm
    rw [hxt, List.any_eq_false] at hno
    exact hno k (by simp) hk

end Kept

/-- What folding leaves of a settled list: each element that moves onto an unmoving one is folded
into it, in order, and nothing else changes. -/
theorem foldInto_eq {n : Nat} {walked todo : List α} (hn : todo.length ≤ n)
    (h : Ready moving target walked todo) :
    (foldInto moving target absorb n walked todo).2 =
      (walked ++ todo).flatMap (leaves moving target absorb (walked ++ todo)) := by
  induction n generalizing walked todo with
  | zero =>
    obtain rfl := List.eq_nil_of_length_eq_zero (Nat.le_zero.mp hn)
    rw [flatMap_leaves_of_done fun x hx => h.2 x (by simpa using hx)]
    rfl
  | succ n ih =>
    cases todo with
    | nil =>
      rw [flatMap_leaves_of_done fun x hx => h.2 x (by simpa using hx), List.append_nil]
      rfl
    | cons r todo =>
      have hlen : todo.length ≤ n := by simpa using hn
      have hskip (hstay : moving r = true →
          (walked ++ r :: todo).any (staying moving target (target r)) = false) :
          (foldInto moving target absorb n (walked ++ [r]) todo).2 =
            (walked ++ r :: todo).flatMap (leaves moving target absorb (walked ++ r :: todo)) := by
        rw [ih hlen (h.skip hstay), List.append_assoc, List.singleton_append]
      unfold foldInto
      by_cases hr : moving r = true
      · rw [if_pos hr]
        dsimp only
        split
        · next b walked' hedit =>
          obtain ⟨a, k, c, rfl, hk, -, -, rfl⟩ := editFirst_eq_some hedit
          obtain ⟨hready, heq⟩ := h.back hmoving htarget hr hk
          rw [heq]
          exact ih hlen hready
        · next hback =>
          split
          · next b todo' hedit =>
            obtain ⟨a, k, c, rfl, hk, -, -, rfl⟩ := editFirst_eq_some hedit
            obtain ⟨hready, heq⟩ := h.ahead hmoving htarget hr hk
            rw [heq]
            exact ih (by simpa using hlen) hready
          · next hahead =>
            refine hskip fun _ => ?_
            have hself : staying moving target (target r) r = false := by simp [staying, hr]
            rw [editFirst_eq_none] at hback hahead
            rw [List.any_append, List.any_cons, hself, Bool.false_or, Bool.or_eq_false_iff]
            exact ⟨List.any_eq_false.mpr fun x hx => by simp [hback x hx],
              List.any_eq_false.mpr fun x hx => by simp [hahead x hx]⟩
      · rw [if_neg hr]
        exact hskip fun h => absurd h hr

end Run

section Left

theorem leaves_congr {κ' : Type*} [DecidableEq κ'] {target' : α → κ'}
    (h : ∀ x ∈ xs, ∀ y ∈ xs, target x = target y ↔ target' x = target' y) (hx : x ∈ xs) :
    leaves moving target absorb xs x = leaves moving target' absorb xs x := by
  have hstay : xs.any (staying moving target (target x)) =
      xs.any (staying moving target' (target' x)) := by
    rw [Bool.eq_iff_iff, List.any_eq_true, List.any_eq_true]
    refine exists_congr fun y => and_congr_right fun hy => ?_
    rw [staying_iff, staying_iff, h y hy x hx]
  have hcome : xs.filter (arriving moving target (target x)) =
      xs.filter (arriving moving target' (target' x)) := by
    refine List.filter_congr fun y hy => ?_
    rw [Bool.eq_iff_iff, arriving_iff, arriving_iff, h y hy x hx]
  unfold leaves
  rw [hstay, hcome]

variable (htarget : ∀ k r, target (absorb k r).2 = target k)
include htarget

omit [DecidableEq κ] in
theorem target_foldl_absorb (k : α) (rs : List α) :
    target (rs.foldl (fun k r => (absorb k r).2) k) = target k := by
  induction rs generalizing k with
  | nil => rfl
  | cons r rs ih => rw [List.foldl_cons, ih, htarget]

theorem mem_leaves_target {y : α} (h : y ∈ leaves moving target absorb xs x) :
    target y = target x := by
  unfold leaves at h
  by_cases hm : moving x = true
  · by_cases hs : xs.any (staying moving target (target x)) = true
    · simp [hm, hs] at h
    · simp only [hm, hs, if_true, Bool.false_eq_true, if_false, List.mem_singleton] at h
      rw [h]
  · simp only [hm, Bool.false_eq_true, if_false, List.mem_singleton] at h
    rw [h, target_foldl_absorb htarget]

/-- What is left at a target: the elements that stay there, each with all that arrive, or those
that arrive where none stays. -/
theorem filter_flatMap_leaves (q : κ) :
    (xs.flatMap (leaves moving target absorb xs)).filter (fun x => target x = q) =
      if xs.any (staying moving target q) then
        (xs.filter (staying moving target q)).map fun k =>
          (xs.filter (arriving moving target q)).foldl (fun k r => (absorb k r).2) k
      else xs.filter (arriving moving target q) := by
  have hone (x : α) : (leaves moving target absorb xs x).filter (fun y => target y = q) =
      if staying moving target q x then
        [(xs.filter (arriving moving target q)).foldl (fun k r => (absorb k r).2) x]
      else if arriving moving target q x ∧ xs.any (staying moving target q) = false then [x]
      else [] := by
    by_cases hq : target x = q
    · subst hq
      by_cases hm : moving x = true
      · have hns : staying moving target (target x) x = false := by simp [staying, hm]
        have har : arriving moving target (target x) x = true := by simp [arriving, hm]
        cases hs : xs.any (staying moving target (target x)) <;> simp [leaves, hm, hs, hns, har]
      · simp [leaves, staying, hm, target_foldl_absorb htarget]
    · rw [List.filter_eq_nil_iff.mpr fun y hy => by simp [mem_leaves_target htarget hy, hq]]
      simp [staying, arriving, hq]
  have hpick (p : α → Bool) (g : α → α) :
      (xs.flatMap fun x => if p x then [g x] else []) = (xs.filter p).map g := by
    clear hone
    induction xs with
    | nil => rfl
    | cons x xs ih => by_cases hp : p x = true <;> simp [hp, ih]
  rw [List.filter_flatMap, funext hone]
  by_cases hs : xs.any (staying moving target q) = true
  · simp only [hs, Bool.true_eq_false, and_false, if_false, if_true]
    exact hpick _ _
  · rw [if_neg hs]
    rw [← List.map_id (xs.filter _), ← hpick]
    refine List.flatMap_congr fun x hx => ?_
    have hns : staying moving target q x = false := by
      simpa using List.any_eq_false.mp (by simpa using hs) x hx
    simp [hns, hs]

/-- Where no two elements arrive at a target that nothing stays at, targets stay distinct. -/
theorem nodup_target_leaves (hs : Settled moving target xs)
    (hone : ∀ q, xs.any (staying moving target q) = true ∨
      (xs.filter (arriving moving target q)).length ≤ 1) :
    ((xs.flatMap (leaves moving target absorb xs)).map target).Nodup := by
  rw [List.nodup_iff_count_le_one]
  intro q
  have hcount : List.count q ((xs.flatMap (leaves moving target absorb xs)).map target) =
      ((xs.flatMap (leaves moving target absorb xs)).filter (fun x => target x = q)).length := by
    rw [List.count, List.countP_map, List.countP_eq_length_filter]
    rfl
  rw [hcount, filter_flatMap_leaves htarget]
  by_cases hq : xs.any (staying moving target q) = true
  · rw [if_pos hq, List.length_map]
    obtain ⟨k, hk, hkq⟩ := List.any_eq_true.mp hq
    obtain ⟨a, c, rfl⟩ := List.append_of_mem hk
    rw [List.filter_append, List.filter_cons_of_pos hkq]
    have hother (l : List α) (hl : l ⊆ a ++ c) : l.filter (staying moving target q) = [] := by
      rw [List.filter_eq_nil_iff]
      intro y hy
      simp [hs.staying_unique hkq (hl hy)]
    simp [hother a (by simp), hother c (by simp)]
  · rw [if_neg hq]
    exact (hone q).resolve_left hq

end Left

variable (moving target absorb) in
/-- What the elements hold is held after the folds or lost by one of them. -/
theorem foldInto_content {ι : Type*} (has : α → ι → Prop) (lost : β → ι → Prop)
    (habsorb : ∀ k r i, lost (absorb k r).1 i ∨ has (absorb k r).2 i ↔ has k i ∨ has r i)
    (n : Nat) (walked todo : List α) (i : ι) :
    (∃ b ∈ (foldInto moving target absorb n walked todo).1, lost b i) ∨
        (∃ x ∈ (foldInto moving target absorb n walked todo).2, has x i) ↔
      ∃ x ∈ walked ++ todo, has x i := by
  induction n generalizing walked todo with
  | zero => simp [foldInto]
  | succ n ih =>
    cases todo with
    | nil => simp [foldInto]
    | cons r todo =>
      have hskip : (∃ x ∈ walked ++ [r] ++ todo, has x i) ↔
          ∃ x ∈ walked ++ r :: todo, has x i := by simp
      unfold foldInto
      by_cases hr : moving r = true
      · rw [if_pos hr]
        dsimp only
        split
        · next b walked' hedit =>
          obtain ⟨a, k, c, rfl, -, -, rfl, rfl⟩ := editFirst_eq_some hedit
          have hfolded := ih (a ++ (absorb k r).2 :: c) todo
          simp only [List.mem_append, List.mem_cons, or_and_right, exists_or, exists_eq_left,
            Option.toList_some, List.singleton_append, or_assoc] at hfolded ⊢
          rw [hfolded, or_left_comm, ← or_assoc (a := lost _ i), habsorb, or_assoc]
          exact iff_of_eq (by ac_rfl)
        · split
          · next b todo' hedit =>
            obtain ⟨a, k, c, rfl, -, -, rfl, rfl⟩ := editFirst_eq_some hedit
            have hfolded := ih walked (a ++ (absorb k r).2 :: c)
            simp only [List.mem_append, List.mem_cons, or_and_right, exists_or, exists_eq_left,
              Option.toList_some, List.singleton_append, or_assoc] at hfolded ⊢
            rw [hfolded, or_left_comm (a := lost _ i), or_left_comm (a := lost _ i),
              ← or_assoc (a := lost _ i), habsorb, or_assoc]
            exact iff_of_eq (by ac_rfl)
          · exact (ih _ _).trans hskip
      · rw [if_neg hr]
        exact (ih _ _).trans hskip

end Fold

end HxdNg
