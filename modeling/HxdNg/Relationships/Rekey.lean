import HxdNg.Relationships.Pairs

/-!
# Claims and rotations

A claim or a rotation moves one key's rows onto another. Rows are folded into those that stay where
they are, never into one another, so rows that all move onto the account's own row are left side by
side unless that row stays among them.

* `Edges.Folds` : when a claim or a rotation leaves one row per pair;
* `Edges.Sound.rekey` : then it keeps the rest too;
* `one_row_per_pair` : over whole runs;
* `claim_leaves_two_rows` : a run with a claim that does not.
-/

namespace HxdNg.Relationships

open Identity

/-! ## Spellings -/

theorem hexDigit_inj {m n : Nat} (hm : m < 16) (hn : n < 16) (h : hexDigit m = hexDigit n) :
    m = n := by
  have hall : ∀ m < 16, ∀ n < 16, hexDigit m = hexDigit n → m = n := by decide +kernel
  exact hall m hm n hn h

theorem hex_inj {xs ys : List UInt8} (h : hex xs = hex ys) : xs = ys := by
  induction xs generalizing ys with
  | nil => cases ys with
    | nil => rfl
    | cons y ys => simp [hex] at h
  | cons x xs ih => cases ys with
    | nil => simp [hex] at h
    | cons y ys =>
      simp only [hex, List.flatMap_cons, List.cons_append, List.nil_append, List.cons.injEq] at h
      obtain ⟨hhi, hlo, hrest⟩ := h
      have hx := x.toNat_lt
      have hy := y.toNat_lt
      have hdiv := hexDigit_inj (by omega) (by omega) hhi
      have hmod := hexDigit_inj (by omega) (by omega) hlo
      have hxy : x = y := UInt8.toNat_inj.mp (by omega)
      rw [hxy, ih hrest]

/-- A bare login that is not a fingerprint's hex. -/
def Mailbox.Plain (m : Mailbox) : Prop :=
  m.fingerprint = none → ∀ fp : Fingerprint, m.login.toList ≠ hex fp.val

theorem length_hex (xs : List UInt8) : (hex xs).length = 2 * xs.length := by
  induction xs with
  | nil => rfl
  | cons x xs ih =>
    rw [hex, List.flatMap_cons, List.length_append, ← hex, ih]
    simp only [List.length_cons, List.length_nil]
    omega

/-- A login as short as accounts have is no fingerprint's hex. -/
theorem Mailbox.plain_of_short {m : Mailbox} (h : m.login.toList.length < 64) : m.Plain := by
  intro _ fp heq
  rw [heq, length_hex, fp.property] at h
  omega

theorem Mailbox.spelling_inj {m k : Mailbox} (hm : m.Plain) (hk : k.Plain) :
    m.spelling = k.spelling ↔ m.key = k.key := by
  obtain ⟨ml, mf⟩ := m
  obtain ⟨kl, kf⟩ := k
  cases mf with
  | none => cases kf with
    | none => simp [spelling, key, String.toList_inj]
    | some kf => simpa [spelling, key] using hm rfl kf
  | some mf => cases kf with
    | none => simpa [spelling, key] using (hk rfl mf).symm
    | some kf =>
      simp only [spelling, key, Key.fingerprint.injEq]
      exact ⟨fun h => Subtype.ext (hex_inj h), fun h => h ▸ rfl⟩

namespace Edges
variable {e : Edges} {moves : Mailbox → Bool} {into : Fingerprint}

/-! ## When a re-keying folds -/

/-- The keys a row has once it is stamped. -/
def stampedKeys (moves : Mailbox → Bool) (into : Fingerprint) (r : Row) : Key × Key :=
  (stampRow moves into r).keys

/-- The account's own row, which what it had decided about itself moves onto. -/
def own (into : Fingerprint) : Key × Key := (.fingerprint into, .fingerprint into)

/-- No bare login of a row is a fingerprint's hex, and of the rows that move onto the account's own
row there is one at most, unless that row stays where it is. -/
def Folds (e : Edges) (moves : Mailbox → Bool) (into : Fingerprint) : Prop :=
  (∀ r ∈ e.rows, r.rel.owner.Plain ∧ r.rel.other.Plain) ∧
    (e.rows.any (staying (moving moves) (stampedKeys moves into) (own into)) = true ∨
      (e.rows.filter (arriving (moving moves) (stampedKeys moves into) (own into))).length ≤ 1)

theorem after_eq_spelling (m : Mailbox) :
    after moves into m = (stamp moves into m).spelling := by
  unfold after stamp
  split <;> rfl

theorem stamp_plain {m : Mailbox} (h : m.Plain) : (stamp moves into m).Plain := by
  unfold stamp
  split
  · exact fun hnone => absurd hnone (by simp)
  · exact h

/-- Rows are compared by spelling as by key. -/
theorem afterRow_eq_iff {r r' : Row} (hr : r.rel.owner.Plain ∧ r.rel.other.Plain)
    (hr' : r'.rel.owner.Plain ∧ r'.rel.other.Plain) :
    afterRow moves into r = afterRow moves into r' ↔
      stampedKeys moves into r = stampedKeys moves into r' := by
  simp only [afterRow, after_eq_spelling, Prod.mk.injEq,
    Mailbox.spelling_inj (stamp_plain hr.1) (stamp_plain hr'.1),
    Mailbox.spelling_inj (stamp_plain hr.2) (stamp_plain hr'.2)]
  exact (Prod.mk.injEq ..).symm ▸ Iff.rfl

/-! ## What is left of the rows -/

theorem absorbId_iff {m t : Option RelationId} {i : RelationId} :
    i ∈ (Edge.absorbId m t).1.map Prod.fst ∨ (Edge.absorbId m t).2 = some i ↔
      m = some i ∨ t = some i := by
  cases m with
  | none => simp [Edge.absorbId]
  | some m => cases t with
    | none => simp [Edge.absorbId]
    | some t =>
      by_cases h : m = t
      · simp [Edge.absorbId, h]
      · simp [Edge.absorbId, h, or_comm, eq_comm]

theorem absorb_has (d dup : Edge) (i : RelationId) :
    i ∈ (d.absorb dup).1.map Prod.fst ∨ (d.absorb dup).2.Has i ↔ d.Has i ∨ dup.Has i := by
  have hf := absorbId_iff (m := d.friendship) (t := dup.friendship) (i := i)
  have ha := absorbId_iff (m := d.approval) (t := dup.approval) (i := i)
  unfold Edge.absorb Edge.Has
  simp only [Edge.settle_friendship, Edge.settle_approval, List.map_append, List.mem_append]
  tauto

theorem absorb_friendship (d dup : Edge) :
    (d.absorb dup).2.friendship = d.friendship.or dup.friendship := by
  unfold Edge.absorb
  rw [Edge.settle_friendship]
  cases d.friendship with
  | none => simp [Edge.absorbId]
  | some m => cases dup.friendship <;> rfl

theorem foldl_absorb_friendship (rs : List Row) (k : Row) :
    (rs.foldl (fun k r => (absorbRow k r).2) k).rel.friendship =
      k.rel.friendship.or (rs.findSome? fun r => r.rel.friendship) := by
  induction rs generalizing k with
  | nil => simp
  | cons r rs ih =>
    rw [List.foldl_cons, ih, List.findSome?_cons]
    show ((k.rel.absorb r.rel.toEdge).2.friendship).or _ = _
    rw [absorb_friendship, Option.or_assoc]
    cases r.rel.friendship <;> rfl

/-- The rows as a re-keying leaves them, before they are stamped. -/
def left (e : Edges) (moves : Mailbox → Bool) (into : Fingerprint) : List Row :=
  e.rows.flatMap (leaves (moving moves) (stampedKeys moves into) absorbRow e.rows)

section Left
variable {M : Key} (hM : ∀ m, moves m = true ↔ m.key = M)
include hM

theorem stampedKeys_eq (r : Row) : stampedKeys moves into r =
    (if r.keys.1 = M then .fingerprint into else r.keys.1,
      if r.keys.2 = M then .fingerprint into else r.keys.2) := by
  have hstamp (m : Mailbox) : (stamp moves into m).key =
      if m.key = M then .fingerprint into else m.key := by
    unfold stamp
    by_cases h : moves m = true
    · rw [if_pos h, if_pos ((hM m).mp h)]
      rfl
    · rw [if_neg h, if_neg fun hk => h ((hM m).mpr hk)]
  exact Prod.ext (hstamp _) (hstamp _)

theorem moving_iff (r : Row) : moving moves r = true ↔ r.keys.1 = M ∨ r.keys.2 = M := by
  unfold moving
  rw [Bool.or_eq_true, hM, hM]
  rfl

theorem keys_of_staying {q : Key × Key} {r : Row}
    (h : staying (moving moves) (stampedKeys moves into) q r = true) : r.keys = q := by
  obtain ⟨hm, rfl⟩ := staying_iff.mp h
  have hno : ¬ (r.keys.1 = M ∨ r.keys.2 = M) := fun hno => by
    rw [(moving_iff hM r).mpr hno] at hm
    cases hm
  rw [not_or] at hno
  rw [stampedKeys_eq hM, if_neg hno.1, if_neg hno.2]

/-- The pair a row moves from, unless it moves onto the account's own row. -/
theorem keys_of_arriving {q : Key × Key} {r : Row} (hq : q ≠ own into)
    (h : arriving (moving moves) (stampedKeys moves into) q r = true) :
    r.keys = if q.1 = .fingerprint into then (M, q.2) else (q.1, M) := by
  obtain ⟨hm, rfl⟩ := arriving_iff.mp h
  rw [moving_iff hM] at hm
  rw [stampedKeys_eq hM] at hq ⊢
  by_cases h₁ : r.keys.1 = M
  · have h₂ : r.keys.2 ≠ M := fun h₂ => hq (by simp [own, h₁, h₂])
    rw [if_pos h₁, if_neg h₂, if_pos rfl]
    exact Prod.ext h₁ rfl
  · have h₂ : r.keys.2 = M := hm.resolve_left h₁
    have h₃ : r.keys.1 ≠ .fingerprint into := fun h₃ => hq (by simp [own, h₂, h₃])
    rw [if_neg h₁, if_pos h₂, if_neg h₃]
    exact Prod.ext rfl h₂

variable (into) in
theorem settled (hu : e.Unique) : Settled (moving moves) (stampedKeys moves into) e.rows := by
  have hkeys : (e.rows.filter fun r => !moving moves r).map (stampedKeys moves into) =
      (e.rows.filter fun r => !moving moves r).map Row.keys := by
    refine List.map_congr_left fun r hr => ?_
    have hr : moving moves r = false := by simpa using (List.mem_filter.mp hr).2
    exact (keys_of_staying hM (staying_iff.mpr ⟨hr, rfl⟩)).symm
  unfold Settled
  rw [hkeys]
  exact hu.sublist (List.filter_sublist.map _)

theorem arriving_length (hu : e.Unique) {q : Key × Key} (hq : q ≠ own into) :
    (e.rows.filter (arriving (moving moves) (stampedKeys moves into) q)).length ≤ 1 := by
  by_contra hlen
  obtain ⟨x, y, rest, hxy⟩ : ∃ x y rest,
      e.rows.filter (arriving (moving moves) (stampedKeys moves into) q) = x :: y :: rest := by
    match h : e.rows.filter (arriving (moving moves) (stampedKeys moves into) q) with
    | [] => simp [h] at hlen
    | [x] => simp [h] at hlen
    | x :: y :: rest => exact ⟨x, y, rest, rfl⟩
  have hnodup : ((x :: y :: rest).map Row.keys).Nodup :=
    hxy ▸ List.Nodup.sublist (List.filter_sublist.map _) hu
  have harr (z : Row) (hz : z ∈ x :: y :: rest) :=
    keys_of_arriving hM hq (List.mem_filter.mp (hxy ▸ hz)).2
  have hkeys : x.keys = y.keys := (harr x (by simp)).trans (harr y (by simp)).symm
  simp [hkeys] at hnodup

variable (into) in
theorem foldInto_rows (hu : e.Unique) (hplain : ∀ r ∈ e.rows, r.rel.owner.Plain ∧ r.rel.other.Plain) :
    (foldInto (moving moves) (afterRow moves into) absorbRow e.rows.length [] e.rows).2 =
      e.left moves into := by
  have hiff (r) (hr : r ∈ e.rows) (r') (hr' : r' ∈ e.rows) :
      afterRow moves into r = afterRow moves into r' ↔
        stampedKeys moves into r = stampedKeys moves into r' :=
    afterRow_eq_iff (hplain r hr) (hplain r' hr')
  have hsettled : Settled (moving moves) (afterRow moves into) e.rows := by
    have h := settled into hM hu
    unfold Settled List.Nodup at h ⊢
    rw [List.pairwise_map] at h ⊢
    refine h.imp_of_mem fun hx hy hne heq => hne ?_
    exact (hiff _ (List.mem_filter.mp hx).1 _ (List.mem_filter.mp hy).1).mp heq
  rw [foldInto_eq (fun _ _ => rfl) (fun _ _ => rfl) le_rfl ⟨hsettled, by simp⟩, List.nil_append]
  exact List.flatMap_congr fun r hr => leaves_congr hiff hr

theorem nodup_left (hu : e.Unique) (hf : e.Folds moves into) :
    ((e.left moves into).map (stampedKeys moves into)).Nodup := by
  refine nodup_target_leaves (fun _ _ => rfl) (settled into hM hu) fun q => ?_
  by_cases hq : q = own into
  · exact hq ▸ hf.2
  · exact .inr (arriving_length hM hu hq)

/-- The friendship left on a pair: that of the row that stays there, or of the one that moves onto
it. -/
theorem left_friendship {q : Key × Key} (hq : q ≠ own into) (hu : e.Unique) :
    ((e.left moves into).find? fun r => stampedKeys moves into r = q).bind
        (fun r => r.rel.friendship) =
      ((e.rows.find? (staying (moving moves) (stampedKeys moves into) q)).bind
          fun r => r.rel.friendship).or
        ((e.rows.find? (arriving (moving moves) (stampedKeys moves into) q)).bind
          fun r => r.rel.friendship) := by
  have hone := arriving_length hM hu hq
  have harr : (e.rows.filter (arriving (moving moves) (stampedKeys moves into) q)).findSome?
      (fun r => r.rel.friendship) =
        (e.rows.find? (arriving (moving moves) (stampedKeys moves into) q)).bind
          fun r => r.rel.friendship := by
    rw [findSome?_of_length_le_one hone, List.head?_filter]
  rw [← List.head?_filter, left, filter_flatMap_leaves fun _ _ => rfl]
  by_cases hstay : e.rows.any (staying (moving moves) (stampedKeys moves into) q) = true
  · rw [if_pos hstay, List.head?_map, List.head?_filter]
    obtain ⟨k, hk⟩ := Option.isSome_iff_exists.mp (List.find?_isSome.mpr (List.any_eq_true.mp hstay))
    rw [hk, Option.map_some, Option.bind_some, Option.bind_some, ← harr,
      foldl_absorb_friendship]
  · rw [if_neg hstay, List.head?_filter]
    have hnone : e.rows.find? (staying (moving moves) (stampedKeys moves into) q) = none := by
      rw [List.find?_eq_none]
      exact List.any_eq_false.mp (by simpa using hstay)
    rw [hnone]
    rfl

theorem stampedKeys_swap {r r' : Row} (h : r'.keys = r.keys.swap) :
    stampedKeys moves into r' = (stampedKeys moves into r).swap := by
  rw [stampedKeys_eq hM, stampedKeys_eq hM, h]
  rfl

theorem arriving_or_staying_unique (hu : e.Unique) {q : Key × Key} (hq : q ≠ own into) {r r' : Row}
    (hr : r ∈ e.rows) (hr' : r' ∈ e.rows)
    (h : staying (moving moves) (stampedKeys moves into) q r = true ∧
        staying (moving moves) (stampedKeys moves into) q r' = true ∨
      arriving (moving moves) (stampedKeys moves into) q r = true ∧
        arriving (moving moves) (stampedKeys moves into) q r' = true) : r = r' := by
  refine List.inj_on_of_nodup_map hu hr hr' ?_
  rcases h with ⟨h₁, h₂⟩ | ⟨h₁, h₂⟩
  · exact (keys_of_staying hM h₁).trans (keys_of_staying hM h₂).symm
  · exact (keys_of_arriving hM hq h₁).trans (keys_of_arriving hM hq h₂).symm

theorem staying_swap {q : Key × Key} {r r' : Row} (h : r'.keys = r.keys.swap)
    (hr : staying (moving moves) (stampedKeys moves into) q r = true) :
    staying (moving moves) (stampedKeys moves into) q.swap r' = true := by
  obtain ⟨hm, rfl⟩ := staying_iff.mp hr
  refine staying_iff.mpr ⟨?_, stampedKeys_swap hM h⟩
  rw [← Bool.not_eq_true, moving_iff hM] at hm ⊢
  rw [h]
  exact fun hno => hm hno.symm

theorem arriving_swap {q : Key × Key} {r r' : Row} (h : r'.keys = r.keys.swap)
    (hr : arriving (moving moves) (stampedKeys moves into) q r = true) :
    arriving (moving moves) (stampedKeys moves into) q.swap r' = true := by
  obtain ⟨hm, rfl⟩ := arriving_iff.mp hr
  refine arriving_iff.mpr ⟨?_, stampedKeys_swap hM h⟩
  rw [moving_iff hM] at hm ⊢
  rw [h]
  exact hm.symm

end Left

/-- What a pair's rows carry, where at most one of them is told apart, is what the other side's
carry. -/
theorem Sound.find_swap (h : Sound e) {sel : Key × Key → Row → Bool}
    (hswap : ∀ q r r', r'.keys = r.keys.swap → sel q r = true → sel q.swap r' = true)
    (hone : ∀ q ≠ own into, ∀ r ∈ e.rows, ∀ r' ∈ e.rows,
      sel q r = true → sel q r' = true → r = r') {q : Key × Key} (hq : q ≠ own into) :
    (e.rows.find? (sel q)).bind (fun r => r.rel.friendship) =
      (e.rows.find? (sel q.swap)).bind fun r => r.rel.friendship := by
  have himp (q : Key × Key) (hq : q.swap ≠ own into) (id : RelationId)
      (hid : (e.rows.find? (sel q)).bind (fun r => r.rel.friendship) = some id) :
      (e.rows.find? (sel q.swap)).bind (fun r => r.rel.friendship) = some id := by
    obtain ⟨r, hr, hrid⟩ := Option.bind_eq_some_iff.mp hid
    obtain ⟨r', hr', hkeys, hrid'⟩ := h.mirrored r (List.mem_of_find?_eq_some hr) id hrid
    have hsel := hswap q r r' hkeys (List.find?_some hr)
    obtain ⟨x, hx⟩ := Option.isSome_iff_exists.mp
      (List.find?_isSome.mpr ⟨r', hr', hsel⟩)
    obtain rfl := hone q.swap hq x (List.mem_of_find?_eq_some hx) r' hr' (List.find?_some hx) hsel
    rw [hx, Option.bind_some, hrid']
  have hq' : q.swap ≠ own into := fun h' => hq (by rw [← q.swap_swap, h']; rfl)
  refine Option.ext fun id => ⟨himp q hq' id, fun hid => ?_⟩
  have := himp q.swap (q.swap_swap.symm ▸ hq) id hid
  rwa [q.swap_swap] at this

/-- A claim or a rotation that folds what it should keeps one row per pair, and the rest. -/
theorem Sound.rekey {M : Key} (hM : ∀ m, moves m = true ↔ m.key = M) (h : Sound e)
    (hf : e.Folds moves into) : Sound (e.rekey moves into).2 := by
  have hrows := foldInto_rows into hM h.unique hf.1
  have hcontent := foldInto_content (moving moves) (afterRow moves into) absorbRow
    (fun r i => r.rel.Has i) (fun b i => i ∈ b.map Prod.fst)
    (fun k r i => absorb_has k.rel.toEdge r.rel.toEdge i) e.rows.length [] e.rows
  rw [hrows, List.nil_append] at hcontent
  unfold Edges.rekey
  dsimp only
  rw [hrows]
  obtain ⟨hkept, hnext, hmem⟩ := forget_spec { e with rows := e.left moves into }
    ((foldInto (moving moves) (afterRow moves into) absorbRow e.rows.length [] e.rows).1.flatten.map
      Prod.fst)
  rw [hkept]
  have hheld (i) (rel nextRelation nextSeq made) : Held
      ⟨nextSeq, nextRelation, (e.left moves into).map (stampRow moves into), rel, made⟩ i ↔
        ∃ r ∈ e.left moves into, r.rel.Has i := by
    unfold Held
    simp only [List.mem_map, exists_exists_and_eq_and]
    rfl
  have hu : (((e.left moves into).map (stampRow moves into)).map Row.keys).Nodup := by
    rw [List.map_map]
    exact nodup_left hM h.unique hf
  have hfriend (q : Key × Key) (rel nextRelation nextSeq made) : (edgeAt
      ⟨nextSeq, nextRelation, (e.left moves into).map (stampRow moves into), rel, made⟩ q).friendship =
        ((e.left moves into).find? fun r => stampedKeys moves into r = q).bind
          fun r => r.rel.friendship := by
    unfold edgeAt
    dsimp only
    rw [List.find?_map]
    show Edge.friendship (Option.getD (Option.map _ (Option.map _
      ((e.left moves into).find? fun r => stampedKeys moves into r = q))) {}) = _
    cases (e.left moves into).find? fun r => stampedKeys moves into r = q <;> rfl
  refine .of_view hu (fun q => ?_) (fun i => ?_) (fun i hi => ?_)
  · rw [hfriend, hfriend]
    by_cases hq : q = own into
    · rw [hq]
      rfl
    · have hq' : q.swap ≠ own into := fun h' => hq (by rw [← q.swap_swap, h']; rfl)
      rw [left_friendship hM hq h.unique, left_friendship hM hq' h.unique,
        h.find_swap (fun _ _ _ hk => staying_swap hM hk)
          (fun q hq r hr r' hr' h₁ h₂ =>
            arriving_or_staying_unique hM h.unique hq hr hr' (.inl ⟨h₁, h₂⟩)) hq,
        h.find_swap (fun _ _ _ hk => arriving_swap hM hk)
          (fun q hq r hr r' hr' h₁ h₂ =>
            arriving_or_staying_unique hM h.unique hq hr hr' (.inr ⟨h₁, h₂⟩)) hq]
  · rw [hheld, hmem]
    show i ∈ e.relations ∧ _ ↔ _
    rw [h.live]
    have hlost : i ∈ ((foldInto (moving moves) (afterRow moves into) absorbRow
        e.rows.length [] e.rows).1.flatten.map Prod.fst) ↔
        ∃ b ∈ (foldInto (moving moves) (afterRow moves into) absorbRow
          e.rows.length [] e.rows).1, i ∈ b.map Prod.fst := by
      simp only [List.map_flatten, List.mem_flatten, List.mem_map, exists_exists_and_eq_and]
    constructor
    · rintro ⟨hin, hkeep⟩
      rcases (hcontent i).mpr hin with hgone | hleft
      · exact hkeep (hlost.mpr hgone)
      · exact hleft
    · intro hleft
      exact ⟨(hcontent i).mp (.inr hleft), fun _ => hleft⟩
  · rw [hnext]
    exact h.minted i ((hmem i).mp hi).1

theorem claimMoves_iff {login : String} (m : Mailbox) :
    claimMoves login m = true ↔ m.key = .login login := by
  obtain ⟨ml, mf⟩ := m
  cases mf <;> simp [claimMoves, Mailbox.key]

theorem rotateMoves_iff {old : Fingerprint} (m : Mailbox) :
    rotateMoves old m = true ↔ m.key = .fingerprint old := by
  obtain ⟨ml, mf⟩ := m
  cases mf <;> simp [rotateMoves, Mailbox.key]

end Edges

/-! ## Whole runs -/

/-- What an operation asks of the store: a friendship made again was made before, and a claim or a
rotation folds the rows it moves. -/
def Op.Keeps (e : Edges) : Op → Prop
  | .refriend _ _ id _ => id ≤ e.nextRelation
  | .claim login fp => e.Folds (Edges.claimMoves login) fp
  | .rotate old new => e.Folds (Edges.rotateMoves old) new
  | _ => True

/-- Every operation of a run is asked for where it keeps the rows. -/
def Keeping : Edges → List Op → Prop
  | _, [] => True
  | e, op :: ops => op.Keeps e ∧ Keeping (e.step op).2 ops

/-- The id an operation mints: `mint` alone moves `nextRelation`, onto the id it answers. -/
def Op.Mints (e : Edges) (op : Op) (id : RelationId) : Prop :=
  (e.step op).2.nextRelation = e.nextRelation + 1 ∧ id = e.nextRelation + 1

theorem Edges.Sound.step {e : Edges} (h : e.Sound) {op : Op} (hop : op.Keeps e) :
    (e.step op).2.Sound := by
  cases op with
  | setAlias a b name =>
    exact h.edit (f := fun d => ((), { d with «alias» := name })) a b (fun _ => rfl) fun _ => rfl
  | setBlocked a b blocked now =>
    exact h.edit (f := fun d => ((), { d with
      blockedAt := if blocked then d.blockedAt.or (some now) else none })) a b (fun _ => rfl) fun _ => rfl
  | setPendingOut a b pending =>
    exact h.edit (f := fun d => ((), { d with pendingOut := pending })) a b (fun _ => rfl) fun _ => rfl
  | setIgnore a b ignore =>
    exact h.edit (f := fun d => ((), { d with ignore := ignore })) a b (fun _ => rfl) fun _ => rfl
  | befriend a b now => exact h.befriend a b now
  | unfriend a b => exact h.unfriend a b
  | approve a b now => exact h.approve a b now
  | endApproval a b => exact h.endApproval a b
  | refriend a b id now => exact h.refriend a b now hop
  | claim login fp => exact h.rekey Edges.claimMoves_iff hop
  | rotate old new => exact h.rekey Edges.rotateMoves_iff hop
  | purge of => exact h.purge of
  | cleanup before batch => exact h.cleanup before batch

theorem Edges.Sound.run {e : Edges} (h : e.Sound) {ops : List Op} (hops : Keeping e ops) :
    (runs Edges.step e ops).2.Sound := by
  induction ops generalizing e with
  | nil => exact h
  | cons op ops ih => exact ih (h.step hops.1) hops.2

theorem Keeping.take {e : Edges} {ops : List Op} (h : Keeping e ops) (n : Nat) :
    Keeping e (ops.take n) := by
  induction ops generalizing e n with
  | nil => simpa using h
  | cons op ops ih =>
    cases n with
    | zero => trivial
    | succ n => exact ⟨h.1, ih h.2 n⟩

namespace Edges

theorem edit_nextRelation {α : Type} (e : Edges) (a b : Mailbox) (f : Edge → α × Edge) :
    (e.edit a b f).2.nextRelation = e.nextRelation := by
  unfold edit
  split <;> rfl

theorem forget_nextRelation (e : Edges) (ids : List RelationId) :
    (e.forget ids).nextRelation = e.nextRelation := (forget_spec e ids).2.1

theorem rekey_nextRelation (e : Edges) (moves : Mailbox → Bool) (into : Fingerprint) :
    (e.rekey moves into).2.nextRelation = e.nextRelation := by
  unfold rekey
  exact forget_nextRelation { e with rows := _ } _

theorem takeFriendship_nextRelation (e : Edges) (a b : Mailbox) :
    (e.takeFriendship a b).2.nextRelation = e.nextRelation := by
  unfold takeFriendship
  split
  · exact edit_nextRelation e a b _
  · rfl

/-- Ids are minted upward. -/
theorem le_step_nextRelation (e : Edges) (op : Op) :
    e.nextRelation ≤ (e.step op).2.nextRelation := by
  cases op with
  | setAlias a b name => exact (edit_nextRelation e a b _).ge
  | setBlocked a b blocked now => exact (edit_nextRelation e a b _).ge
  | setPendingOut a b pending => exact (edit_nextRelation e a b _).ge
  | setIgnore a b ignore => exact (edit_nextRelation e a b _).ge
  | befriend a b now =>
    show e.nextRelation ≤ (e.befriend a b now).2.nextRelation
    unfold befriend
    dsimp only
    split
    · split
      · exact le_rfl
      · rw [forget_nextRelation, edit_nextRelation, edit_nextRelation]
        exact Nat.le_succ _
    · rw [forget_nextRelation, edit_nextRelation, edit_nextRelation]
      exact Nat.le_succ _
  | unfriend a b =>
    show e.nextRelation ≤ (e.unfriend a b).2.nextRelation
    unfold unfriend
    rw [forget_nextRelation, takeFriendship_nextRelation, takeFriendship_nextRelation]
  | approve a b now =>
    show e.nextRelation ≤ (e.approve a b now).2.nextRelation
    unfold approve
    split
    · exact le_rfl
    · dsimp only
      rw [edit_nextRelation]
      exact Nat.le_succ _
  | endApproval a b =>
    show e.nextRelation ≤ (e.endApproval a b).2.nextRelation
    unfold endApproval
    split
    · dsimp only
      rw [forget_nextRelation, edit_nextRelation]
    · exact le_rfl
  | refriend a b id now =>
    show e.nextRelation ≤ (e.refriend a b id now).nextRelation
    unfold refriend
    dsimp only
    rw [forget_nextRelation, edit_nextRelation, edit_nextRelation]
  | claim login fp => exact (rekey_nextRelation e _ fp).ge
  | rotate old new => exact (rekey_nextRelation e _ new).ge
  | purge of =>
    show e.nextRelation ≤ (e.purge of).nextRelation
    unfold purge
    dsimp only
    rw [forget_nextRelation]
  | cleanup before batch => exact le_rfl

theorem le_runs_nextRelation (e : Edges) (ops : List Op) :
    e.nextRelation ≤ (runs Edges.step e ops).2.nextRelation := by
  induction ops generalizing e with
  | nil => exact le_rfl
  | cons op ops ih => exact (le_step_nextRelation e op).trans (ih _)

end Edges

/-- In every run whose operations keep the rows: in each state it reaches no two rows are of one
pair of keys, each friendship is on both of its rows, and the live ids are those on rows; and an id
live in an earlier state is never minted. -/
theorem one_row_per_pair {ops : List Op} (h : Keeping {} ops) :
    (∀ n, (runs Edges.step {} (ops.take n)).2.Sound) ∧
      ∀ before op after id, ops = before ++ op :: after →
        op.Mints (runs Edges.step {} before).2 id →
        ∀ n, id ∉ (runs Edges.step {} (before.take n)).2.relations := by
  refine ⟨fun n => Edges.Sound.empty.run (h.take n), ?_⟩
  rintro before op after id rfl ⟨-, rfl⟩ n hlive
  have hsound : (runs Edges.step {} (before.take n)).2.Sound := by
    refine Edges.Sound.empty.run ?_
    have := h.take (min n before.length)
    rwa [List.take_append_of_le_length (Nat.min_le_right _ _), ← List.take_take,
      List.take_length] at this
  have hle := hsound.minted _ hlive
  have hgrow : (runs Edges.step {} (before.take n)).2.nextRelation ≤
      (runs Edges.step {} before).2.nextRelation := by
    conv_rhs => rw [← List.take_append_drop n before, runs_append]
    exact Edges.le_runs_nextRelation _ _
  exact absurd (hle.trans hgrow) (Nat.not_succ_le_self _)

/-- A run with a claim that folds a stranger's rows into the account's. -/
theorem one_row_per_pair_folding :
    Keeping {} [.befriend ⟨"bob", none⟩ ⟨"carol", none⟩ 0,
        .setBlocked (.identified "dan" (.replicate 32 1)) ⟨"carol", none⟩ true 0,
        .claim "bob" (.replicate 32 1)] ∧
      ∀ n, (runs Edges.step {} ([.befriend ⟨"bob", none⟩ ⟨"carol", none⟩ 0,
        .setBlocked (.identified "dan" (.replicate 32 1)) ⟨"carol", none⟩ true 0,
        .claim "bob" (.replicate 32 1)].take n)).2.Sound := by
  have hkeeping : Keeping {} [.befriend ⟨"bob", none⟩ ⟨"carol", none⟩ 0,
      .setBlocked (.identified "dan" (.replicate 32 1)) ⟨"carol", none⟩ true 0,
      .claim "bob" (.replicate 32 1)] := by
    refine ⟨trivial, trivial, ⟨fun r hr => ?_, .inr (by decide +kernel)⟩, trivial⟩
    have hshort : ∀ r ∈ ((Edges.step (Edges.step {} (.befriend ⟨"bob", none⟩ ⟨"carol", none⟩ 0)).2
        (.setBlocked (.identified "dan" (.replicate 32 1)) ⟨"carol", none⟩ true 0)).2).rows,
        r.rel.owner.login.toList.length < 64 ∧ r.rel.other.login.toList.length < 64 := by
      decide +kernel
    exact ⟨Mailbox.plain_of_short (hshort r hr).1, Mailbox.plain_of_short (hshort r hr).2⟩
  exact ⟨hkeeping, (one_row_per_pair hkeeping).1⟩

/-- An account that claims the login of a friend of its own is left with two rows about itself. -/
theorem claim_leaves_two_rows :
    ¬ (runs Edges.step {} [.befriend ⟨"bob", none⟩ (.identified "bob" (.replicate 32 1)) 0,
      .claim "bob" (.replicate 32 1)]).2.Unique := by
  unfold Edges.Unique
  decide +kernel

end HxdNg.Relationships
