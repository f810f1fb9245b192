import HxdNg.Lib.Runs
import HxdNg.Relationships.Rows

/-!
# One row per pair

While no two rows are of one pair of keys, the rows are a map from pairs to what was decided.

* `Edges.edgeAt` : what the store has on a pair;
* `Edges.Sound` : one row per pair, each friendship on both of its rows, the live ids those on rows;
* `Edges.sound_step` : each operation keeps it, a claim or a rotation where `Folds` holds.
-/

namespace HxdNg.Relationships

open Identity

/-- The keys of the pair a row is of. -/
def Row.keys (r : Row) : Key × Key := (r.rel.owner.key, r.rel.other.key)

theorem is_iff {m k : Mailbox} : is m k = true ↔ m.key = k.key := by
  obtain ⟨ml, mf⟩ := m
  obtain ⟨kl, kf⟩ := k
  cases mf <;> cases kf <;> simp [is, Mailbox.matches, Mailbox.key, eq_comm]

theorem is_and_is (a b : Mailbox) (r : Row) :
    (is r.rel.owner a && is r.rel.other b) = decide (r.keys = (a.key, b.key)) := by
  rw [Bool.eq_iff_iff, Bool.and_eq_true, is_iff, is_iff, decide_eq_true_eq, Row.keys, Prod.mk.injEq]

namespace Edge
variable {d dup : Edge} {id : RelationId}

@[simp] theorem settle_friendship : d.settle.friendship = d.friendship := by
  unfold settle; split <;> rfl

@[simp] theorem settle_approval : d.settle.approval = d.approval := by
  unfold settle; split <;> rfl

@[simp] theorem floorRow_friendship : d.floorRow.friendship = d.friendship := rfl

@[simp] theorem floorRow_approval : d.floorRow.approval = d.approval := rfl

/-- Nothing is left of a settled row with nothing decided. -/
theorem settle_eq_empty (h : d.settle.isEmpty = true) : d.settle = {} := by
  obtain ⟨name, blocked, friendship, approval, pending, ignore⟩ := d
  cases friendship <;> cases blocked <;> simp_all [settle, isEmpty]

/-- The ids on a row. -/
def Has (d : Edge) (id : RelationId) : Prop := d.friendship = some id ∨ d.approval = some id

instance : Decidable (d.Has id) := inferInstanceAs (Decidable (_ ∨ _))

theorem not_has_empty : ¬ Has {} id := by simp [Has]

@[simp] theorem has_settle : d.settle.Has id ↔ d.Has id := by simp [Has]

@[simp] theorem has_floorRow : d.floorRow.Has id ↔ d.Has id := Iff.rfl

end Edge

namespace Edges
variable {e : Edges} {a b : Mailbox} {p q : Key × Key} {id : RelationId}

/-- What the store has on a pair: nothing decided where it has no row. -/
def edgeAt (e : Edges) (p : Key × Key) : Edge :=
  ((e.rows.find? fun r => r.keys = p).map fun r => r.rel.toEdge).getD {}

/-- At most one row is of each pair of keys. -/
def Unique (e : Edges) : Prop := (e.rows.map Row.keys).Nodup

theorem find_eq (e : Edges) (a b : Mailbox) :
    e.find a b = e.rows.find? fun r => r.keys = (a.key, b.key) := by
  unfold find
  simp only [is_and_is]

theorem edgeAt_find (e : Edges) (a b : Mailbox) :
    e.edgeAt (a.key, b.key) = ((e.find a b).map fun r => r.rel.toEdge).getD {} := by
  rw [find_eq]
  rfl

theorem find_friendship (e : Edges) (a b : Mailbox) :
    (e.find a b).bind (fun r => r.rel.friendship) = (e.edgeAt (a.key, b.key)).friendship := by
  rw [edgeAt_find]
  cases e.find a b <;> rfl

theorem find_approval (e : Edges) (a b : Mailbox) :
    (e.find a b).bind (fun r => r.rel.approval) = (e.edgeAt (a.key, b.key)).approval := by
  rw [edgeAt_find]
  cases e.find a b <;> rfl

theorem edgeAt_of_not_find (h : (e.find a b).isSome = false) : e.edgeAt (a.key, b.key) = {} := by
  have hnone : e.find a b = none := by simpa using h
  rw [edgeAt_find, hnone]
  rfl

theorem edgeAt_eq (hu : e.Unique) {r : Row} (hr : r ∈ e.rows) : e.edgeAt r.keys = r.rel.toEdge := by
  unfold edgeAt
  rw [(find?_key_iff hu).mpr ⟨hr, rfl⟩]
  rfl

/-- What is decided on a pair is decided on its row. -/
theorem exists_row_iff {P : Edge → Prop} (hP : ¬ P {}) (hu : e.Unique) :
    (∃ r ∈ e.rows, r.keys = p ∧ P r.rel.toEdge) ↔ P (e.edgeAt p) := by
  refine ⟨fun ⟨r, hr, hk, h⟩ => ?_, fun h => ?_⟩
  · rw [← hk, edgeAt_eq hu hr]
    exact h
  · unfold edgeAt at h
    cases hf : e.rows.find? fun r => r.keys = p with
    | none =>
      rw [hf] at h
      exact absurd h hP
    | some r =>
      rw [hf] at h
      obtain ⟨hr, hk⟩ := (find?_key_iff hu).mp hf
      exact ⟨r, hr, hk, h⟩

/-- An id on a row. -/
def Held (e : Edges) (id : RelationId) : Prop := ∃ r ∈ e.rows, r.rel.Has id

theorem holds_iff : e.holds id = true ↔ e.Held id := by
  simp [holds, Held, Edge.Has]

theorem held_iff (hu : e.Unique) : e.Held id ↔ ∃ p, (e.edgeAt p).Has id := by
  refine ⟨fun ⟨r, hr, h⟩ => ⟨r.keys, by rwa [edgeAt_eq hu hr]⟩, fun ⟨p, h⟩ => ?_⟩
  obtain ⟨r, hr, -, hid⟩ :=
    (exists_row_iff (P := fun d => d.Has id) Edge.not_has_empty hu).mpr h
  exact ⟨r, hr, hid⟩

/-! ## Editing a row -/

section Edit
variable {α : Type} (f : Edge → α × Edge)

/-- What an edit leaves of what was decided. -/
def edited (d : Edge) : Edge := (f d).2.floorRow.settle

theorem keys_editRow {r r' : Row} (h : (editRow f r).2 = some r') : r'.keys = r.keys := by
  unfold editRow at h
  dsimp only at h
  split at h
  · cases h
  · obtain rfl := Option.some.inj h
    rfl

theorem editRow_edge (r : Row) :
    ((editRow f r).2.map fun r => r.rel.toEdge).getD {} = edited f r.rel.toEdge := by
  unfold editRow edited
  dsimp only
  split
  · next h => exact (Edge.settle_eq_empty h).symm
  · rfl

/-- An edit answers for the pair it is of, changes what is decided there, and nothing else. -/
theorem edit_spec (hu : e.Unique) (a b : Mailbox) :
    (e.edit a b f).1 = (f (e.edgeAt (a.key, b.key))).1 ∧ (e.edit a b f).2.Unique ∧
      (∀ p, (e.edit a b f).2.edgeAt p =
        if p = (a.key, b.key) then edited f (e.edgeAt (a.key, b.key)) else e.edgeAt p) ∧
      (e.edit a b f).2.relations = e.relations ∧
      (e.edit a b f).2.nextRelation = e.nextRelation := by
  unfold edit
  simp only [is_and_is]
  split
  · next out rows hedit =>
    have hkeys (r r') (h : (editRow f r).2 = some r') : r'.keys = r.keys := keys_editRow f h
    refine ⟨?_, nodup_key_editFirst hkeys hu hedit, fun p => ?_, rfl, rfl⟩
    · obtain ⟨r, hr, rfl, -⟩ := find?_key_editFirst hkeys hu hedit (a.key, b.key)
      simp [edgeAt, hr, editRow]
    · obtain ⟨r, hr, -, hfind⟩ := find?_key_editFirst hkeys hu hedit p
      unfold edgeAt
      rw [hfind, hr]
      by_cases hp : p = (a.key, b.key)
      · rw [if_pos hp, if_pos hp]
        exact editRow_edge f r
      · rw [if_neg hp, if_neg hp]
  · next hnone =>
    rw [editFirst_eq_none] at hnone
    have hmiss : e.rows.find? (fun r => r.keys = (a.key, b.key)) = none :=
      List.find?_eq_none.mpr fun r hr => by simpa using hnone r hr
    have hempty : e.edgeAt (a.key, b.key) = {} := by simp [edgeAt, hmiss]
    have hedge := editRow_edge f ⟨e.nextSeq + 1, { owner := a, other := b }⟩
    have hkeys (r') (h : (editRow f ⟨e.nextSeq + 1, { owner := a, other := b }⟩).2 = some r') :
        r'.keys = (a.key, b.key) := keys_editRow f h
    refine ⟨by rw [hempty]; rfl, ?_, fun p => ?_, rfl, rfl⟩
    · show ((e.rows ++ (editRow f _).2.toList).map Row.keys).Nodup
      cases hrow : (editRow f ⟨e.nextSeq + 1, { owner := a, other := b }⟩).2 with
      | none =>
        rw [Option.toList_none, List.append_nil]
        exact hu
      | some r' =>
        rw [Option.toList_some, List.map_append, List.nodup_append]
        refine ⟨hu, List.nodup_singleton _, fun k hk k' hk' => ?_⟩
        obtain ⟨r, hr, rfl⟩ := List.mem_map.mp hk
        obtain rfl : k' = r'.keys := by simpa using hk'
        rw [hkeys r' hrow]
        simpa using hnone r hr
    · show (((e.rows ++ (editRow f _).2.toList).find? fun r => r.keys = p).map
        fun r => r.rel.toEdge).getD {} = _
      rw [List.find?_append, hempty]
      by_cases hp : p = (a.key, b.key)
      · subst hp
        rw [if_pos rfl, hmiss, Option.none_or, ← hedge]
        cases hrow : (editRow f ⟨e.nextSeq + 1, { owner := a, other := b }⟩).2 with
        | none => rfl
        | some r' => simp [hkeys r' hrow]
      · have hskip : (editRow f ⟨e.nextSeq + 1, { owner := a, other := b }⟩).2.toList.find?
            (fun r => r.keys = p) = none := by
          rw [List.find?_eq_none]
          intro r' hr'
          rw [hkeys r' (by simpa using hr')]
          simpa using Ne.symm hp
        rw [if_neg hp, hskip, Option.or_none]
        rfl

end Edit

/-! ## Forgetting ids -/

theorem forget_spec (e : Edges) (ids : List RelationId) :
    (e.forget ids).rows = e.rows ∧ (e.forget ids).nextRelation = e.nextRelation ∧
      ∀ id, id ∈ (e.forget ids).relations ↔ id ∈ e.relations ∧ (id ∈ ids → e.Held id) := by
  induction ids generalizing e with
  | nil => simp [forget]
  | cons i ids ih =>
    unfold forget
    by_cases hi : e.holds i = true
    · obtain ⟨hrows, hnext, hmem⟩ := ih e
      rw [if_pos hi]
      refine ⟨hrows, hnext, fun id => ?_⟩
      rw [hmem, List.mem_cons]
      have hheld := holds_iff.mp hi
      refine and_congr_right fun _ => ⟨fun h hid => ?_, fun h hid => h (.inr hid)⟩
      rcases hid with rfl | hid
      · exact hheld
      · exact h hid
    · rw [if_neg hi]
      obtain ⟨hrows, hnext, hmem⟩ := ih { e with
        relations := e.relations.erase i
        made := fun j => if j = i then none else e.made j }
      refine ⟨hrows, hnext, fun id => ?_⟩
      have hheld : ∀ id, Held { e with
          relations := e.relations.erase i
          made := fun j => if j = i then none else e.made j } id ↔ e.Held id := fun _ => Iff.rfl
      rw [hmem, hheld, Finset.mem_erase, List.mem_cons]
      have hnot : ¬ e.Held i := fun h => hi (holds_iff.mpr h)
      constructor
      · rintro ⟨⟨hne, hin⟩, h⟩
        exact ⟨hin, fun hid => h (hid.resolve_left hne)⟩
      · rintro ⟨hin, h⟩
        refine ⟨⟨?_, hin⟩, fun hid => h (.inr hid)⟩
        rintro rfl
        exact hnot (h (.inl rfl))

/-! ## The invariant -/

/-- One row per pair, each friendship on both of its rows, and the live ids those on rows. -/
structure Sound (e : Edges) : Prop where
  unique : e.Unique
  mirrored : ∀ r ∈ e.rows, ∀ id, r.rel.friendship = some id →
    ∃ r' ∈ e.rows, r'.keys = r.keys.swap ∧ r'.rel.friendship = some id
  live : ∀ id, id ∈ e.relations ↔ e.Held id
  minted : ∀ id ∈ e.relations, id ≤ e.nextRelation

theorem Sound.empty : Sound {} where
  unique := List.nodup_nil
  mirrored _ hr := absurd hr List.not_mem_nil
  live id := by simp [Held]
  minted id h := absurd h (Finset.notMem_empty id)

/-- Whether each friendship is on both of its rows. -/
def Mirrored (e : Edges) : Prop := ∀ p, (e.edgeAt p).friendship = (e.edgeAt p.swap).friendship

theorem mirrored_iff (hu : e.Unique) : e.Mirrored ↔
    ∀ r ∈ e.rows, ∀ id, r.rel.friendship = some id →
      ∃ r' ∈ e.rows, r'.keys = r.keys.swap ∧ r'.rel.friendship = some id := by
  have hon (p : Key × Key) (id : RelationId) := exists_row_iff (e := e) (p := p)
    (P := fun d => d.friendship = some id) (by simp) hu
  constructor
  · intro h r hr id hid
    rw [hon, ← h, edgeAt_eq hu hr]
    exact hid
  · intro h p
    have himp (p : Key × Key) (id : RelationId) (hid : (e.edgeAt p).friendship = some id) :
        (e.edgeAt p.swap).friendship = some id := by
      obtain ⟨r, hr, rfl, hrid⟩ := (hon p id).mpr hid
      exact (hon r.keys.swap id).mp (h r hr id hrid)
    refine Option.ext fun id => ⟨himp p id, fun hid => ?_⟩
    rw [← p.swap_swap]
    exact himp p.swap id hid

theorem Sound.of_forget {ids : List RelationId} (hu : e.Unique) (hm : e.Mirrored)
    (hheld : ∀ id, e.Held id → id ∈ e.relations)
    (hlost : ∀ id ∈ e.relations, e.Held id ∨ id ∈ ids)
    (hmint : ∀ id ∈ e.relations, id ≤ e.nextRelation) : Sound (e.forget ids) := by
  obtain ⟨hrows, hnext, hmem⟩ := forget_spec e ids
  have hheld' (id) : (e.forget ids).Held id ↔ e.Held id := by rw [Held, hrows]; rfl
  refine ⟨?_, ?_, fun id => ?_, fun id h => ?_⟩
  · rw [Unique, hrows]
    exact hu
  · rw [hrows]
    exact (mirrored_iff hu).mp hm
  · rw [hmem, hheld']
    refine ⟨fun ⟨hin, h⟩ => ?_, fun h => ⟨hheld id h, fun _ => h⟩⟩
    rcases hlost id hin with h' | h'
    · exact h'
    · exact h h'
  · rw [hnext]
    exact hmint id ((hmem id).mp h).1

/-- The ids kept and the rows one per pair, with nothing to forget. -/
theorem Sound.of_view (hu : e.Unique) (hm : e.Mirrored)
    (hlive : ∀ id, id ∈ e.relations ↔ e.Held id)
    (hmint : ∀ id ∈ e.relations, id ≤ e.nextRelation) : Sound e :=
  ⟨hu, (mirrored_iff hu).mp hm, hlive, hmint⟩

theorem Sound.mirror (h : Sound e) (p : Key × Key) :
    (e.edgeAt p).friendship = (e.edgeAt p.swap).friendship := (mirrored_iff h.unique).mpr h.mirrored p

theorem Sound.has_relations (h : Sound e) (hid : (e.edgeAt p).Has id) : id ∈ e.relations :=
  (h.live id).mpr ((held_iff h.unique).mpr ⟨p, hid⟩)

/-- An operation that leaves the ids on every pair, and those live, as they were. -/
theorem Sound.of_same {e' : Edges} (h : Sound e) (hu : e'.Unique)
    (hf : ∀ p, (e'.edgeAt p).friendship = (e.edgeAt p).friendship)
    (ha : ∀ p, (e'.edgeAt p).approval = (e.edgeAt p).approval)
    (hr : e'.relations = e.relations) (hn : e'.nextRelation = e.nextRelation) : Sound e' := by
  refine .of_view hu (fun p => ?_) (fun id => ?_) ?_
  · rw [hf, hf]
    exact h.mirror p
  · rw [hr, h.live, held_iff h.unique, held_iff hu]
    simp only [Edge.Has, hf, ha]
  · rw [hr, hn]
    exact h.minted

/-! ## Edits, blocks and requests -/

theorem edited_friendship {α : Type} (f : Edge → α × Edge) (d : Edge) :
    (edited f d).friendship = (f d).2.friendship := by simp [edited]

theorem edited_approval {α : Type} (f : Edge → α × Edge) (d : Edge) :
    (edited f d).approval = (f d).2.approval := by simp [edited]

theorem edit_friendship {α : Type} (f : Edge → α × Edge) (hu : e.Unique) (a b : Mailbox)
    (p : Key × Key) : ((e.edit a b f).2.edgeAt p).friendship =
      if p = (a.key, b.key) then (f (e.edgeAt p)).2.friendship else (e.edgeAt p).friendship := by
  rw [(edit_spec f hu a b).2.2.1]
  by_cases hp : p = (a.key, b.key)
  · rw [if_pos hp, if_pos hp, edited_friendship, hp]
  · rw [if_neg hp, if_neg hp]

theorem edit_approval {α : Type} (f : Edge → α × Edge) (hu : e.Unique) (a b : Mailbox)
    (p : Key × Key) : ((e.edit a b f).2.edgeAt p).approval =
      if p = (a.key, b.key) then (f (e.edgeAt p)).2.approval else (e.edgeAt p).approval := by
  rw [(edit_spec f hu a b).2.2.1]
  by_cases hp : p = (a.key, b.key)
  · rw [if_pos hp, if_pos hp, edited_approval, hp]
  · rw [if_neg hp, if_neg hp]

theorem Sound.edit {α : Type} {f : Edge → α × Edge} (h : Sound e) (a b : Mailbox)
    (hf : ∀ d, (f d).2.friendship = d.friendship) (ha : ∀ d, (f d).2.approval = d.approval) :
    Sound (e.edit a b f).2 := by
  obtain ⟨-, hu, -, hr, hn⟩ := edit_spec f h.unique a b
  refine h.of_same hu (fun p => ?_) (fun p => ?_) hr hn
  · rw [edit_friendship f h.unique, hf, ite_self]
  · rw [edit_approval f h.unique, ha, ite_self]

/-! ## Making friends -/

section Pair
variable {f : Edge → List RelationId × Edge}

/-- Writing the same friendship on both rows of a pair, and no approval. -/
theorem edit_pair (hf : ∀ d, (f d).2.friendship = some id ∧ (f d).2.approval = none)
    (hu : e.Unique) (a b : Mailbox) :
    ((e.edit a b f).2.edit b a f).2.Unique ∧
      (∀ p, (((e.edit a b f).2.edit b a f).2.edgeAt p).friendship =
        if p = (a.key, b.key) ∨ p = (b.key, a.key) then some id else (e.edgeAt p).friendship) ∧
      (∀ p, (((e.edit a b f).2.edit b a f).2.edgeAt p).approval =
        if p = (a.key, b.key) ∨ p = (b.key, a.key) then none else (e.edgeAt p).approval) ∧
      ((e.edit a b f).2.edit b a f).2.relations = e.relations ∧
      ((e.edit a b f).2.edit b a f).2.nextRelation = e.nextRelation := by
  obtain ⟨-, hu₁, -, hr₁, hn₁⟩ := edit_spec f hu a b
  obtain ⟨-, hu₂, -, hr₂, hn₂⟩ := edit_spec f hu₁ b a
  refine ⟨hu₂, fun p => ?_, fun p => ?_, hr₂.trans hr₁, hn₂.trans hn₁⟩
  · rw [edit_friendship f hu₁, edit_friendship f hu, (hf _).1, (hf _).1]
    split_ifs <;> tauto
  · rw [edit_approval f hu₁, edit_approval f hu, (hf _).2, (hf _).2]
    split_ifs <;> tauto

theorem swap_mem_pair (a b : Key) (p : Key × Key) :
    (p.swap = (a, b) ∨ p.swap = (b, a)) ↔ (p = (a, b) ∨ p = (b, a)) := by
  obtain ⟨x, y⟩ := p
  simp only [Prod.swap_prod_mk, Prod.mk.injEq]
  tauto

variable (id) in
/-- Friends are made under an id that is live, the ids they had before forgotten. -/
theorem Sound.of_pair {ids : List RelationId} (hu : e.Unique) (hm : e.Mirrored)
    (hheld : ∀ p i, (e.edgeAt p).Has i → i ∈ e.relations)
    (hid : id ∈ e.relations) (hlive : ∀ i ∈ e.relations, i = id ∨ ∃ p, (e.edgeAt p).Has i)
    (hmint : ∀ i ∈ e.relations, i ≤ e.nextRelation)
    (hf : ∀ d, (f d).2.friendship = some id ∧ (f d).2.approval = none)
    (hids : ∀ i, i ≠ id → (e.edgeAt (a.key, b.key)).Has i ∨ (e.edgeAt (b.key, a.key)).Has i →
      i ∈ ids) :
    Sound (((e.edit a b f).2.edit b a f).2.forget ids) := by
  obtain ⟨hu', hf', ha', hr', hn'⟩ := edit_pair hf hu a b
  refine .of_forget hu' (fun p => ?_) (fun i hi => ?_) (fun i hi => ?_) ?_
  · rw [hf', hf', hm p]
    simp only [swap_mem_pair]
  · rw [hr']
    obtain ⟨p, hp⟩ := (held_iff hu').mp hi
    unfold Edge.Has at hp
    rw [hf', ha'] at hp
    split at hp
    · obtain rfl : id = i := by simpa using hp
      exact hid
    · exact hheld p i hp
  · rw [hr'] at hi
    rw [held_iff hu']
    by_cases hne : i = id
    · refine .inl ⟨(a.key, b.key), .inl ?_⟩
      rw [hf', if_pos (.inl rfl), hne]
    · obtain ⟨p, hp⟩ := (hlive i hi).resolve_left hne
      by_cases hpair : p = (a.key, b.key) ∨ p = (b.key, a.key)
      · refine .inr (hids i hne ?_)
        rcases hpair with rfl | rfl
        · exact .inl hp
        · exact .inr hp
      · refine .inl ⟨p, ?_⟩
        unfold Edge.Has at hp ⊢
        rwa [hf', ha', if_neg hpair, if_neg hpair]
  · rw [hr', hn']
    exact hmint

/-- What is answered for either row of a pair as it was. -/
theorem mem_edit_pair (hu : e.Unique) (a b : Mailbox) {i : RelationId}
    (h : i ∈ (f (e.edgeAt (a.key, b.key))).1 ∨ i ∈ (f (e.edgeAt (b.key, a.key))).1) :
    i ∈ (e.edit a b f).1 ++ ((e.edit a b f).2.edit b a f).1 := by
  obtain ⟨ho₁, hu₁, hedge₁, -, -⟩ := edit_spec f hu a b
  obtain ⟨ho₂, -, -, -, -⟩ := edit_spec f hu₁ b a
  rw [List.mem_append, ho₁, ho₂, hedge₁]
  by_cases hp : (b.key, a.key) = (a.key, b.key)
  · rw [hp] at h
    exact .inl (h.elim id id)
  · rw [if_neg hp]
    exact h

end Pair

theorem Sound.befriend (h : Sound e) (a b : Mailbox) (now : SystemTime) :
    Sound (e.befriend a b now).2 := by
  have hmake (ids : List RelationId) (hids : ∀ i, (e.edgeAt (a.key, b.key)).friendship = some i ∨
      (e.edgeAt (b.key, a.key)).friendship = some i → i ∈ ids) (made) :
      let e' : Edges := { e.mint.2 with made }
      let f := befriendEdge (e.nextRelation + 1)
      Sound (((e'.edit a b f).2.edit b a f).2.forget
        (ids ++ (e'.edit a b f).1 ++ ((e'.edit a b f).2.edit b a f).1)) := by
    intro e' f
    refine .of_pair (e.nextRelation + 1) h.unique h.mirror (fun p i hi => ?_) ?_
      (fun i hi => ?_) (fun i hi => ?_) (fun d => ⟨rfl, rfl⟩) (fun i hne hi => ?_)
    · exact Finset.mem_insert_of_mem (h.has_relations hi)
    · exact Finset.mem_insert_self _ _
    · refine (Finset.mem_insert.mp hi).imp id fun hi => ?_
      exact (held_iff h.unique).mp ((h.live i).mp hi)
    · show i ≤ e.nextRelation + 1
      rcases Finset.mem_insert.mp hi with rfl | hi
      · exact le_rfl
      · exact (h.minted i hi).trans (Nat.le_succ _)
    · rw [List.append_assoc, List.mem_append]
      have hends {p : Key × Key} (hi : (e.edgeAt p).approval = some i) :
          i ∈ (f (e'.edgeAt p)).1 := by
        show i ∈ (e.edgeAt p).approval.toList
        rw [hi]
        exact List.mem_singleton_self i
      rcases hi with (hi | hi) | (hi | hi)
      · exact .inl (hids i (.inl hi))
      · exact .inr (mem_edit_pair (e := e') h.unique a b (.inl (hends hi)))
      · exact .inl (hids i (.inr hi))
      · exact .inr (mem_edit_pair (e := e') h.unique a b (.inr (hends hi)))
  unfold Edges.befriend
  simp only [find_friendship]
  have hids (i) (hi : (e.edgeAt (a.key, b.key)).friendship = some i ∨
      (e.edgeAt (b.key, a.key)).friendship = some i) :
      i ∈ (e.edgeAt (a.key, b.key)).friendship.toList ++
        (e.edgeAt (b.key, a.key)).friendship.toList := by
    simpa using hi
  split
  · split
    · exact h
    · exact hmake _ hids _
  · exact hmake _ hids _

theorem Sound.refriend (h : Sound e) (a b : Mailbox) {id : RelationId} (now : SystemTime)
    (hid : id ≤ e.nextRelation) : Sound (e.refriend a b id now) := by
  let e' : Edges := { e with
    relations := insert id e.relations
    made := fun i => if i = id then (e.made id).or (some (floor now)) else e.made i }
  show Sound (((e'.edit a b (refriendEdge id)).2.edit b a (refriendEdge id)).2.forget _)
  refine .of_pair id h.unique h.mirror (fun p i hi => ?_) ?_ (fun i hi => ?_)
    (fun i hi => ?_) (fun d => ⟨rfl, rfl⟩) (fun i hne hi => ?_)
  · exact Finset.mem_insert_of_mem (h.has_relations hi)
  · exact Finset.mem_insert_self _ _
  · refine (Finset.mem_insert.mp hi).imp_right fun hi => ?_
    exact (held_iff h.unique).mp ((h.live i).mp hi)
  · show i ≤ e.nextRelation
    rcases Finset.mem_insert.mp hi with rfl | hi
    · exact hid
    · exact h.minted i hi
  · rw [List.mem_filter]
    refine ⟨mem_edit_pair (e := e') h.unique a b
      (hi.imp (fun hi => ?_) fun hi => ?_), by simpa using hne⟩
    · simpa [refriendEdge, Edge.Has] using hi
    · simpa [refriendEdge, Edge.Has] using hi

/-! ## Ending friendships and approvals -/

theorem takeFriendship_spec (hu : e.Unique) (a b : Mailbox) :
    (e.takeFriendship a b).1 = (e.edgeAt (a.key, b.key)).friendship ∧
      (e.takeFriendship a b).2.Unique ∧
      (∀ p, ((e.takeFriendship a b).2.edgeAt p).friendship =
        if p = (a.key, b.key) then none else (e.edgeAt p).friendship) ∧
      (∀ p, ((e.takeFriendship a b).2.edgeAt p).approval = (e.edgeAt p).approval) ∧
      (e.takeFriendship a b).2.relations = e.relations ∧
      (e.takeFriendship a b).2.nextRelation = e.nextRelation := by
  unfold takeFriendship
  by_cases hfound : (e.find a b).isSome = true
  · rw [if_pos hfound]
    obtain ⟨hout, hu', -, hr, hn⟩ :=
      edit_spec (fun d => (d.friendship, { d with friendship := none })) hu a b
    refine ⟨hout, hu', fun p => ?_, fun p => ?_, hr, hn⟩
    · rw [edit_friendship _ hu]
    · rw [edit_approval _ hu, ite_self]
  · rw [if_neg hfound]
    have hempty := edgeAt_of_not_find (by simpa using hfound)
    refine ⟨by rw [hempty], hu, fun p => ?_, fun _ => rfl, rfl, rfl⟩
    split
    · next hp => rw [hp, hempty]
    · rfl

theorem Sound.unfriend (h : Sound e) (a b : Mailbox) : Sound (e.unfriend a b).2 := by
  obtain ⟨ho₁, hu₁, hf₁, ha₁, hr₁, hn₁⟩ := takeFriendship_spec h.unique a b
  obtain ⟨ho₂, hu₂, hf₂, ha₂, hr₂, hn₂⟩ := takeFriendship_spec hu₁ b a
  have hf (p) : (((e.takeFriendship a b).2.takeFriendship b a).2.edgeAt p).friendship =
      if p = (a.key, b.key) ∨ p = (b.key, a.key) then none else (e.edgeAt p).friendship := by
    rw [hf₂, hf₁]
    by_cases hp : p = (b.key, a.key)
    · rw [if_pos hp, if_pos (.inr hp)]
    · simp only [hp, if_false, or_false]
  unfold Edges.unfriend
  refine .of_forget hu₂ (fun p => ?_) (fun i hi => ?_) (fun i hi => ?_) ?_
  · rw [hf, hf, h.mirror p]
    simp only [swap_mem_pair]
  · rw [hr₂, hr₁]
    obtain ⟨p, hp⟩ := (held_iff hu₂).mp hi
    refine h.has_relations (p := p) ?_
    unfold Edge.Has at hp ⊢
    rw [hf, ha₂, ha₁] at hp
    split at hp
    · exact .inr (by simpa using hp)
    · exact hp
  · rw [hr₂, hr₁] at hi
    rw [held_iff hu₂]
    obtain ⟨p, hp⟩ := (held_iff h.unique).mp ((h.live i).mp hi)
    by_cases hpair : p = (a.key, b.key) ∨ p = (b.key, a.key)
    · rcases hp with hp | hp
      · refine .inr ?_
        rw [List.mem_append, ho₂, ho₁, hf₁]
        rcases hpair with rfl | rfl
        · simp [hp]
        · -- Both rows of the pair carry it.
          left
          rw [h.mirror] at hp
          simpa using hp
      · exact .inl ⟨p, .inr (by rw [ha₂, ha₁, hp])⟩
    · refine .inl ⟨p, ?_⟩
      unfold Edge.Has at hp ⊢
      rwa [hf, if_neg hpair, ha₂, ha₁]
  · rw [hr₂, hr₁, hn₂, hn₁]
    exact h.minted

theorem Sound.approve (h : Sound e) (a b : Mailbox) (now : SystemTime) :
    Sound (e.approve a b now).2 := by
  have hnew (made) (hnone : (e.edgeAt (a.key, b.key)).approval = none) :
      let e' : Edges := { e.mint.2 with made }
      Sound (e'.edit a b fun d => ((), { d with approval := some (e.nextRelation + 1) })).2 := by
    intro e'
    let f (d : Edge) : Unit × Edge := ((), { d with approval := some (e.nextRelation + 1) })
    obtain ⟨-, hu, -, hr, hn⟩ := edit_spec (e := e') f h.unique a b
    have hfriend (p) : ((e'.edit a b f).2.edgeAt p).friendship = (e.edgeAt p).friendship := by
      rw [edit_friendship f (e := e') h.unique]
      exact ite_self _
    have happroval (p) : ((e'.edit a b f).2.edgeAt p).approval =
        if p = (a.key, b.key) then some (e.nextRelation + 1) else (e.edgeAt p).approval :=
      edit_approval f (e := e') h.unique a b p
    refine .of_view hu (fun p => ?_) (fun i => ?_) (fun i hi => ?_)
    · rw [hfriend, hfriend, h.mirror]
    · rw [hr, held_iff hu]
      simp only [Edge.Has, hfriend, happroval]
      show i ∈ insert (e.nextRelation + 1) e.relations ↔ _
      rw [Finset.mem_insert, h.live, held_iff h.unique]
      constructor
      · rintro (rfl | ⟨p, hp | hp⟩)
        · exact ⟨(a.key, b.key), .inr (if_pos rfl)⟩
        · exact ⟨p, .inl hp⟩
        · refine ⟨p, .inr ?_⟩
          rwa [if_neg]
          rintro rfl
          rw [hnone] at hp
          cases hp
      · rintro ⟨p, hp | hp⟩
        · exact .inr ⟨p, .inl hp⟩
        · split at hp
          · exact .inl (Option.some.inj hp).symm
          · exact .inr ⟨p, .inr hp⟩
    · rw [hr] at hi
      rw [hn]
      show i ≤ e.nextRelation + 1
      rcases Finset.mem_insert.mp hi with rfl | hi
      · exact le_rfl
      · exact (h.minted i hi).trans (Nat.le_succ _)
  unfold Edges.approve
  rw [find_approval]
  split
  · exact h
  · next hnone => exact hnew _ hnone

theorem Sound.endApproval (h : Sound e) (a b : Mailbox) : Sound (e.endApproval a b).2 := by
  unfold Edges.endApproval
  split
  · let f (d : Edge) := (d.approval, { d with approval := none })
    obtain ⟨hout, hu, -, hr, hn⟩ := edit_spec f h.unique a b
    have hfriend (p) : ((e.edit a b f).2.edgeAt p).friendship = (e.edgeAt p).friendship := by
      rw [edit_friendship f h.unique]
      exact ite_self _
    have happroval (p) : ((e.edit a b f).2.edgeAt p).approval =
        if p = (a.key, b.key) then none else (e.edgeAt p).approval :=
      edit_approval f h.unique a b p
    refine .of_forget hu (fun p => ?_) (fun i hi => ?_) (fun i hi => ?_) ?_
    · rw [hfriend, hfriend, h.mirror]
    · rw [hr]
      obtain ⟨p, hp⟩ := (held_iff hu).mp hi
      refine h.has_relations (p := p) ?_
      unfold Edge.Has at hp ⊢
      rw [hfriend, happroval] at hp
      split at hp
      · exact .inl (by simpa using hp)
      · exact hp
    · rw [hr] at hi
      rw [held_iff hu]
      obtain ⟨p, hp⟩ := (held_iff h.unique).mp ((h.live i).mp hi)
      rcases hp with hp | hp
      · exact .inl ⟨p, .inl (by rw [hfriend, hp])⟩
      · by_cases hpair : p = (a.key, b.key)
        · refine .inr ?_
          rw [hout, ← hpair]
          show i ∈ (e.edgeAt p).approval.toList
          rw [hp]
          exact List.mem_singleton_self i
        · exact .inl ⟨p, .inr (by rw [happroval, if_neg hpair, hp])⟩
    · rw [hr, hn]
      exact h.minted
  · exact h

/-! ## Purges and sweeps -/

theorem Sound.purge (h : Sound e) (of : Mailbox) : Sound (e.purge of) := by
  have hdoomed (r : Row) : (is r.rel.owner of || is r.rel.other of) =
      decide (r.keys.1 = of.key ∨ r.keys.2 = of.key) := by
    rw [Bool.eq_iff_iff, Bool.or_eq_true, is_iff, is_iff, decide_eq_true_eq]
    rfl
  unfold Edges.purge
  simp only [hdoomed]
  have hu : Unique { e with
      rows := e.rows.filter fun r => !decide (r.keys.1 = of.key ∨ r.keys.2 = of.key) } :=
    h.unique.sublist (List.filter_sublist.map _)
  refine .of_forget hu ((mirrored_iff hu).mpr fun r hr id hid => ?_) (fun i hi => ?_)
    (fun i hi => ?_) h.minted
  · obtain ⟨hr, hstay⟩ := List.mem_filter.mp hr
    obtain ⟨r', hr', hkeys, hid'⟩ := h.mirrored r hr id hid
    refine ⟨r', List.mem_filter.mpr ⟨hr', ?_⟩, hkeys, hid'⟩
    rw [hkeys, Prod.fst_swap, Prod.snd_swap]
    simpa [or_comm, and_comm] using hstay
  · obtain ⟨r, hr, hid⟩ := hi
    exact (h.live i).mpr ⟨r, (List.mem_filter.mp hr).1, hid⟩
  · obtain ⟨r, hr, hid⟩ := (h.live i).mp hi
    by_cases hd : r.keys.1 = of.key ∨ r.keys.2 = of.key
    · refine .inr (List.mem_flatMap.mpr ⟨r, List.mem_filter.mpr ⟨hr, by simpa using hd⟩, ?_⟩)
      simpa [Edge.Has] using hid
    · exact .inl ⟨r, List.mem_filter.mpr ⟨hr, by simpa using hd⟩, hid⟩

theorem asOf_ids (d : Edge) (now : SystemTime) :
    ((d.asOf now).getD {}).friendship = d.friendship ∧
      ((d.asOf now).getD {}).approval = d.approval := by
  have hids {d' : Edge} (hf : d'.friendship = d.friendship) (ha : d'.approval = d.approval) :
      ((if d'.settle.isEmpty then none else some d'.settle : Option Edge).getD {}).friendship =
          d.friendship ∧
        ((if d'.settle.isEmpty then none else some d'.settle : Option Edge).getD {}).approval =
          d.approval := by
    have hget : (if d'.settle.isEmpty then none else some d'.settle : Option Edge).getD {} =
        d'.settle := by
      split
      · next h => exact (Edge.settle_eq_empty h).symm
      · rfl
    rw [hget, Edge.settle_friendship, Edge.settle_approval]
    exact ⟨hf, ha⟩
  unfold Edge.asOf
  refine hids ?_ ?_
  · split <;> split <;> rfl
  · split <;> split <;> rfl

/-- Whether two rows are of one pair and carry the same ids. -/
def Agree (r r' : Row) : Prop :=
  r'.keys = r.keys ∧ r'.rel.friendship = r.rel.friendship ∧ r'.rel.approval = r.rel.approval

theorem agree_of_asOf {r : Row} {now : SystemTime} {rel : Relationship}
    (h : asOf r now = some rel) : Agree r { r with rel } := by
  unfold asOf at h
  obtain ⟨edge, hedge, rfl⟩ := Option.map_eq_some_iff.mp h
  have := asOf_ids r.rel.toEdge now
  rw [hedge] at this
  exact ⟨rfl, this⟩

theorem asOf_isSome {r : Row} (now : SystemTime) (h : r.rel.Has id) : (asOf r now).isSome := by
  unfold asOf
  rw [Option.isSome_map]
  by_contra hnone
  have hids := asOf_ids r.rel.toEdge now
  rw [Option.not_isSome_iff_eq_none.mp hnone] at hids
  rw [Edge.Has, ← hids.1, ← hids.2] at h
  exact Edge.not_has_empty h

/-- A sweep takes no row with an id, and changes no id. -/
theorem lapse_spec (before : SystemTime) (n : Nat) (rows : List Row) :
    ((lapse before n rows).map Row.keys).Sublist (rows.map Row.keys) ∧
      (∀ r' ∈ lapse before n rows, ∃ r ∈ rows, Agree r r') ∧
      ∀ r ∈ rows, ∀ id, r.rel.Has id → ∃ r' ∈ lapse before n rows, Agree r r' := by
  have hself (r : Row) : Agree r r := ⟨rfl, rfl, rfl⟩
  induction rows generalizing n with
  | nil => exact ⟨by simp [lapse], by simp [lapse], by simp⟩
  | cons r rows ih =>
    cases n with
    | zero =>
      exact ⟨List.Sublist.refl _, fun r' h => ⟨r', h, hself r'⟩, fun r' h _ _ => ⟨r', h, hself r'⟩⟩
    | succ n =>
      unfold lapse
      split
      · obtain ⟨hkeys, hfrom, hto⟩ := ih (n + 1)
        refine ⟨hkeys.cons_cons _, fun r' hr' => ?_, fun r' hr' id hid => ?_⟩
        · rcases List.mem_cons.mp hr' with rfl | hr'
          · exact ⟨r', List.mem_cons_self, hself r'⟩
          · obtain ⟨r'', h, hag⟩ := hfrom r' hr'
            exact ⟨r'', List.mem_cons_of_mem _ h, hag⟩
        · rcases List.mem_cons.mp hr' with rfl | hr'
          · exact ⟨r', List.mem_cons_self, hself r'⟩
          · obtain ⟨r'', h, hag⟩ := hto r' hr' id hid
            exact ⟨r'', List.mem_cons_of_mem _ h, hag⟩
      · obtain ⟨hkeys, hfrom, hto⟩ := ih n
        cases hnow : asOf r before with
        | none =>
          refine ⟨hkeys.cons _, fun r' hr' => ?_, fun r' hr' id hid => ?_⟩
          · obtain ⟨r'', h, hag⟩ := hfrom r' (by simpa using hr')
            exact ⟨r'', List.mem_cons_of_mem _ h, hag⟩
          · rcases List.mem_cons.mp hr' with rfl | hr'
            · have := asOf_isSome before hid
              simp [hnow] at this
            · obtain ⟨r'', h, hag⟩ := hto r' hr' id hid
              exact ⟨r'', by simpa using h, hag⟩
        | some rel =>
          have hag := agree_of_asOf hnow
          simp only [Option.map_some, Option.toList_some, List.singleton_append]
          refine ⟨?_, fun r' hr' => ?_, fun r' hr' id hid => ?_⟩
          · rw [List.map_cons, List.map_cons, hag.1]
            exact hkeys.cons_cons _
          · rcases List.mem_cons.mp hr' with rfl | hr'
            · exact ⟨r, List.mem_cons_self, hag⟩
            · obtain ⟨r'', h, hag'⟩ := hfrom r' hr'
              exact ⟨r'', List.mem_cons_of_mem _ h, hag'⟩
          · rcases List.mem_cons.mp hr' with rfl | hr'
            · exact ⟨_, List.mem_cons_self, hag⟩
            · obtain ⟨r'', h, hag'⟩ := hto r' hr' id hid
              exact ⟨r'', List.mem_cons_of_mem _ h, hag'⟩

theorem Sound.cleanup (h : Sound e) (before : SystemTime) (batch : Nat) :
    Sound (e.cleanup before batch) := by
  obtain ⟨hkeys, hfrom, hto⟩ := lapse_spec (floor before) batch e.rows
  refine ⟨h.unique.sublist hkeys, fun r hr id hid => ?_, fun id => ?_, h.minted⟩
  · obtain ⟨r₀, hr₀, hk₀, hf₀, -⟩ := hfrom r hr
    obtain ⟨r₁, hr₁, hk₁, hf₁⟩ := h.mirrored r₀ hr₀ id (hf₀ ▸ hid)
    obtain ⟨r₂, hr₂, hk₂, hf₂, -⟩ := hto r₁ hr₁ id (.inl hf₁)
    exact ⟨r₂, hr₂, hk₂.trans (hk₁.trans (congrArg Prod.swap hk₀.symm)), hf₂.trans hf₁⟩
  · show id ∈ e.relations ↔ _
    rw [h.live]
    constructor
    · rintro ⟨r, hr, hid⟩
      obtain ⟨r', hr', -, hf, ha⟩ := hto r hr id hid
      exact ⟨r', hr', by rwa [Edge.Has, hf, ha]⟩
    · rintro ⟨r', hr', hid⟩
      obtain ⟨r, hr, -, hf, ha⟩ := hfrom r' hr'
      exact ⟨r, hr, by rwa [Edge.Has, hf, ha] at hid⟩

end Edges

end HxdNg.Relationships
