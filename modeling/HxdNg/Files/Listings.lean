import Mathlib
import HxdNg.Files.Manifest

/-!
# A manifest's listings are its files

* `Fits` : the records that are accepted: each sound, and no two in each other's way (`addRecords_iff`);
* `withFolders_get`, `counted`, `listed` : the three tables, each by what it has at a path;
* `Lists`, `manifest_lists` : what an accepted manifest answers of its paths.
-/

namespace HxdNg.Files

/-- The path a record is under. -/
def Record.Stands (r : Record) (p : FilePath) : Prop := FilePath.parse r.path = .ok p

theorem Record.Stands.unique {r : Record} {p q : FilePath} (hp : r.Stands p) (hq : r.Stands q) : p = q :=
  Except.ok.inj (hp.symm.trans hq)

/-- A record that is sound by itself. -/
def Record.Valid (C : Crates) (limits : ManifestLimits) (r : Record) : Prop :=
  r.mediaType.any (! C.headerValue ·) = false ∧
    ∃ p, r.Stands p ∧ ¬p.isRoot = true ∧ r.size ≤ limits.maxFileSize

/-- Two records of two paths, neither of them a folder of the other's. -/
def Apart (r r' : Record) : Prop :=
  ∀ p p', r.Stands p → r'.Stands p' → p ≠ p' ∧ p ∉ p'.above ∧ p' ∉ p.above

theorem Apart.symm {r r' : Record} (h : Apart r r') : Apart r' r := fun p p' hp hp' =>
  have ⟨hne, habove, habove'⟩ := h p' p hp' hp
  ⟨hne.symm, habove', habove⟩

instance : Std.Symm Apart := ⟨fun _ _ => Apart.symm⟩

def Fits (C : Crates) (limits : ManifestLimits) (records : List Record) : Prop :=
  (∀ r ∈ records, r.Valid C limits) ∧ records.Pairwise Apart

theorem Fits.perm {C : Crates} {limits : ManifestLimits} {l l' : List Record} (hperm : l.Perm l')
    (h : Fits C limits l) : Fits C limits l' :=
  ⟨fun r hr => h.1 r (hperm.mem_iff.mpr hr), h.2.perm hperm Apart.symm⟩

/-! ## The records -/

section Records
variable {C : Crates} {limits : ManifestLimits} {objects : Objects} {folders : Folders}
  {done : List Record} {r : Record}

/-- The tables after some records: the files, and the folders they are in. -/
structure HasRead (objects : Objects) (folders : Folders) (done : List Record) : Prop where
  files : ∀ p o, objects.get p = some o ↔ ∃ r ∈ done, r.Stands p ∧ o = .file p r
  folders : ∀ f, folders.contains f = true ↔ f = .root ∨ ∃ r ∈ done, ∃ p, r.Stands p ∧ f ∈ p.above

theorem HasRead.start : HasRead .empty (SortedMap.empty.insert .root ()) [] where
  files p o := ⟨(fun h => nomatch h), fun ⟨r, hr, _⟩ => absurd hr List.not_mem_nil⟩
  folders f := by
    rw [SortedMap.contains_iff, SortedMap.get_insert]
    constructor
    · rintro ⟨v, hv⟩
      split at hv
      · rename_i hroot
        exact .inl hroot
      · cases hv
    · rintro (rfl | ⟨r, hr, -⟩)
      · exact ⟨(), if_pos rfl⟩
      · exact absurd hr List.not_mem_nil

theorem HasRead.contains (h : HasRead objects folders done) {p : FilePath} :
    objects.contains p = true ↔ ∃ r ∈ done, r.Stands p := by
  rw [SortedMap.contains_iff]
  constructor
  · rintro ⟨o, ho⟩
    obtain ⟨r, hr, hp, -⟩ := (h.files p o).mp ho
    exact ⟨r, hr, hp⟩
  · rintro ⟨r, hr, hp⟩
    exact ⟨_, (h.files p _).mpr ⟨r, hr, hp, rfl⟩⟩

theorem contains_insert {f g : FilePath} :
    (folders.insert f ()).contains g = true ↔ g = f ∨ folders.contains g = true := by
  rw [SortedMap.contains_iff, SortedMap.contains_iff, SortedMap.get_insert]
  by_cases hg : g = f
  · rw [if_pos hg]
    exact ⟨fun _ => .inl hg, fun _ => ⟨(), rfl⟩⟩
  · rw [if_neg hg]
    exact ⟨.inr, fun h => h.resolve_left hg⟩

theorem addFolders_ok (above : List FilePath) (folders : Folders)
    (h : ∀ f ∈ above, ¬objects.contains f = true) : ∃ out, addFolders objects folders above = .ok out ∧
      ∀ f, out.contains f = true ↔ folders.contains f = true ∨ f ∈ above := by
  induction above generalizing folders with
  | nil => exact ⟨folders, rfl, fun f => (or_iff_left List.not_mem_nil).symm⟩
  | cons folder above ih =>
    unfold addFolders
    rw [if_neg (h folder List.mem_cons_self)]
    obtain ⟨out, hout, hcontains⟩ := ih (folders.insert folder ()) fun f hf =>
      h f (List.mem_cons_of_mem _ hf)
    refine ⟨out, hout, fun f => ?_⟩
    rw [hcontains, contains_insert, List.mem_cons]
    tauto

theorem of_addFolders_ok (above : List FilePath) {folders out : Folders}
    (h : addFolders objects folders above = .ok out) : ∀ f ∈ above, ¬objects.contains f = true := by
  induction above generalizing folders with
  | nil => exact fun f hf => absurd hf List.not_mem_nil
  | cons folder above ih =>
    unfold addFolders at h
    split at h
    · cases h
    · rename_i hfolder
      exact List.forall_mem_cons.mpr ⟨hfolder, ih h⟩

theorem HasRead.addRecord (h : HasRead objects folders done) (hvalid : r.Valid C limits)
    (hapart : ∀ d ∈ done, Apart d r) : ∃ objects' folders',
      Files.addRecord C limits objects folders r = .ok (objects', folders') ∧
        HasRead objects' folders' (done ++ [r]) := by
  obtain ⟨hmedia, p, hp, hroot, hsize⟩ := hvalid
  have hfree : ¬objects.contains p = true := by
    intro hcontains
    obtain ⟨d, hd, hdp⟩ := h.contains.mp hcontains
    exact (hapart d hd p p hdp hp).1 rfl
  have hnofolder : ¬folders.contains p = true := by
    intro hcontains
    rcases (h.folders p).mp hcontains with rfl | ⟨d, hd, q, hq, habove⟩
    · exact hroot rfl
    · exact (hapart d hd q p hq hp).2.2 habove
  have hnofile : ∀ f ∈ p.above, ¬objects.contains f = true := by
    intro f hf hcontains
    obtain ⟨d, hd, hdf⟩ := h.contains.mp hcontains
    exact (hapart d hd f p hdf hp).2.1 hf
  obtain ⟨folders', hfolders, hcontains⟩ := addFolders_ok p.above folders hnofile
  refine ⟨objects.insert p (.file p r), folders', ?_, ?_, ?_⟩
  · unfold Files.addRecord
    have hpath : FilePath.parse r.path = .ok p := hp
    have hsound : ¬(p.isRoot = true ∨ r.size > limits.maxFileSize) := fun hbad =>
      hbad.elim hroot (Nat.not_lt_of_le hsize)
    rw [if_neg (by rw [hmedia]; decide), hpath]
    dsimp only
    rw [if_neg hsound, if_neg hfree, if_neg hnofolder, hfolders]
  · intro q o
    rw [SortedMap.get_insert]
    by_cases hq : q = p
    · subst hq
      rw [if_pos rfl]
      constructor
      · intro ho
        exact ⟨r, List.mem_append_right _ (List.mem_singleton_self r), hp, (Option.some.inj ho).symm⟩
      · rintro ⟨d, hd, hdq, rfl⟩
        rcases List.mem_append.mp hd with hd | hd
        · exact absurd (h.contains.mpr ⟨d, hd, hdq⟩) hfree
        · rw [List.mem_singleton.mp hd]
    · rw [if_neg hq, h.files]
      constructor
      · rintro ⟨d, hd, hrest⟩
        exact ⟨d, List.mem_append_left _ hd, hrest⟩
      · rintro ⟨d, hd, hdq, ho⟩
        rcases List.mem_append.mp hd with hd | hd
        · exact ⟨d, hd, hdq, ho⟩
        · obtain rfl := List.mem_singleton.mp hd
          exact absurd (hdq.unique hp) hq
  · intro f
    rw [hcontains, h.folders, or_assoc]
    refine or_congr_right ⟨?_, ?_⟩
    · rintro (⟨d, hd, hrest⟩ | hf)
      · exact ⟨d, List.mem_append_left _ hd, hrest⟩
      · exact ⟨r, List.mem_append_right _ (List.mem_singleton_self r), p, hp, hf⟩
    · rintro ⟨d, hd, q, hq, hf⟩
      rcases List.mem_append.mp hd with hd | hd
      · exact .inl ⟨d, hd, q, hq, hf⟩
      · obtain rfl := List.mem_singleton.mp hd
        rw [hq.unique hp] at hf
        exact .inr hf

theorem HasRead.of_addRecord (h : HasRead objects folders done) {out : Objects × Folders}
    (hout : Files.addRecord C limits objects folders r = .ok out) :
    r.Valid C limits ∧ ∀ d ∈ done, Apart d r := by
  unfold Files.addRecord at hout
  split at hout
  · cases hout
  rename_i hmedia
  split at hout
  · cases hout
  rename_i p hp
  split at hout
  · cases hout
  rename_i hsound
  split at hout
  · cases hout
  rename_i hfree
  split at hout
  · cases hout
  rename_i hnofolder
  split at hout
  · cases hout
  rename_i folders' hfolders
  have hnofile := of_addFolders_ok p.above hfolders
  refine ⟨⟨eq_false_of_ne_true hmedia, p, hp, fun hroot => hsound (.inl hroot),
    Nat.le_of_not_lt fun hlarge => hsound (.inr hlarge)⟩, fun d hd q p' hq hp' => ?_⟩
  obtain rfl : p' = p := hp'.unique hp
  refine ⟨?_, ?_, ?_⟩
  · rintro rfl
    exact hfree (h.contains.mpr ⟨d, hd, hq⟩)
  · exact fun habove => hnofile q habove (h.contains.mpr ⟨d, hd, hq⟩)
  · exact fun habove => hnofolder ((h.folders p').mpr (.inr ⟨d, hd, q, hq, habove⟩))

theorem HasRead.addRecords (records : List Record) : ∀ {objects : Objects} {folders : Folders}
    {done : List Record}, HasRead objects folders done → (∀ r ∈ records, r.Valid C limits) →
      (∀ d ∈ done, ∀ r ∈ records, Apart d r) → records.Pairwise Apart → ∃ objects' folders',
        Files.addRecords C limits objects folders records = .ok (objects', folders') ∧
          HasRead objects' folders' (done ++ records) := by
  induction records with
  | nil =>
    intro objects folders done h _ _ _
    rw [List.append_nil]
    exact ⟨objects, folders, rfl, h⟩
  | cons r records ih =>
    intro objects folders done h hvalid hapart hpairs
    obtain ⟨hr, hrest⟩ := List.forall_mem_cons.mp hvalid
    obtain ⟨hfirst, hpairs⟩ := List.pairwise_cons.mp hpairs
    obtain ⟨objects₁, folders₁, hstep, h₁⟩ :=
      h.addRecord hr fun d hd => hapart d hd r List.mem_cons_self
    have hapart₁ : ∀ d ∈ done ++ [r], ∀ r' ∈ records, Apart d r' := by
      intro d hd r' hr'
      rcases List.mem_append.mp hd with hd | hd
      · exact hapart d hd r' (List.mem_cons_of_mem _ hr')
      · rw [List.mem_singleton.mp hd]
        exact hfirst r' hr'
    obtain ⟨objects', folders', hrun, h'⟩ := ih h₁ hrest hapart₁ hpairs
    rw [List.append_assoc] at h'
    unfold Files.addRecords
    rw [hstep]
    exact ⟨objects', folders', hrun, h'⟩

theorem HasRead.of_addRecords (records : List Record) : ∀ {objects : Objects} {folders : Folders}
    {done : List Record} {out : Objects × Folders}, HasRead objects folders done →
      Files.addRecords C limits objects folders records = .ok out →
        (∀ r ∈ records, r.Valid C limits ∧ ∀ d ∈ done, Apart d r) ∧ records.Pairwise Apart := by
  induction records with
  | nil => exact fun _ _ => ⟨fun r hr => absurd hr List.not_mem_nil, .nil⟩
  | cons r records ih =>
    intro objects folders done out h hout
    unfold Files.addRecords at hout
    split at hout
    · cases hout
    rename_i objects₁ folders₁ hstep
    obtain ⟨hvalid, hapart⟩ := h.of_addRecord hstep
    obtain ⟨objects₂, folders₂, hstep₂, h₁⟩ := h.addRecord hvalid hapart
    obtain ⟨rfl, rfl⟩ := Prod.mk.inj (Except.ok.inj (hstep.symm.trans hstep₂))
    obtain ⟨hrest, hpairs⟩ := ih h₁ hout
    refine ⟨List.forall_mem_cons.mpr ⟨⟨hvalid, hapart⟩, fun r' hr' => ⟨(hrest r' hr').1, fun d hd => ?_⟩⟩,
      List.pairwise_cons.mpr ⟨fun r' hr' => ?_, hpairs⟩⟩
    · exact (hrest r' hr').2 d (List.mem_append_left _ hd)
    · exact (hrest r' hr').2 r (List.mem_append_right _ (List.mem_singleton_self r))

/-- The records that are taken are those that fit, and they are then in the tables. -/
theorem addRecords_iff {records : List Record} :
    (∃ out, Files.addRecords C limits .empty (SortedMap.empty.insert .root ()) records = .ok out) ↔
      Fits C limits records := by
  constructor
  · rintro ⟨out, hout⟩
    obtain ⟨hvalid, hpairs⟩ := HasRead.of_addRecords records .start hout
    exact ⟨fun r hr => (hvalid r hr).1, hpairs⟩
  · rintro ⟨hvalid, hpairs⟩
    obtain ⟨objects, folders, hrun, -⟩ := HasRead.addRecords records .start hvalid
      (fun d hd => absurd hd List.not_mem_nil) hpairs
    exact ⟨_, hrun⟩

theorem addRecords_read {records : List Record}
    (h : Files.addRecords C limits .empty (SortedMap.empty.insert .root ()) records = .ok (objects, folders)) :
    HasRead objects folders records := by
  obtain ⟨hvalid, hpairs⟩ := addRecords_iff.mp ⟨_, h⟩
  obtain ⟨objects', folders', hrun, hread⟩ := HasRead.addRecords records .start hvalid
    (fun d hd => absurd hd List.not_mem_nil) hpairs
  obtain ⟨rfl, rfl⟩ := Prod.mk.inj (Except.ok.inj (h.symm.trans hrun))
  exact hread

end Records

/-! ## The tables -/

theorem withFolders_get (folders : List FilePath) (objects : Objects) (p : FilePath) :
    (withFolders objects folders).get p = match objects.get p with
      | some o => some o
      | none => if p ∈ folders then some (.folder p) else none := by
  induction folders generalizing objects with
  | nil =>
    unfold withFolders
    rw [List.foldl_nil, if_neg List.not_mem_nil]
    cases objects.get p <;> rfl
  | cons f folders ih =>
    have hstep : withFolders objects (f :: folders) =
        withFolders (if objects.contains f then objects else objects.insert f (.folder f)) folders := rfl
    rw [hstep, ih]
    by_cases hf : objects.contains f = true
    · rw [if_pos hf]
      cases hp : objects.get p with
      | some o => rfl
      | none =>
        have hne : p ≠ f := by
          rintro rfl
          obtain ⟨o, ho⟩ := SortedMap.contains_iff.mp hf
          rw [hp] at ho
          cases ho
        have hmem : p ∈ f :: folders ↔ p ∈ folders := List.mem_cons.trans (or_iff_right hne)
        simp only [hmem]
    · rw [if_neg hf, SortedMap.get_insert]
      by_cases hp : p = f
      · subst hp
        have hnone : objects.get p = none := by
          cases ho : objects.get p with
          | none => rfl
          | some o => exact absurd (SortedMap.contains_iff.mpr ⟨o, ho⟩) hf
        rw [if_pos rfl, hnone]
        dsimp only
        rw [if_pos List.mem_cons_self]
      · rw [if_neg hp]
        have hmem : p ∈ f :: folders ↔ p ∈ folders := List.mem_cons.trans (or_iff_right hp)
        simp only [hmem]

/-- What is right below a folder, in order. -/
def below (objects : Objects) (f : FilePath) : List FilePath :=
  objects.keys.filter fun p => p.parent = some f

section Tables
variable {objects : Objects} {f p : FilePath}

theorem mem_below : p ∈ below objects f ↔ (∃ o, objects.get p = some o) ∧ p.parent = some f := by
  unfold below
  rw [List.mem_filter, SortedMap.mem_keys, decide_eq_true_iff]

theorem below_eq {q : FilePath → Bool} (hq : ∀ p, q p = true ↔ p.parent = some f) :
    (objects.keys.filter (! ·.isRoot)).filter q = below objects f := by
  unfold below
  rw [List.filter_filter]
  refine List.filter_congr fun p _ => ?_
  by_cases hp : p.parent = some f
  · rw [(hq p).mpr hp, decide_eq_true hp, eq_false_of_ne_true (FilePath.not_root_of_parent hp)]
    rfl
  · rw [eq_false_of_ne_true (fun h => hp ((hq p).mp h)), decide_eq_false hp]
    rfl

theorem counted : ((countChildren objects).get f).getD 0 = (below objects f).length := by
  have hcount : ∀ (l : List FilePath) (n : Nat), l.foldl (fun n _ => n + 1) n = n + l.length := by
    intro l
    induction l with
    | nil => exact fun n => rfl
    | cons a t ih =>
      intro n
      rw [List.foldl_cons, ih, List.length_cons]
      omega
  unfold countChildren
  have hbelow : ∀ p : FilePath, decide (p.parent = some f) = true ↔ p.parent = some f := fun p =>
    decide_eq_true_iff
  rw [SortedMap.getD_gather hbelow, below_eq hbelow, hcount]
  exact Nat.zero_add _

theorem listed : ((listChildren objects).get f).getD [] =
    sortBy FileEntry.name ((below objects f).filterMap (entryAt objects)) := by
  have happend : ∀ (l : List FilePath) (es : List FileEntry),
      l.foldl (fun es p => es ++ (entryAt objects p).toList) es = es ++ l.filterMap (entryAt objects) := by
    intro l
    induction l with
    | nil => exact fun es => (List.append_nil es).symm
    | cons a t ih =>
      intro es
      rw [List.foldl_cons, ih, List.append_assoc]
      congr 1
      cases ha : entryAt objects a with
      | none => rw [List.filterMap_cons_none ha]; rfl
      | some e => rw [List.filterMap_cons_some ha]; rfl
  have hsorted : ∀ es : Option (List FileEntry), (es.map (sortBy FileEntry.name)).getD [] =
      sortBy FileEntry.name (es.getD []) := by
    intro es
    cases es <;> rfl
  unfold listChildren
  have hbelow : ∀ p : FilePath, decide (p.parent = some f) = true ↔ p.parent = some f := fun p =>
    decide_eq_true_iff
  rw [SortedMap.get_mapVals, hsorted, SortedMap.getD_gather hbelow, below_eq hbelow, happend]
  rfl

/-- Everything below a folder has an entry there, under its name. -/
theorem entryAt_below (h : p ∈ below objects f) : ∃ o n, objects.get p = some o ∧ p.name = some n ∧
    entryAt objects p = some (o.entry n) := by
  obtain ⟨⟨o, ho⟩, hp⟩ := mem_below.mp h
  obtain ⟨n, hn⟩ := FilePath.name_of_parent hp
  exact ⟨o, n, ho, hn, by rw [entryAt, ho, hn]; rfl⟩

theorem length_listed :
    (sortBy FileEntry.name ((below objects f).filterMap (entryAt objects))).length =
      (below objects f).length := by
  rw [length_sortBy]
  have hall : ∀ l : List FilePath, (∀ p ∈ l, ∃ e, entryAt objects p = some e) →
      (l.filterMap (entryAt objects)).length = l.length := by
    intro l h
    induction l with
    | nil => rfl
    | cons a t ih =>
      obtain ⟨⟨e, he⟩, ht⟩ := List.forall_mem_cons.mp h
      rw [List.filterMap_cons_some he, List.length_cons, ih ht, List.length_cons]
  exact hall _ fun p hp => have ⟨_, _, _, _, he⟩ := entryAt_below hp; ⟨_, he⟩

theorem strict_listed :
    (sortBy FileEntry.name ((below objects f).filterMap (entryAt objects))).Pairwise
      fun e e' => e.name < e'.name := by
  refine pairwise_lt_sortBy (List.pairwise_map.mpr (List.pairwise_filterMap.mpr ?_))
  have hnodup : (below objects f).Nodup := objects.keys_nodup.filter _
  refine List.Pairwise.imp_of_mem (fun hp hq hne e he e' he' hname => hne ?_) hnodup
  obtain ⟨o, n, ho, hn, hentry⟩ := entryAt_below hp
  obtain ⟨o', n', ho', hn', hentry'⟩ := entryAt_below hq
  obtain rfl := Option.some.inj (he.symm.trans hentry)
  obtain rfl := Option.some.inj (he'.symm.trans hentry')
  obtain rfl : n = n' := hname
  exact FilePath.eq_of_parent_name (mem_below.mp hp).2 (mem_below.mp hq).2 hn hn'

theorem mem_listed {e : FileEntry} :
    e ∈ sortBy FileEntry.name ((below objects f).filterMap (entryAt objects)) ↔
      ∃ p o n, p.parent = some f ∧ p.name = some n ∧ objects.get p = some o ∧ e = o.entry n := by
  rw [mem_sortBy, List.mem_filterMap]
  constructor
  · rintro ⟨p, hp, he⟩
    obtain ⟨o, n, ho, hn, hentry⟩ := entryAt_below hp
    exact ⟨p, o, n, (mem_below.mp hp).2, hn, ho, Option.some.inj (he.symm.trans hentry)⟩
  · rintro ⟨p, o, n, hp, hn, ho, rfl⟩
    exact ⟨p, mem_below.mpr ⟨⟨o, ho⟩, hp⟩, by rw [entryAt, ho, hn]; rfl⟩

theorem keys_settle (counts : SortedMap FilePath Nat) : (settle counts objects).keys = objects.keys :=
  List.map_map

theorem settle_get : (settle (countChildren objects) objects).get p = (objects.get p).map fun o =>
    if o.info.kind = .folder then { o with info := { o.info with size := (below objects p).length } }
    else o := by
  unfold settle
  rw [SortedMap.get_mapVals]
  simp only [counted]

end Tables

/-! ## What a manifest answers -/

/-- The paths of some records and the folders they are in. -/
def Known (files : List Record) (p : FilePath) : Prop :=
  ∃ r ∈ files, ∃ q, r.Stands q ∧ (p = q ∨ p ∈ q.above)

/-- What is answered of the paths of some records. -/
structure Lists (s : HttpManifestSource) (files : List Record) : Prop where
  file : ∀ r ∈ files, ∀ p, r.Stands p → s.info p = .ok (Object.file p r).info
  folder : ∀ r ∈ files, ∀ p, r.Stands p → ∀ f ∈ p.above, ∃ i, s.info f = .ok i ∧ i.kind = .folder
  root : ∃ i, s.info .root = .ok i ∧ i.kind = .folder
  only : ∀ p i, s.info p = .ok i → p = .root ∨ Known files p
  listing : ∀ f i, s.info f = .ok i → i.kind = .folder → ∃ entries, s.list f = .ok entries ∧
    i.size = entries.length ∧ (entries.Pairwise fun e e' => e.name < e'.name) ∧
    (∀ n, (∃ e ∈ entries, e.name = n) ↔ ∃ p, Known files p ∧ p.parent = some f ∧ p.name = some n) ∧
    ∀ e ∈ entries, ∃ p j, p.parent = some f ∧ p.name = some e.name ∧ s.info p = .ok j ∧
      e = { name := e.name, kind := j.kind, size := j.size, mediaType := j.mediaType, modified := j.modified }
  unlisted : ∀ p i, s.info p = .ok i → i.kind ≠ .folder → s.list p = .error .notFolder

section Answers
variable {C : Crates} {limits : ManifestLimits} {files : Objects} {folders : Folders} {records : List Record}

/-- The objects of some records and their folders. -/
theorem HasRead.withFolders (h : HasRead files folders records) (p : FilePath) (o : Object) :
    (withFolders files folders.keys).get p = some o ↔
      (∃ r ∈ records, r.Stands p ∧ o = .file p r) ∨
        (¬(∃ r ∈ records, r.Stands p) ∧ (p = .root ∨ ∃ r ∈ records, ∃ q, r.Stands q ∧ p ∈ q.above) ∧
          o = .folder p) := by
  have hkeys : p ∈ folders.keys ↔ p = .root ∨ ∃ r ∈ records, ∃ q, r.Stands q ∧ p ∈ q.above := by
    rw [SortedMap.mem_keys, ← SortedMap.contains_iff]
    exact h.folders p
  rw [withFolders_get, ← h.files]
  cases hp : files.get p with
  | some o' =>
    have hstands := h.contains.mp (SortedMap.contains_iff.mpr ⟨o', hp⟩)
    constructor
    · exact .inl
    · rintro (ho | ⟨hnone, -⟩)
      · exact ho
      · exact absurd hstands hnone
  | none =>
    have hnone : ¬∃ r ∈ records, r.Stands p := by
      intro hstands
      obtain ⟨o', ho'⟩ := SortedMap.contains_iff.mp (h.contains.mpr hstands)
      rw [hp] at ho'
      cases ho'
    dsimp only
    constructor
    · intro ho
      split at ho
      · rename_i hmem
        exact .inr ⟨hnone, hkeys.mp hmem, (Option.some.inj ho).symm⟩
      · cases ho
    · rintro (ho | ⟨-, hknown, rfl⟩)
      · cases ho
      · exact if_pos (hkeys.mpr hknown)

variable {s : HttpManifestSource}

theorem list_of_folder {f : FilePath} {o : Object} (ho : s.objects.get f = some o)
    (hkind : o.info.kind = .folder) : s.list f = .ok ((s.children.get f).getD []) := by
  unfold HttpManifestSource.list
  rw [ho]
  exact if_neg (not_not.mpr hkind)

theorem info_eq_ok {p : FilePath} {i : FileInfo} :
    s.info p = .ok i ↔ ∃ o, s.objects.get p = some o ∧ o.info = i := by
  unfold HttpManifestSource.info
  cases s.objects.get p with
  | none => exact ⟨(fun h => nomatch h), fun ⟨_, h, _⟩ => nomatch h⟩
  | some o =>
    constructor
    · exact fun h => ⟨o, rfl, Except.ok.inj h⟩
    · rintro ⟨o', ho', rfl⟩
      rw [Option.some.inj ho']

/-- A manifest that was read answers as its records. -/
theorem HasRead.lists (h : HasRead files folders records) (hfits : Fits C limits records)
    (hobjects : s.objects = settle (countChildren (Files.withFolders files folders.keys))
      (Files.withFolders files folders.keys)) (hchildren : s.children = listChildren s.objects) :
    Lists s records := by
  have hget : ∀ p, s.objects.get p = ((Files.withFolders files folders.keys).get p).map fun o =>
      if o.info.kind = .folder then
        { o with info := { o.info with size := (below (Files.withFolders files folders.keys) p).length } }
      else o := by
    intro p
    rw [hobjects, settle_get]
  have hbelow : ∀ f, below (Files.withFolders files folders.keys) f = below s.objects f := by
    intro f
    unfold below
    rw [hobjects, keys_settle]
  have hfile : ∀ r ∈ records, ∀ p, r.Stands p → s.objects.get p = some (.file p r) := by
    intro r hr p hp
    have hbase := (h.withFolders p _).mpr (.inl ⟨r, hr, hp, rfl⟩)
    rw [hget, hbase]
    rfl
  have hfolder : ∀ f, ¬(∃ r ∈ records, r.Stands f) →
      (f = .root ∨ ∃ r ∈ records, ∃ q, r.Stands q ∧ f ∈ q.above) → ∃ o, s.objects.get f = some o ∧
        o.info.kind = .folder ∧ o.info.size = (below s.objects f).length := by
    intro f hno hknown
    have hbase := (h.withFolders f _).mpr (.inr ⟨hno, hknown, rfl⟩)
    have hsettled := hget f
    rw [hbase, hbelow] at hsettled
    exact ⟨_, hsettled, rfl, rfl⟩
  have hroot : ¬∃ r ∈ records, r.Stands .root := by
    rintro ⟨r, hr, hrroot⟩
    obtain ⟨-, p, hp, hnotroot, -⟩ := hfits.1 r hr
    rw [hp.unique hrroot] at hnotroot
    exact hnotroot rfl
  have habove : ∀ r ∈ records, ∀ p, r.Stands p → ∀ f ∈ p.above, ¬∃ r ∈ records, r.Stands f := by
    rintro r hr p hp f hf ⟨d, hd, hdf⟩
    by_cases hrd : d = r
    · subst hrd
      have hlt := (FilePath.mem_above.mp hf).2
      rw [hdf.unique hp] at hlt
      exact absurd hlt (Nat.lt_irrefl _)
    · exact (hfits.2.forall hd hr hrd f p hdf hp).2.1 hf
  have hcases : ∀ p o, s.objects.get p = some o →
      (∃ r ∈ records, r.Stands p ∧ o = .file p r) ∨
        (o.info.kind = .folder ∧ o.info.size = (below s.objects p).length ∧
          (p = .root ∨ ∃ r ∈ records, ∃ q, r.Stands q ∧ p ∈ q.above)) := by
    intro p o ho
    rw [hget, Option.map_eq_some_iff] at ho
    obtain ⟨base, hbase, rfl⟩ := ho
    rcases (h.withFolders p base).mp hbase with ⟨r, hr, hp, rfl⟩ | ⟨-, hknown, rfl⟩
    · exact .inl ⟨r, hr, hp, rfl⟩
    · refine .inr ⟨rfl, ?_, hknown⟩
      rw [← hbelow]
      rfl
  have hknown : ∀ p, ¬p = .root → ((∃ o, s.objects.get p = some o) ↔ Known records p) := by
    intro p hne
    constructor
    · rintro ⟨o, ho⟩
      rcases hcases p o ho with ⟨r, hr, hp, -⟩ | ⟨-, -, hroot | ⟨r, hr, q, hq, hp⟩⟩
      · exact ⟨r, hr, p, hp, .inl rfl⟩
      · exact absurd hroot hne
      · exact ⟨r, hr, q, hq, .inr hp⟩
    · rintro ⟨r, hr, q, hq, rfl | hp⟩
      · exact ⟨_, hfile r hr p hq⟩
      · obtain ⟨o, ho, -⟩ := hfolder p (habove r hr q hq p hp) (.inr ⟨r, hr, q, hq, hp⟩)
        exact ⟨o, ho⟩
  refine ⟨fun r hr p hp => info_eq_ok.mpr ⟨_, hfile r hr p hp, rfl⟩, ?_, ?_, ?_, ?_, ?_⟩
  · intro r hr p hp f hf
    obtain ⟨o, ho, hkind, -⟩ := hfolder f (habove r hr p hp f hf) (.inr ⟨r, hr, p, hp, hf⟩)
    exact ⟨o.info, info_eq_ok.mpr ⟨o, ho, rfl⟩, hkind⟩
  · obtain ⟨o, ho, hkind, -⟩ := hfolder .root hroot (.inl rfl)
    exact ⟨o.info, info_eq_ok.mpr ⟨o, ho, rfl⟩, hkind⟩
  · intro p i hi
    obtain ⟨o, ho, -⟩ := info_eq_ok.mp hi
    by_cases hp : p = .root
    · exact .inl hp
    · exact .inr ((hknown p hp).mp ⟨o, ho⟩)
  · intro f i hi hkind
    obtain ⟨o, ho, rfl⟩ := info_eq_ok.mp hi
    have hsize : o.info.size = (below s.objects f).length := by
      rcases hcases f o ho with ⟨r, -, -, rfl⟩ | ⟨-, hsize, -⟩
      · cases hkind
      · exact hsize
    have hlist := list_of_folder ho hkind
    rw [hchildren, listed] at hlist
    refine ⟨_, hlist, by rw [hsize, length_listed], strict_listed, fun n => ?_, fun e he => ?_⟩
    · constructor
      · rintro ⟨e, he, rfl⟩
        obtain ⟨p, o', n, hp, hn, ho', rfl⟩ := mem_listed.mp he
        have hne : ¬p = .root := fun hp' => FilePath.not_root_of_parent hp (FilePath.isRoot_iff.mpr hp')
        exact ⟨p, (hknown p hne).mp ⟨o', ho'⟩, hp, hn⟩
      · rintro ⟨p, hp, hparent, hn⟩
        have hne : ¬p = .root := fun hp' => FilePath.not_root_of_parent hparent (FilePath.isRoot_iff.mpr hp')
        obtain ⟨o', ho'⟩ := (hknown p hne).mpr hp
        exact ⟨o'.entry n, mem_listed.mpr ⟨p, o', n, hparent, hn, ho', rfl⟩, rfl⟩
    · obtain ⟨p, o', n, hp, hn, ho', rfl⟩ := mem_listed.mp he
      exact ⟨p, o'.info, hp, hn, info_eq_ok.mpr ⟨o', ho', rfl⟩, rfl⟩
  · intro p i hi hkind
    obtain ⟨o, ho, rfl⟩ := info_eq_ok.mp hi
    unfold HttpManifestSource.list
    rw [ho]
    exact if_pos hkind

end Answers

/-! ## The manifest as a whole -/

section Whole
variable {C : Crates} {limits : ManifestLimits} {origin : String} {json : List UInt8} {m : Manifest}

theorem readManifest_iff : (∃ out, readManifest C limits m = .ok out) ↔
    m.version = 1 ∧ m.files.length ≤ limits.maxEntries ∧ Fits C limits m.files := by
  unfold readManifest
  split
  · rename_i hversion
    exact ⟨(fun ⟨_, h⟩ => nomatch h), fun h => absurd h.1 hversion⟩
  rename_i hversion
  split
  · rename_i hmany
    exact ⟨(fun ⟨_, h⟩ => nomatch h), fun h => absurd h.2.1 (Nat.not_le_of_lt hmany)⟩
  rename_i hfew
  have hiff : (∃ out, addRecords C limits .empty (SortedMap.empty.insert .root ()) m.files = .ok out) ↔
      Fits C limits m.files := addRecords_iff
  split
  · rename_i e he
    refine ⟨(fun ⟨_, h⟩ => nomatch h), fun h => ?_⟩
    obtain ⟨out, hout⟩ := hiff.mpr h.2.2
    rw [he] at hout
    cases hout
  · rename_i files folders hrun
    exact ⟨fun _ => ⟨not_not.mp hversion, Nat.le_of_not_lt hfew, hiff.mp ⟨_, hrun⟩⟩, fun _ => ⟨_, rfl⟩⟩

/-- What else is to be in order for a manifest to be taken. -/
def Ready (C : Crates) (origin : String) (limits : ManifestLimits) : Prop :=
  ¬(limits.maxEntries = 0 ∨ limits.maxConcurrent = 0) ∧
    (∃ url, C.parseUrl origin = .ok url ∧ ∃ base, checkOrigin url = .ok base) ∧ C.client = .ok ()

theorem fromJson_iff (hm : C.fromSlice decimalU64 json = .ok m) :
    (∃ s, HttpManifestSource.fromJson C origin json limits = .ok s) ↔
      Ready C origin limits ∧ m.version = 1 ∧ m.files.length ≤ limits.maxEntries ∧
        Fits C limits m.files := by
  rw [← readManifest_iff]
  unfold HttpManifestSource.fromJson Ready
  split
  · rename_i hlimits
    exact ⟨(fun ⟨_, h⟩ => nomatch h), fun h => absurd hlimits h.1.1⟩
  rename_i hlimits
  split
  · rename_i e he
    refine ⟨(fun ⟨_, h⟩ => nomatch h), fun ⟨⟨_, ⟨url, hurl, _⟩, _⟩, _⟩ => ?_⟩
    rw [he] at hurl
    cases hurl
  rename_i url hurl
  split
  · rename_i e he
    refine ⟨(fun ⟨_, h⟩ => nomatch h), fun ⟨⟨_, ⟨url', hurl', base, hbase⟩, _⟩, _⟩ => ?_⟩
    obtain rfl := Except.ok.inj (hurl.symm.trans hurl')
    rw [he] at hbase
    cases hbase
  rename_i base hbase
  rw [hm]
  dsimp only
  split
  · rename_i e he
    exact ⟨(fun ⟨_, h⟩ => nomatch h), fun ⟨_, _, h⟩ => by rw [he] at h; cases h⟩
  rename_i objects children hread
  split
  · rename_i e he
    exact ⟨(fun ⟨_, h⟩ => nomatch h), fun ⟨⟨_, _, h⟩, _⟩ => by rw [he] at h; cases h⟩
  · rename_i hclient
    exact ⟨fun _ => ⟨⟨hlimits, ⟨url, hurl, base, hbase⟩, hclient⟩, _, hread⟩, fun _ => ⟨_, rfl⟩⟩

theorem fromJson_tables {s : HttpManifestSource} (hm : C.fromSlice decimalU64 json = .ok m)
    (h : HttpManifestSource.fromJson C origin json limits = .ok s) : ∃ files folders,
      addRecords C limits .empty (SortedMap.empty.insert .root ()) m.files = .ok (files, folders) ∧
        s.objects = settle (countChildren (withFolders files folders.keys)) (withFolders files folders.keys) ∧
        s.children = listChildren s.objects := by
  unfold HttpManifestSource.fromJson at h
  rw [hm] at h
  split at h
  · cases h
  split at h
  · cases h
  split at h
  · cases h
  dsimp only at h
  split at h
  · cases h
  rename_i objects children hread
  split at h
  · cases h
  obtain rfl := Except.ok.inj h
  unfold readManifest at hread
  split at hread
  · cases hread
  split at hread
  · cases hread
  split at hread
  · cases hread
  rename_i files folders hrun
  obtain ⟨rfl, rfl⟩ := Prod.mk.inj (Except.ok.inj hread)
  exact ⟨files, folders, hrun, rfl, rfl⟩

/-- A manifest is taken or refused whatever its order, and answers as its records. -/
theorem manifest_lists (C : Crates) (origin : String) (limits : ManifestLimits) (json json' : List UInt8)
    (m m' : Manifest) (hm : C.fromSlice decimalU64 json = .ok m) (hm' : C.fromSlice decimalU64 json' = .ok m')
    (hversion : m'.version = m.version) (hperm : m.files.Perm m'.files) :
    ((∃ s, HttpManifestSource.fromJson C origin json limits = .ok s) ↔
      ∃ s, HttpManifestSource.fromJson C origin json' limits = .ok s) ∧
      ∀ s, HttpManifestSource.fromJson C origin json limits = .ok s → Lists s m.files := by
  constructor
  · rw [fromJson_iff hm, fromJson_iff hm', hversion, hperm.length_eq]
    refine and_congr_right fun _ => and_congr_right fun _ => and_congr_right fun _ => ?_
    exact ⟨Fits.perm hperm, Fits.perm hperm.symm⟩
  · intro s hs
    obtain ⟨-, -, -, hfits⟩ := (fromJson_iff hm).mp ⟨s, hs⟩
    obtain ⟨files, folders, hrun, hobjects, hchildren⟩ := fromJson_tables hm hs
    exact (addRecords_read hrun).lists hfits hobjects hchildren

/-- A reader of two manifests, of a file in a folder and one beside it, in either order. -/
def twoFiles : Crates where
  parseUrl _ := .ok ⟨"https", some "example.invalid", "", none, "/files", none, none⟩
  fromSlice decimal json :=
    match decimal "12", decimal "4294967297" with
    | .ok read, .ok archive =>
      let manuals : Record := ⟨"manuals/read me.txt", read, some "text/plain", none, true, none, none, none⟩
      let archived : Record := ⟨"archive.sit", archive, none, none, false, none, none, none⟩
      .ok ⟨1, if json = [] then [manuals, archived] else [archived, manuals]⟩
    | _, _ => .error "no size"
  headerValue _ := true
  client := .ok ()

theorem manifest_lists_two : (∃ s, HttpManifestSource.fromJson twoFiles "" [1] ⟨2 ^ 40, 9, 8⟩ = .ok s) ∧
    ∃ s records, HttpManifestSource.fromJson twoFiles "" [] ⟨2 ^ 40, 9, 8⟩ = .ok s ∧ records.length = 2 ∧
      Lists s records := by
  have hboth := manifest_lists twoFiles "" ⟨2 ^ 40, 9, 8⟩ [] [1] ⟨1, _⟩ ⟨1, _⟩ rfl rfl rfl (.swap _ _ _)
  have htaken : (HttpManifestSource.fromJson twoFiles "" [] ⟨2 ^ 40, 9, 8⟩).isOk = true := by decide +kernel
  cases hs : HttpManifestSource.fromJson twoFiles "" [] ⟨2 ^ 40, 9, 8⟩ with
  | error e => rw [hs] at htaken; cases htaken
  | ok s => exact ⟨hboth.1.mp ⟨s, hs⟩, s, _, rfl, rfl, hboth.2 s hs⟩

end Whole

end HxdNg.Files
