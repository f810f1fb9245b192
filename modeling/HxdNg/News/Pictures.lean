import Mathlib
import HxdNg.News.Blobs

/-!
# A picture that is named keeps its files

* `Made`, `Server.Apart` : what an upload stores is fixed by its image, and the image by its hash;
* `Meta.Sound` : every row's blob is there, and its references are counted;
* `Domain.Whole` : the rows, the files, and where the lock's holder is;
* `Domain.Whole.step` : every step keeps that;
* `pictures_keep_files` : what it says of every run.
-/

namespace HxdNg.News

open Assoc Relationships
open Media (Handle Canonical MediaType)

/-! ## Uploads -/

/-- What an upload of one of the inputs stores. -/
structure Made (v : Server) (inputs : List (List UInt8)) (u : Upload) : Prop where
  canonical : ∃ input ∈ inputs, v.codec.canonicalize input = .ok u.canonical
  derivative : u.derivative = v.derive u.canonical

/-- Images made of the inputs are told apart by the hash of their bytes: SHA-256 does not collide on
them, and the type and size of an image are read off its bytes. -/
def Server.Apart (v : Server) (inputs : List (List UInt8)) : Prop :=
  ∀ a ∈ inputs, ∀ b ∈ inputs, ∀ c c', v.codec.canonicalize a = .ok c → v.codec.canonicalize b = .ok c' →
    v.sha256 c.bytes = v.sha256 c'.bytes → c = c'

variable {v : Server} {inputs : List (List UInt8)}

theorem Made.same (h : v.Apart inputs) {u u' : Upload} (hu : Made v inputs u) (hu' : Made v inputs u')
    (heq : v.blob u = v.blob u') : u.canonical = u'.canonical ∧ u.derivative = u'.derivative := by
  obtain ⟨a, ha, hc⟩ := hu.canonical
  obtain ⟨b, hb, hc'⟩ := hu'.canonical
  have hsame := h a ha b hb _ _ hc hc' heq
  exact ⟨hsame, by rw [hu.derivative, hu'.derivative, hsame]⟩

theorem made_of_prepare {owner : Mailbox} {input : List UInt8} {allowed busy busyAfter : Bool} {u : Upload}
    (hi : input ∈ inputs) (h : v.prepare owner input allowed busy busyAfter = .ok u) :
    Made v inputs u := by
  unfold Server.prepare at h
  split_ifs at h
  cases hc : v.codec.canonicalize input with
  | error e =>
    rw [hc] at h
    cases h
  | ok c =>
    rw [hc] at h
    simp only at h
    split_ifs at h
    cases h
    exact ⟨⟨input, hi, hc⟩, rfl⟩

namespace Meta

/-! ## Rows -/

/-- All rows that name `id`. -/
def named (id : BlobId) (m : Meta) : Nat := m.count (fun _ => true) id

structure Sound (v : Server) (inputs : List (List UInt8)) (m : Meta) : Prop where
  attached : ∀ handle a, m.attaches.get handle = some a → ∃ row, m.blobs.get a.hash = some row
  counted : ∀ id row, m.blobs.get id = some row → row.refs = m.named id
  made : ∀ id row, m.blobs.get id = some row → ∃ u, Made v inputs u ∧ id = v.blob u ∧
    row.bytes = u.canonical.bytes.length ∧ row.derivative = legacy u

variable {m m' : Meta}

theorem count_eq (p : AttachRow → Bool) (id : BlobId) (m : Meta) :
    m.count p id = m.attaches.total fun a => if decide (a.hash = id) && p a then 1 else 0 :=
  Map.countP_values _ m.attaches

theorem named_pos {handle : Handle} {a : AttachRow} (h : m.attaches.get handle = some a) :
    0 < m.named a.hash :=
  List.countP_pos_iff.2 ⟨a, Map.mem_values_iff.2 ⟨handle, h⟩, by simp⟩

theorem Sound.refs_pos (h : m.Sound v inputs) {handle : Handle} {a : AttachRow} {row : BlobRow}
    (ha : m.attaches.get handle = some a) (hrow : m.blobs.get a.hash = some row) : 0 < row.refs := by
  rw [h.counted a.hash row hrow]
  exact_mod_cast named_pos ha

theorem sound_empty : Sound v inputs {} :=
  ⟨fun _ _ h => (by cases h), fun _ _ h => (by cases h), fun _ _ h => (by cases h)⟩

/-- A blob that is staged again keeps the row it has. -/
theorem Sound.blobRow_eq (h : m.Sound v inputs) (hv : v.Apart inputs) {u : Upload}
    (hu : Made v inputs u) {row : BlobRow} (hrow : m.blobs.get (v.blob u) = some row) :
    m.blobRow (v.blob u) u = row := by
  obtain ⟨u', hu', hblob, -, hd⟩ := h.made _ row hrow
  have hsame : legacy u = row.derivative := by
    rw [hd]
    unfold legacy
    rw [(hu.same hv hu' hblob).2]
  unfold blobRow
  rw [hrow, hsame]
  cases row with
  | mk bytes derivative refs => cases derivative <;> rfl

theorem stageAttachment_eq_ok {blob : BlobId} {handle : Handle} {now : Time} {u : Upload} :
    m.stageAttachment blob handle now u = .ok m' ↔ m.attaches.get handle = none ∧
      m' = ⟨m.blobs.set blob { m.blobRow blob u with refs := (m.blobRow blob u).refs + 1 },
        m.attaches.set handle ⟨blob, none, u.owner, now⟩⟩ := by
  unfold stageAttachment
  cases m.attaches.get handle <;> simp [eq_comm]

theorem Sound.stage (h : m.Sound v inputs) (hv : v.Apart inputs) {handle : Handle} {now : Time}
    {u : Upload} (hu : Made v inputs u) (hm : m.stageAttachment (v.blob u) handle now u = .ok m') :
    m'.Sound v inputs := by
  obtain ⟨hnone, rfl⟩ := stageAttachment_eq_ok.1 hm
  have hcount : ∀ id, (⟨m.blobs, m.attaches.set handle ⟨v.blob u, none, u.owner, now⟩⟩ : Meta).named id =
      m.named id + if v.blob u = id then 1 else 0 := by
    intro id
    have htotal := Map.total_set (fun a : AttachRow => if decide (a.hash = id) && true then 1 else 0)
      m.attaches handle ⟨v.blob u, none, u.owner, now⟩
    rw [hnone, Option.elim_none] at htotal
    unfold named
    rw [count_eq, count_eq]
    simpa using htotal
  have hrefs : (m.blobRow (v.blob u) u).refs = m.named (v.blob u) := by
    cases hrow : m.blobs.get (v.blob u) with
    | some row => rw [h.blobRow_eq hv hu hrow, h.counted _ row hrow]
    | none =>
      have hzero : m.named (v.blob u) = 0 := by
        by_contra hne
        obtain ⟨a, ha, hp⟩ := List.countP_pos_iff.1 (Nat.pos_of_ne_zero hne)
        obtain ⟨handle', ha⟩ := Map.mem_values_iff.1 ha
        obtain ⟨row, hrow'⟩ := h.attached handle' a ha
        simp only [Bool.and_true, decide_eq_true_eq] at hp
        cases hrow.symm.trans (hp ▸ hrow')
      unfold blobRow
      rw [hrow, hzero]
      rfl
  constructor
  · intro handle' a ha
    have hget : ∀ id, (∃ row, m.blobs.get id = some row) ∨ id = v.blob u →
        ∃ row, (m.blobs.set (v.blob u)
          { m.blobRow (v.blob u) u with refs := (m.blobRow (v.blob u) u).refs + 1 }).get id = some row := by
      rintro id hid
      rw [Map.get_set]
      split
      · exact ⟨_, rfl⟩
      next hne => exact hid.resolve_right hne
    rcases Map.get_set_cases ha with ⟨-, rfl⟩ | ⟨-, ha⟩
    · exact hget _ (.inr rfl)
    · exact hget _ (.inl (h.attached handle' a ha))
  · intro id row hrow
    refine Eq.trans ?_ (congrArg Nat.cast (hcount id)).symm
    rcases Map.get_set_cases hrow with ⟨rfl, rfl⟩ | ⟨hne, hrow⟩
    · rw [if_pos rfl, Int.natCast_add, ← hrefs]
      rfl
    · rw [if_neg (Ne.symm hne), Nat.add_zero]
      exact h.counted id row hrow
  · intro id row hrow
    rcases Map.get_set_cases hrow with ⟨rfl, rfl⟩ | ⟨-, hrow⟩
    · cases hrow : m.blobs.get (v.blob u) with
      | some row =>
        obtain ⟨u', hu', hblob, hbytes, hd⟩ := h.made _ row hrow
        exact ⟨u', hu', hblob, by rw [h.blobRow_eq hv hu hrow]; exact hbytes,
          by rw [h.blobRow_eq hv hu hrow]; exact hd⟩
      | none =>
        refine ⟨u, hu, rfl, ?_⟩
        unfold blobRow
        rw [hrow]
        exact ⟨rfl, rfl⟩
    · exact h.made id row hrow

theorem bind_eq_ok {article : ArticleId} {owner : Option Mailbox} {cutoff : Time}
    {before handles : List Handle} (hm : m.bind article owner cutoff before handles = .ok m') :
    m'.blobs = m.blobs ∧ (∀ id, m'.named id = m.named id) ∧
      ∀ handle a', m'.attaches.get handle = some a' →
        ∃ a, m.attaches.get handle = some a ∧ a'.hash = a.hash := by
  induction handles generalizing before m with
  | nil =>
    cases hm
    exact ⟨rfl, fun _ => rfl, fun _ a ha => ⟨a, ha, rfl⟩⟩
  | cons handle handles ih =>
    unfold bind at hm
    split_ifs at hm
    cases owner with
    | none => cases hm
    | some owner =>
      cases ha : m.attaches.get handle with
      | none =>
        rw [ha] at hm
        cases hm
      | some a =>
        simp only [ha] at hm
        split_ifs at hm
        obtain ⟨hblobs, hnamed, hback⟩ := ih hm
        refine ⟨hblobs, fun id => (hnamed id).trans ?_, fun handle' a' ha' => ?_⟩
        · have htotal := Map.total_set (fun a : AttachRow => if decide (a.hash = id) && true then 1 else 0)
            m.attaches handle { a with article := some article }
          rw [ha, Option.elim_some] at htotal
          unfold named
          rw [count_eq, count_eq]
          exact Nat.add_right_cancel htotal
        · obtain ⟨a₀, ha₀, hhash⟩ := hback handle' a' ha'
          rcases Map.get_set_cases ha₀ with ⟨rfl, rfl⟩ | ⟨-, ha₀⟩
          · exact ⟨a, ha, hhash⟩
          · exact ⟨a₀, ha₀, hhash⟩

theorem Sound.bind (h : m.Sound v inputs) {article : ArticleId} {owner : Option Mailbox} {cutoff : Time}
    {before handles : List Handle} (hm : m.bind article owner cutoff before handles = .ok m') :
    m'.Sound v inputs := by
  obtain ⟨hblobs, hnamed, hback⟩ := bind_eq_ok hm
  refine ⟨fun handle a' ha' => ?_, fun id row hrow => ?_, fun id row hrow => h.made id row (hblobs ▸ hrow)⟩
  · obtain ⟨a, ha, hhash⟩ := hback handle a' ha'
    rw [hblobs, hhash]
    exact h.attached handle a ha
  · rw [hnamed]
    exact h.counted id row (hblobs ▸ hrow)

theorem get_giveBack {p : AttachRow → Bool} {id : BlobId} {row' : BlobRow} :
    (m.giveBack p).blobs.get id = some row' ↔
      ∃ row, m.blobs.get id = some row ∧ row' = { row with refs := row.refs - m.count p id } := by
  show (m.blobs.mapVals _).get id = some row' ↔ _
  rw [Map.get_mapVals, Option.map_eq_some_iff]
  simp only [eq_comm]

theorem named_giveBack (p : AttachRow → Bool) (id : BlobId) :
    m.count p id + (m.giveBack p).named id = m.named id := by
  have hsplit := Map.countP_filter (fun a : AttachRow => decide (a.hash = id) && true)
    (fun kv => p kv.2) m.attaches
  have hfirst : (m.attaches.filter fun kv => p kv.2).values.countP
      (fun a => decide (a.hash = id) && true) = m.count p id := by
    unfold count Map.values
    show List.countP _ ((m.attaches.entries.filter fun kv => p kv.2).map Prod.snd) = _
    rw [List.countP_map, List.countP_filter, List.countP_map]
    refine List.countP_congr fun kv _ => ?_
    simp
  rw [hfirst] at hsplit
  exact hsplit

theorem Sound.giveBack (h : m.Sound v inputs) (p : AttachRow → Bool) : (m.giveBack p).Sound v inputs where
  attached handle a ha := by
    have ha : m.attaches.get handle = some a :=
      (Option.filter_eq_some_iff.1 ((Map.get_filter _ _).symm.trans ha)).1
    obtain ⟨row, hrow⟩ := h.attached handle a ha
    exact ⟨_, get_giveBack.2 ⟨row, hrow, rfl⟩⟩
  counted id row' hrow' := by
    obtain ⟨row, hrow, rfl⟩ := get_giveBack.1 hrow'
    have hcount := h.counted id row hrow
    have hsplit := named_giveBack (m := m) p id
    show row.refs - (m.count p id : Int) = _
    omega
  made id row' hrow' := by
    obtain ⟨row, hrow, rfl⟩ := get_giveBack.1 hrow'
    exact h.made id row hrow

theorem Sound.forget (h : m.Sound v inputs) (gone : BlobId → BlobRow → Bool)
    (hgone : ∀ id row, gone id row = true → row.refs ≤ 0) :
    Sound v inputs { m with blobs := m.blobs.filter fun kv => !gone kv.1 kv.2 } where
  attached handle a ha := by
    obtain ⟨row, hrow⟩ := h.attached handle a ha
    have hpos := h.refs_pos ha hrow
    refine ⟨row, (Map.get_filter _ _).trans ?_⟩
    rw [hrow, Option.filter_some, if_pos]
    cases hg : gone a.hash row with
    | false => rfl
    | true => have := hgone _ _ hg; omega
  counted id row hrow :=
    h.counted id row (Option.filter_eq_some_iff.1 ((Map.get_filter _ _).symm.trans hrow)).1
  made id row hrow :=
    h.made id row (Option.filter_eq_some_iff.1 ((Map.get_filter _ _).symm.trans hrow)).1

/-- What a transaction that makes no rows leaves: the ids it answers are of the rows it drops. -/
structure Drops (m m' : Meta) (ids : List BlobId) : Prop where
  back : ∀ id row', m'.blobs.get id = some row' → id ∉ ids ∧
    ∃ row, m.blobs.get id = some row ∧ row'.derivative = row.derivative ∧ row'.refs ≤ row.refs
  kept : ∀ id row, m.blobs.get id = some row → id ∈ ids ∨
    ∃ row', m'.blobs.get id = some row' ∧ row'.derivative = row.derivative
  bytes : m'.attachmentBytes ≤ m.attachmentBytes

theorem drops_giveBack (p : AttachRow → Bool) : Drops m (m.giveBack p) [] where
  back id row' hrow' := by
    obtain ⟨row, hrow, rfl⟩ := get_giveBack.1 hrow'
    refine ⟨List.not_mem_nil, row, hrow, rfl, ?_⟩
    show row.refs - (m.count p id : Int) ≤ row.refs
    omega
  kept id row hrow := .inr ⟨_, get_giveBack.2 ⟨row, hrow, rfl⟩, rfl⟩
  bytes := le_of_eq (Map.total_mapVals _ _ _ fun _ _ => rfl)

theorem drops_forget (gone : BlobId → BlobRow → Bool) :
    Drops m { m with blobs := m.blobs.filter fun kv => !gone kv.1 kv.2 }
      (m.blobs.filter fun kv => gone kv.1 kv.2).keys where
  back id row' hrow' := by
    obtain ⟨hrow, hkeep⟩ := Option.filter_eq_some_iff.1 ((Map.get_filter _ _).symm.trans hrow')
    refine ⟨fun hmem => ?_, row', hrow, rfl, le_rfl⟩
    rw [Map.mem_keys_iff, Map.get_filter, hrow, Option.filter_some] at hmem
    simp only [Bool.not_eq_true'] at hkeep
    simp [hkeep] at hmem
  kept id row hrow := by
    cases hg : gone id row with
    | true =>
      refine .inl (Map.mem_keys_iff.2 ?_)
      rw [Map.get_filter, hrow, Option.filter_some, if_pos hg]
      rfl
    | false =>
      refine .inr ⟨row, (Map.get_filter _ _).trans ?_, rfl⟩
      rw [hrow, Option.filter_some, if_pos]
      simp [hg]
  bytes := Map.total_filter_le _ _ _

theorem Drops.trans {m₁ : Meta} {ids : List BlobId} (h : Drops m m₁ []) (h' : Drops m₁ m' ids) :
    Drops m m' ids where
  back id row' hrow' := by
    obtain ⟨hmem, row₁, hrow₁, hd, hr⟩ := h'.back id row' hrow'
    obtain ⟨-, row, hrow, hd', hr'⟩ := h.back id row₁ hrow₁
    exact ⟨hmem, row, hrow, hd.trans hd', le_trans hr hr'⟩
  kept id row hrow := by
    obtain ⟨row₁, hrow₁, hd⟩ := (h.kept id row hrow).resolve_left List.not_mem_nil
    refine (h'.kept id row₁ hrow₁).imp_right fun ⟨row', hrow', hd'⟩ => ⟨row', hrow', hd'.trans hd⟩
  bytes := le_trans h'.bytes h.bytes

theorem Sound.expire (h : m.Sound v inputs) (before : Time) :
    (m.expireAttachments before).2.Sound v inputs ∧
      Drops m (m.expireAttachments before).2 (m.expireAttachments before).1 := by
  have hgone : ∀ id (row : BlobRow), (decide (0 < m.count (expired before) id) && decide (row.refs ≤ 0)) =
      true → row.refs ≤ 0 := fun _ _ hg => of_decide_eq_true (Bool.and_eq_true_iff.1 hg).2
  exact ⟨(h.giveBack (expired before)).forget _ hgone,
    (drops_giveBack (expired before)).trans (drops_forget fun id row =>
      decide (0 < m.count (expired before) id) && decide (row.refs ≤ 0))⟩

theorem Sound.unreferenced (h : m.Sound v inputs) :
    m.unreferencedBlobs.2.Sound v inputs ∧ Drops m m.unreferencedBlobs.2 m.unreferencedBlobs.1 :=
  ⟨h.forget (fun _ row => decide (row.refs ≤ 0)) fun _ _ hg => of_decide_eq_true hg,
    drops_forget fun _ row => decide (row.refs ≤ 0)⟩

/-! ## The volume -/

/-- What the rows come to once an upload is among them. -/
def grown (v : Server) (u : Upload) (m : Meta) : Nat :=
  m.attachmentBytes + if (m.blobs.get (v.blob u)).isSome then 0
    else u.canonical.bytes.length + (legacy u).elim 0 Prod.snd

theorem Sound.bytes_stage (h : m.Sound v inputs) (hv : v.Apart inputs) {handle : Handle} {now : Time}
    {u : Upload} (hu : Made v inputs u) (hm : m.stageAttachment (v.blob u) handle now u = .ok m') :
    m'.attachmentBytes = m.grown v u := by
  obtain ⟨-, rfl⟩ := stageAttachment_eq_ok.1 hm
  have htotal := Map.total_set BlobRow.size m.blobs (v.blob u)
    { m.blobRow (v.blob u) u with refs := (m.blobRow (v.blob u) u).refs + 1 }
  unfold grown
  cases hrow : m.blobs.get (v.blob u) with
  | some row =>
    rw [h.blobRow_eq hv hu hrow] at htotal ⊢
    rw [hrow, Option.elim_some] at htotal
    exact Nat.add_right_cancel htotal
  | none =>
    rw [hrow, Option.elim_none] at htotal
    refine htotal.trans (congrArg _ ?_)
    unfold blobRow
    rw [hrow]
    rfl

theorem Drops.grown_le {u : Upload} (h : Drops m m' []) : m'.grown v u ≤ m.grown v u := by
  have hsome : (m'.blobs.get (v.blob u)).isSome = (m.blobs.get (v.blob u)).isSome := by
    cases hrow : m.blobs.get (v.blob u) with
    | some row =>
      obtain ⟨row', hrow', -⟩ := (h.kept _ row hrow).resolve_left List.not_mem_nil
      rw [hrow']
      rfl
    | none =>
      cases hrow' : m'.blobs.get (v.blob u) with
      | none => rfl
      | some row' =>
        obtain ⟨-, row, hrow₀, -⟩ := h.back _ row' hrow'
        cases hrow.symm.trans hrow₀
  unfold grown
  rw [hsome]
  exact Nat.add_le_add_right h.bytes _

end Meta

/-! ## Rows and files -/

def Files.Holds (id : BlobId) (derivative : Option (MediaType × Nat)) (f : Files) : Prop :=
  f.contains id = true ∧ (derivative.isSome = true → f.containsDerivative id = true)

def Section.Fine (v : Server) (inputs : List (List UInt8)) (rows : Meta) (files : Files) : Section → Prop
  | .checking u => Made v inputs u
  | .putting u => Made v inputs u ∧ rows.grown v u ≤ v.policy.maxTotalBytes
  | .puttingDerivative u => Made v inputs u ∧ rows.grown v u ≤ v.policy.maxTotalBytes ∧
      files.contains (v.blob u) = true
  | .recording u => Made v inputs u ∧ rows.grown v u ≤ v.policy.maxTotalBytes ∧
      files.contains (v.blob u) = true ∧
      (u.derivative.isSome = true → files.containsDerivative (v.blob u) = true)
  | .unlinking ids _ => ∀ id ∈ ids, ∀ row, rows.blobs.get id = some row → row.refs ≤ 0

/-- A canonical file the holder has made for a row to come, or is to unlink. -/
def Section.Carries (v : Server) (id : BlobId) : Section → Prop
  | .checking _ | .putting _ => False
  | .puttingDerivative u | .recording u => id = v.blob u
  | .unlinking ids _ => id ∈ ids

def Section.CarriesDerivative (v : Server) (id : BlobId) : Section → Prop
  | .checking _ | .putting _ | .puttingDerivative _ => False
  | .recording u => id = v.blob u ∧ u.derivative.isSome = true
  | .unlinking ids _ => id ∈ ids

namespace Domain

def Holder (p : Section → Prop) (w : Domain) : Prop := ∃ held, w.serial = some held ∧ p held.2

structure Whole (v : Server) (inputs : List (List UInt8)) (w : Domain) : Prop where
  rows : w.rows.Sound v inputs
  files : ∀ id row, w.rows.blobs.get id = some row → 0 < row.refs → w.files.Holds id row.derivative
  canonical : ∀ id, w.files.contains id = true → (w.rows.blobs.get id).isSome = true ∨ w.Holder (Section.Carries v id)
  derivative : ∀ id, w.files.containsDerivative id = true →
    (∃ row, w.rows.blobs.get id = some row ∧ row.derivative.isSome = true) ∨
      w.Holder (Section.CarriesDerivative v id)
  fine : ∀ held, w.serial = some held → held.2.Fine v inputs w.rows w.files
  jobs : ∀ c u, w.tasks.get c = some (.waiting (.stage u)) → Made v inputs u

variable {w : Domain}

theorem whole_empty : Whole v inputs {} where
  rows := Meta.sound_empty
  files _ _ h := by cases h
  canonical _ h := by cases h
  derivative _ h := by cases h
  fine _ h := by cases h
  jobs _ _ h := by cases h

/-- A transaction that makes no rows and drops no blob may run at any moment. -/
theorem Whole.rows_drop (h : w.Whole v inputs) {m' : Meta} (hs : m'.Sound v inputs)
    (hd : Meta.Drops w.rows m' []) : Whole v inputs { w with rows := m' } where
  rows := hs
  files id row' hrow' hpos := by
    obtain ⟨-, row, hrow, hder, hle⟩ := hd.back id row' hrow'
    rw [hder]
    exact h.files id row hrow (by omega)
  canonical id hid := by
    refine (h.canonical id hid).imp_left fun hsome => ?_
    obtain ⟨row, hrow⟩ := Option.isSome_iff_exists.1 hsome
    obtain ⟨row', hrow', -⟩ := (hd.kept id row hrow).resolve_left List.not_mem_nil
    exact Option.isSome_iff_exists.2 ⟨row', hrow'⟩
  derivative id hid := by
    refine (h.derivative id hid).imp_left fun ⟨row, hrow, hder⟩ => ?_
    obtain ⟨row', hrow', heq⟩ := (hd.kept id row hrow).resolve_left List.not_mem_nil
    exact ⟨row', hrow', heq ▸ hder⟩
  fine held hheld := by
    have hfine := h.fine held hheld
    obtain ⟨c, s⟩ := held
    cases s with
    | checking u => exact hfine
    | putting u => exact ⟨hfine.1, le_trans hd.grown_le hfine.2⟩
    | puttingDerivative u => exact ⟨hfine.1, le_trans hd.grown_le hfine.2.1, hfine.2.2⟩
    | recording u => exact ⟨hfine.1, le_trans hd.grown_le hfine.2.1, hfine.2.2⟩
    | unlinking ids after =>
      intro id hid row' hrow'
      obtain ⟨-, row, hrow, -, hle⟩ := hd.back id row' hrow'
      exact le_trans hle (hfine id hid row hrow)
  jobs := h.jobs

def Empty (v : Server) (w : Domain) : Prop :=
  ∀ id, ¬ w.Holder (Section.Carries v id) ∧ ¬ w.Holder (Section.CarriesDerivative v id)

theorem empty_of_free (h : w.serial = none) : w.Empty v := by
  have hnone : ∀ p, ¬ w.Holder p := fun p ⟨_, hheld, _⟩ => by cases h.symm.trans hheld
  exact fun id => ⟨hnone _, hnone _⟩

theorem empty_of_held {c : Nat} {s : Section} (h : w.serial = some (c, s))
    (hs : ∀ id, ¬ s.Carries v id ∧ ¬ s.CarriesDerivative v id) : w.Empty v := by
  refine fun id => ⟨?_, ?_⟩ <;> rintro ⟨held, hheld, hp⟩ <;> cases h.symm.trans hheld
  · exact (hs id).1 hp
  · exact (hs id).2 hp

/-- The holder, whoever it is, goes on to unlink what a transaction has dropped. -/
theorem Whole.unlink (h : w.Whole v inputs) (hnone : w.Empty v) {m' : Meta}
    {ids : List BlobId} (hs : m'.Sound v inputs) (hd : Meta.Drops w.rows m' ids) (c : Nat) (after : After) :
    Whole v inputs ({ w with rows := m' }.hold c (.unlinking ids after)) where
  rows := hs
  files id row' hrow' hpos := by
    obtain ⟨-, row, hrow, hder, hle⟩ := hd.back id row' hrow'
    rw [hder]
    exact h.files id row hrow (by omega)
  canonical id hid := by
    obtain ⟨row, hrow⟩ := Option.isSome_iff_exists.1 ((h.canonical id hid).resolve_right (hnone id).1)
    rcases hd.kept id row hrow with hmem | ⟨row', hrow', -⟩
    · exact .inr ⟨_, rfl, hmem⟩
    · exact .inl (Option.isSome_iff_exists.2 ⟨row', hrow'⟩)
  derivative id hid := by
    obtain ⟨row, hrow, hder⟩ := (h.derivative id hid).resolve_right (hnone id).2
    rcases hd.kept id row hrow with hmem | ⟨row', hrow', heq⟩
    · exact .inr ⟨_, rfl, hmem⟩
    · exact .inl ⟨row', hrow', heq ▸ hder⟩
  fine held hheld := by
    cases hheld
    intro id hid row hrow
    exact absurd hid (hd.back id row hrow).1
  jobs := h.jobs

/-- The lock changes hands, or its holder goes on, and no file is let go of. -/
theorem Whole.locked (h : w.Whole v inputs) {serial : Option (Nat × Section)}
    (hfine : ∀ held, serial = some held → held.2.Fine v inputs w.rows w.files)
    (hcarries : ∀ id, (w.Holder (Section.Carries v id) →
        Holder (Section.Carries v id) { w with serial }) ∧
      (w.Holder (Section.CarriesDerivative v id) →
        Holder (Section.CarriesDerivative v id) { w with serial })) :
    Whole v inputs { w with serial } :=
  ⟨h.rows, h.files, fun id hid => (h.canonical id hid).imp_right (hcarries id).1,
    fun id hid => (h.derivative id hid).imp_right (hcarries id).2, hfine, h.jobs⟩

theorem Whole.relocked (h : w.Whole v inputs) (hnone : w.Empty v) {serial : Option (Nat × Section)}
    (hfine : ∀ held, serial = some held → held.2.Fine v inputs w.rows w.files) :
    Whole v inputs { w with serial } :=
  h.locked hfine fun id => ⟨fun hid => absurd hid (hnone id).1, fun hid => absurd hid (hnone id).2⟩

theorem Whole.unlocked (h : w.Whole v inputs) (hnone : w.Empty v) : Whole v inputs w.unlock :=
  h.relocked hnone fun _ hheld => by cases hheld

theorem Whole.setTask (h : w.Whole v inputs) (c : Nat) {task : Task}
    (htask : ∀ u, task = .waiting (.stage u) → Made v inputs u) : Whole v inputs (w.goOn c task) :=
  ⟨h.rows, h.files, h.canonical, h.derivative, h.fine, fun c' u hc' => by
    rcases Map.get_set_cases hc' with ⟨-, heq⟩ | ⟨-, hc'⟩
    · exact htask u heq.symm
    · exact h.jobs c' u hc'⟩

theorem Whole.dropTask (h : w.Whole v inputs) (c : Nat) :
    Whole v inputs { w with tasks := w.tasks.drop c } :=
  ⟨h.rows, h.files, h.canonical, h.derivative, h.fine, fun c' u hc' =>
    h.jobs c' u (Map.get_drop_some hc').2⟩

theorem contains_writeAtomic {files : Map BlobId (List UInt8)} {id id' : BlobId} {bytes : List UInt8} :
    ((writeAtomic files id bytes).get id').isSome = true ↔ (files.get id').isSome = true ∨ id' = id := by
  unfold writeAtomic
  split
  next hsome => exact ⟨.inl, fun h => h.elim (fun hold => hold) fun heq => heq ▸ hsome⟩
  · rw [Map.get_set]
    by_cases hid : id' = id <;> simp [hid]

/-! ## The holder's steps -/

theorem Whole.grown_le (h : w.Whole v inputs) (hnone : w.Empty v) (u : Upload) :
    w.rows.grown v u ≤ w.rows.attachmentBytes + v.incoming u w.files := by
  unfold Meta.grown
  refine Nat.add_le_add_left ?_ _
  cases hrow : w.rows.blobs.get (v.blob u) with
  | some row => exact Nat.zero_le _
  | none =>
    have hfile : w.files.contains (v.blob u) = false := by
      rw [Bool.eq_false_iff]
      intro hin
      have hsome := (h.canonical _ hin).resolve_right (hnone _).1
      rw [hrow] at hsome
      cases hsome
    have hderivative : w.files.containsDerivative (v.blob u) = false := by
      rw [Bool.eq_false_iff]
      intro hin
      obtain ⟨row, hsome, -⟩ := (h.derivative _ hin).resolve_right (hnone _).2
      cases hrow.symm.trans hsome
    unfold Server.incoming Meta.legacy
    rw [hfile, hderivative]
    cases u.derivative <;> simp

theorem Whole.put (h : w.Whole v inputs) {c : Nat} {u : Upload} (hheld : w.serial = some (c, .putting u)) :
    Whole v inputs ({ w with files := w.files.put v.sha256 u.canonical.bytes }.hold c
      (.puttingDerivative u)) := by
  have hnone : w.Empty v := empty_of_held hheld fun _ => ⟨id, id⟩
  have hcontains : ∀ id, (w.files.put v.sha256 u.canonical.bytes).contains id = true ↔
      w.files.contains id = true ∨ id = v.blob u := fun id => contains_writeAtomic
  refine ⟨h.rows, fun id row hrow hpos => ?_, fun id hid => ?_, fun id hid => ?_, ?_, h.jobs⟩
  · obtain ⟨hin, hder⟩ := h.files id row hrow hpos
    exact ⟨(hcontains id).2 (.inl hin), hder⟩
  · rcases (hcontains id).1 hid with hid | hid
    · exact .inl ((h.canonical id hid).resolve_right (hnone id).1)
    · exact .inr ⟨_, rfl, hid⟩
  · exact .inl ((h.derivative id hid).resolve_right (hnone id).2)
  · rintro held hh
    cases hh
    obtain ⟨hu, hfits⟩ := h.fine _ hheld
    exact ⟨hu, hfits, (hcontains _).2 (.inr rfl)⟩

theorem Whole.putDerivative (h : w.Whole v inputs) {c : Nat} {u : Upload} {d : Canonical}
    (hheld : w.serial = some (c, .puttingDerivative u)) (hd : u.derivative = some d) :
    Whole v inputs ({ w with files := w.files.putDerivative (v.blob u) d.bytes }.hold c
      (.recording u)) := by
  have hcontains : ∀ id, (w.files.putDerivative (v.blob u) d.bytes).containsDerivative id = true ↔
      w.files.containsDerivative id = true ∨ id = v.blob u := fun id => contains_writeAtomic
  refine ⟨h.rows, fun id row hrow hpos => ?_, fun id hid => ?_, fun id hid => ?_, ?_, h.jobs⟩
  · obtain ⟨hin, hder⟩ := h.files id row hrow hpos
    exact ⟨hin, fun hsome => (hcontains id).2 (.inl (hder hsome))⟩
  · refine (h.canonical id hid).imp_right fun ⟨held, hh, hid⟩ => ⟨_, rfl, ?_⟩
    cases hheld.symm.trans hh
    exact hid
  · rcases (hcontains id).1 hid with hid | hid
    · refine (h.derivative id hid).imp_right fun ⟨held, hh, hid⟩ => ?_
      cases hheld.symm.trans hh
      exact absurd hid not_false
    · exact .inr ⟨_, rfl, hid, by rw [hd]; rfl⟩
  · rintro held hh
    cases hh
    obtain ⟨hu, hfits, hin⟩ := h.fine _ hheld
    exact ⟨hu, hfits, hin, fun _ => (hcontains _).2 (.inr rfl)⟩

/-- The row of an upload lists the derivative it stores. -/
theorem blobRow_derivative {m : Meta} (h : m.Sound v inputs) (hv : v.Apart inputs) {u : Upload}
    (hu : Made v inputs u) : (m.blobRow (v.blob u) u).derivative = Meta.legacy u := by
  cases hrow : m.blobs.get (v.blob u) with
  | some row =>
    obtain ⟨u', hu', hblob, -, hd⟩ := h.made _ row hrow
    rw [h.blobRow_eq hv hu hrow, hd]
    unfold Meta.legacy
    rw [(hu.same hv hu' hblob).2]
  | none =>
    unfold Meta.blobRow
    rw [hrow]

theorem Whole.record (h : w.Whole v inputs) (hv : v.Apart inputs) {c : Nat} {u : Upload}
    (hheld : w.serial = some (c, .recording u)) {handle : Handle} {now : Time} {m' : Meta}
    (hm : w.rows.stageAttachment (v.blob u) handle now u = .ok m') :
    Whole v inputs ({ w with rows := m' } : Domain).unlock := by
  obtain ⟨hu, -, hin, hder⟩ := h.fine _ hheld
  have hrow : ∀ id row', m'.blobs.get id = some row' →
      (id = v.blob u ∧ row'.derivative = Meta.legacy u) ∨ w.rows.blobs.get id = some row' := by
    intro id row' hrow'
    obtain ⟨-, rfl⟩ := Meta.stageAttachment_eq_ok.1 hm
    rcases Map.get_set_cases hrow' with ⟨rfl, rfl⟩ | ⟨-, hrow'⟩
    · exact .inl ⟨rfl, blobRow_derivative h.rows hv hu⟩
    · exact .inr hrow'
  have hget : ∀ id, (∃ row, m'.blobs.get id = some row ∧
      (id = v.blob u → row.derivative = Meta.legacy u) ∧ (id ≠ v.blob u → w.rows.blobs.get id = some row)) ∨
      (id ≠ v.blob u ∧ w.rows.blobs.get id = none) := by
    intro id
    obtain ⟨-, rfl⟩ := Meta.stageAttachment_eq_ok.1 hm
    by_cases hid : id = v.blob u
    · subst hid
      exact .inl ⟨_, (Map.get_set _ _ _).trans (if_pos rfl), fun _ => blobRow_derivative h.rows hv hu,
        fun hne => absurd rfl hne⟩
    · cases hrow : w.rows.blobs.get id with
      | none => exact .inr ⟨hid, rfl⟩
      | some row => exact .inl ⟨row, (Map.get_set _ _ _).trans ((if_neg hid).trans hrow),
          fun heq => absurd heq hid, fun _ => rfl⟩
  have hlegacy : (Meta.legacy u).isSome = u.derivative.isSome := by
    unfold Meta.legacy
    exact Option.isSome_map
  refine ⟨h.rows.stage hv hu hm, fun id row' hrow' hpos => ?_, fun id hid => .inl ?_, fun id hid => .inl ?_,
    fun _ hh => (by cases hh), h.jobs⟩
  · rcases hrow id row' hrow' with ⟨rfl, heq⟩ | hrow'
    · exact ⟨hin, fun hsome => hder (by rwa [heq, hlegacy] at hsome)⟩
    · exact h.files id row' hrow' hpos
  · rcases hget id with ⟨row, hrow, -⟩ | ⟨hne, hnone⟩
    · exact Option.isSome_iff_exists.2 ⟨row, hrow⟩
    · rcases h.canonical id hid with hsome | ⟨held, hh, hc⟩
      · rw [hnone] at hsome
        cases hsome
      · cases hheld.symm.trans hh
        exact absurd hc hne
  · rcases hget id with ⟨row, hrow, heq, hold⟩ | ⟨hne, hnone⟩
    · refine ⟨row, hrow, ?_⟩
      by_cases hid' : id = v.blob u
      · rw [heq hid', hlegacy]
        rcases h.derivative id hid with ⟨row₀, hrow₀, hsome⟩ | ⟨held, hh, hc⟩
        · obtain ⟨u', hu', hblob, -, hd⟩ := h.rows.made id row₀ hrow₀
          rw [(hu.same hv hu' (hid' ▸ hblob)).2, ← Option.isSome_map, ← Meta.legacy, ← hd]
          exact hsome
        · cases hheld.symm.trans hh
          exact hc.2
      · rcases h.derivative id hid with ⟨row₀, hrow₀, hsome⟩ | ⟨held, hh, hc⟩
        · cases (hold hid').symm.trans hrow₀
          exact hsome
        · cases hheld.symm.trans hh
          exact absurd hc.1 hid'
    · rcases h.derivative id hid with ⟨row₀, hrow₀, -⟩ | ⟨held, hh, hc⟩
      · cases hnone.symm.trans hrow₀
      · cases hheld.symm.trans hh
        exact absurd hc.1 hne

theorem Whole.remove (h : w.Whole v inputs) {c : Nat} {id : BlobId} {ids : List BlobId} {after : After}
    (hheld : w.serial = some (c, .unlinking (id :: ids) after)) :
    Whole v inputs ({ w with files := w.files.remove id }.hold c (.unlinking ids after)) := by
  have hfine : ∀ id' ∈ id :: ids, ∀ row, w.rows.blobs.get id' = some row → row.refs ≤ 0 :=
    h.fine _ hheld
  have hdrop : ∀ (files : Map BlobId (List UInt8)) (id' : BlobId),
      ((files.drop id).get id').isSome = true ↔ id' ≠ id ∧ (files.get id').isSome = true := by
    intro files id'
    rw [Map.get_drop]
    by_cases hid : id' = id <;> simp [hid]
  refine ⟨h.rows, fun id' row hrow hpos => ?_, fun id' hid => ?_, fun id' hid => ?_, ?_, h.jobs⟩
  · have hne : id' ≠ id := by
      rintro rfl
      have := hfine id' List.mem_cons_self row hrow
      omega
    obtain ⟨hin, hder⟩ := h.files id' row hrow hpos
    exact ⟨(hdrop _ _).2 ⟨hne, hin⟩, fun hsome => (hdrop _ _).2 ⟨hne, hder hsome⟩⟩
  · obtain ⟨hne, hin⟩ := (hdrop _ _).1 hid
    refine (h.canonical id' hin).imp_right fun ⟨held, hh, hmem⟩ => ⟨_, rfl, ?_⟩
    cases hheld.symm.trans hh
    exact (List.mem_cons.1 hmem).resolve_left hne
  · obtain ⟨hne, hin⟩ := (hdrop _ _).1 hid
    refine (h.derivative id' hin).imp_right fun ⟨held, hh, hmem⟩ => ⟨_, rfl, ?_⟩
    cases hheld.symm.trans hh
    exact (List.mem_cons.1 hmem).resolve_left hne
  · rintro held hh
    cases hh
    exact fun id' hmem => hfine id' (List.mem_cons_of_mem id hmem)

theorem Whole.after (h : w.Whole v inputs) {c : Nat} {after : After}
    (hheld : w.serial = some (c, .unlinking [] after)) : Whole v inputs (w.afterUnlink c after) := by
  have hnone : w.Empty v := empty_of_held hheld fun _ => ⟨List.not_mem_nil, List.not_mem_nil⟩
  cases after with
  | unreferenced before =>
    obtain ⟨hs, hd⟩ := h.rows.unreferenced
    exact h.unlink hnone hs hd c (.survey before)
  | survey before => exact (h.unlocked hnone).setTask c fun _ heq => by cases heq
  | done => exact h.unlocked hnone

theorem Whole.holderStep (h : w.Whole v inputs) (hv : v.Apart inputs) {c : Nat} {s : Section}
    (hheld : w.serial = some (c, s)) (now : Time) {handle : Handle} (blocked : Bool)
    (hhandle : w.rows.attaches.get handle = none) :
    Whole v inputs (w.holderStep v c now handle blocked s) := by
  cases s with
  | checking u =>
    have hnone : w.Empty v := empty_of_held hheld fun _ => ⟨id, id⟩
    have hu : Made v inputs u := h.fine _ hheld
    simp only [Domain.holderStep]
    split
    · exact h.unlocked hnone
    · split
      · exact h.unlocked hnone
      next hfits =>
        refine h.relocked hnone fun held hh => ?_
        cases hh
        exact ⟨hu, le_trans (h.grown_le hnone u) (by omega)⟩
  | putting u => exact h.put hheld
  | puttingDerivative u =>
    simp only [Domain.holderStep]
    cases hd : u.derivative with
    | some d => exact h.putDerivative hheld hd
    | none =>
      obtain ⟨hu, hfits, hin⟩ := h.fine _ hheld
      refine h.locked (fun held hh => ?_) fun id => ⟨?_, ?_⟩
      · cases hh
        exact ⟨hu, hfits, hin, fun hsome => by rw [hd] at hsome; cases hsome⟩
      · rintro ⟨held, hh, hid⟩
        cases hheld.symm.trans hh
        exact ⟨_, rfl, hid⟩
      · rintro ⟨held, hh, hid⟩
        cases hheld.symm.trans hh
        exact absurd hid not_false
  | recording u =>
    simp only [Domain.holderStep]
    cases hm : w.rows.stageAttachment (v.blob u) handle now u with
    | error e =>
      unfold Meta.stageAttachment at hm
      rw [hhandle] at hm
      cases hm
    | ok m' => exact h.record hv hheld hm
  | unlinking ids after =>
    cases ids with
    | nil => exact h.after hheld
    | cons id ids => exact h.remove hheld

theorem refs_of_not_kept {m : Meta} {id : BlobId} {row : BlobRow} (hrow : m.blobs.get id = some row)
    (hid : m.attachmentBlobs.contains id = false) : row.refs ≤ 0 := by
  by_contra hpos
  refine Bool.eq_false_iff.1 hid (List.contains_iff_mem.2 (Map.mem_keys_iff.2 ?_))
  rw [Map.get_filter, hrow, Option.filter_some, if_pos (by simpa using hpos)]
  rfl

theorem Whole.begin_ (h : w.Whole v inputs) (hfree : w.serial = none) (c : Nat) {job : Job}
    (hjob : ∀ u, job = .stage u → Made v inputs u) : Whole v inputs (w.begin_ c job) := by
  have hnone : w.Empty v := empty_of_free hfree
  cases job with
  | stage u =>
    refine h.relocked hnone fun held hh => ?_
    cases hh
    exact hjob u rfl
  | expire before =>
    obtain ⟨hs, hd⟩ := h.rows.expire before
    exact h.unlink hnone hs hd c (.unreferenced before)
  | removeUnreferenced =>
    obtain ⟨hs, hd⟩ := h.rows.unreferenced
    exact h.unlink hnone hs hd c .done
  | orphans ids =>
    refine h.relocked hnone fun held hh => ?_
    cases hh
    intro id hid row hrow
    have hkeep := (List.mem_filter.1 hid).2
    exact refs_of_not_kept hrow (by simpa using hkeep)

theorem Whole.taskStep (h : w.Whole v inputs) {c : Nat} {task : Task} (ht : w.tasks.get c = some task)
    (survey : BlobSurvey) : Whole v inputs (w.taskStep c survey task) := by
  cases task with
  | waiting job =>
    simp only [Domain.taskStep]
    split
    · exact h
    next hfree =>
      refine (h.dropTask c).begin_ (Option.not_isSome_iff_eq_none.1 hfree) c fun u heq => ?_
      exact h.jobs c u (heq ▸ ht)
  | keeping before => exact h.setTask c fun _ heq => by cases heq
  | surveying before keep =>
    simp only [Domain.taskStep]
    split
    · exact h.dropTask c
    · exact h.setTask c fun _ heq => by cases heq

theorem Whole.enter (h : w.Whole v inputs) (c : Nat) {job : Job}
    (hjob : ∀ u, job = .stage u → Made v inputs u) : Whole v inputs (w.enter c job) := by
  unfold Domain.enter
  split
  · exact h
  · refine h.setTask c fun u heq => hjob u ?_
    cases heq
    rfl

theorem Whole.step (h : w.Whole v inputs) (hv : v.Apart inputs) (op : Op)
    (hinput : ∀ input, op.input = some input → input ∈ inputs)
    (hhandle : ∀ handle, op.handle = some handle → w.rows.attaches.get handle = none) :
    Whole v inputs (w.step v op) := by
  cases op with
  | stage c owner input allowed busy busyAfter =>
    simp only [Domain.step]
    cases hu : v.prepare owner input allowed busy busyAfter with
    | error e => exact h
    | ok u =>
      refine h.enter c fun u' heq => ?_
      cases heq
      exact made_of_prepare (hinput input rfl) hu
  | post article owner cutoff handles =>
    simp only [Domain.step]
    cases hm : w.rows.bind article owner cutoff [] handles with
    | error e => exact h
    | ok m' =>
      have hblobs := (Meta.bind_eq_ok hm).1
      refine h.rows_drop (h.rows.bind hm) ⟨fun id row hrow => ?_, fun id row hrow => ?_, ?_⟩
      · exact ⟨List.not_mem_nil, row, hblobs ▸ hrow, rfl, le_rfl⟩
      · exact .inr ⟨row, hblobs ▸ hrow, rfl⟩
      · unfold Meta.attachmentBytes
        rw [hblobs]
  | takeDown c articles =>
    have hdrop := h.rows_drop (h.rows.giveBack fun a => a.article.any articles.contains)
      (Meta.drops_giveBack _)
    exact hdrop.enter c fun _ heq => by cases heq
  | sweep c now => exact h.enter c fun _ heq => by cases heq
  | next c now handle blocked survey =>
    simp only [Domain.step, Domain.next]
    cases hheld : w.serial.filter fun held => held.1 = c with
    | some held =>
      obtain ⟨c', s⟩ := held
      obtain ⟨hserial, hc⟩ := Option.filter_eq_some_iff.1 hheld
      obtain rfl := of_decide_eq_true hc
      exact h.holderStep hv hserial now blocked (hhandle handle rfl)
    | none =>
      cases ht : w.tasks.get c with
      | none => exact h
      | some task => exact h.taskStep ht survey

/-! ## What a step does to the rows -/

inductive RowsStep (v : Server) (w : Domain) (op : Op) : Meta → Prop where
  | same : RowsStep v w op w.rows
  | bound {article : ArticleId} {owner : Option Mailbox} {cutoff : Time} {handles : List Handle} {m' : Meta}
      (hm : w.rows.bind article owner cutoff [] handles = .ok m') : RowsStep v w op m'
  | released (p : AttachRow → Bool) : RowsStep v w op (w.rows.giveBack p)
  | expired (before : Time) : RowsStep v w op (w.rows.expireAttachments before).2
  | unreferenced : RowsStep v w op w.rows.unreferencedBlobs.2
  | staged {c : Nat} {u : Upload} {handle : Handle} {now : Time} {m' : Meta}
      (hheld : w.serial = some (c, .recording u)) (hop : op.handle = some handle)
      (hm : w.rows.stageAttachment (v.blob u) handle now u = .ok m') : RowsStep v w op m'

theorem rows_enter (w : Domain) (c : Nat) (job : Job) : (w.enter c job).rows = w.rows := by
  unfold Domain.enter
  split <;> rfl

theorem rows_step (w : Domain) (op : Op) : RowsStep v w op (w.step v op).rows := by
  cases op with
  | stage c owner input allowed busy busyAfter =>
    simp only [Domain.step]
    cases v.prepare owner input allowed busy busyAfter with
    | error e => exact .same
    | ok u => exact (rows_enter w c _).symm ▸ .same
  | post article owner cutoff handles =>
    simp only [Domain.step]
    cases hm : w.rows.bind article owner cutoff [] handles with
    | error e => exact .same
    | ok m' => exact .bound hm
  | takeDown c articles =>
    simp only [Domain.step, rows_enter]
    exact .released _
  | sweep c now =>
    simp only [Domain.step, rows_enter]
    exact .same
  | next c now handle blocked survey =>
    simp only [Domain.step, Domain.next]
    cases hheld : w.serial.filter fun held => held.1 = c with
    | some held =>
      obtain ⟨c', s⟩ := held
      have hserial := (Option.filter_eq_some_iff.1 hheld).1
      cases s with
      | checking u =>
        simp only [Domain.holderStep]
        split_ifs <;> exact .same
      | putting u => exact .same
      | puttingDerivative u =>
        simp only [Domain.holderStep]
        split <;> exact .same
      | recording u =>
        simp only [Domain.holderStep]
        cases hm : w.rows.stageAttachment (v.blob u) handle now u with
        | error e => exact .same
        | ok m' => exact .staged hserial rfl hm
      | unlinking ids after =>
        cases ids with
        | cons id ids => exact .same
        | nil =>
          cases after with
          | unreferenced before => exact .unreferenced
          | survey before => exact .same
          | done => exact .same
    | none =>
      cases w.tasks.get c with
      | none => exact .same
      | some task =>
        cases task with
        | waiting job =>
          simp only [Domain.taskStep]
          split
          · exact .same
          · cases job with
            | stage u => exact .same
            | expire before => exact .expired before
            | removeUnreferenced => exact .unreferenced
            | orphans ids => exact .same
        | keeping before => exact .same
        | surveying before keep =>
          simp only [Domain.taskStep]
          split <;> exact .same

/-- A step adds one handle at most, the one drawn for it. -/
theorem handles_step {op : Op} {m' : Meta} (hm : RowsStep v w op m') {handle : Handle} {a : AttachRow}
    (h : m'.attaches.get handle = some a) :
    (∃ a, w.rows.attaches.get handle = some a) ∨ op.handle = some handle := by
  have hgive : ∀ p : AttachRow → Bool, (w.rows.giveBack p).attaches.get handle = some a →
      ∃ a, w.rows.attaches.get handle = some a := fun p hg =>
    ⟨a, (Option.filter_eq_some_iff.1 ((Map.get_filter _ _).symm.trans hg)).1⟩
  cases hm with
  | same => exact .inl ⟨a, h⟩
  | bound hm =>
    obtain ⟨a₀, ha₀, -⟩ := (Meta.bind_eq_ok hm).2.2 handle a h
    exact .inl ⟨a₀, ha₀⟩
  | released p => exact .inl (hgive p h)
  | expired before => exact .inl (hgive _ h)
  | unreferenced => exact .inl ⟨a, h⟩
  | staged hheld hop hm =>
    obtain ⟨-, rfl⟩ := Meta.stageAttachment_eq_ok.1 hm
    rcases Map.get_set_cases h with ⟨rfl, -⟩ | ⟨-, h⟩
    · exact .inr hop
    · exact .inl ⟨a, h⟩

/-- The volume grows only by an upload, and that stays within the cap. -/
theorem Whole.bytes_step (h : w.Whole v inputs) (hv : v.Apart inputs) {op : Op} {m' : Meta}
    (hm : RowsStep v w op m') :
    m'.attachmentBytes ≤ w.rows.attachmentBytes ∨ m'.attachmentBytes ≤ v.policy.maxTotalBytes := by
  cases hm with
  | same => exact .inl le_rfl
  | bound hm =>
    unfold Meta.attachmentBytes
    rw [(Meta.bind_eq_ok hm).1]
    exact .inl le_rfl
  | released p => exact .inl (Meta.drops_giveBack p).bytes
  | expired before => exact .inl (h.rows.expire before).2.bytes
  | unreferenced => exact .inl h.rows.unreferenced.2.bytes
  | staged hheld hop hm =>
    obtain ⟨hu, hfits, -, -⟩ := h.fine _ hheld
    rw [h.rows.bytes_stage hv hu hm]
    exact .inr hfits

/-! ## Runs -/

theorem run_concat (ops : List Op) (op : Op) : run v (ops ++ [op]) = (run v ops).step v op := by
  unfold run
  rw [List.foldl_append]
  rfl

theorem handles_run (ops : List Op) {handle : Handle} {a : AttachRow}
    (h : (run v ops).rows.attaches.get handle = some a) : handle ∈ ops.filterMap Op.handle := by
  induction ops using List.reverseRecOn generalizing a with
  | nil => cases h
  | append_singleton ops op ih =>
    rw [run_concat] at h
    rw [List.filterMap_append]
    rcases handles_step (rows_step _ op) h with ⟨a, ha⟩ | hop
    · exact List.mem_append_left _ (ih ha)
    · exact List.mem_append_right _ (List.mem_filterMap.2 ⟨op, List.mem_singleton_self op, hop⟩)

/-- A handle drawn now was not drawn before. -/
theorem handle_unused {ops : List Op} {op : Op} (hdrawn : ((ops ++ [op]).filterMap Op.handle).Nodup)
    {handle : Handle} (hop : op.handle = some handle) : (run v ops).rows.attaches.get handle = none := by
  rw [Option.eq_none_iff_forall_ne_some]
  intro a ha
  rw [List.filterMap_append, List.nodup_append] at hdrawn
  exact hdrawn.2.2 handle (handles_run ops ha) handle
    (List.mem_filterMap.2 ⟨op, List.mem_singleton_self op, hop⟩) rfl

theorem whole_run (ops : List Op) (hv : v.Apart inputs) (hinputs : ops.filterMap Op.input ⊆ inputs)
    (hdrawn : (ops.filterMap Op.handle).Nodup) : Whole v inputs (run v ops) := by
  induction ops using List.reverseRecOn with
  | nil => exact whole_empty
  | append_singleton ops op ih =>
    have hleft : (ops.filterMap Op.handle).Nodup := by
      have := hdrawn
      rw [List.filterMap_append] at this
      exact this.of_append_left
    have hsub : ops.filterMap Op.input ⊆ inputs := fun input hin =>
      hinputs (by rw [List.filterMap_append]; exact List.mem_append_left _ hin)
    rw [run_concat]
    refine (ih hsub hleft).step hv op (fun input hop => hinputs ?_) fun handle hop => handle_unused hdrawn hop
    rw [List.filterMap_append]
    exact List.mem_append_right _ (List.mem_filterMap.2 ⟨op, List.mem_singleton_self op, hop⟩)

end Domain

/-- Every blob a row names has its canonical file, and its derivative file if the blob lists one. -/
def Domain.Kept (w : Domain) : Prop :=
  ∀ handle a, w.rows.attaches.get handle = some a →
    ∃ row, w.rows.blobs.get a.hash = some row ∧ w.files.Holds a.hash row.derivative

/-- A file about to be unlinked is one no row names. -/
def Domain.Spares (w : Domain) : Prop :=
  ∀ c id ids after, w.serial = some (c, .unlinking (id :: ids) after) →
    ∀ handle a, w.rows.attaches.get handle = some a → a.hash ≠ id

/-- In every run, whatever its calls and its surveys, pictures that are named keep their files, at every
moment; no unlink is of a file a row names; and what makes the volume grow leaves it within the cap. -/
theorem pictures_keep_files (v : Server) (ops : List Op) (hv : v.Apart (ops.filterMap Op.input))
    (hdrawn : (ops.filterMap Op.handle).Nodup) :
    (Domain.run v ops).Kept ∧ (Domain.run v ops).Spares ∧
      ∀ before op after, ops = before ++ op :: after →
        (Domain.run v before).rows.attachmentBytes < (Domain.run v (before ++ [op])).rows.attachmentBytes →
        (Domain.run v (before ++ [op])).rows.attachmentBytes ≤ v.policy.maxTotalBytes := by
  have hw := Domain.whole_run ops hv (List.Subset.refl _) hdrawn
  refine ⟨fun handle a ha => ?_, fun c id ids after hheld handle a ha heq => ?_, ?_⟩
  · obtain ⟨row, hrow⟩ := hw.rows.attached handle a ha
    exact ⟨row, hrow, hw.files _ row hrow (hw.rows.refs_pos ha hrow)⟩
  · obtain ⟨row, hrow⟩ := hw.rows.attached handle a ha
    have hpos := hw.rows.refs_pos ha hrow
    have hle : row.refs ≤ 0 := hw.fine _ hheld id List.mem_cons_self row (heq ▸ hrow)
    omega
  · rintro before op after rfl hlt
    have hsub : before.filterMap Op.input ⊆ (before ++ op :: after).filterMap Op.input := by
      rw [List.filterMap_append]
      exact List.subset_append_left _ _
    rw [List.filterMap_append] at hdrawn
    have hbefore := Domain.whole_run before hv hsub hdrawn.of_append_left
    rw [Domain.run_concat] at hlt ⊢
    exact (hbefore.bytes_step hv (Domain.rows_step _ op)).resolve_left (by omega)

def pixel : List UInt8 :=
  [137, 80, 78, 71, 13, 10, 26, 10, 0, 0, 0, 13, 73, 72, 68, 82, 0, 0, 0, 1, 0, 0, 0, 1, 8, 0,
    0, 0, 0, 58, 126, 155, 85, 0, 0, 0, 10, 73, 68, 65, 84, 120, 156, 99, 96, 0, 0, 0, 2, 0, 1,
    72, 175, 164, 113, 0, 0, 0, 0, 73, 69, 78, 68, 174, 66, 96, 130]

/-- A server that stores that picture as it is, under its hash. -/
def pixelServer : Server where
  sha256 bytes :=
    if bytes = pixel then
      ⟨[234, 164, 169, 78, 163, 0, 224, 210, 199, 117, 150, 140, 190, 66, 240, 181, 181, 28, 234,
        253, 235, 115, 214, 78, 158, 253, 223, 109, 78, 136, 8, 101], rfl⟩
    else Bytes.replicate 32 0
  codec.canonicalize bytes := if bytes = pixel then .ok ⟨.png, 1, 1, pixel⟩ else .error .unsupported
  codec.legacyDerivative _ := .ok none
  policy := ⟨1000, 100, 3600, false⟩

def pixelOwner : Mailbox := ⟨"alice", none⟩

/-- The picture is staged, posted, staged again, and the article deleted. -/
def pixelOps : List Op :=
  let next := fun k : UInt8 => Op.next 0 5000 (Bytes.replicate 16 k) false ⟨[], []⟩
  [.stage 0 pixelOwner pixel true false false] ++ [1, 2, 3, 4, 5].map next ++
    [.post 7 (some pixelOwner) 1400 [Bytes.replicate 16 5], .stage 0 pixelOwner pixel true false false] ++
    [6, 7, 8, 9, 10].map next ++ [.takeDown 0 [7], next 11, next 12]

theorem pictures_keep_files_pixel :
    ((Domain.run pixelServer pixelOps).rows.attaches.get (Bytes.replicate 16 10)).isSome = true ∧
      (Domain.run pixelServer pixelOps).rows.attachmentBytes = 67 ∧
      (Domain.run pixelServer pixelOps).Kept := by
  have hv : pixelServer.Apart (pixelOps.filterMap Op.input) := by
    intro a _ b _ c c' hc hc' _
    have hone : ∀ bytes c, pixelServer.codec.canonicalize bytes = .ok c → c = ⟨.png, 1, 1, pixel⟩ := by
      intro bytes c hc
      simp only [pixelServer] at hc
      split at hc
      · exact (Except.ok.inj hc).symm
      · cases hc
    rw [hone a c hc, hone b c' hc']
  exact ⟨by decide +kernel, by decide +kernel,
    (pictures_keep_files pixelServer pixelOps hv (by decide +kernel)).1⟩

end HxdNg.News
