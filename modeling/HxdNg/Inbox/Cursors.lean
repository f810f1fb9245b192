import HxdNg.Inbox.Guids
import HxdNg.Relationships.Rekey

/-!
# A mailbox numbers its mail

* `Slot` : of a row, what numbering its mailbox is about;
* `Inner.Numbered` : the mail of one mailbox has distinct cursors, none above the last it issued;
* `renumber_spec` : where a merge puts the mail it moves;
* `Numbered.step` : every call but a purge keeps the mailboxes numbered.
-/

namespace HxdNg.Inbox

open Relationships History Assoc
open Identity (Fingerprint)

/-! ## Keys and their spelling -/

/-- How a mailbox's count is kept under its key. -/
def spelled : Key → List Char
  | .login login => login.toList
  | .fingerprint fp => hex fp.val

/-- Not a login that reads as a fingerprint. -/
def PlainKey : Key → Prop
  | .login login => ∀ fp : Fingerprint, login.toList ≠ hex fp.val
  | .fingerprint _ => True

theorem spelling_eq (m : Mailbox) : m.spelling = spelled m.key := by
  obtain ⟨login, fp⟩ := m
  cases fp <;> rfl

theorem spelled_inj {a b : Key} (ha : PlainKey a) (hb : PlainKey b) (h : spelled a = spelled b) :
    a = b := by
  cases a with
  | login l =>
    cases b with
    | login l' => exact congrArg Key.login (String.toList_inj.1 h)
    | fingerprint fp => exact absurd h (ha fp)
  | fingerprint fp =>
    cases b with
    | login l => exact absurd h.symm (hb fp)
    | fingerprint fp' => exact congrArg Key.fingerprint (Subtype.ext (hex_inj h))

/-- Of a row, what numbering its mailbox is about. -/
structure Slot where
  id : MessageId
  mail : Bool
  key : Key
  cursor : Cursor

def StoredMessage.slot (m : StoredMessage) : Slot := ⟨m.id, isMail m, m.recipient.key, m.cursor⟩

namespace Inner

def slots (s : Inner) : List Slot := s.msgs.map (·.slot)

/-- The last cursor a mailbox issued. -/
def lastOf (s : Inner) (k : Key) : Cursor := s.last (spelled k)

theorem lastCursor_eq (s : Inner) (m : Mailbox) : s.lastCursor m = s.lastOf m.key := by
  rw [lastCursor, lastOf, spelling_eq]

/-- Rows are in the order of their ids, and a mailbox's mail has distinct cursors, all issued. -/
structure Numbered (s : Inner) : Prop where
  valid : Valid s.cursors
  ids : s.slots.Pairwise fun a b => a.id < b.id
  ids_le : ∀ a ∈ s.slots, a.id ≤ s.nextId
  plain : ∀ a ∈ s.slots, PlainKey a.key
  issued : ∀ a ∈ s.slots, a.mail = true → 0 < a.cursor ∧ a.cursor ≤ s.lastOf a.key
  distinct : s.slots.Pairwise fun a b => a.mail = true → b.mail = true → a.key = b.key →
    a.cursor ≠ b.cursor

variable {s : Inner}

theorem numbered_empty : ({} : Inner).Numbered :=
  ⟨List.nodup_nil, List.Pairwise.nil, nofun, nofun, nofun, List.Pairwise.nil⟩

theorem Numbered.sublist (h : s.Numbered) {s' : Inner} (hs : s'.slots.Sublist s.slots)
    (hv : Valid s'.cursors) (hn : s.nextId ≤ s'.nextId)
    (hl : ∀ a ∈ s'.slots, s.lastOf a.key ≤ s'.lastOf a.key) : s'.Numbered where
  valid := hv
  ids := h.ids.sublist hs
  ids_le a ha := Nat.le_trans (h.ids_le a (hs.subset ha)) hn
  plain a ha := h.plain a (hs.subset ha)
  issued a ha hm :=
    ⟨(h.issued a (hs.subset ha) hm).1, Nat.le_trans (h.issued a (hs.subset ha) hm).2 (hl a ha)⟩
  distinct := h.distinct.sublist hs

theorem Drops.slots {s' : Inner} (h : s.Drops s') : s'.slots.Sublist s.slots := by
  have := h.msgs.map StoredMessage.slot
  rwa [List.map_map, List.map_map] at this

theorem Numbered.drops (h : s.Numbered) {s' : Inner} (hd : s.Drops s') : s'.Numbered := by
  refine h.sublist hd.slots (hd.cursors ▸ h.valid) (Nat.le_of_eq hd.nextId.symm) fun a _ => ?_
  rw [lastOf, lastOf, last, last, hd.cursors]

theorem slot_mem {m : StoredMessage} (hm : m ∈ s.msgs) : m.slot ∈ s.slots := List.mem_map_of_mem hm

theorem Numbered.eq_of_id (h : s.Numbered) {a b : StoredMessage} (ha : a ∈ s.msgs) (hb : b ∈ s.msgs)
    (hid : a.id = b.id) : a = b := by
  have hn : (s.msgs.map (·.id)).Nodup :=
    List.pairwise_map.2 ((List.pairwise_map.1 h.ids).imp fun hlt => Nat.ne_of_lt hlt)
  exact List.inj_on_of_nodup_map hn ha hb hid

theorem last_insert (h : Valid s.cursors) (key key' : List Char) (c : Cursor) :
    last { s with cursors := insert key c s.cursors } key' = if key' = key then c else s.last key' := by
  rw [last, lookup_insert h]
  split <;> rfl

/-! ## Where a merge puts the mail it moves -/

section Renumber
variable {moves : Mailbox → Bool} {from_ into : List Char}

/-- The mail a merge moves, in the order of its cursors, each with its place in the store. -/
def moving (s : Inner) (moves : Mailbox → Bool) : List (StoredMessage × Nat) :=
  sortBy (fun p => p.1.cursor) (s.msgs.zipIdx.filter fun (m, _) => isMail m && moves m.recipient)

theorem mem_moving {p : StoredMessage × Nat} : p ∈ s.moving moves ↔
    s.msgs[p.2]? = some p.1 ∧ isMail p.1 = true ∧ moves p.1.recipient = true := by
  rw [moving, mem_sortBy, List.mem_filter, List.mem_zipIdx_iff_getElem?, Bool.and_eq_true]

/-- Mail of one mailbox is in strict order. -/
theorem moving_strict (h : s.Numbered)
    (hone : ∀ a b, moves a = true → moves b = true → a.key = b.key) :
    (s.moving moves).Pairwise fun p q => p.1.cursor < q.1.cursor := by
  refine pairwise_lt_sortBy ?_
  have hd : s.msgs.Pairwise fun a b => isMail a = true → isMail b = true →
      a.recipient.key = b.recipient.key → a.cursor ≠ b.cursor := List.pairwise_map.1 h.distinct
  rw [← List.zipIdx_map_fst 0 s.msgs, List.pairwise_map] at hd
  refine List.pairwise_map.2 ((List.Pairwise.sublist List.filter_sublist hd).imp_of_mem ?_)
  intro p q hp hq hne
  have hp' := (List.mem_filter.1 hp).2
  have hq' := (List.mem_filter.1 hq).2
  simp only [Bool.and_eq_true] at hp' hq'
  exact hne hp'.1 hq'.1 (hone _ _ hp'.2 hq'.2)

/-- Where the mail at a place comes in that order. -/
theorem moving_index {i : Nat} {m : StoredMessage} (hi : s.msgs[i]? = some m)
    (hm : isMail m = true) (hmv : moves m.recipient = true) :
    ∃ n, (s.moving moves).findIdx? (fun p => p.2 = i) = some n ∧
      (s.moving moves)[n]? = some (m, i) := by
  have hmem : (m, i) ∈ s.moving moves := mem_moving.2 ⟨hi, hm, hmv⟩
  have hsome : ((s.moving moves).findIdx? fun p => p.2 = i).isSome = true := by
    rw [List.findIdx?_isSome, List.any_eq_true]
    exact ⟨(m, i), hmem, decide_eq_true rfl⟩
  obtain ⟨n, hn⟩ := Option.isSome_iff_exists.1 hsome
  obtain ⟨hlt, hp, -⟩ := List.findIdx?_eq_some_iff_getElem.1 hn
  refine ⟨n, hn, ?_⟩
  have hget : (s.moving moves)[n]? = some (s.moving moves)[n] := List.getElem?_eq_getElem hlt
  have hin := mem_moving.1 (List.getElem_mem hlt)
  have hidx : (s.moving moves)[n].2 = i := of_decide_eq_true hp
  rw [hidx, hi] at hin
  rw [hget]
  exact congrArg some (Prod.ext (Option.some.inj hin.1).symm hidx)

theorem moving_index_none {i : Nat} {m : StoredMessage} (hi : s.msgs[i]? = some m)
    (hm : (isMail m && moves m.recipient) = false) :
    (s.moving moves).findIdx? (fun p => p.2 = i) = none := by
  rw [List.findIdx?_eq_none_iff]
  intro p hp
  refine decide_eq_false fun e => ?_
  obtain ⟨hi', hmail, hmv⟩ := mem_moving.1 hp
  rw [e, hi] at hi'
  obtain rfl := Option.some.inj hi'
  rw [hmail, hmv] at hm
  cases hm

/-- Into a mailbox that issued cursors, mail is numbered on from the last of either, in the order it
had; into one that issued none it keeps its cursors. -/
def renumbered (s : Inner) (moves : Mailbox → Bool) (from_ into : List Char) (i : Nat)
    (m : StoredMessage) : Cursor :=
  if s.last into = 0 then m.cursor else
  match (s.moving moves).findIdx? fun p => p.2 = i with
  | some n => max (s.last from_) (s.last into) + n + 1
  | none => m.cursor

theorem renumber_get (s : Inner) (i : Nat) : (s.renumber moves from_ into).msgs[i]? =
    s.msgs[i]?.map fun m => { m with cursor := s.renumbered moves from_ into i m } := by
  unfold renumber renumbered
  split
  case isTrue =>
    have hid : s.msgs[i]? = s.msgs[i]?.map fun m => { m with cursor := m.cursor } := by
      cases s.msgs[i]? <;> rfl
    split <;> exact hid
  case isFalse =>
    show (s.msgs.mapIdx _)[i]? = _
    rw [List.getElem?_mapIdx]
    cases s.msgs[i]? with
    | none => rfl
    | some m =>
      refine congrArg some ?_
      show (match (s.moving moves).findIdx? fun p => p.2 = i with
        | some n => { m with cursor := max (s.last from_) (s.last into) + n + 1 }
        | none => m) = _
      cases (s.moving moves).findIdx? fun p => p.2 = i <;> rfl

theorem renumber_cursors (s : Inner) : (s.renumber moves from_ into).cursors =
    if s.last into = 0 then
      if 0 < s.last from_ then insert into (s.last from_) s.cursors else s.cursors
    else insert into (max (s.last from_) (s.last into) + (s.moving moves).length) s.cursors := by
  unfold renumber
  split
  · split <;> rfl
  · rfl

theorem valid_renumber (h : Valid s.cursors) : Valid (s.renumber moves from_ into).cursors := by
  rw [renumber_cursors]
  split
  · split
    · exact valid_alter h _ _
    · exact h
  · exact valid_alter h _ _

theorem renumber_last_ne (h : Valid s.cursors) {key : List Char} (hk : key ≠ into) :
    (s.renumber moves from_ into).last key = s.last key := by
  rw [last, renumber_cursors]
  split
  · split
    · rw [lookup_insert h, if_neg hk]
      rfl
    · rfl
  · rw [lookup_insert h, if_neg hk]
    rfl

/-- The destination counts on from both. -/
theorem renumber_last_into (h : Valid s.cursors) :
    max (s.last from_) (s.last into) ≤ (s.renumber moves from_ into).last into := by
  rw [show (s.renumber moves from_ into).last into =
    (lookup (s.renumber moves from_ into).cursors into).getD 0 from rfl, renumber_cursors]
  split
  case isTrue hz =>
    split
    case isTrue =>
      rw [lookup_insert h, if_pos rfl, hz]
      exact Nat.le_of_eq (Nat.max_zero _)
    case isFalse hf =>
      show max _ _ ≤ s.last into
      rw [hz, Nat.max_zero]
      exact Nat.le_of_not_lt hf
  case isFalse =>
    rw [lookup_insert h, if_pos rfl]
    exact Nat.le_add_right _ _

/-- What a merge does to the cursor of a mail it moves. -/
theorem renumbered_moving (h : s.Numbered) {i : Nat} {m : StoredMessage}
    (hi : s.msgs[i]? = some m) (hm : isMail m = true) (hmv : moves m.recipient = true)
    (hinto : s.last into ≠ 0) :
    max (s.last from_) (s.last into) < s.renumbered moves from_ into i m ∧
      s.renumbered moves from_ into i m ≤ (s.renumber moves from_ into).last into := by
  obtain ⟨n, hn, hget⟩ := moving_index hi hm hmv
  have hlt : n < (s.moving moves).length := (List.getElem?_eq_some_iff.1 hget).1
  have hval : s.renumbered moves from_ into i m = max (s.last from_) (s.last into) + n + 1 := by
    unfold renumbered
    rw [if_neg hinto, hn]
  have hlast : (s.renumber moves from_ into).last into =
      max (s.last from_) (s.last into) + (s.moving moves).length := by
    rw [show (s.renumber moves from_ into).last into =
      (lookup (s.renumber moves from_ into).cursors into).getD 0 from rfl, renumber_cursors,
      if_neg hinto, lookup_insert h.valid, if_pos rfl]
    rfl
  rw [hval, hlast]
  exact ⟨Nat.lt_succ_of_le (Nat.le_add_right _ _), Nat.add_le_add_left hlt _⟩

theorem renumbered_still {i : Nat} {m : StoredMessage} (hi : s.msgs[i]? = some m)
    (hm : s.last into = 0 ∨ (isMail m && moves m.recipient) = false) :
    s.renumbered moves from_ into i m = m.cursor := by
  unfold renumbered
  split
  · rfl
  case isFalse hz => rw [moving_index_none hi (hm.resolve_left hz)]

/-- A merge keeps the order of the mail it moves. -/
theorem renumbered_lt (h : s.Numbered)
    (hone : ∀ a b, moves a = true → moves b = true → a.key = b.key) {i j : Nat} {a b : StoredMessage}
    (hi : s.msgs[i]? = some a) (hj : s.msgs[j]? = some b) (ha : isMail a = true)
    (hb : isMail b = true) (hma : moves a.recipient = true) (hmb : moves b.recipient = true)
    (hlt : a.cursor < b.cursor) :
    s.renumbered moves from_ into i a < s.renumbered moves from_ into j b := by
  by_cases hinto : s.last into = 0
  · rwa [renumbered_still hi (.inl hinto), renumbered_still hj (.inl hinto)]
  · obtain ⟨n, hn, hgn⟩ := moving_index hi ha hma
    obtain ⟨k, hk, hgk⟩ := moving_index hj hb hmb
    have hnk : n < k := by
      obtain ⟨hnlt, hne⟩ := List.getElem?_eq_some_iff.1 hgn
      obtain ⟨hklt, hke⟩ := List.getElem?_eq_some_iff.1 hgk
      have hs := List.pairwise_iff_getElem.1 (moving_strict h hone)
      rcases Nat.lt_trichotomy n k with hlt' | heq | hgt
      · exact hlt'
      · subst heq
        rw [hgn] at hgk
        obtain ⟨rfl, -⟩ := Prod.mk.inj (Option.some.inj hgk)
        exact absurd hlt (Nat.lt_irrefl _)
      · have := hs k n hklt hnlt hgt
        rw [hne, hke] at this
        exact absurd (Nat.lt_trans hlt this) (Nat.lt_irrefl _)
    unfold renumbered
    rw [if_neg hinto, hn, if_neg hinto, hk]
    exact Nat.succ_lt_succ (Nat.add_lt_add_left hnk _)

end Renumber

/-! ## After a merge -/

/-- A merge moves the one mailbox keyed `from_`, into another. -/
structure From (moves : Mailbox → Bool) (from_ : Key) (into : Fingerprint) : Prop where
  moves : ∀ m, moves m = true ↔ m.key = from_
  other : from_ ≠ .fingerprint into
  plain : PlainKey from_

theorem from_bare {login : String} (h : PlainKey (.login login)) (fp : Fingerprint) :
    From (bare login) (.login login) fp where
  moves m := by
    obtain ⟨l, mfp⟩ := m
    cases mfp with
    | none => simp [bare, Mailbox.key]
    | some mfp => simp [bare, Mailbox.key]
  other := nofun
  plain := h

theorem from_keyed {from_ into : Fingerprint} (h : from_ ≠ into) :
    From (keyed from_) (.fingerprint from_) into where
  moves m := by
    obtain ⟨l, mfp⟩ := m
    cases mfp with
    | none => simp [keyed, Mailbox.key]
    | some mfp => simp [keyed, Mailbox.key]
  other e := h (Key.fingerprint.inj e)
  plain := trivial

section Merged
variable {moves : Mailbox → Bool} {from_ : Key} {into : Fingerprint}

/-- The counts a merge leaves: the one of the mailbox merged may go. -/
def MergedCounts (s : Inner) (moves : Mailbox → Bool) (from_ : Key) (into : Fingerprint)
    (cursors : List (List Char × Cursor)) : Prop :=
  Valid cursors ∧ ∀ key, key ≠ spelled from_ →
    (lookup cursors key).getD 0 = (s.renumber moves (spelled from_) (hex into.val)).last key

/-- The store as a merge leaves it, once it is collapsed. -/
def merged (s : Inner) (moves : Mailbox → Bool) (from_ : Key) (into : Fingerprint)
    (cursors : List (List Char × Cursor)) : Inner :=
  restampAll { s.renumber moves (spelled from_) (hex into.val) with cursors := cursors } moves into

theorem merged_get (s : Inner) (cursors : List (List Char × Cursor)) (i : Nat) :
    (s.merged moves from_ into cursors).msgs[i]? = s.msgs[i]?.map fun m => { m with
      cursor := s.renumbered moves (spelled from_) (hex into.val) i m
      recipient := restampOne moves into m.recipient
      sender := m.sender.map (restampOne moves into) } := by
  show (List.map _ (s.renumber moves (spelled from_) (hex into.val)).msgs)[i]? = _
  rw [List.getElem?_map, renumber_get, Option.map_map]
  rfl

theorem merged_row {cursors : List (List Char × Cursor)} {a : StoredMessage}
    (ha : a ∈ (s.merged moves from_ into cursors).msgs) : ∃ (i : Nat) (m : StoredMessage),
      s.msgs[i]? = some m ∧ a.id = m.id ∧ isMail a = isMail m ∧
      a.recipient = restampOne moves into m.recipient ∧
      a.cursor = s.renumbered moves (spelled from_) (hex into.val) i m := by
  obtain ⟨i, hi⟩ := List.mem_iff_getElem?.1 ha
  rw [merged_get] at hi
  obtain ⟨m, hm, rfl⟩ := Option.map_eq_some_iff.1 hi
  exact ⟨i, m, hm, rfl, rfl, rfl, rfl⟩

theorem restampOne_key (hf : From moves from_ into) (m : Mailbox) :
    (restampOne moves into m).key = if m.key = from_ then .fingerprint into else m.key := by
  by_cases h : m.key = from_
  · rw [if_pos h, restampOne_of_moves ((hf.moves m).2 h)]
  · rw [if_neg h, restampOne_of_not (Bool.eq_false_iff.2 fun hm => h ((hf.moves m).1 hm))]

theorem From.one (hf : From moves from_ into) (a b : Mailbox) (ha : moves a = true)
    (hb : moves b = true) : a.key = b.key :=
  ((hf.moves a).1 ha).trans ((hf.moves b).1 hb).symm

variable {cursors : List (List Char × Cursor)}

theorem merged_last_ne (h : s.Numbered) (hf : From moves from_ into)
    (hc : s.MergedCounts moves from_ into cursors) {k : Key} (hk : PlainKey k) (hne : k ≠ from_)
    (hne' : k ≠ .fingerprint into) : (s.merged moves from_ into cursors).lastOf k = s.lastOf k := by
  refine (hc.2 (spelled k) fun e => hne (spelled_inj hk hf.plain e)).trans ?_
  exact renumber_last_ne h.valid fun e => hne' (spelled_inj (b := .fingerprint into) hk trivial e)

theorem merged_last_into (h : s.Numbered) (hf : From moves from_ into)
    (hc : s.MergedCounts moves from_ into cursors) :
    max (s.lastOf from_) (s.lastOf (.fingerprint into)) ≤
      (s.merged moves from_ into cursors).lastOf (.fingerprint into) := by
  have hne : spelled (.fingerprint into) ≠ spelled from_ := fun e =>
    hf.other (spelled_inj (a := .fingerprint into) trivial hf.plain e).symm
  refine Nat.le_trans ?_ (Nat.le_of_eq (hc.2 _ hne).symm)
  exact renumber_last_into h.valid

theorem mem_get {i : Nat} {m : StoredMessage} (hi : s.msgs[i]? = some m) : m ∈ s.msgs :=
  List.mem_of_getElem? hi

/-- The cursors after a merge: a mail moved is past both counts, unless its new mailbox had issued
none; any other keeps its own. -/
theorem merged_cursor (h : s.Numbered) (hf : From moves from_ into) {i : Nat} {m : StoredMessage}
    (hi : s.msgs[i]? = some m) (hm : isMail m = true) :
    let c := s.renumbered moves (spelled from_) (hex into.val) i m
    (m.recipient.key = from_ ∧ s.lastOf (.fingerprint into) ≠ 0 ∧
      max (s.lastOf from_) (s.lastOf (.fingerprint into)) < c ∧
      c ≤ (s.renumber moves (spelled from_) (hex into.val)).last (hex into.val)) ∨
    ((m.recipient.key = from_ → s.lastOf (.fingerprint into) = 0) ∧ c = m.cursor) := by
  intro c
  by_cases hk : m.recipient.key = from_
  · by_cases hz : s.lastOf (.fingerprint into) = 0
    · exact .inr ⟨fun _ => hz, renumbered_still hi (.inl hz)⟩
    · have := @renumbered_moving _ _ (spelled from_) _ h _ _ hi hm ((hf.moves _).2 hk) hz
      exact .inl ⟨hk, hz, this⟩
  · refine .inr ⟨fun e => absurd e hk, renumbered_still hi (.inr ?_)⟩
    rw [hm, Bool.true_and]
    exact Bool.eq_false_iff.2 fun hmv => hk ((hf.moves _).1 hmv)

/-- A mail a merge moves is past every mail of the mailbox it is moved into. -/
theorem renumbered_past (h : s.Numbered) (hf : From moves from_ into) {i j : Nat}
    {a b : StoredMessage} (hi : s.msgs[i]? = some a) (hj : s.msgs[j]? = some b)
    (ha : isMail a = true) (hb : isMail b = true) (hka : a.recipient.key = from_)
    (hkb : b.recipient.key = .fingerprint into) :
    s.renumbered moves (spelled from_) (hex into.val) j b <
      s.renumbered moves (spelled from_) (hex into.val) i a := by
  have hold := h.issued _ (slot_mem (mem_get hj)) hb
  have hle : b.cursor ≤ s.lastOf (.fingerprint into) := hkb ▸ hold.2
  have hpos : s.lastOf (.fingerprint into) ≠ 0 := Nat.ne_of_gt (Nat.lt_of_lt_of_le hold.1 hle)
  have hstill : s.renumbered moves (spelled from_) (hex into.val) j b = b.cursor := by
    refine (merged_cursor h hf hj hb).resolve_left (fun e => hf.other ?_) |>.2
    exact e.1.symm.trans hkb
  rw [hstill]
  rcases merged_cursor h hf hi ha with ⟨-, -, hlt, -⟩ | ⟨hz, -⟩
  · exact Nat.lt_of_le_of_lt (hle.trans (Nat.le_max_right _ _)) hlt
  · exact absurd (hz hka) hpos

theorem Numbered.merged (h : s.Numbered) (hf : From moves from_ into)
    (hc : s.MergedCounts moves from_ into cursors) : (s.merged moves from_ into cursors).Numbered := by
  have hget := @merged_get moves from_ into s cursors
  have hids : (s.merged moves from_ into cursors).msgs.map (·.id) = s.msgs.map (·.id) := by
    refine List.ext_getElem? fun i => ?_
    rw [List.getElem?_map, List.getElem?_map, hget, Option.map_map]
    rfl
  have hinto := merged_last_into h hf hc
  refine ⟨hc.1, ?_, ?_, ?_, ?_, ?_⟩
  · have hs := List.pairwise_map.1 h.ids
    have hp : (s.msgs.map (·.id)).Pairwise (· < ·) := List.pairwise_map.2 hs
    rw [← hids] at hp
    exact List.pairwise_map.2 (List.pairwise_map.1 hp)
  · intro a ha
    obtain ⟨m', hm', rfl⟩ := List.mem_map.1 ha
    obtain ⟨i, m, hi, hid, -⟩ := merged_row hm'
    have hn : (s.renumber moves (spelled from_) (hex into.val)).nextId = s.nextId := by
      unfold renumber
      split
      · split <;> rfl
      · rfl
    show m'.id ≤ (s.renumber moves (spelled from_) (hex into.val)).nextId
    rw [hid, hn]
    exact h.ids_le _ (slot_mem (mem_get hi))
  · intro a ha
    obtain ⟨m', hm', rfl⟩ := List.mem_map.1 ha
    obtain ⟨i, m, hi, -, -, hr, -⟩ := merged_row hm'
    show PlainKey m'.recipient.key
    rw [hr, restampOne_key hf]
    split
    · trivial
    · exact h.plain _ (slot_mem (mem_get hi))
  · intro a ha hmail
    obtain ⟨m', hm', rfl⟩ := List.mem_map.1 ha
    obtain ⟨i, m, hi, -, hmm, hr, hcur⟩ := merged_row hm'
    have hmail' : isMail m = true := hmm.symm.trans hmail
    have hold := h.issued _ (slot_mem (mem_get hi)) hmail'
    show 0 < m'.cursor ∧ m'.cursor ≤ (s.merged moves from_ into cursors).lastOf m'.recipient.key
    rw [hcur, hr, restampOne_key hf]
    rcases merged_cursor h hf hi hmail' with ⟨hk, hz, hlt, hle⟩ | ⟨hz, heq⟩
    · rw [if_pos hk]
      have hne : spelled (.fingerprint into) ≠ spelled from_ := fun e =>
        hf.other (spelled_inj (a := .fingerprint into) trivial hf.plain e).symm
      exact ⟨Nat.lt_of_le_of_lt (Nat.zero_le _) hlt, hle.trans (Nat.le_of_eq (hc.2 _ hne).symm)⟩
    · rw [heq]
      refine ⟨hold.1, ?_⟩
      by_cases hk : m.recipient.key = from_
      · rw [if_pos hk]
        have hle : m.cursor ≤ s.lastOf from_ := hk ▸ hold.2
        exact hle.trans ((Nat.le_max_left _ _).trans hinto)
      · rw [if_neg hk]
        by_cases hki : m.recipient.key = .fingerprint into
        · have hle : m.cursor ≤ s.lastOf (.fingerprint into) := hki ▸ hold.2
          rw [hki]
          exact hle.trans ((Nat.le_max_right _ _).trans hinto)
        · have hlast := merged_last_ne (k := m.recipient.key) h hf hc
            (h.plain _ (slot_mem (mem_get hi))) hk hki
          exact hold.2.trans (Nat.le_of_eq hlast.symm)
  · refine List.pairwise_map.2 (List.pairwise_iff_getElem.2 fun i j hi hj hij => ?_)
    intro hma hmb hkey
    obtain ⟨a, ha, hae⟩ := Option.map_eq_some_iff.1 ((hget i).symm.trans (List.getElem?_eq_getElem hi))
    obtain ⟨b, hb, hbe⟩ := Option.map_eq_some_iff.1 ((hget j).symm.trans (List.getElem?_eq_getElem hj))
    rw [← hae, ← hbe] at hkey ⊢
    rw [← hae] at hma
    rw [← hbe] at hmb
    replace hma : isMail a = true := hma
    replace hmb : isMail b = true := hmb
    replace hkey : (restampOne moves into a.recipient).key = (restampOne moves into b.recipient).key :=
      hkey
    show s.renumbered moves (spelled from_) (hex into.val) i a ≠
      s.renumbered moves (spelled from_) (hex into.val) j b
    have hne : a.recipient.key = b.recipient.key → a.cursor ≠ b.cursor := by
      have hd := List.pairwise_iff_getElem.1 (List.pairwise_map.1 h.distinct)
      obtain ⟨hli, rfl⟩ := List.getElem?_eq_some_iff.1 ha
      obtain ⟨hlj, rfl⟩ := List.getElem?_eq_some_iff.1 hb
      exact hd i j hli hlj hij hma hmb
    rw [restampOne_key hf, restampOne_key hf] at hkey
    by_cases hka : a.recipient.key = from_
    · by_cases hkb : b.recipient.key = from_
      · -- Both are moved, and keep their order.
        have hmva := (hf.moves _).2 hka
        have hmvb := (hf.moves _).2 hkb
        rcases Nat.lt_or_gt_of_ne (hne (hka.trans hkb.symm)) with hlt | hgt
        · exact Nat.ne_of_lt (renumbered_lt h hf.one ha hb hma hmb hmva hmvb hlt)
        · exact Nat.ne_of_gt (renumbered_lt h hf.one hb ha hmb hma hmvb hmva hgt)
      · rw [if_pos hka, if_neg hkb] at hkey
        exact Nat.ne_of_gt (renumbered_past h hf ha hb hma hmb hka hkey.symm)
    · by_cases hkb : b.recipient.key = from_
      · rw [if_neg hka, if_pos hkb] at hkey
        exact Nat.ne_of_lt (renumbered_past h hf hb ha hmb hma hkb hkey)
      · rw [if_neg hka, if_neg hkb] at hkey
        rw [(merged_cursor h hf ha hma).resolve_left (fun e => hka e.1) |>.2,
          (merged_cursor h hf hb hmb).resolve_left (fun e => hkb e.1) |>.2]
        exact hne hkey

end Merged

end Inner

/-! ## What a call does to the numbers -/

/-- The mailbox a call merges, and the one it merges it into. -/
def Op.merges : Op → Option (Key × Fingerprint)
  | .claim login fp => some (.login login, fp)
  | .rotate from_ into => some (.fingerprint from_, into)
  | _ => none

/-- A call of a run that purges nothing: logins are no fingerprints, and a rotation is to another
key. -/
def Op.Counts : Op → Prop
  | .push _ m _ _ => PlainKey m.recipient.key
  | .claim login _ => PlainKey (.login login)
  | .unlinked login _ => PlainKey (.login login)
  | .rotate from_ into => from_ ≠ into
  | .purge _ => False
  | _ => True

namespace Inner

variable {s s' : Inner} {op : Op}

/-- All a call can do to slots and counts: rows go and counts rise, a row is added with the next
cursor, or a mailbox is merged. -/
inductive Change (s : Inner) (op : Op) (s' : Inner) : Prop
  | kept (hm : op.merges = none) (hs : s'.slots.Sublist s.slots) (hv : Valid s'.cursors)
      (hn : s'.nextId = s.nextId) (hl : ∀ k, PlainKey k → s.lastOf k ≤ s'.lastOf k)
  | pushed (a : Slot) (hm : op.merges = none) (hs : s'.slots = s.slots ++ [a])
      (hv : Valid s'.cursors) (hid : a.id = s.nextId + 1) (hn : s'.nextId = s.nextId + 1)
      (hp : PlainKey a.key) (hc : a.mail = true → a.cursor = s.lastOf a.key + 1)
      (hl : ∀ k, PlainKey k →
        s'.lastOf k = if a.mail = true ∧ k = a.key then a.cursor else s.lastOf k)
  | merged (moves : Mailbox → Bool) (from_ : Key) (into : Fingerprint)
      (cursors : List (List Char × Cursor)) (s₀ : Inner) (hm : op.merges = some (from_, into))
      (hd : s.Drops s₀) (hf : From moves from_ into) (hc : s₀.MergedCounts moves from_ into cursors)
      (he : s' = s₀.merged moves from_ into cursors)

theorem Change.of_slots (h : Valid s.cursors) (hm : op.merges = none) (hs : s'.slots = s.slots)
    (hc : s'.cursors = s.cursors) (hn : s'.nextId = s.nextId) : s.Change op s' := by
  refine .kept hm (hs ▸ List.Sublist.refl _) (hc ▸ h) hn fun k _ => Nat.le_of_eq ?_
  rw [lastOf, lastOf, last, last, hc]

theorem slots_map {f : StoredMessage → StoredMessage} (hf : ∀ m, (f m).slot = m.slot)
    (hs : s'.msgs = s.msgs.map f) : s'.slots = s.slots := by
  rw [slots, slots, hs, List.map_map]
  exact List.map_congr_left fun m _ => hf m

theorem change_push (h : Valid s.cursors) {relations : RelationId → Bool} {m : NewMessage} {cap : Nat}
    {drawn : Except StoreError MessageRef} (hp : PlainKey m.recipient.key) :
    s.Change (.push relations m cap drawn) (s.push relations m cap drawn).2 := by
  have hsame : s.Change (.push relations m cap drawn) s := .of_slots h rfl rfl rfl rfl
  unfold Inner.push
  split
  · exact hsame
  · exact hsame
  split
  · exact hsame
  split
  · exact hsame
  case h_2 reference =>
  have hmail : (s.stored m reference).slot.mail = decide (m.kind = .message) := rfl
  refine .pushed (s.stored m reference).slot rfl ?_ ?_ rfl rfl hp ?_ fun k hk => ?_
  · exact List.map_append
  · show Valid (if _ then _ else _)
    split
    · exact valid_alter h _ _
    · exact h
  · intro hm
    rw [hmail, decide_eq_true_eq] at hm
    show (if m.kind = .message then s.last m.recipient.spelling + 1 else 0) = _
    rw [if_pos hm, spelling_eq]
    rfl
  · show (lookup (if m.kind = .message then _ else _) _).getD 0 = _
    by_cases hm : m.kind = .message
    · rw [if_pos hm, lookup_insert h]
      by_cases hkey : k = m.recipient.key
      · rw [if_pos (by rw [hkey, spelling_eq]), if_pos ⟨decide_eq_true hm, hkey⟩]
        rfl
      · rw [if_neg fun e => hkey (spelled_inj hk hp (e.trans (spelling_eq _))),
          if_neg fun e => hkey e.2]
        rfl
    · rw [if_neg hm, if_neg fun e => hm (of_decide_eq_true e.1)]
      rfl

theorem unlinked_last (h : Valid s.cursors) (login : String) (fp : Fingerprint) :
    Valid (s.unlinked login fp).cursors ∧ (∀ key, s.last key ≤ (s.unlinked login fp).last key) ∧
      s.last (hex fp.val) ≤ (s.unlinked login fp).last login.toList := by
  unfold Inner.unlinked
  split
  case h_1 past hpast =>
    have hfp : s.last (hex fp.val) = past := by rw [last, hpast, Option.getD_some]
    refine ⟨valid_alter h _ _, fun key => ?_, ?_⟩
    · rw [last_insert h]
      split
      case isTrue hkey => exact hkey ▸ Nat.le_max_left _ _
      case isFalse => exact Nat.le_refl _
    · rw [last_insert h, if_pos rfl, hfp]
      exact Nat.le_max_right _ _
  case h_2 hnone =>
    refine ⟨h, fun key => Nat.le_refl _, ?_⟩
    rw [last, hnone]
    exact Nat.zero_le _

theorem drops_merge (s : Inner) (moves : Mailbox → Bool) (into : Fingerprint) :
    s.Drops ((mergeInto moves into).collapse s).forgetRemoved :=
  (Merge.drops_collapse _ s).trans (drops_forgetRemoved _)

theorem slots_restamp (s : Inner) (merged : List (RelationId × RelationId)) :
    (s.restamp merged).slots = s.slots ∧ (s.restamp merged).cursors = s.cursors ∧
      (s.restamp merged).nextId = s.nextId := by
  unfold Inner.restamp
  induction merged generalizing s with
  | nil => exact ⟨rfl, rfl, rfl⟩
  | cons p merged ih =>
    obtain ⟨hs, hc, hn⟩ := ih _
    refine ⟨hs.trans (slots_map (f := fun m => if m.friendship = some (.relation p.1)
      then { m with friendship := some (.relation p.2) } else m) (fun m => ?_) rfl), hc, hn⟩
    split <;> rfl

theorem change_claim (h : Valid s.cursors) {login : String} (hp : PlainKey (.login login))
    (fp : Fingerprint) : s.Change (.claim login fp) (s.claim login fp).2 := by
  let s₀ := ((mergeInto (bare login) fp).collapse s).forgetRemoved
  have hd : s.Drops s₀ := drops_merge s (bare login) fp
  have hv : Valid s₀.cursors := (congrArg Valid hd.cursors).mpr h
  have hr : Valid (s₀.renumber (bare login) login.toList (hex fp.val)).cursors := valid_renumber hv
  refine .merged (bare login) (.login login) fp
    (erase login.toList (s₀.renumber (bare login) login.toList (hex fp.val)).cursors) s₀ rfl hd
    (from_bare hp fp) ⟨valid_alter hr _ _, fun key hkey => ?_⟩ rfl
  show (lookup (erase login.toList _) key).getD 0 = _
  rw [lookup_erase hr, if_neg (show ¬key = login.toList from hkey)]
  rfl

theorem change_rotate (h : Valid s.cursors) {from_ into : Fingerprint} (hne : from_ ≠ into) :
    s.Change (.rotate from_ into) (s.rotate from_ into).2 := by
  let s₀ := ((mergeInto (keyed from_) into).collapse s).forgetRemoved
  have hd : s.Drops s₀ := drops_merge s (keyed from_) into
  have hv : Valid s₀.cursors := (congrArg Valid hd.cursors).mpr h
  exact .merged (keyed from_) (.fingerprint from_) into
    (s₀.renumber (keyed from_) (hex from_.val) (hex into.val)).cursors s₀ rfl hd
    (from_keyed hne) ⟨valid_renumber hv, fun key _ => rfl⟩ rfl

theorem changed (h : Valid s.cursors) (hop : op.Counts) : s.Change op (s.step op) := by
  cases op with
  | push relations m cap drawn => exact change_push h hop
  | markHanded ids => exact .of_slots h rfl rfl rfl rfl
  | receiptTold id =>
    show s.Change _ (s.receiptTold id).2
    unfold Inner.receiptTold
    split <;> exact .of_slots h rfl rfl rfl rfl
  | markDelivered ids at_ what =>
    refine .of_slots h rfl (slots_map
      (f := fun m => if ids.contains m.id then stamp m at_ what else m) (fun m => ?_) rfl) rfl rfl
    split <;> rfl
  | markRead relations to_ upTo at_ =>
    refine .of_slots h rfl (slots_map
      (f := fun m => if marks relations to_ upTo m then stamp m at_ .read else m) (fun m => ?_) rfl)
      rfl rfl
    split <;> rfl
  | claim login fp => exact change_claim h hop fp
  | rotate from_ into => exact change_rotate h hop
  | unlinked login fp =>
    obtain ⟨hv, hl, -⟩ := unlinked_last h login fp
    have hs : (s.unlinked login fp).slots = s.slots := by
      unfold Inner.unlinked
      split <;> rfl
    have hn : (s.unlinked login fp).nextId = s.nextId := by
      unfold Inner.unlinked
      split <;> rfl
    exact .kept rfl (hs ▸ List.Sublist.refl _) hv hn fun k _ => hl _
  | restamp merged =>
    obtain ⟨hs, hc, hn⟩ := slots_restamp s merged
    exact .of_slots h rfl hs hc hn
  | purge of_ => exact hop.elim
  | prune now unread read =>
    refine .kept rfl ?_ h rfl fun k _ => Nat.le_refl _
    have hstrip : ∀ m, (stripGuid now unread m).slot = m.slot := fun m => by
      unfold stripGuid
      split <;> rfl
    show (((s.msgs.filter _).map (stripGuid now unread)).map StoredMessage.slot).Sublist _
    rw [List.map_map, show (StoredMessage.slot ∘ stripGuid now unread) = StoredMessage.slot from
      funext hstrip]
    exact List.filter_sublist.map _

/-- Every call but a purge keeps the mailboxes numbered. -/
theorem Numbered.step (h : s.Numbered) (hop : op.Counts) : (s.step op).Numbered := by
  cases changed h.valid hop with
  | kept hm hs hv hn hl =>
    exact h.sublist hs hv (Nat.le_of_eq hn.symm) fun a ha => hl _ (h.plain a (hs.subset ha))
  | pushed a hm hs hv hid hn hp hc hl =>
    refine ⟨hv, ?_, ?_, ?_, ?_, ?_⟩
    · rw [hs, List.pairwise_append]
      refine ⟨h.ids, List.pairwise_singleton _ _, fun x hx y hy => ?_⟩
      rw [List.mem_singleton.1 hy, hid]
      exact Nat.lt_succ_of_le (h.ids_le x hx)
    · intro x hx
      rw [hs, List.mem_append, List.mem_singleton] at hx
      rw [hn]
      rcases hx with hx | rfl
      · exact Nat.le_succ_of_le (h.ids_le x hx)
      · exact Nat.le_of_eq hid
    · intro x hx
      rw [hs, List.mem_append, List.mem_singleton] at hx
      rcases hx with hx | rfl
      · exact h.plain x hx
      · exact hp
    · intro x hx hxm
      rw [hs, List.mem_append, List.mem_singleton] at hx
      rcases hx with hx | rfl
      · obtain ⟨hpos, hle⟩ := h.issued x hx hxm
        refine ⟨hpos, hle.trans ?_⟩
        rw [hl _ (h.plain x hx)]
        split
        case isTrue e => rw [hc e.1, e.2]; exact Nat.le_succ _
        case isFalse => exact Nat.le_refl _
      · rw [hl _ hp, if_pos ⟨hxm, rfl⟩, hc hxm]
        exact ⟨Nat.succ_pos _, Nat.le_refl _⟩
    · rw [hs, List.pairwise_append]
      refine ⟨h.distinct, List.pairwise_singleton _ _, fun x hx y hy hxm hym hk => ?_⟩
      rw [List.mem_singleton.1 hy] at hym hk ⊢
      rw [hc hym, ← hk]
      exact Nat.ne_of_lt (Nat.lt_succ_of_le (h.issued x hx hxm).2)
  | merged moves from_ into cursors s₀ hm hd hf hc he =>
    rw [he]
    exact (h.drops hd).merged hf hc

theorem Numbered.after (h : s.Numbered) {ops : List Op} (hops : ∀ op ∈ ops, op.Counts) :
    (s.after ops).Numbered := by
  induction ops generalizing s with
  | nil => exact h
  | cons op ops ih =>
    exact ih (h.step (hops op List.mem_cons_self)) fun o ho => hops o (List.mem_cons_of_mem _ ho)

end Inner

end HxdNg.Inbox
