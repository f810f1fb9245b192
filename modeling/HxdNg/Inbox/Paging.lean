import HxdNg.Inbox.Cursors

/-!
# Reading a mailbox by its cursors

* `paged` : the pages of a mailbox until one is empty; `paged_eq` : they are its mail, newest first;
* `Gives`, `past_last` : a cursor a call gives is past every cursor its mailbox issued;
* `heirs` : the mailboxes whose counts follow another's;
* `cursors_never_reused` : what follows of any run.
-/

namespace HxdNg.Inbox

open Relationships History Assoc
open Identity (Fingerprint)

/-! ## Pages -/

section Pages
variable {α κ : Type*} [LinearOrder κ] (key : α → κ) (next : Option κ → List α)

/-- Page after page, each from the last key of the one before, until one is empty. -/
def pagesOf : Nat → Option κ → List α
  | 0, _ => []
  | n + 1, before =>
    match (next before).getLast? with
    | none => []
    | some m => next before ++ pagesOf n (some (key m))

variable {key next} {l : List α} {limit : Nat}

/-- Below the last key of a page of what is below `before`, there is what the page left. -/
theorem filter_below (hl : l.Pairwise fun a b => key b < key a) {before : Option κ} {m : α}
    (hm : ((l.filter fun a => before.all (key a < ·)).take limit).getLast? = some m) :
    l.filter (fun a => (some (key m)).all (key a < ·)) =
      (l.filter fun a => before.all (key a < ·)).drop limit := by
  let below := l.filter fun a => before.all (key a < ·)
  have hmem : m ∈ below.take limit := List.mem_of_getLast? hm
  have hbelow : before.all (key m < ·) = true :=
    (List.mem_filter.1 (List.mem_of_mem_take hmem)).2
  have hp : below.Pairwise fun a b => key b < key a := hl.sublist List.filter_sublist
  have hfilter : l.filter (fun a => (some (key m)).all (key a < ·)) =
      below.filter fun a => decide (key a < key m) := by
    rw [List.filter_filter]
    refine List.filter_congr fun a _ => ?_
    show decide (key a < key m) = (decide (key a < key m) && before.all (key a < ·))
    by_cases ha : key a < key m
    · cases before with
      | none => rw [decide_eq_true ha]; rfl
      | some b =>
        have hb : key a < b := lt_trans ha (of_decide_eq_true hbelow)
        rw [decide_eq_true ha, Bool.true_and]
        exact (decide_eq_true hb).symm
    · rw [decide_eq_false ha, Bool.false_and]
  rw [hfilter]
  show below.filter _ = below.drop limit
  have hsplit := List.take_append_drop limit below
  rw [← hsplit] at hp
  obtain ⟨htake, -, hcross⟩ := List.pairwise_append.1 hp
  conv_lhs => rw [← hsplit]
  rw [List.filter_append, List.filter_eq_nil_iff.2, List.nil_append, List.filter_eq_self]
  · exact fun a ha => decide_eq_true (hcross m hmem a ha)
  · intro a ha
    rw [decide_eq_true_eq, not_lt]
    obtain ⟨init, hinit⟩ := List.getLast?_eq_some_iff.1 hm
    rw [show below.take limit = init ++ [m] from hinit] at htake ha
    rcases List.mem_append.1 ha with ha | ha
    · exact le_of_lt ((List.pairwise_append.1 htake).2.2 a ha m (List.mem_singleton_self m))
    · rw [List.mem_singleton.1 ha]

theorem pagesOf_eq (hl : l.Pairwise fun a b => key b < key a) (hlimit : 0 < limit)
    (hnext : ∀ before, next before = (l.filter fun a => before.all (key a < ·)).take limit)
    {n : Nat} {before : Option κ} (hn : (l.filter fun a => before.all (key a < ·)).length < n) :
    pagesOf key next n before = l.filter fun a => before.all (key a < ·) := by
  induction n generalizing before with
  | zero => exact absurd hn (Nat.not_lt_zero _)
  | succ n ih =>
    let below := l.filter fun a => before.all (key a < ·)
    have hpage : next before = below.take limit := hnext before
    show (match (next before).getLast? with
      | none => []
      | some m => next before ++ pagesOf key next n (some (key m))) = below
    rw [hpage]
    cases hm : (below.take limit).getLast? with
    | none =>
      have htake := List.take_eq_nil_iff.1 (List.getLast?_eq_none_iff.1 hm)
      exact (htake.resolve_left (Nat.ne_of_gt hlimit)).symm
    | some m =>
      have hrest := filter_below hl hm
      have hpos : 0 < below.length := by
        have hmem : m ∈ below := List.mem_of_mem_take (List.mem_of_getLast? hm)
        exact List.length_pos_of_mem hmem
      have hlen : (l.filter fun a => (some (key m)).all (key a < ·)).length < n := by
        rw [hrest, List.length_drop]
        have : below.length < n + 1 := hn
        show below.length - limit < n
        omega
      show below.take limit ++ _ = below
      rw [ih hlen, hrest]
      exact List.take_append_drop limit below

end Pages

namespace Inner

variable {s : Inner} {relations : RelationId → Bool} {to_ : Mailbox} {limit : Nat}

/-- Is it mail of this mailbox that the gate lets through? -/
def shows (relations : RelationId → Bool) (to_ : Mailbox) (m : StoredMessage) : Bool :=
  isMail m && is m.recipient to_ && live relations m

/-- The pages of a mailbox, `limit` messages each, until one is empty. -/
def paged (relations : RelationId → Bool) (s : Inner) (to_ : Mailbox) (limit n : Nat) :
    List StoredMessage :=
  pagesOf (·.cursor) (fun before => s.list relations to_ before limit) n none

def newest (relations : RelationId → Bool) (s : Inner) (to_ : Mailbox) : List StoredMessage :=
  sortBy (fun m => OrderDual.toDual m.cursor) (s.msgs.filter (shows relations to_))

theorem cursors_nodup (h : s.Numbered) :
    ((s.msgs.filter (shows relations to_)).map fun m => OrderDual.toDual m.cursor).Nodup := by
  have hd : s.msgs.Pairwise fun a b => isMail a = true → isMail b = true →
      a.recipient.key = b.recipient.key → a.cursor ≠ b.cursor := List.pairwise_map.1 h.distinct
  refine List.pairwise_map.2 ((hd.sublist List.filter_sublist).imp_of_mem fun ha hb hne e => ?_)
  have ha := (List.mem_filter.1 ha).2
  have hb := (List.mem_filter.1 hb).2
  simp only [shows, Bool.and_eq_true] at ha hb
  exact hne ha.1.1 hb.1.1 ((is_iff.1 ha.1.2).trans (is_iff.1 hb.1.2).symm) (OrderDual.toDual.injective e)

theorem newest_strict (h : s.Numbered) :
    (s.newest relations to_).Pairwise fun a b => b.cursor < a.cursor :=
  pairwise_lt_sortBy (cursors_nodup h)

theorem mem_newest {m : StoredMessage} :
    m ∈ s.newest relations to_ ↔ m ∈ s.msgs ∧ shows relations to_ m = true := by
  rw [newest, mem_sortBy, List.mem_filter]

theorem list_eq (h : s.Numbered) (before : Option Cursor) :
    s.list relations to_ before limit =
      ((s.newest relations to_).filter fun m => before.all (m.cursor < ·)).take limit := by
  have hmine : (s.msgs.filter fun m => isMail m && is m.recipient to_ && before.all (m.cursor < ·) &&
      live relations m) =
      (s.msgs.filter (shows relations to_)).filter fun m => before.all (m.cursor < ·) := by
    rw [List.filter_filter]
    refine List.filter_congr fun m _ => ?_
    rw [shows, Bool.and_comm (before.all _), Bool.and_right_comm]
  unfold list
  dsimp only
  rw [hmine]
  refine congrArg (List.take limit) ?_
  have hnd : ((s.msgs.filter (shows relations to_)).map fun m => OrderDual.toDual m.cursor).Nodup :=
    cursors_nodup h
  refine eq_of_perm_of_strict (fun m : StoredMessage => OrderDual.toDual m.cursor) ?_
    (pairwise_lt_sortBy (hnd.sublist (List.filter_sublist.map _)))
    ((pairwise_lt_sortBy hnd).sublist List.filter_sublist)
  exact (perm_sortBy _ _).trans ((perm_sortBy _ _).filter _).symm

/-- Paging until a page is empty reads the mailbox's mail, newest first. -/
theorem paged_eq (h : s.Numbered) (hlimit : 0 < limit) {n : Nat} (hn : s.msgs.length < n) :
    s.paged relations to_ limit n = s.newest relations to_ := by
  have hall : (s.newest relations to_).filter (fun m => (none : Option Cursor).all (m.cursor < ·)) =
      s.newest relations to_ := List.filter_eq_self.2 fun _ _ => rfl
  refine (pagesOf_eq (newest_strict h) hlimit (list_eq h) ?_).trans hall
  rw [hall, newest, length_sortBy]
  exact Nat.lt_of_le_of_lt (List.length_filter_le _ _) hn

/-! ## Cursors a call gives -/

/-- After a call a mail has a cursor it did not have. -/
structure Gives (s : Inner) (op : Op) (m : StoredMessage) : Prop where
  mem : m ∈ (s.step op).msgs
  mail : isMail m = true
  new : ∀ a ∈ s.msgs, a.id = m.id → a.cursor ≠ m.cursor

variable {op : Op} {m : StoredMessage}

theorem slot_of_mem {a : Slot} (ha : a ∈ s.slots) : ∃ m ∈ s.msgs, m.slot = a := List.mem_map.1 ha

theorem lastOf_drops {s' : Inner} (hd : s.Drops s') (k : Key) : s'.lastOf k = s.lastOf k := by
  rw [lastOf, lastOf, last, last, hd.cursors]

/-- A row of a merged store, and the row of the store it comes from. -/
theorem merged_origin {moves : Mailbox → Bool} {from_ : Key} {into : Fingerprint}
    {cursors : List (List Char × Cursor)} {s₀ : Inner} (h : s.Numbered) (hd : s.Drops s₀)
    (hf : From moves from_ into) (hm : m ∈ (s₀.merged moves from_ into cursors).msgs)
    (hmail : isMail m = true) : ∃ k ∈ s.msgs, k.id = m.id ∧ isMail k = true ∧
      ((k.recipient.key = from_ ∧ m.recipient.key = .fingerprint into ∧
          s.lastOf (.fingerprint into) ≠ 0 ∧
          max (s.lastOf from_) (s.lastOf (.fingerprint into)) < m.cursor) ∨
        (k.recipient.key = from_ ∧ m.recipient.key = .fingerprint into ∧
          s.lastOf (.fingerprint into) = 0 ∧ m.cursor = k.cursor) ∨
        (k.recipient.key ≠ from_ ∧ m.recipient.key = k.recipient.key ∧ m.cursor = k.cursor)) := by
  obtain ⟨i, k₀, hi, hid, hmm, hr, hcur⟩ := merged_row hm
  obtain ⟨k, hk, hslot⟩ := slot_of_mem (hd.slots.subset (slot_mem (mem_get hi)))
  have hkid : k.id = k₀.id := congrArg Slot.id hslot
  have hkm : isMail k = isMail k₀ := congrArg Slot.mail hslot
  have hkk : k.recipient.key = k₀.recipient.key := congrArg Slot.key hslot
  have hkc : k.cursor = k₀.cursor := congrArg Slot.cursor hslot
  have hkey := restampOne_key hf k₀.recipient
  rw [← hr] at hkey
  have hmail₀ : isMail k₀ = true := hmm.symm.trans hmail
  refine ⟨k, hk, hkid.trans hid.symm, hkm.trans hmail₀, ?_⟩
  rw [hkk, hkc, ← lastOf_drops hd, ← lastOf_drops hd]
  rcases merged_cursor (h.drops hd) hf hi hmail₀ with ⟨hfrom, hz, hlt, -⟩ | ⟨hz, heq⟩
  · rw [if_pos hfrom] at hkey
    exact .inl ⟨hfrom, hkey, hz, hcur ▸ hlt⟩
  · by_cases hfrom : k₀.recipient.key = from_
    · rw [if_pos hfrom] at hkey
      exact .inr (.inl ⟨hfrom, hkey, hz hfrom, hcur.trans heq⟩)
    · rw [if_neg hfrom] at hkey
      exact .inr (.inr ⟨hfrom, hkey, hcur.trans heq⟩)

/-- A cursor a call gives is past all its mailbox issued, and with a merge past all the mailbox
merged into it issued. -/
theorem past_last (h : s.Numbered) (hop : op.Counts) (hg : s.Gives op m) :
    s.lastOf m.recipient.key < m.cursor ∧ ∀ from_ into, op.merges = some (from_, into) →
      m.recipient.key = .fingerprint into → s.lastOf from_ < m.cursor := by
  have hslot : ∀ {a : Slot}, a ∈ s.slots → a ≠ m.slot := fun ha e => by
    obtain ⟨k, hk, hks⟩ := slot_of_mem ha
    have he : k.slot = m.slot := hks.trans e
    exact hg.new k hk (congrArg Slot.id he) (congrArg Slot.cursor he)
  cases changed h.valid hop with
  | kept hm hs hv hn hl => exact absurd rfl (hslot (hs.subset (slot_mem hg.mem)))
  | pushed a hm hs hv hid hn hp hc hl =>
    have hmem := slot_mem hg.mem
    rw [hs, List.mem_append, List.mem_singleton] at hmem
    rcases hmem with hmem | hmem
    · exact absurd rfl (hslot hmem)
    · have hcur : m.cursor = s.lastOf m.recipient.key + 1 := by
        have := hc (hmem ▸ hg.mail)
        rwa [← hmem] at this
      refine ⟨hcur ▸ Nat.lt_succ_self _, fun from_ into e => ?_⟩
      rw [hm] at e
      cases e
  | merged moves from_ into cursors s₀ hm hd hf hc he =>
    obtain ⟨k, hk, hid, -, hcase⟩ := merged_origin h hd hf (he ▸ hg.mem) hg.mail
    have hne := hg.new k hk hid
    rcases hcase with ⟨-, hkey, -, hlt⟩ | ⟨-, -, -, heq⟩ | ⟨-, -, heq⟩
    · rw [hkey]
      refine ⟨Nat.lt_of_le_of_lt (Nat.le_max_right _ _) hlt, fun f i e _ => ?_⟩
      rw [hm] at e
      obtain ⟨rfl, rfl⟩ := Prod.mk.inj (Option.some.inj e)
      exact Nat.lt_of_le_of_lt (Nat.le_max_left _ _) hlt
    · exact absurd heq.symm hne
    · exact absurd heq.symm hne

/-- A mail after a call has a cursor given by it or the one it had, and it keeps that in another
mailbox only where it was merged into one that had issued none. -/
theorem step_origin (h : s.Numbered) (hop : op.Counts) (hm : m ∈ (s.step op).msgs)
    (hmail : isMail m = true) : s.Gives op m ∨ ∃ a ∈ s.msgs, a.id = m.id ∧ isMail a = true ∧
      a.cursor = m.cursor ∧ (a.recipient.key = m.recipient.key ∨
        ∃ into, op.merges = some (a.recipient.key, into) ∧ m.recipient.key = .fingerprint into ∧
          s.lastOf (.fingerprint into) = 0) := by
  have hslot : m.slot ∈ s.slots → ∃ a ∈ s.msgs, a.id = m.id ∧ isMail a = true ∧
      a.cursor = m.cursor ∧ (a.recipient.key = m.recipient.key ∨
        ∃ into, op.merges = some (a.recipient.key, into) ∧ m.recipient.key = .fingerprint into ∧
          s.lastOf (.fingerprint into) = 0) := fun hmem => by
    obtain ⟨a, ha, has⟩ := slot_of_mem hmem
    have hmm : isMail a = isMail m := congrArg Slot.mail has
    exact ⟨a, ha, congrArg Slot.id has, hmm.trans hmail, congrArg Slot.cursor has,
      .inl (congrArg Slot.key has)⟩
  cases changed h.valid hop with
  | kept hm' hs hv hn hl => exact .inr (hslot (hs.subset (slot_mem hm)))
  | pushed b hm' hs hv hid hn hp hc hl =>
    have hmem := slot_mem hm
    rw [hs, List.mem_append, List.mem_singleton] at hmem
    rcases hmem with hmem | hmem
    · exact .inr (hslot hmem)
    · refine .inl ⟨hm, hmail, fun a ha e => ?_⟩
      have hle := h.ids_le _ (slot_mem ha)
      have hb : a.slot.id = s.nextId + 1 := (e.trans (congrArg Slot.id hmem)).trans hid
      rw [hb] at hle
      exact absurd hle (Nat.not_succ_le_self _)
  | merged moves from_ into cursors s₀ hm' hd hf hc he =>
    obtain ⟨k, hk, hkid, hkmail, hcase⟩ := merged_origin h hd hf (he ▸ hm) hmail
    rcases hcase with ⟨hfrom, -, hz, hlt⟩ | ⟨hfrom, hkey, hz, heq⟩ | ⟨-, hkey, heq⟩
    · refine .inl ⟨hm, hmail, fun a ha e => ?_⟩
      obtain rfl : k = a := h.eq_of_id hk ha (hkid.trans e.symm)
      have hle : k.cursor ≤ s.lastOf from_ := hfrom ▸ (h.issued _ (slot_mem hk) hkmail).2
      exact Nat.ne_of_lt (Nat.lt_of_le_of_lt hle (Nat.lt_of_le_of_lt (Nat.le_max_left _ _) hlt))
    · exact .inr ⟨k, hk, hkid, hkmail, heq.symm, .inr ⟨into, hfrom ▸ hm', hkey, hz⟩⟩
    · exact .inr ⟨k, hk, hkid, hkmail, heq.symm, .inl hkey.symm⟩

/-- A merge keeps the order of the mail it moves. -/
theorem merge_order (h : s.Numbered) (hop : op.Counts) {from_ : Key} {into : Fingerprint}
    (hm : op.merges = some (from_, into)) {a b a' b' : StoredMessage} (ha : a ∈ s.msgs)
    (hb : b ∈ s.msgs) (hka : a.recipient.key = from_) (hkb : b.recipient.key = from_)
    (hlt : a.cursor < b.cursor) (ha' : a' ∈ (s.step op).msgs) (hb' : b' ∈ (s.step op).msgs)
    (hma : isMail a' = true) (hmb : isMail b' = true) (hia : a'.id = a.id) (hib : b'.id = b.id) :
    a'.recipient.key = .fingerprint into ∧ b'.recipient.key = .fingerprint into ∧
      a'.cursor < b'.cursor := by
  cases changed h.valid hop with
  | kept hm' => rw [hm'] at hm; cases hm
  | pushed a hm' => rw [hm'] at hm; cases hm
  | merged moves f i cursors s₀ hm' hd hf hc he =>
    rw [hm'] at hm
    obtain ⟨rfl, rfl⟩ := Prod.mk.inj (Option.some.inj hm)
    -- The rows merged, with the slots they had.
    have hrow : ∀ {x x' : StoredMessage}, x ∈ s.msgs → x' ∈ (s.step op).msgs → x'.id = x.id →
        ∃ (n : Nat) (k : StoredMessage), s₀.msgs[n]? = some k ∧ k.slot = x.slot ∧
          isMail x' = isMail k ∧ x'.recipient = restampOne moves i k.recipient ∧
          x'.cursor = s₀.renumbered moves (spelled f) (hex i.val) n k := fun hx hx' hid => by
      obtain ⟨n, k, hn, hkid, hkm, hkr, hkc⟩ := merged_row (he ▸ hx')
      obtain ⟨y, hy, hys⟩ := slot_of_mem (hd.slots.subset (slot_mem (mem_get hn)))
      have hyx : y = _ := h.eq_of_id hy hx ((congrArg Slot.id hys).trans (hkid.symm.trans hid))
      exact ⟨n, k, hn, (hyx ▸ hys).symm, hkm, hkr, hkc⟩
    obtain ⟨n, k, hn, hks, hkm, hkr, hkc⟩ := hrow ha ha' hia
    obtain ⟨p, l, hp, hls, hlm, hlr, hlc⟩ := hrow hb hb' hib
    have hkey : k.recipient.key = f := (congrArg Slot.key hks).trans hka
    have hley : l.recipient.key = f := (congrArg Slot.key hls).trans hkb
    have hcur : k.cursor < l.cursor := by
      rw [show k.cursor = a.cursor from congrArg Slot.cursor hks,
        show l.cursor = b.cursor from congrArg Slot.cursor hls]
      exact hlt
    refine ⟨?_, ?_, ?_⟩
    · rw [hkr, restampOne_key hf, if_pos hkey]
    · rw [hlr, restampOne_key hf, if_pos hley]
    · rw [hkc, hlc]
      exact renumbered_lt (h.drops hd) hf.one hn hp (hkm.symm.trans hma) (hlm.symm.trans hmb)
        ((hf.moves _).2 hkey) ((hf.moves _).2 hley) hcur

/-! ## Counts over a run -/

/-- A merge counts on from both mailboxes. -/
theorem merge_counts (h : s.Numbered) (hop : op.Counts) {from_ : Key} {into : Fingerprint}
    (hm : op.merges = some (from_, into)) :
    max (s.lastOf from_) (s.lastOf (.fingerprint into)) ≤ (s.step op).lastOf (.fingerprint into) := by
  cases changed h.valid hop with
  | kept hm' => rw [hm'] at hm; cases hm
  | pushed a hm' => rw [hm'] at hm; cases hm
  | merged moves f i cursors s₀ hm' hd hf hc he =>
    rw [hm'] at hm
    obtain ⟨rfl, rfl⟩ := Prod.mk.inj (Option.some.inj hm)
    rw [he, ← lastOf_drops hd, ← lastOf_drops hd]
    exact merged_last_into (h.drops hd) hf hc

/-- No count goes back, but for that of a login whose mailbox is claimed. -/
theorem last_mono (h : s.Numbered) (hop : op.Counts) {k : Key} (hk : PlainKey k)
    (hne : ∀ login fp, op = .claim login fp → k ≠ .login login) :
    s.lastOf k ≤ (s.step op).lastOf k := by
  cases changed h.valid hop with
  | kept hm hs hv hn hl => exact hl k hk
  | pushed a hm hs hv hid hn hp hc hl =>
    rw [hl k hk]
    split
    case isTrue e =>
      rw [hc e.1, e.2]
      exact Nat.le_succ _
    case isFalse => exact Nat.le_refl _
  | merged moves from_ into cursors s₀ hm hd hf hc he =>
    by_cases hinto : k = .fingerprint into
    · rw [hinto]
      exact (Nat.le_max_right _ _).trans (merge_counts h hop hm)
    · by_cases hfrom : k = from_
      · cases op with
        | claim login fp =>
          obtain ⟨rfl, -⟩ := Prod.mk.inj (Option.some.inj hm)
          exact absurd hfrom (hne login fp rfl)
        | rotate a b =>
          obtain ⟨rfl, rfl⟩ := Prod.mk.inj (Option.some.inj hm)
          have hd' := drops_merge s (keyed a) b
          have hv : Valid ((mergeInto (keyed a) b).collapse s).forgetRemoved.cursors :=
            (congrArg Valid hd'.cursors).mpr h.valid
          have hlast := @renumber_last_ne _ (keyed a) (hex a.val) (hex b.val) hv (spelled k) fun e => hinto (spelled_inj (b := .fingerprint b) hk trivial e)
          refine Nat.le_of_eq (Eq.trans ?_ hlast.symm)
          exact (lastOf_drops hd' k).symm
        | _ => cases hm
      · rw [he]
        have := merged_last_ne (h.drops hd) hf hc hk hfrom hinto
        rw [this, lastOf_drops hd]

end Inner

/-- The mailboxes whose counts follow those of `ks`, after a call. -/
def Op.heirs (op : Op) (ks : List Key) : List Key :=
  match op with
  | .claim login fp =>
    if .login login ∈ ks then .fingerprint fp :: ks.filter (· ≠ .login login) else ks
  | .rotate from_ into => if .fingerprint from_ ∈ ks then .fingerprint into :: ks else ks
  | .unlinked login fp => if .fingerprint fp ∈ ks then .login login :: ks else ks
  | _ => ks

/-- A mailbox, and after a run the mailboxes it was merged into or its count was carried to; a login
whose mailbox was claimed is no longer one. -/
def heirs (k : Key) (ops : List Op) : List Key := ops.foldl (fun ks op => op.heirs ks) [k]

namespace Inner

variable {s : Inner} {op : Op} {m : StoredMessage}

theorem heirs_count (h : s.Numbered) (hop : op.Counts) {ks : List Key} {c : Cursor}
    (hks : ∀ k ∈ ks, PlainKey k ∧ c ≤ s.lastOf k) :
    ∀ k ∈ op.heirs ks, PlainKey k ∧ c ≤ (s.step op).lastOf k := by
  have hmono : (∀ login fp, op = .claim login fp → .login login ∉ ks) →
      ∀ k ∈ ks, PlainKey k ∧ c ≤ (s.step op).lastOf k := fun hne k hk => by
    obtain ⟨hp, hc⟩ := hks k hk
    exact ⟨hp, hc.trans (last_mono h hop hp fun login fp e ek => hne login fp e (ek ▸ hk))⟩
  unfold Op.heirs
  intro k hk
  cases op with
  | claim login fp =>
    dsimp only at hk
    split at hk
    case isFalse hnot => exact hmono (fun l f e => by cases e; exact hnot) k hk
    case isTrue hmem =>
    rcases List.mem_cons.1 hk with rfl | hk
    · exact ⟨trivial, ((hks _ hmem).2.trans (Nat.le_max_left _ _)).trans (merge_counts h hop rfl)⟩
    · obtain ⟨hk, hne⟩ := List.mem_filter.1 hk
      obtain ⟨hp, hc⟩ := hks k hk
      refine ⟨hp, hc.trans (last_mono h hop hp fun l f e => ?_)⟩
      cases e
      exact of_decide_eq_true hne
  | rotate from_ into =>
    dsimp only at hk
    split at hk
    case isFalse => exact hmono nofun k hk
    case isTrue hmem =>
    rcases List.mem_cons.1 hk with rfl | hk
    · exact ⟨trivial, ((hks _ hmem).2.trans (Nat.le_max_left _ _)).trans (merge_counts h hop rfl)⟩
    · exact hmono nofun k hk
  | unlinked login fp =>
    dsimp only at hk
    split at hk
    case isFalse => exact hmono nofun k hk
    case isTrue hmem =>
    rcases List.mem_cons.1 hk with rfl | hk
    · exact ⟨hop, (hks _ hmem).2.trans (unlinked_last h.valid login fp).2.2⟩
    · exact hmono nofun k hk
  | push relations m cap drawn => exact hmono nofun k hk
  | markHanded ids => exact hmono nofun k hk
  | receiptTold id => exact hmono nofun k hk
  | markDelivered ids at_ what => exact hmono nofun k hk
  | markRead relations to_ upTo at_ => exact hmono nofun k hk
  | restamp merged => exact hmono nofun k hk
  | purge of_ => exact hop.elim
  | prune now unread read => exact hmono nofun k hk

theorem heirs_counted (h : s.Numbered) {ops : List Op} (hops : ∀ op ∈ ops, op.Counts) {ks : List Key}
    {c : Cursor} (hks : ∀ k ∈ ks, PlainKey k ∧ c ≤ s.lastOf k) :
    ∀ k ∈ ops.foldl (fun ks op => op.heirs ks) ks, PlainKey k ∧ c ≤ (s.after ops).lastOf k := by
  induction ops generalizing s ks with
  | nil => exact hks
  | cons op ops ih =>
    have hop := hops op List.mem_cons_self
    exact ih (h.step hop) (fun o ho => hops o (List.mem_cons_of_mem _ ho)) (heirs_count h hop hks)

/-- A cursor once given to a mail is never given again by the count of its mailbox or of an heir. -/
theorem given_later (h : s.Numbered) {a : StoredMessage} (ha : a ∈ s.msgs) (hmail : isMail a = true)
    {later : List Op} (hlater : ∀ op ∈ later, op.Counts) (hop : op.Counts)
    (hg : (s.after later).Gives op m) (hk : m.recipient.key ∈ heirs a.recipient.key (later ++ [op])) :
    a.cursor < m.cursor := by
  have hstart : ∀ k ∈ [a.recipient.key], PlainKey k ∧ a.cursor ≤ s.lastOf k := fun k hk => by
    rw [List.mem_singleton.1 hk]
    exact ⟨h.plain _ (slot_mem ha), (h.issued _ (slot_mem ha) hmail).2⟩
  have hcount := heirs_counted h hlater hstart
  obtain ⟨hown, hmerge⟩ := past_last (h.after hlater) hop hg
  rw [heirs, List.foldl_append] at hk
  replace hk : m.recipient.key ∈ op.heirs (heirs a.recipient.key later) := hk
  have hheld : ∀ k ∈ heirs a.recipient.key later, a.cursor ≤ (s.after later).lastOf k :=
    fun k hk => (hcount k hk).2
  by_cases hin : m.recipient.key ∈ heirs a.recipient.key later
  · exact Nat.lt_of_le_of_lt (hheld _ hin) hown
  -- Its mailbox became an heir in this call.
  · unfold Op.heirs at hk
    cases op with
    | claim login fp =>
      dsimp only at hk
      split at hk
      case isFalse => exact absurd hk hin
      case isTrue hmem =>
      rcases List.mem_cons.1 hk with e | hk
      · exact Nat.lt_of_le_of_lt (hheld _ hmem) (hmerge _ _ rfl e)
      · exact absurd (List.mem_filter.1 hk).1 hin
    | rotate from_ into =>
      dsimp only at hk
      split at hk
      case isFalse => exact absurd hk hin
      case isTrue hmem =>
      rcases List.mem_cons.1 hk with e | hk
      · exact Nat.lt_of_le_of_lt (hheld _ hmem) (hmerge _ _ rfl e)
      · exact absurd hk hin
    | unlinked login fp =>
      -- An unlink gives no cursor.
      have hs : ((s.after later).unlinked login fp).msgs = (s.after later).msgs := by
        unfold Inner.unlinked
        split <;> rfl
      have hmem : m ∈ ((s.after later).unlinked login fp).msgs := hg.mem
      exact absurd rfl (hg.new m (hs ▸ hmem) rfl)
    | push relations m cap drawn => exact absurd hk hin
    | markHanded ids => exact absurd hk hin
    | receiptTold id => exact absurd hk hin
    | markDelivered ids at_ what => exact absurd hk hin
    | markRead relations to_ upTo at_ => exact absurd hk hin
    | restamp merged => exact absurd hk hin
    | purge of_ => exact absurd hk hin
    | prune now unread read => exact absurd hk hin

/-- What an identity's mailbox holds at cursors it had issued before a run it held before it. -/
theorem held_before (h : s.Numbered) {ops : List Op} (hops : ∀ op ∈ ops, op.Counts)
    {fp : Fingerprint} (hm : m ∈ (s.after ops).msgs) (hmail : isMail m = true)
    (hk : m.recipient.key = .fingerprint fp) (hle : m.cursor ≤ s.lastOf (.fingerprint fp)) :
    ∃ a ∈ s.msgs, a.id = m.id ∧ isMail a = true ∧ a.cursor = m.cursor ∧
      a.recipient.key = .fingerprint fp := by
  induction ops generalizing s with
  | nil => exact ⟨m, hm, rfl, hmail, rfl, hk⟩
  | cons op ops ih =>
    have hop := hops op List.mem_cons_self
    obtain ⟨b, hb, hbid, hbmail, hbc, hbk⟩ := ih (h.step hop)
      (fun o ho => hops o (List.mem_cons_of_mem _ ho)) hm
      (hle.trans (last_mono h hop trivial fun _ _ _ => nofun))
    have hble : b.cursor ≤ s.lastOf (.fingerprint fp) := hbc ▸ hle
    rcases step_origin h hop hb hbmail with hg | ⟨a, ha, hid, hamail, hac, hcase⟩
    · have := (past_last h hop hg).1
      rw [hbk] at this
      exact absurd hble (Nat.not_le_of_lt this)
    · refine ⟨a, ha, hid.trans hbid, hamail, hac.trans hbc, ?_⟩
      rcases hcase with hkey | ⟨into, -, hinto, hz⟩
      · exact hkey.trans hbk
      · -- A mailbox that had issued no cursor held no mail at one.
        rw [hbk] at hinto
        rw [hinto, hz] at hble
        have hpos := (h.issued _ (slot_mem ha) hamail).1
        exact absurd (hac ▸ hpos) (Nat.not_lt_of_le hble)

/-- A cursor issued before a merge marks only mail that had its cursor before it. -/
theorem marks_before (h : s.Numbered) (hop : op.Counts) {from_ : Key} {into : Fingerprint}
    (hm : op.merges = some (from_, into)) {later : List Op} (hlater : ∀ o ∈ later, o.Counts)
    {relations : RelationId → Bool} {to_ : Mailbox} {upTo : Cursor}
    (hto : to_.key = .fingerprint into)
    (hup : upTo ≤ max (s.lastOf from_) (s.lastOf (.fingerprint into)))
    (hmem : m ∈ ((s.step op).after later).msgs) (hmarks : marks relations to_ upTo m = true) :
    ∃ a ∈ s.msgs, a.id = m.id ∧ isMail a = true ∧ a.cursor = m.cursor ∧
      (a.recipient.key = .fingerprint into ∨
        a.recipient.key = from_ ∧ s.lastOf (.fingerprint into) = 0) := by
  simp only [marks, Bool.and_eq_true, decide_eq_true_eq] at hmarks
  obtain ⟨⟨⟨⟨hmail, his⟩, hle⟩, -⟩, -⟩ := hmarks
  have hk : m.recipient.key = .fingerprint into := (is_iff.1 his).trans hto
  have hmax := hle.trans hup
  obtain ⟨b, hb, hbid, hbmail, hbc, hbk⟩ := held_before (h.step hop) hlater hmem hmail hk
    (hmax.trans (merge_counts h hop hm))
  rcases step_origin h hop hb hbmail with hg | ⟨a, ha, hid, hamail, hac, hcase⟩
  · obtain ⟨hown, hother⟩ := past_last h hop hg
    rw [hbk] at hown
    have hlt : max (s.lastOf from_) (s.lastOf (.fingerprint into)) < b.cursor :=
      Nat.max_lt.2 ⟨hother _ _ hm hbk, hown⟩
    exact absurd (hbc ▸ hmax) (Nat.not_le_of_lt hlt)
  · refine ⟨a, ha, hid.trans hbid, hamail, hac.trans hbc, ?_⟩
    rcases hcase with hkey | ⟨i, hmi, -, hz⟩
    · exact .inl (hkey.trans hbk)
    · rw [hm] at hmi
      obtain ⟨hf, hi⟩ := Prod.mk.inj (Option.some.inj hmi)
      exact .inr ⟨hf.symm, hi ▸ hz⟩

/-- A merge, of the mailbox `from_` into that of `into`, keeps the order of what it moves, and no
cursor from before it marks mail read that had not that cursor before. -/
structure MergesFairly (s : Inner) (op : Op) (from_ : Key) (into : Fingerprint) : Prop where
  order : ∀ a ∈ s.msgs, ∀ b ∈ s.msgs, a.recipient.key = from_ → b.recipient.key = from_ →
    a.cursor < b.cursor → ∀ a' ∈ (s.step op).msgs, ∀ b' ∈ (s.step op).msgs, isMail a' = true →
    isMail b' = true → a'.id = a.id → b'.id = b.id → a'.recipient.key = .fingerprint into ∧
      b'.recipient.key = .fingerprint into ∧ a'.cursor < b'.cursor
  read : ∀ later : List Op, (∀ o ∈ later, o.Counts) → ∀ relations (to_ : Mailbox) upTo,
    to_.key = .fingerprint into → upTo ≤ max (s.lastOf from_) (s.lastOf (.fingerprint into)) →
    ∀ m ∈ ((s.step op).after later).msgs, marks relations to_ upTo m = true →
    ∃ a ∈ s.msgs, a.id = m.id ∧ isMail a = true ∧ a.cursor = m.cursor ∧
      (a.recipient.key = .fingerprint into ∨
        a.recipient.key = from_ ∧ s.lastOf (.fingerprint into) = 0)

end Inner

open HxdNg.Inbox.Inner

/-- After any run without a purge: the mail of a mailbox has distinct cursors, none past its last;
its pages are its live mail, newest first; a cursor a mail has is below every cursor given later in
its mailbox or in one it was merged into; a mail comes to another mailbox with the cursor it had only
where that had issued none; and merges keep order and marks. -/
theorem cursors_never_reused (ops : List Op) (hops : ∀ op ∈ ops, op.Counts) :
    let s := ({} : Inner).after ops
    (s.msgs.Pairwise fun a b => isMail a = true → isMail b = true →
      is a.recipient b.recipient = true → a.cursor ≠ b.cursor) ∧
    (∀ a ∈ s.msgs, isMail a = true → a.cursor ≤ s.lastCursor a.recipient) ∧
    (∀ relations to_ limit n, 0 < limit → s.msgs.length < n →
      ((s.paged relations to_ limit n).Pairwise fun a b => b.cursor < a.cursor) ∧
      ∀ m, m ∈ s.paged relations to_ limit n ↔ m ∈ s.msgs ∧ shows relations to_ m = true) ∧
    (∀ later op, (∀ o ∈ later, o.Counts) → op.Counts → ∀ a ∈ s.msgs, isMail a = true →
      ∀ m, (s.after later).Gives op m → m.recipient.key ∈ heirs a.recipient.key (later ++ [op]) →
        a.cursor < m.cursor) ∧
    (∀ op, op.Counts → ∀ a ∈ s.msgs, ∀ m ∈ (s.step op).msgs, isMail m = true → a.id = m.id →
      a.cursor = m.cursor → a.recipient.key ≠ m.recipient.key → s.lastOf m.recipient.key = 0) ∧
    ∀ op from_ into, op.Counts → op.merges = some (from_, into) → s.MergesFairly op from_ into := by
  intro s
  have h : s.Numbered := numbered_empty.after hops
  refine ⟨?_, ?_, ?_, ?_, ?_, ?_⟩
  · exact (List.pairwise_map.1 h.distinct).imp fun hne ha hb his => hne ha hb (is_iff.1 his)
  · intro a ha hmail
    rw [lastCursor_eq]
    exact (h.issued _ (slot_mem ha) hmail).2
  · intro relations to_ limit n hlimit hn
    rw [paged_eq h hlimit hn]
    exact ⟨newest_strict h, fun m => mem_newest⟩
  · intro later op hlater hop a ha hmail m hg hk
    exact given_later h ha hmail hlater hop hg hk
  · intro op hop a ha m hm hmail hid hc hk
    rcases step_origin h hop hm hmail with hg | ⟨b, hb, hbid, -, -, hcase⟩
    · exact absurd hc (hg.new a ha hid)
    · obtain rfl : b = a := h.eq_of_id hb ha (hbid.trans hid.symm)
      rcases hcase with hkey | ⟨into, -, hkey, hz⟩
      · exact absurd hkey hk
      · rw [hkey, hz]
  · intro op from_ into hop hm
    exact ⟨fun a ha b hb hka hkb hlt a' ha' b' hb' hma hmb hia hib =>
        merge_order h hop hm ha hb hka hkb hlt ha' hb' hma hmb hia hib,
      fun later hlater relations to_ upTo hto hup m hmem hmarks =>
        marks_before h hop hm hlater hto hup hmem hmarks⟩

theorem plainKey_of_short {login : String} (h : login.toList.length < 64) :
    PlainKey (.login login) := by
  intro fp heq
  rw [heq, length_hex, fp.property] at h
  exact absurd h (Nat.lt_irrefl _)

/-- A message to each of an account's two mailboxes, the bare one sent while it had no link. -/
def twoMailboxes : List Op :=
  [.push (fun _ => true) (sent ⟨"dave", some (keyOf 1)⟩ none) 9 (.ok (refOf 1)),
    .push (fun _ => true) (sent ⟨"dave", none⟩ none) 9 (.ok (refOf 2))]

theorem cursors_never_reused_claimed :
    let s := ({} : Inner).after twoMailboxes
    s.MergesFairly (.claim "dave" (keyOf 1)) (.login "dave") (keyOf 1) ∧
      (s.paged (fun _ => true) ⟨"dave", none⟩ 1 3).map (·.cursor) = [1] := by
  have hplain : PlainKey (.login "dave") := plainKey_of_short (by decide)
  have hops : ∀ op ∈ twoMailboxes, op.Counts := by
    intro op hop
    simp only [twoMailboxes, List.mem_cons, List.not_mem_nil, or_false] at hop
    rcases hop with rfl | rfl
    · trivial
    · exact hplain
  refine ⟨(cursors_never_reused twoMailboxes hops).2.2.2.2.2 _ _ _ ?_ rfl, by decide +kernel⟩
  exact hplain

/-- Its bare mailbox claimed, a login counts from 1 again; and a cursor seen in that mailbox marks read
the identity's mail, which was not in it. -/
theorem claimed_login_counts_again :
    let claim := Op.claim "dave" (keyOf 1)
    let bare := Op.push (fun _ => true) (sent ⟨"dave", none⟩ none) 9 (.ok (refOf 2))
    (∃ a ∈ (({} : Inner).after [bare]).msgs, ∃ m ∈ (({} : Inner).after [bare, claim, bare]).msgs,
      isMail a = true ∧ isMail m = true ∧ m.recipient = a.recipient ∧ m.cursor = a.cursor ∧
      m.id ≠ a.id) ∧
    ∃ m ∈ ((({} : Inner).after twoMailboxes).step claim).msgs,
      marks (fun _ => true) ⟨"dave", some (keyOf 1)⟩ 1 m = true ∧
      (({} : Inner).after twoMailboxes).list (fun _ => true) ⟨"dave", none⟩ none 9 ≠ [] ∧
      ∀ a ∈ (({} : Inner).after twoMailboxes).list (fun _ => true) ⟨"dave", none⟩ none 9,
        a.cursor = 1 ∧ a.id ≠ m.id := by
  decide +kernel

end HxdNg.Inbox
