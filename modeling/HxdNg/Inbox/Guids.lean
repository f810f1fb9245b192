import Mathlib
import HxdNg.Inbox.Merging

/-!
# A guid names at most one message of a pair

* `Op`, `Inner.step`, `Inner.after` : the calls on the store, and the store a run of them leaves;
* `Inner.Unique` : no two rows or stubs have one recipient, one sender and one guid; every call keeps
  it (`Unique.step`);
* `guid_names_one` : so it is after any run, and a push under a guid held changes nothing.
-/

namespace HxdNg.Inbox

open Relationships History Assoc
open Identity (Fingerprint)

/-! ## Runs of the store -/

/-- A call on the store, with what the relationship store says at the time and what is drawn. -/
inductive Op where
  | push (relations : RelationId → Bool) (m : NewMessage) (cap : Nat)
    (drawn : Except StoreError MessageRef)
  | markHanded (ids : List MessageId)
  | receiptTold (id : MessageId)
  | markDelivered (ids : List MessageId) (at_ : SystemTime) (what : Delivery)
  | markRead (relations : RelationId → Bool) (to_ : Mailbox) (upTo : Cursor) (at_ : SystemTime)
  | claim (login : String) (fp : Fingerprint)
  | rotate (from_ into : Fingerprint)
  | unlinked (login : String) (fp : Fingerprint)
  | restamp (merged : List (RelationId × RelationId))
  | purge (of_ : Mailbox)
  | prune (now : SystemTime) (unread read : Duration)

/-- A rotation is to another key. -/
def Op.Moves : Op → Prop
  | .rotate from_ into => from_ ≠ into
  | _ => True

namespace Inner

def step (s : Inner) : Op → Inner
  | .push relations m cap drawn => (s.push relations m cap drawn).2
  | .markHanded ids => s.markHanded ids
  | .receiptTold id => (s.receiptTold id).2
  | .markDelivered ids at_ what => s.markDelivered ids at_ what
  | .markRead relations to_ upTo at_ => (s.markRead relations to_ upTo at_).2
  | .claim login fp => (s.claim login fp).2
  | .rotate from_ into => (s.rotate from_ into).2
  | .unlinked login fp => s.unlinked login fp
  | .restamp merged => s.restamp merged
  | .purge of_ => (s.purge of_).2
  | .prune now unread read => (s.prune now unread read).2

def after (s : Inner) (ops : List Op) : Inner := ops.foldl step s

end Inner

/-! ## Names -/

/-- What a guid is unique for: the recipient, the sender and the guid. -/
def Named.name (n : Named) : Option (Key × Option Key × MessageGuid) :=
  n.guid.map fun guid => (n.recipient.key, n.sender.map (·.key), guid)

def Apart (x y : Named) : Prop := ∀ a, x.name = some a → y.name ≠ some a

theorem Apart.symm {x y : Named} (h : Apart x y) : Apart y x := fun a hy hx => h a hx hy

theorem apart_of_ne {α : Type*} {l : List α} {f : α → Named}
    (h : l.Pairwise fun a b => Apart (f a) (f b)) {a b : α} (ha : a ∈ l) (hb : b ∈ l) (hne : a ≠ b) :
    Apart (f a) (f b) := by
  have : Std.Symm fun a b : α => Apart (f a) (f b) := ⟨fun _ _ => Apart.symm⟩
  exact h.forall ha hb hne

theorem ofPair_iff {r to_ : Mailbox} {s from_ : Option Mailbox} :
    ofPair r s to_ from_ = true ↔ r.key = to_.key ∧ s.map (·.key) = from_.map (·.key) := by
  unfold ofPair
  rw [Bool.and_eq_true, is_iff]
  refine and_congr_right fun _ => ?_
  cases s <;> cases from_ <;> simp [is_iff]

theorem name_iff {n : Named} {to_ : Mailbox} {from_ : Option Mailbox} {guid : MessageGuid} :
    (decide (n.guid = some guid) && ofPair n.recipient n.sender to_ from_) = true ↔
      n.name = some (to_.key, from_.map (·.key), guid) := by
  rw [Bool.and_eq_true, decide_eq_true_eq, ofPair_iff, Named.name, Option.map_eq_some_iff]
  constructor
  · rintro ⟨hg, hr, hs⟩
    exact ⟨guid, hg, by rw [hr, hs]⟩
  · rintro ⟨g, hg, he⟩
    obtain ⟨hr, he⟩ := Prod.mk.inj he
    obtain ⟨hs, rfl⟩ := Prod.mk.inj he
    exact ⟨hg, hr, hs⟩

namespace Inner

def Unique (s : Inner) : Prop := s.items.Pairwise Apart

variable {s : Inner}

theorem Unique.of_items {s' : Inner} (h : s.Unique) (hi : s'.items = s.items) : s'.Unique := by
  rw [Unique, hi]
  exact h

theorem Unique.drops {s' : Inner} (h : s.Unique) (hd : s.Drops s') : s'.Unique :=
  h.sublist hd.items

theorem findGuid_eq_none {to_ : Mailbox} {from_ : Option Mailbox} {guid : MessageGuid}
    (h : s.findGuid to_ from_ guid = none) :
    ∀ n ∈ s.items, n.name ≠ some (to_.key, from_.map (·.key), guid) := by
  intro n hn hname
  have hp := name_iff.2 hname
  unfold findGuid at h
  split at h
  case h_1 => cases h
  case h_2 hrow =>
  rcases List.mem_append.1 hn with hn | hn
  · obtain ⟨m, hm, rfl⟩ := List.mem_map.1 hn
    exact List.find?_eq_none.1 hrow m hm hp
  · obtain ⟨t, ht, rfl⟩ := List.mem_map.1 hn
    exact List.find?_eq_none.1 (Option.map_eq_none_iff.1 h) t ht hp

/-- A row of a name is the one found under it. -/
theorem findGuid_row (h : s.Unique) {m : StoredMessage} (hm : m ∈ s.msgs) {to_ : Mailbox}
    {from_ : Option Mailbox} {guid : MessageGuid}
    (hname : m.named.name = some (to_.key, from_.map (·.key), guid)) :
    s.findGuid to_ from_ guid = some (.row m) := by
  have hfind : s.msgs.find? (fun m => decide (m.guid = some guid) &&
      ofPair m.recipient m.sender to_ from_) = some m := by
    cases hf : s.msgs.find? (fun m => decide (m.guid = some guid) &&
        ofPair m.recipient m.sender to_ from_) with
    | none => exact absurd (name_iff.2 hname) (List.find?_eq_none.1 hf m hm)
    | some k =>
      have hk := List.mem_of_find?_eq_some hf
      have hkname := (name_iff (n := k.named)).1
        (List.find?_some (p := fun k : StoredMessage => decide (k.guid = some guid) && ofPair k.recipient k.sender to_ from_) hf)
      by_contra hne
      have hpw : s.msgs.Pairwise fun a b => Apart a.named b.named :=
        List.pairwise_map.1 (List.pairwise_append.1 h).1
      exact apart_of_ne hpw hk hm (fun e => hne (by rw [e])) _ hkname hname
  rw [findGuid, hfind]

/-- A stub of a name is the one found under it, no row having it. -/
theorem findGuid_stub (h : s.Unique) {t : Stub} (ht : t ∈ s.stubs) {to_ : Mailbox}
    {from_ : Option Mailbox} {guid : MessageGuid}
    (hname : t.named.name = some (to_.key, from_.map (·.key), guid)) :
    s.findGuid to_ from_ guid = some (.stub t) := by
  obtain ⟨-, hstubs, hcross⟩ := List.pairwise_append.1 h
  have hrow : s.msgs.find? (fun m => decide (m.guid = some guid) &&
      ofPair m.recipient m.sender to_ from_) = none :=
    List.find?_eq_none.2 fun m hm hp => hcross _ (List.mem_map_of_mem hm) _
      (List.mem_map_of_mem ht) _ ((name_iff (n := m.named)).1 hp) hname
  have hstub : s.stubs.find? (fun t => decide (t.guid = some guid) &&
      ofPair t.recipient t.sender to_ from_) = some t := by
    cases hf : s.stubs.find? (fun t => decide (t.guid = some guid) &&
        ofPair t.recipient t.sender to_ from_) with
    | none => exact absurd (name_iff.2 hname) (List.find?_eq_none.1 hf t ht)
    | some k =>
      have hkname := (name_iff (n := k.named)).1
        (List.find?_some (p := fun k : Stub => decide (k.guid = some guid) && ofPair k.recipient k.sender to_ from_) hf)
      by_contra hne
      exact apart_of_ne (List.pairwise_map.1 hstubs) (List.mem_of_find?_eq_some hf) ht
        (fun e => hne (by rw [e])) _ hkname hname
  rw [findGuid, hrow, hstub]
  rfl

/-! ## Each call keeps them apart -/

theorem Unique.push (h : s.Unique) (relations : RelationId → Bool) (m : NewMessage) (cap : Nat)
    (drawn : Except StoreError MessageRef) : (s.push relations m cap drawn).2.Unique := by
  unfold Inner.push
  split
  case h_1 => exact h
  case h_2 => exact h
  case h_3 hfind =>
  split
  · exact h
  split
  · exact h
  case h_2 reference =>
  -- The new row is apart from all there is, where it has a guid at all.
  have hnew : ∀ n ∈ s.items, Apart (s.stored m reference).named n := fun n hn a ha hna => by
    obtain ⟨guid, hg, rfl⟩ := Option.map_eq_some_iff.1 ha
    replace hg : m.guid = some guid := hg
    rw [hg] at hfind
    exact findGuid_eq_none hfind n hn hna
  have hperm : ((s.msgs ++ [s.stored m reference]).map (·.named) ++ s.stubs.map (·.named)).Perm
      ((s.stored m reference).named :: s.items) := by
    rw [List.map_append, List.append_assoc]
    exact List.perm_middle
  show ((s.msgs ++ [s.stored m reference]).map (·.named) ++ s.stubs.map (·.named)).Pairwise Apart
  rw [hperm.pairwise_iff fun h => h.symm]
  exact List.Pairwise.cons hnew h

/-- The calls that only change a row's marks. -/
theorem Unique.of_msgs (h : s.Unique) {f : StoredMessage → StoredMessage}
    (hf : ∀ m, (f m).named = m.named) {s' : Inner} (hm : s'.msgs = s.msgs.map f)
    (hs : s'.stubs = s.stubs) : s'.Unique := by
  refine h.of_items ?_
  rw [items, items, hm, hs, List.map_map]
  exact congrArg (· ++ _) (List.map_congr_left fun m _ => hf m)

theorem Unique.restamp (h : s.Unique) (merged : List (RelationId × RelationId)) :
    (s.restamp merged).Unique := by
  unfold Inner.restamp
  induction merged generalizing s with
  | nil => exact h
  | cons p merged ih =>
    refine ih (h.of_msgs (f := fun m => if m.friendship = some (.relation p.1)
      then { m with friendship := some (.relation p.2) } else m) (fun m => ?_) rfl rfl)
    split <;> rfl

theorem Unique.purge (h : s.Unique) (of_ : Mailbox) : (s.purge of_).2.Unique := by
  refine List.Pairwise.sublist ?_ h
  exact (List.filter_sublist.map _).append (List.filter_sublist.map _)

theorem foldl_insertStub_sublist (stubs new : List Stub) :
    (new.foldl insertStub stubs).Sublist (stubs ++ new) := by
  induction new generalizing stubs with
  | nil => rw [List.append_nil]; exact List.Sublist.refl _
  | cons t new ih =>
    refine (ih (insertStub stubs t)).trans ?_
    rw [insertStub, List.append_assoc]
    exact List.filter_sublist.append (List.Sublist.refl _)

theorem stripGuid_apart {now : SystemTime} {unread : Duration} {m : StoredMessage} {x : Named}
    (h : Apart m.named x) : Apart (stripGuid now unread m).named x := by
  unfold stripGuid
  split
  · intro a ha
    cases ha
  · exact h

theorem Unique.prune (h : s.Unique) (now : SystemTime) (unread read : Duration) :
    (s.prune now unread read).2.Unique := by
  obtain ⟨hmsgs, hstubs, hcross⟩ := List.pairwise_append.1 h
  have hpw := List.pairwise_map.1 hmsgs
  -- A row that stays and one that leaves a stub are two rows.
  have hsplit : ∀ m ∈ s.msgs.filter (keeps now unread read),
      ∀ k ∈ s.msgs.filter (leavesStub now unread read), Apart m.named k.named := fun m hm k hk => by
    obtain ⟨hm, hkeep⟩ := List.mem_filter.1 hm
    obtain ⟨hk, hleave⟩ := List.mem_filter.1 hk
    refine apart_of_ne hpw hm hk fun e => ?_
    rw [leavesStub, ← e, hkeep] at hleave
    cases hleave
  have hnew : (s.stubs ++ (s.msgs.filter (leavesStub now unread read)).map stubOf).Pairwise
      fun a b => Apart a.named b.named := by
    refine List.pairwise_append.2 ⟨List.pairwise_map.1 hstubs, ?_, ?_⟩
    · exact List.pairwise_map.2 (hpw.sublist List.filter_sublist)
    · intro t ht t' ht'
      obtain ⟨m, hm, rfl⟩ := List.mem_map.1 ht'
      exact (hcross _ (List.mem_map_of_mem (List.mem_filter.1 hm).1) _ (List.mem_map_of_mem ht)).symm
  have hsub : ((((s.msgs.filter (leavesStub now unread read)).map stubOf).foldl insertStub
      s.stubs).filter fun t => isOpen now unread t.sentAt).Sublist
      (s.stubs ++ (s.msgs.filter (leavesStub now unread read)).map stubOf) :=
    List.filter_sublist.trans (foldl_insertStub_sublist _ _)
  refine List.pairwise_append.2 ⟨?_, List.pairwise_map.2 (hnew.sublist hsub), ?_⟩
  · refine List.pairwise_map.2 (List.pairwise_map.2 ?_)
    exact (hpw.sublist List.filter_sublist).imp fun h =>
      (stripGuid_apart (stripGuid_apart h).symm).symm
  · intro x hx y hy
    obtain ⟨m', hm', rfl⟩ := List.mem_map.1 hx
    obtain ⟨m, hm, rfl⟩ := List.mem_map.1 hm'
    obtain ⟨t, ht, rfl⟩ := List.mem_map.1 hy
    refine stripGuid_apart ?_
    rcases List.mem_append.1 (hsub.subset ht) with ht | ht
    · exact hcross _ (List.mem_map_of_mem (List.mem_filter.1 hm).1) _ (List.mem_map_of_mem ht)
    · obtain ⟨k, hk, rfl⟩ := List.mem_map.1 ht
      exact hsplit m hm k hk

end Inner

/-! ## A merge keeps them apart -/

theorem spelling_of_key {m k : Mailbox} (h : m.key = k.key) : m.spelling = k.spelling := by
  obtain ⟨ml, mf⟩ := m
  obtain ⟨kl, kf⟩ := k
  cases mf with
  | none =>
    cases kf with
    | none => exact congrArg String.toList (Key.login.inj h)
    | some kf => cases h
  | some mf =>
    cases kf with
    | none => cases h
    | some kf => exact congrArg (fun fp : Fingerprint => hex fp.val) (Key.fingerprint.inj h)

/-- A merge of one mailbox into another than itself. -/
structure OneInto (moves : Mailbox → Bool) (into : Fingerprint) : Prop where
  one : ∀ a b, moves a = true → moves b = true → a.key = b.key
  other : ∀ m, moves m = true → m.fingerprint ≠ some into

section Merging
open HxdNg.Inbox.Inner
variable {moves : Mailbox → Bool} {into : Fingerprint} {s : Inner}

theorem oneInto_bare (login : String) (fp : Fingerprint) : OneInto (bare login) fp where
  one a b ha hb := by
    simp only [bare, Bool.and_eq_true, Option.isNone_iff_eq_none, decide_eq_true_eq] at ha hb
    rw [Mailbox.key, Mailbox.key, ha.1, hb.1, ha.2, hb.2]
  other m hm := by
    simp only [bare, Bool.and_eq_true, Option.isNone_iff_eq_none] at hm
    rw [hm.1]
    simp

theorem oneInto_keyed {from_ into : Fingerprint} (h : from_ ≠ into) : OneInto (keyed from_) into where
  one a b ha hb := by
    simp only [keyed, decide_eq_true_eq] at ha hb
    rw [Mailbox.key, Mailbox.key, ha, hb]
  other m hm := by
    simp only [keyed, decide_eq_true_eq] at hm
    rw [hm]
    exact fun e => h (Option.some.inj e)

theorem restampOne_of_moves {m : Mailbox} (h : moves m = true) :
    (restampOne moves into m).key = .fingerprint into := by
  rw [restampOne, if_pos h]
  rfl

theorem restampOne_of_not {m : Mailbox} (h : moves m = false) : restampOne moves into m = m := by
  rw [restampOne, h]
  rfl

theorem key_eq_fingerprint {m : Mailbox} {fp : Fingerprint} :
    m.key = .fingerprint fp ↔ m.fingerprint = some fp := by
  obtain ⟨login, mfp⟩ := m
  cases mfp with
  | none => exact ⟨nofun, nofun⟩
  | some mfp => exact ⟨fun h => congrArg some (Key.fingerprint.inj h), fun h => by cases h; rfl⟩

theorem after_eq_restamped (m : Mailbox) :
    (mergeInto moves into).after m = (restampOne moves into m).spelling := by
  cases hm : moves m with
  | true =>
    rw [restampOne, if_pos hm]
    exact if_pos hm
  | false =>
    rw [restampOne_of_not hm]
    exact if_neg (by rw [hm]; nofun)

/-- Two mailboxes that are one afterwards were one before, or one of them moves to where the other
is. -/
theorem restamp_cases (ho : OneInto moves into) {a b : Mailbox}
    (h : (restampOne moves into a).key = (restampOne moves into b).key) :
    a.key = b.key ∨ (moves a = true ∧ (mergeInto moves into).present b = true) ∨
      (moves b = true ∧ (mergeInto moves into).present a = true) := by
  cases ha : moves a with
  | true =>
    cases hb : moves b with
    | true => exact .inl (ho.one a b ha hb)
    | false =>
      rw [restampOne_of_moves ha, restampOne_of_not hb] at h
      exact .inr (.inl ⟨rfl, decide_eq_true (key_eq_fingerprint.1 h.symm)⟩)
  | false =>
    cases hb : moves b with
    | true =>
      rw [restampOne_of_not ha, restampOne_of_moves hb] at h
      exact .inr (.inr ⟨rfl, decide_eq_true (key_eq_fingerprint.1 h)⟩)
    | false =>
      rw [restampOne_of_not ha, restampOne_of_not hb] at h
      exact .inl h

/-- What a merge names what it moves. -/
def Named.restamped (moves : Mailbox → Bool) (into : Fingerprint) (n : Named) : Named :=
  ⟨restampOne moves into n.recipient, n.sender.map (restampOne moves into), n.guid⟩

theorem items_restampAll (s : Inner) :
    (s.restampAll moves into).items = s.items.map (Named.restamped moves into) := by
  rw [items, items, List.map_append, List.map_map, List.map_map]
  show ((s.msgs.map _).map _) ++ ((s.stubs.map _).map _) = _
  rw [List.map_map, List.map_map]
  rfl

theorem mergedKey_of_name {x y : Named} {a : Key × Option Key × MessageGuid}
    (hx : (x.restamped moves into).name = some a) (hy : (y.restamped moves into).name = some a) :
    x.mergedKey (mergeInto moves into).after = y.mergedKey (mergeInto moves into).after := by
  obtain ⟨g, hgx, rfl⟩ := Option.map_eq_some_iff.1 hx
  obtain ⟨g', hgy, he⟩ := Option.map_eq_some_iff.1 hy
  obtain ⟨hr, he⟩ := Prod.mk.inj he
  obtain ⟨hs, rfl⟩ := Prod.mk.inj he
  replace hgx : x.guid = some g' := hgx
  replace hgy : y.guid = some g' := hgy
  have hrec : (restampOne moves into x.recipient).spelling =
      (restampOne moves into y.recipient).spelling := spelling_of_key hr.symm
  rw [Named.mergedKey, Named.mergedKey, hgx, hgy, after_eq_restamped, after_eq_restamped, hrec]
  have hsender : x.sender.map (mergeInto moves into).after = y.sender.map (mergeInto moves into).after := by
    simp only [Named.restamped, Option.map_map] at hs
    cases hxs : x.sender with
    | none =>
      cases hys : y.sender with
      | none => rfl
      | some b => rw [hxs, hys] at hs; cases hs
    | some a =>
      cases hys : y.sender with
      | none => rw [hxs, hys] at hs; cases hs
      | some b =>
        rw [hxs, hys] at hs
        rw [Option.map_some, Option.map_some, after_eq_restamped, after_eq_restamped,
          spelling_of_key (Option.some.inj hs).symm]
  rw [hsender]

theorem apart_restamped (ho : OneInto moves into) {items : List Named}
    (hsettled : ∀ senderSide, (mergeInto moves into).Settled senderSide items) {x y : Named}
    (hx : x ∈ items) (hy : y ∈ items) (h : Apart x y) :
    Apart (x.restamped moves into) (y.restamped moves into) := by
  intro a hxa hya
  have hkey := mergedKey_of_name hxa hya
  obtain ⟨g, hgx, rfl⟩ := Option.map_eq_some_iff.1 hxa
  obtain ⟨g', hgy, he⟩ := Option.map_eq_some_iff.1 hya
  obtain ⟨hr, he⟩ := Prod.mk.inj he
  obtain ⟨hs, rfl⟩ := Prod.mk.inj he
  replace hgx : x.guid = some g' := hgx
  replace hgy : y.guid = some g' := hgy
  have hside : ∀ {n : Named} (f : Mailbox → Bool), n.guid = some g' → f n.recipient = true →
      n.side false f = true := fun f hg hf => by
    rw [Named.side, hg]
    exact hf
  have hsideS : ∀ {n : Named} {m : Mailbox} (f : Mailbox → Bool), n.guid = some g' →
      n.sender = some m → f m = true → n.side true f = true := fun f hg hm hf => by
    rw [Named.side, hg, hm]
    exact hf
  rcases restamp_cases ho hr.symm with hrk | ⟨hm, hp⟩ | ⟨hm, hp⟩
  · cases hxs : x.sender with
    | none =>
      cases hys : y.sender with
      | none =>
        refine h (x.recipient.key, none, g') ?_ ?_
        · rw [Named.name, hgx, hxs]
          rfl
        · rw [Named.name, hgy, hys, hrk]
          rfl
      | some b =>
        simp only [Named.restamped, hxs, hys] at hs
        cases hs
    | some a =>
      cases hys : y.sender with
      | none =>
        simp only [Named.restamped, hxs, hys] at hs
        cases hs
      | some b =>
        simp only [Named.restamped, hxs, hys] at hs
        rcases restamp_cases ho (Option.some.inj hs).symm with hsk | ⟨hm, hp⟩ | ⟨hm, hp⟩
        · refine h (x.recipient.key, some a.key, g') ?_ ?_
          · rw [Named.name, hgx, hxs]
            rfl
          · rw [Named.name, hgy, hys, hrk, hsk]
            rfl
        · exact hsettled true x hx (hsideS _ hgx hxs hm) y hy (hsideS _ hgy hys hp) hkey
        · exact hsettled true y hy (hsideS _ hgy hys hm) x hx (hsideS _ hgx hxs hp) hkey.symm
  · exact hsettled false x hx (hside _ hgx hm) y hy (hside _ hgy hp) hkey
  · exact hsettled false y hy (hside _ hgy hm) x hx (hside _ hgx hp) hkey.symm

theorem named_numbered (m : StoredMessage) (c : Cursor) : { m with cursor := c }.named = m.named := rfl

theorem items_renumber (s : Inner) (from_ into : List Char) :
    (s.renumber moves from_ into).items = s.items := by
  unfold Inner.renumber
  split
  · split <;> rfl
  · rw [items, items]
    refine congrArg (· ++ _) (List.ext_getElem? fun i => ?_)
    rw [List.getElem?_map, List.getElem?_map, List.getElem?_mapIdx]
    cases s.msgs[i]? with
    | none => rfl
    | some m =>
      rw [Option.map_some, Option.map_some, Option.map_some]
      split
      · rw [named_numbered]
      · rfl

/-- A collapse and what follows it keep names apart. -/
theorem Inner.Unique.merged (h : s.Unique) (ho : OneInto moves into) {s' : Inner}
    (hi : s'.items = (((mergeInto moves into).collapse s).items).map (Named.restamped moves into)) :
    s'.Unique := by
  rw [Unique, hi, List.pairwise_map]
  have hu := h.drops (Merge.drops_collapse (mergeInto moves into) s)
  have hs := Merge.collapse_settled (mergeInto moves into) s
  exact hu.imp_of_mem fun hx hy hxy => apart_restamped ho hs hx hy hxy

theorem Inner.Unique.claim (h : s.Unique) (login : String) (fp : Fingerprint) :
    (s.claim login fp).2.Unique := by
  refine h.merged (oneInto_bare login fp) ?_
  have hn := @items_renumber (bare login)
    ((mergeInto (bare login) fp).collapse s).forgetRemoved login.toList (hex fp.val)
  exact (items_restampAll _).trans (congrArg (List.map (Named.restamped (bare login) fp)) hn)

theorem Inner.Unique.rotate (h : s.Unique) {from_ into : Fingerprint} (hne : from_ ≠ into) :
    (s.rotate from_ into).2.Unique := by
  refine h.merged (oneInto_keyed hne) ?_
  have hn := @items_renumber (keyed from_)
    ((mergeInto (keyed from_) into).collapse s).forgetRemoved (hex from_.val) (hex into.val)
  exact (items_restampAll _).trans (congrArg (List.map (Named.restamped (keyed from_) into)) hn)

theorem Inner.Unique.step (h : s.Unique) {op : Op} (hop : op.Moves) : (s.step op).Unique := by
  cases op with
  | push relations m cap drawn => exact h.push relations m cap drawn
  | markHanded ids => exact h
  | receiptTold id =>
    show (s.receiptTold id).2.Unique
    unfold Inner.receiptTold
    split <;> exact h
  | markDelivered ids at_ what =>
    refine h.of_msgs (f := fun m => if ids.contains m.id then stamp m at_ what else m) (fun m => ?_)
      rfl rfl
    split <;> rfl
  | markRead relations to_ upTo at_ =>
    refine h.of_msgs (f := fun m => if marks relations to_ upTo m then stamp m at_ .read else m)
      (fun m => ?_) rfl rfl
    split <;> rfl
  | claim login fp => exact h.claim login fp
  | rotate from_ into => exact h.rotate hop
  | unlinked login fp =>
    show (s.unlinked login fp).Unique
    unfold Inner.unlinked
    split <;> exact h
  | restamp merged => exact h.restamp merged
  | purge of_ => exact h.purge of_
  | prune now unread read => exact h.prune now unread read

theorem Inner.Unique.after (h : s.Unique) {ops : List Op} (hops : ∀ op ∈ ops, op.Moves) :
    (s.after ops).Unique := by
  induction ops generalizing s with
  | nil => exact h
  | cons op ops ih =>
    exact ih (h.step (hops op List.mem_cons_self)) fun o ho => hops o (List.mem_cons_of_mem _ ho)

end Merging

/-- After any run of calls, rotations being to other keys, no two of the rows and stubs have one
recipient, one sender and one guid; and a push under a guid that one of them holds for its pair
changes nothing and answers that one's reference. -/
theorem guid_names_one (ops : List Op) (hops : ∀ op ∈ ops, op.Moves) :
    let s := ({} : Inner).after ops
    s.Unique ∧ ∀ relations (m : NewMessage) cap drawn guid, m.guid = some guid →
      (∀ row ∈ s.msgs, row.named.name = some (m.recipient.key, m.sender.map (·.key), guid) →
        s.push relations m cap drawn = (.ok (.existing row), s)) ∧
      (∀ stub ∈ s.stubs, stub.named.name = some (m.recipient.key, m.sender.map (·.key), guid) →
        s.push relations m cap drawn = (.ok (.pruned stub.reference stub.signed), s)) := by
  intro s
  have h : s.Unique := Inner.Unique.after (s := {}) List.Pairwise.nil hops
  refine ⟨h, fun relations m cap drawn guid hg => ⟨fun row hrow hname => ?_, fun stub hstub hname => ?_⟩⟩
  · unfold Inner.push
    rw [hg, Option.bind_some, Inner.findGuid_row h hrow hname]
  · unfold Inner.push
    rw [hg, Option.bind_some, Inner.findGuid_stub h hstub hname]

/-! A message sent while its recipient was linked and again while it was not, and the relinking. -/

def keyOf (b : UInt8) : Fingerprint := Bytes.replicate 32 b

def refOf (b : UInt8) : MessageRef := Bytes.replicate 16 b

def sent (recipient : Mailbox) (friendship : Option SentOn) : NewMessage where
  recipient := recipient
  sender := some ⟨"alice", none⟩
  body := "hi"
  sentAt := 0
  guid := some "g"
  kind := .message
  signed := none
  friendship := friendship
  senderAddress := none

def relinked : List Op :=
  [.push (fun _ => true) (sent ⟨"dave", some (keyOf 1)⟩ none) 9 (.ok (refOf 1)),
    .unlinked "dave" (keyOf 1),
    .push (fun _ => true) (sent ⟨"dave", none⟩ none) 9 (.ok (refOf 2)),
    .claim "dave" (keyOf 1), .rotate (keyOf 1) (keyOf 2)]

theorem guid_names_one_relinked :
    let s := ({} : Inner).after relinked
    s.Unique ∧ ∃ row ∈ s.msgs, s.push (fun _ => true) (sent ⟨"dave", some (keyOf 2)⟩ none) 9
      (.ok (refOf 3)) = (.ok (.existing row), s) := by
  have hops : ∀ op ∈ relinked, op.Moves := by
    intro op hop
    simp only [relinked, List.mem_cons, List.not_mem_nil, or_false] at hop
    rcases hop with rfl | rfl | rfl | rfl | rfl
    · trivial
    · trivial
    · trivial
    · trivial
    · show keyOf 1 ≠ keyOf 2
      decide
  obtain ⟨h, hpush⟩ := guid_names_one relinked hops
  have hrow : ∃ row ∈ (({} : Inner).after relinked).msgs, row.named.name =
      some (.fingerprint (keyOf 2), some (.login "alice"), "g") := by decide +kernel
  obtain ⟨row, hmem, hname⟩ := hrow
  exact ⟨h, row, hmem, (hpush (fun _ => true) (sent ⟨"dave", some (keyOf 2)⟩ none) 9 (.ok (refOf 3))
    "g" rfl).1 row hmem hname⟩

end HxdNg.Inbox
