import HxdNg.Inbox.Reactions
import HxdNg.Inbox.Guids

/-!
# The sender's window

Two runs of the store and the server that differ in when, and whether, private messages were handed
over, delivered and read.

* `Call`, `perform`, `Twin` : the calls, and two runs of the same pushes, reactions, purges and prunes, with
  any reading of private messages on either side;
* `Call.FindsEnded`, `Call.FindsOpen`, `Reopened` : a message whose window a call found ended, and a later
  one open;
* `Alike` : what the two runs agree on, which every call keeps; `window_tells_nothing` : so a sender is
  answered and told the same in both, unless a window is reopened.
-/

namespace HxdNg.Inbox

open Relationships History Assoc

inductive Call where
  | push (relations : RelationId → Bool) (m : NewMessage) (cap : Nat)
    (drawn : Except StoreError MessageRef)
  | markHanded (ids : List MessageId)
  | receiptTold (id : MessageId)
  | markDelivered (ids : List MessageId) (at_ : SystemTime) (what : Delivery)
  | markRead (relations : RelationId → Bool) (to_ : Mailbox) (upTo : Cursor) (at_ : SystemTime)
  | react (roster : List UserSession) (a : PmReaction)
  | forget (roster : List UserSession) (who : Mailbox) (within : Duration) (now told : SystemTime)
  | prune (now : SystemTime)
  | ask (now : SystemTime)

section Runs
variable (policy : ReactionPolicy) (unread read : Duration)

def perform (s : Inner) : Call → List ReactionsChanged × Inner
  | .push relations m cap drawn => ([], (s.push relations m cap drawn).2)
  | .markHanded ids => ([], s.markHanded ids)
  | .receiptTold id => ([], (s.receiptTold id).2)
  | .markDelivered ids at_ what => ([], s.markDelivered ids at_ what)
  | .markRead relations to_ upTo at_ => ([], (s.markRead relations to_ upTo at_).2)
  | .react roster a => (reactPm policy unread s roster a).2
  | .forget roster who within now told => forgetPmReactions policy unread s roster who within now told
  | .prune now => ([], (s.prune now unread read).2)
  | .ask _ => ([], s)

/-- A call that hands over, delivers or reads private messages, and touches no other. -/
def Call.ReadsPrivate (s : Inner) : Call → Prop
  | .markHanded ids => ∀ m ∈ s.msgs, m.id ∈ ids → isPrivate m = true
  | .receiptTold _ => True
  | .markDelivered ids _ _ => ∀ m ∈ s.msgs, m.id ∈ ids → isPrivate m = true
  | .markRead relations to_ upTo _ => ∀ m ∈ s.msgs, Inner.marks relations to_ upTo m = true →
      isPrivate m = true
  | _ => False

/-- A push does not meet the cap. -/
def Call.UnderCap (s : Inner) : Call → Prop
  | .push relations m cap drawn => (s.push relations m cap drawn).1 ≠ .ok .full
  | _ => True

/-- Two runs from an empty store with the calls `shared` in common, each with the events it gave and
the store it left. -/
inductive Twin : List Call → List ReactionsChanged × Inner → List ReactionsChanged × Inner → Prop
  | nil : Twin [] ([], {}) ([], {})
  | both {shared : List Call} {e₁ e₂ : List ReactionsChanged} {s₁ s₂ : Inner}
    (h : Twin shared (e₁, s₁) (e₂, s₂)) (op : Call) (hcap₁ : op.UnderCap s₁) (hcap₂ : op.UnderCap s₂) :
    Twin (shared ++ [op]) (e₁ ++ (perform policy unread read s₁ op).1, (perform policy unread read s₁ op).2)
      (e₂ ++ (perform policy unread read s₂ op).1, (perform policy unread read s₂ op).2)
  | left {shared : List Call} {e₁ e₂ : List ReactionsChanged} {s₁ s₂ : Inner}
    (h : Twin shared (e₁, s₁) (e₂, s₂)) (op : Call) (hreads : op.ReadsPrivate s₁) :
    Twin shared (e₁, (perform policy unread read s₁ op).2) (e₂, s₂)
  | right {shared : List Call} {e₁ e₂ : List ReactionsChanged} {s₁ s₂ : Inner}
    (h : Twin shared (e₁, s₁) (e₂, s₂)) (op : Call) (hreads : op.ReadsPrivate s₂) :
    Twin shared (e₁, s₁) (e₂, (perform policy unread read s₂ op).2)

/-- A call finds the window of a message sent at `sentAt` ended. -/
def Call.FindsEnded (sentAt : SystemTime) : Call → Prop
  | .prune now => unread ≤ elapsed now sentAt
  | .react _ a => sentAt < pmOpenSince a.now unread
  | _ => False

/-- A call finds it open, for a sender who asks or is told. -/
def Call.FindsOpen (sentAt : SystemTime) : Call → Prop
  | .react _ a => pmOpenSince a.now unread ≤ sentAt
  | .forget _ _ _ _ told => pmOpenSince told unread ≤ sentAt
  | .ask now => pmOpenSince now unread ≤ sentAt
  | _ => False

/-- The reference a message is stored under, and the message. -/
def Call.pushes : Call → Option (MessageRef × NewMessage)
  | .push _ m _ (.ok r) => some (r, m)
  | _ => none

/-- The window of a message is found open by a call after one that found it ended. -/
def Reopened (calls : List Call) : Prop :=
  ∃ p a b : Call, ∃ m, [p, a, b].Sublist calls ∧ p.pushes = some m ∧ a.FindsEnded unread m.2.sentAt ∧
    b.FindsOpen unread m.2.sentAt

end Runs

/-- A private message is pushed under `r` by `who`, to another account. -/
def sentBy (calls : List Call) (who : Mailbox) (r : MessageRef) : Bool :=
  calls.any fun op => op.pushes.any fun p =>
    p.1 = r && p.2.kind = .message && p.2.friendship.isNone && p.2.sender.any (is · who) &&
      !is p.2.recipient who

/-- What a session was told of the messages `mine`, event by event. -/
def toldOf (uid : Nat) (mine : MessageRef → Bool) (events : List ReactionsChanged) : List (List Summary) :=
  ((events.filter fun e => e.uid = uid).map fun e => e.changes.filter fun c => mine c.target).filter (· ≠ [])

/-! ## What the two runs agree on -/

section Agreement
variable (unread : Duration)

/-- A prune found the message's window ended. -/
def Ended (calls : List Call) (r : MessageRef) : Prop :=
  ∃ p a : Call, ∃ m now, [p, a].Sublist calls ∧ p.pushes = some (r, m) ∧ a = .prune now ∧
    a.FindsEnded unread m.sentAt

/-- A call found it ended. -/
def Shut (calls : List Call) (r : MessageRef) : Prop :=
  ∃ p a : Call, ∃ m, [p, a].Sublist calls ∧ p.pushes = some (r, m) ∧ a.FindsEnded unread m.sentAt

/-- What is kept of a private message, by its row or a stub. -/
def Inner.kept (s : Inner) (r : MessageRef) : Option Stub :=
  match s.msgs.find? fun m => m.reference = r with
  | some m => if isPrivate m then some (Inner.stubOf m) else none
  | none => s.stubs.find? fun t => t.reference = r

def Inner.refs (s : Inner) : List MessageRef := s.msgs.map (·.reference) ++ s.stubs.map (·.reference)

/-- What one run keeps: references are distinct, and each was pushed; what a prune found ended answers
no retry; and a reaction is on what is held. -/
structure Sound (calls : List Call) (s : Inner) : Prop where
  refs : s.refs.Nodup
  pushed : ∀ t r, s.kept r = some t → ∃ op ∈ calls, ∃ m, op.pushes = some (r, m) ∧
    m.recipient = t.recipient ∧ m.sender = t.sender ∧ m.sentAt = t.sentAt ∧ m.kind = .message ∧
    m.friendship = none
  drawn : ∀ r ∈ s.refs, ∃ op ∈ calls, ∃ m, op.pushes = some (r, m)
  spent : ∀ t r, s.kept r = some t → Ended unread calls r → t.guid = none
  reactions : ∀ x ∈ s.reactions, (s.kept x.reference).isSome = true

structure Alike (calls : List Call) (s₁ s₂ : Inner) : Prop where
  next : s₁.nextId = s₂.nextId
  cursors : s₁.cursors = s₂.cursors
  others : s₁.msgs.filter (fun m => !isPrivate m) = s₂.msgs.filter fun m => !isPrivate m
  kept : ∀ r, ¬ Ended unread calls r → s₁.kept r = s₂.kept r
  on : ∀ r, ¬ Shut unread calls r → s₁.on r = s₂.on r

end Agreement

variable {policy : ReactionPolicy} {unread read : Duration} {calls : List Call} {s s' s₁ s₂ : Inner}
  {r : MessageRef} {t : Stub} {op : Call}

/-! ## Histories -/

theorem sublist_concat {α : Type*} {xs ys : List α} {x y : α} :
    (xs ++ [x]).Sublist (ys ++ [y]) ↔ (xs ++ [x]).Sublist ys ∨ (xs.Sublist ys ∧ x = y) := by
  constructor
  · intro h
    rw [← List.reverse_sublist] at h
    simp only [List.reverse_append, List.reverse_singleton, List.singleton_append] at h
    cases h with
    | cons _ h =>
      left
      rw [← List.reverse_sublist]
      simpa using h
    | cons_cons _ h => exact .inr ⟨List.reverse_sublist.mp h, rfl⟩
  · rintro (h | ⟨h, rfl⟩)
    · exact h.trans (List.sublist_append_left _ _)
    · exact h.append (List.Sublist.refl _)

theorem Ended.shut (h : Ended unread calls r) : Shut unread calls r :=
  let ⟨p, a, m, _, hsub, hp, _, ha⟩ := h
  ⟨p, a, m, hsub, hp, ha⟩

theorem Ended.mono (h : Ended unread calls r) (op : Call) : Ended unread (calls ++ [op]) r :=
  let ⟨p, a, m, now, hsub, hp, hnow, ha⟩ := h
  ⟨p, a, m, now, hsub.trans (List.sublist_append_left _ _), hp, hnow, ha⟩

theorem Shut.mono (h : Shut unread calls r) (op : Call) : Shut unread (calls ++ [op]) r :=
  let ⟨p, a, m, hsub, hp, ha⟩ := h
  ⟨p, a, m, hsub.trans (List.sublist_append_left _ _), hp, ha⟩

theorem pair_sublist {p a : Call} (h : p ∈ calls) : [p, a].Sublist (calls ++ [a]) :=
  (List.singleton_sublist.mpr h).append (List.Sublist.refl [a])

theorem Shut.of_last {p : Call} {m : NewMessage} (hp : p ∈ calls) (hpush : p.pushes = some (r, m))
    (h : op.FindsEnded unread m.sentAt) : Shut unread (calls ++ [op]) r :=
  ⟨p, op, m, pair_sublist hp, hpush, h⟩

/-- A message found ended is not found open, unless it is reopened. -/
theorem not_shut_of_open {p : Call} {m : NewMessage}
    (hnodup : ((calls.filterMap Call.pushes).map Prod.fst).Nodup) (hp : p ∈ calls)
    (hpush : p.pushes = some (r, m)) (hopen : op.FindsOpen unread m.sentAt)
    (hno : ¬ Reopened unread (calls ++ [op])) : ¬ Shut unread calls r := by
  rintro ⟨p', a, m', hsub, hp', ha⟩
  have hmem : p' ∈ calls := hsub.subset List.mem_cons_self
  have hm : (r, m') = (r, m) := List.inj_on_of_nodup_map hnodup
    (List.mem_filterMap.mpr ⟨p', hmem, hp'⟩) (List.mem_filterMap.mpr ⟨p, hp, hpush⟩) rfl
  obtain ⟨-, rfl⟩ := Prod.mk.inj hm
  exact hno ⟨p', a, op, (r, m'), hsub.append (List.Sublist.refl [op]), hp', ha, hopen⟩

/-! ## What is kept of a message -/

theorem kept_eq_some (h : s.refs.Nodup) : s.kept r = some t ↔
    t.reference = r ∧ ((∃ m ∈ s.msgs, isPrivate m = true ∧ Inner.stubOf m = t) ∨ t ∈ s.stubs) := by
  obtain ⟨hmsgs, hstubs, hcross⟩ := List.nodup_append.mp h
  constructor
  · intro hk
    unfold Inner.kept at hk
    split at hk
    · next m hm =>
      split at hk
      · next hpriv =>
        obtain rfl := Option.some.inj hk
        have href : m.reference = r := by simpa using List.find?_some hm
        exact ⟨href, .inl ⟨m, List.mem_of_find?_eq_some hm, hpriv, rfl⟩⟩
      · cases hk
    · exact ⟨by simpa using List.find?_some hk, .inr (List.mem_of_find?_eq_some hk)⟩
  · rintro ⟨rfl, ⟨m, hm, hpriv, rfl⟩ | ht⟩
    · show s.kept m.reference = some (Inner.stubOf m)
      have hfind : (s.msgs.find? fun x => x.reference = m.reference) = some m := by
        cases hf : s.msgs.find? fun x => x.reference = m.reference with
        | none => exact absurd (decide_eq_true rfl) (List.find?_eq_none.mp hf m hm)
        | some x =>
          have hx : x.reference = m.reference := by simpa using List.find?_some hf
          rw [List.inj_on_of_nodup_map hmsgs (List.mem_of_find?_eq_some hf) hm hx]
      rw [Inner.kept, hfind]
      exact if_pos hpriv
    · have hnone : (s.msgs.find? fun x => x.reference = t.reference) = none := by
        rw [List.find?_eq_none]
        intro x hx hxt
        exact hcross _ (List.mem_map_of_mem hx) _ (List.mem_map_of_mem ht) (of_decide_eq_true hxt)
      have hfind : (s.stubs.find? fun x => x.reference = t.reference) = some t := by
        cases hf : s.stubs.find? fun x => x.reference = t.reference with
        | none => exact absurd (decide_eq_true rfl) (List.find?_eq_none.mp hf t ht)
        | some x =>
          have hx : x.reference = t.reference := by simpa using List.find?_some hf
          rw [List.inj_on_of_nodup_map hstubs (List.mem_of_find?_eq_some hf) ht hx]
      rw [Inner.kept, hnone]
      exact hfind

theorem mem_refs_of_kept (h : s.refs.Nodup) (hk : s.kept r = some t) : r ∈ s.refs := by
  obtain ⟨rfl, ⟨m, hm, -, rfl⟩ | ht⟩ := (kept_eq_some h).mp hk
  · exact List.mem_append_left _ (List.mem_map_of_mem hm)
  · exact List.mem_append_right _ (List.mem_map_of_mem ht)

/-- Whether a row, rather than a stub, keeps it. -/
def Inner.byRow (s : Inner) (r : MessageRef) : Bool := (s.msgs.find? fun m => m.reference = r).isSome

theorem parties_eq : ∃ delivered, s.parties r = (s.kept r).map fun t =>
    (⟨t.recipient, t.sender⟩, t.sentAt, s.byRow r, delivered) := by
  unfold Inner.parties Inner.kept Inner.byRow
  cases s.msgs.find? fun m => m.reference = r with
  | none => exact ⟨true, rfl⟩
  | some m =>
    refine ⟨m.deliveredAt.isSome, ?_⟩
    dsimp only
    split <;> rfl

theorem seen_eq (who : Mailbox) (openSince : SystemTime) : s.seen r who openSince =
    (s.kept r).bind fun t => Parties.seenBy ⟨t.recipient, t.sender⟩ who (s.byRow r) t.sentAt openSince := by
  obtain ⟨delivered, heq⟩ := parties_eq (s := s) (r := r)
  rw [Inner.seen, heq]
  cases s.kept r <;> rfl

/-- Inside the window a party sees a message by row and by stub alike. -/
theorem seenBy_open {p : Parties} {who : Mailbox} {sentAt openSince : SystemTime}
    (h : openSince ≤ sentAt) (row row' : Bool) :
    p.seenBy who row sentAt openSince = p.seenBy who row' sentAt openSince := by
  simp [Parties.seenBy, h]

/-- Past it none but the recipient sees it. -/
theorem seenBy_ended {p : Parties} {who : Mailbox} {row : Bool} {sentAt openSince : SystemTime}
    (h : sentAt < openSince) (hwho : is p.recipient who = false) :
    p.seenBy who row sentAt openSince = none := by
  simp [Parties.seenBy, hwho, h]

/-! ## Readings -/

/-- A row is restamped: it is the same message. -/
structure Restamp (f : StoredMessage → StoredMessage) : Prop where
  reference : ∀ m, (f m).reference = m.reference
  isPrivate : ∀ m, isPrivate (f m) = isPrivate m
  stubOf : ∀ m, Inner.stubOf (f m) = Inner.stubOf m

theorem Restamp.stamp (c : StoredMessage → Bool) (at_ : SystemTime) (what : Delivery) :
    Restamp fun m => if c m then Inner.stamp m at_ what else m := by
  refine ⟨fun m => ?_, fun m => ?_, fun m => ?_⟩ <;> split <;> rfl

theorem kept_restamp {f : StoredMessage → StoredMessage} (hf : Restamp f)
    (hm : s'.msgs = s.msgs.map f) (hs : s'.stubs = s.stubs) (r : MessageRef) : s'.kept r = s.kept r := by
  have hfind : (s'.msgs.find? fun m => m.reference = r) = (s.msgs.find? fun m => m.reference = r).map f := by
    rw [hm, List.find?_map]
    congr 2
    funext m
    rw [Function.comp_apply, hf.reference]
  unfold Inner.kept
  rw [hfind, hs]
  cases s.msgs.find? fun m => m.reference = r with
  | none => rfl
  | some m =>
    show (if isPrivate (f m) = true then some (Inner.stubOf (f m)) else none) = _
    rw [hf.isPrivate, hf.stubOf]

theorem refs_restamp {f : StoredMessage → StoredMessage} (hf : Restamp f)
    (hm : s'.msgs = s.msgs.map f) (hs : s'.stubs = s.stubs) : s'.refs = s.refs := by
  rw [Inner.refs, Inner.refs, hm, hs, List.map_map]
  congr 2
  funext m
  exact hf.reference m

/-- What a reading leaves alone. -/
structure Reading (s s' : Inner) : Prop where
  next : s'.nextId = s.nextId
  cursors : s'.cursors = s.cursors
  kept : ∀ r, s'.kept r = s.kept r
  refs : s'.refs = s.refs
  reactions : s'.reactions = s.reactions

theorem Reading.restamp {f : StoredMessage → StoredMessage} (hf : Restamp f) :
    Reading s { s with msgs := s.msgs.map f } :=
  ⟨rfl, rfl, kept_restamp hf rfl rfl, refs_restamp hf rfl rfl, rfl⟩

theorem Reading.refl (s : Inner) : Reading s s := ⟨rfl, rfl, fun _ => rfl, rfl, rfl⟩

theorem others_restamp {c : StoredMessage → Bool} {f : StoredMessage → StoredMessage}
    (hf : ∀ m, isPrivate (f m) = isPrivate m) (hc : ∀ m ∈ s.msgs, c m = true → isPrivate m = true) :
    (s.msgs.map fun m => if c m then f m else m).filter (fun m => !isPrivate m) =
      s.msgs.filter fun m => !isPrivate m := by
  induction hms : s.msgs generalizing s with
  | nil => rfl
  | cons m ms ih =>
    rw [hms, List.forall_mem_cons] at hc
    have ih := ih (s := { s with msgs := ms }) hc.2 rfl
    rw [List.map_cons, List.filter_cons, List.filter_cons, ih]
    cases hcm : c m with
    | false => simp
    | true => simp [hf, hc.1 hcm]

/-- A call that reads private messages on one side. -/
theorem reading_of_readsPrivate (hreads : op.ReadsPrivate s) :
    Reading s (perform policy unread read s op).2 ∧
      (perform policy unread read s op).2.msgs.filter (fun m => !isPrivate m) =
        s.msgs.filter fun m => !isPrivate m := by
  have hstamp (m : StoredMessage) (at_ : SystemTime) (what : Delivery) :
      isPrivate (Inner.stamp m at_ what) = isPrivate m := rfl
  cases op with
  | markHanded ids => exact ⟨⟨rfl, rfl, fun _ => rfl, rfl, rfl⟩, rfl⟩
  | receiptTold id =>
    simp only [perform, Inner.receiptTold]
    split
    · exact ⟨.refl s, rfl⟩
    · exact ⟨⟨rfl, rfl, fun _ => rfl, rfl, rfl⟩, rfl⟩
  | markDelivered ids at_ what =>
    refine ⟨.restamp (.stamp _ at_ what), others_restamp (fun m => hstamp m at_ what) fun m hm hc => ?_⟩
    exact hreads m hm (by simpa using hc)
  | markRead relations to_ upTo at_ =>
    exact ⟨.restamp (.stamp _ at_ .read), others_restamp (fun m => hstamp m at_ .read) hreads⟩
  | push relations m cap drawn => exact absurd hreads id
  | react roster a => exact absurd hreads id
  | forget roster who within now told => exact absurd hreads id
  | prune now => exact absurd hreads id
  | ask now => exact absurd hreads id

/-! ## Pushes -/

def Inner.add (s : Inner) (m : NewMessage) (r : MessageRef) : Inner :=
  { s with
    nextId := s.nextId + 1
    msgs := s.msgs ++ [s.stored m r]
    cursors := if m.kind = .message then insert m.recipient.spelling (s.stored m r).cursor s.cursors
      else s.cursors
    requested := if m.friendship = some .request then s.requested ++ [s.nextId + 1] else s.requested
    addresses := match m.senderAddress with
      | some a => insert (s.nextId + 1) a s.addresses
      | none => s.addresses }

/-- A push under the cap: nothing, where the message is found or no reference is drawn. -/
theorem push_eq {relations : RelationId → Bool} {m : NewMessage} {cap : Nat}
    {drawn : Except StoreError MessageRef} (hcap : (Call.push relations m cap drawn).UnderCap s) :
    (s.push relations m cap drawn).2 =
      if (m.guid.bind (s.findGuid m.recipient m.sender)).isSome then s
      else match drawn with
        | .error _ => s
        | .ok r => s.add m r := by
  have hcap : (s.push relations m cap drawn).1 ≠ .ok .full := hcap
  unfold Inner.push at hcap ⊢
  cases hfind : m.guid.bind (s.findGuid m.recipient m.sender) with
  | some found => cases found <;> rfl
  | none =>
    rw [hfind] at hcap
    dsimp only at hcap ⊢
    split at hcap
    · exact absurd rfl hcap
    · next hroom =>
      rw [if_neg hroom]
      cases drawn <;> rfl

/-- Whether a retry finds its message: among what is kept of private ones, or among the rest. -/
theorem findGuid_isSome (h : s.refs.Nodup) {to_ : Mailbox} {from_ : Option Mailbox} {g : MessageGuid} :
    (s.findGuid to_ from_ g).isSome = true ↔
      (∃ r t, s.kept r = some t ∧ t.guid = some g ∧ ofPair t.recipient t.sender to_ from_ = true) ∨
      ∃ m ∈ s.msgs.filter (fun m => !isPrivate m), m.guid = some g ∧
        ofPair m.recipient m.sender to_ from_ = true := by
  have hiff : (s.findGuid to_ from_ g).isSome = true ↔
      (∃ m ∈ s.msgs, m.guid = some g ∧ ofPair m.recipient m.sender to_ from_ = true) ∨
      ∃ t ∈ s.stubs, t.guid = some g ∧ ofPair t.recipient t.sender to_ from_ = true := by
    unfold Inner.findGuid
    split
    · next m hm =>
      refine iff_of_true rfl (.inl ⟨m, List.mem_of_find?_eq_some hm, ?_⟩)
      simpa using List.find?_some hm
    · next hnone =>
      rw [Option.isSome_map, List.find?_isSome]
      have hno : ¬ ∃ m ∈ s.msgs, m.guid = some g ∧ ofPair m.recipient m.sender to_ from_ = true := by
        rintro ⟨m, hm, hg, hp⟩
        exact List.find?_eq_none.mp hnone m hm (by simp [hg, hp])
      simp [hno]
  rw [hiff]
  constructor
  · rintro (⟨m, hm, hg, hp⟩ | ⟨t, ht, hg, hp⟩)
    · cases hpriv : isPrivate m with
      | true => exact .inl ⟨m.reference, _, (kept_eq_some h).mpr ⟨rfl, .inl ⟨m, hm, hpriv, rfl⟩⟩, hg, hp⟩
      | false => exact .inr ⟨m, List.mem_filter.mpr ⟨hm, by simp [hpriv]⟩, hg, hp⟩
    · exact .inl ⟨t.reference, t, (kept_eq_some h).mpr ⟨rfl, .inr ht⟩, hg, hp⟩
  · rintro (⟨r, t, hk, hg, hp⟩ | ⟨m, hm, hg, hp⟩)
    · obtain ⟨-, ⟨m, hm, -, rfl⟩ | ht⟩ := (kept_eq_some h).mp hk
      · exact .inl ⟨m, hm, hg, hp⟩
      · exact .inr ⟨t, ht, hg, hp⟩
    · exact .inl ⟨m, (List.mem_filter.mp hm).1, hg, hp⟩

theorem kept_add {m : NewMessage} {x : MessageRef} (hx : x ∉ s.refs) (r : MessageRef) :
    (s.add m x).kept r = if r = x then
      if isPrivate (s.stored m x) then some (Inner.stubOf (s.stored m x)) else none
    else s.kept r := by
  have hfind : ((s.add m x).msgs.find? fun y => y.reference = r) =
      (s.msgs.find? fun y => y.reference = r).or (if r = x then some (s.stored m x) else none) := by
    show ((s.msgs ++ [s.stored m x]).find? fun y => y.reference = r) = _
    rw [List.find?_append]
    congr 1
    by_cases hr : r = x
    · subst hr
      rw [if_pos rfl]
      exact List.find?_cons_of_pos (decide_eq_true rfl)
    · rw [if_neg hr]
      exact List.find?_cons_of_neg (by simpa [Inner.stored] using fun h => hr h.symm)
  unfold Inner.kept
  rw [hfind]
  by_cases hr : r = x
  · subst hr
    have hnone : (s.msgs.find? fun y => y.reference = r) = none := by
      rw [List.find?_eq_none]
      intro y hy hyr
      refine hx (List.mem_append_left _ ?_)
      rw [← of_decide_eq_true hyr]
      exact List.mem_map_of_mem hy
    rw [hnone, if_pos rfl, if_pos rfl]
    rfl
  · rw [if_neg hr, if_neg hr, Option.or_none]
    rfl

theorem refs_add {m : NewMessage} {x : MessageRef} : (s.add m x).refs.Perm (x :: s.refs) := by
  show ((s.msgs ++ [s.stored m x]).map (·.reference) ++ s.stubs.map (·.reference)).Perm _
  rw [List.map_append, List.append_assoc]
  exact List.perm_middle

/-! ## Prunes -/

/-- What a prune leaves of what is kept: all of it inside its window, its guid gone past it. -/
def spend (now : SystemTime) (unread : Duration) (t : Stub) : Stub :=
  if Inner.isOpen now unread t.sentAt then t else { t with guid := none }

theorem stubOf_stripGuid {now : SystemTime} {m : StoredMessage} (h : isPrivate m = true) :
    Inner.stubOf (Inner.stripGuid now unread m) = spend now unread (Inner.stubOf m) := by
  unfold Inner.stripGuid spend
  rw [h, Bool.true_and]
  show Inner.stubOf (if (!Inner.isOpen now unread m.sentAt) = true then _ else m) = if
    Inner.isOpen now unread m.sentAt = true then _ else _
  cases Inner.isOpen now unread m.sentAt <;> rfl

theorem isPrivate_stripGuid (now : SystemTime) (m : StoredMessage) :
    isPrivate (Inner.stripGuid now unread m) = isPrivate m := by
  unfold Inner.stripGuid
  split <;> rfl

theorem reference_stripGuid (now : SystemTime) (m : StoredMessage) :
    (Inner.stripGuid now unread m).reference = m.reference := by
  unfold Inner.stripGuid
  split <;> rfl

theorem foldl_insertStub {stubs new : List Stub}
    (h : ((stubs ++ new).map (·.reference)).Nodup) : new.foldl Inner.insertStub stubs = stubs ++ new := by
  induction new generalizing stubs with
  | nil => exact (List.append_nil _).symm
  | cons t new ih =>
    have hkeep : Inner.insertStub stubs t = stubs ++ [t] := by
      rw [Inner.insertStub, List.filter_eq_self.mpr]
      intro x hx
      rw [List.map_append, List.nodup_append] at h
      exact decide_eq_true (h.2.2 _ (List.mem_map_of_mem hx) _ List.mem_cons_self)
    rw [List.foldl_cons, hkeep, ih (by rwa [List.append_assoc]), List.append_assoc]
    rfl

section Prune
variable (now : SystemTime) (unread read)

theorem prune_eq (h : s.refs.Nodup) :
    (s.prune now unread read).2.msgs =
      (s.msgs.filter (Inner.keeps now unread read)).map (Inner.stripGuid now unread) ∧
    (s.prune now unread read).2.stubs =
      (s.stubs ++ (s.msgs.filter (Inner.leavesStub now unread read)).map Inner.stubOf).filter
        fun t => Inner.isOpen now unread t.sentAt := by
  refine ⟨rfl, ?_⟩
  show (((s.msgs.filter (Inner.leavesStub now unread read)).map Inner.stubOf).foldl Inner.insertStub
    s.stubs).filter _ = _
  rw [foldl_insertStub]
  rw [List.map_append, List.map_map]
  obtain ⟨hmsgs, hstubs, hcross⟩ := List.nodup_append.mp h
  refine List.nodup_append.mpr ⟨hstubs, hmsgs.sublist (List.filter_sublist.map _), fun a ha b hb => ?_⟩
  exact (hcross b ((List.filter_sublist.map _).subset hb) a ha).symm

theorem refs_prune (h : s.refs.Nodup) : (s.prune now unread read).2.refs.Nodup := by
  obtain ⟨hm, hs⟩ := prune_eq unread read now h
  have hkept : ((s.msgs.filter (Inner.keeps now unread read)).map (Inner.stripGuid now unread)).map
      (·.reference) = (s.msgs.filter (Inner.keeps now unread read)).map (·.reference) := by
    rw [List.map_map]
    congr 1
    funext m
    exact reference_stripGuid now m
  have hleft : ((s.msgs.filter (Inner.leavesStub now unread read)).map (·.reference)).Sublist
      ((s.msgs.filter fun m => !Inner.keeps now unread read m).map (·.reference)) := by
    refine List.Sublist.map _ (List.monotone_filter_right _ fun m hm => ?_)
    unfold Inner.leavesStub at hm
    cases hk : Inner.keeps now unread read m with
    | false => rfl
    | true => simp [hk] at hm
  have hperm : (((s.msgs.filter (Inner.keeps now unread read)).map (·.reference) ++
      (s.msgs.filter fun m => !Inner.keeps now unread read m).map (·.reference)) ++
      s.stubs.map (·.reference)).Perm s.refs := by
    rw [← List.map_append]
    exact ((List.filter_append_perm _ s.msgs).map _).append_right _
  rw [Inner.refs, hm, hs, hkept]
  have hstubs : (((s.stubs ++ (s.msgs.filter (Inner.leavesStub now unread read)).map Inner.stubOf).filter
      fun t => Inner.isOpen now unread t.sentAt).map (·.reference)).Sublist
      (s.stubs.map (·.reference) ++ (s.msgs.filter (Inner.leavesStub now unread read)).map (·.reference)) := by
    have := (List.filter_sublist (p := fun t : Stub => Inner.isOpen now unread t.sentAt)
      (l := s.stubs ++ (s.msgs.filter (Inner.leavesStub now unread read)).map Inner.stubOf)).map (·.reference)
    rwa [List.map_append, List.map_map] at this
  have hnodup := hperm.nodup_iff.mpr h
  rw [List.append_assoc] at hnodup
  refine List.Nodup.sublist ((List.Sublist.refl _).append hstubs) ?_
  refine List.Nodup.sublist ((List.Sublist.refl _).append ((List.Sublist.refl _).append hleft)) ?_
  exact (((List.Perm.refl _).append List.perm_append_comm).nodup_iff).mp hnodup

/-- A prune keeps what it finds inside its window, and past it no more than a row without its guid. -/
theorem kept_prune (h : s.refs.Nodup) (r : MessageRef) :
    (∀ t, s.kept r = some t → Inner.isOpen now unread t.sentAt = true →
      (s.prune now unread read).2.kept r = some t) ∧
    ∀ t', (s.prune now unread read).2.kept r = some t' →
      ∃ t, s.kept r = some t ∧ t' = spend now unread t := by
  obtain ⟨hm, hs⟩ := prune_eq unread read now h
  constructor
  · intro t ht hopen
    obtain ⟨href, ⟨m, hmem, hpriv, rfl⟩ | hmem⟩ := (kept_eq_some h).mp ht
    · refine (kept_eq_some (refs_prune unread read now h)).mpr ⟨href, ?_⟩
      cases hk : Inner.keeps now unread read m with
      | true =>
        refine .inl ⟨Inner.stripGuid now unread m, ?_, (isPrivate_stripGuid now m).trans hpriv, ?_⟩
        · rw [hm]
          exact List.mem_map_of_mem (List.mem_filter.mpr ⟨hmem, hk⟩)
        · rw [stubOf_stripGuid hpriv, spend, if_pos hopen]
      | false =>
        refine .inr ?_
        rw [hs, List.mem_filter]
        refine ⟨List.mem_append_right _ (List.mem_map_of_mem (List.mem_filter.mpr ⟨hmem, ?_⟩)), hopen⟩
        have hopen : Inner.isOpen now unread m.sentAt = true := hopen
        simp [Inner.leavesStub, hk, hpriv, hopen]
    · refine (kept_eq_some (refs_prune unread read now h)).mpr ⟨href, .inr ?_⟩
      rw [hs, List.mem_filter]
      exact ⟨List.mem_append_left _ hmem, hopen⟩
  · intro t' ht'
    obtain ⟨href, ⟨m', hmem, hpriv, rfl⟩ | hmem⟩ := (kept_eq_some (refs_prune unread read now h)).mp ht'
    · rw [hm] at hmem
      obtain ⟨m, hfrom, rfl⟩ := List.mem_map.mp hmem
      rw [isPrivate_stripGuid] at hpriv
      refine ⟨Inner.stubOf m, (kept_eq_some h).mpr ⟨?_, .inl ⟨m, (List.mem_filter.mp hfrom).1, hpriv, rfl⟩⟩,
        stubOf_stripGuid hpriv⟩
      exact (reference_stripGuid now m).symm.trans href
    · rw [hs, List.mem_filter] at hmem
      refine ⟨t', (kept_eq_some h).mpr ⟨href, ?_⟩, by rw [spend, if_pos hmem.2]⟩
      rcases List.mem_append.mp hmem.1 with hmem | hmem
      · exact .inr hmem
      · obtain ⟨m, hfrom, rfl⟩ := List.mem_map.mp hmem
        obtain ⟨hfrom, hleave⟩ := List.mem_filter.mp hfrom
        simp only [Inner.leavesStub, Bool.and_eq_true] at hleave
        exact .inl ⟨m, hfrom, hleave.1.2, rfl⟩

end Prune

/-! ## Reactions -/

section React
variable {act : MessageReactAct}

/-- What an act leaves on its own message, and on others. -/
theorem on_reactedRows (s : Inner) (act : MessageReactAct) (r : MessageRef) :
    ({ s with reactions := s.reactedRows act } : Inner).on r =
      if r ≠ act.reference then s.on r
      else if act.add then
        s.on r ++ [⟨act.reference, act.key.pack, Inner.reactorKey act.who, act.nick, act.at_⟩]
      else (s.on r).filter fun x => ¬ (x.reference = act.reference ∧ x.key = act.key.pack ∧
        x.reactor = Inner.reactorKey act.who) := by
  unfold Inner.on Inner.reactedRows
  by_cases hr : r = act.reference
  · rw [if_neg (not_not.mpr hr)]
    split
    · rw [List.filter_append, hr]
      simp
    · rw [List.filter_filter, List.filter_filter]
      congr 1
      funext x
      exact Bool.and_comm _ _
  · rw [if_pos hr]
    split
    · rw [List.filter_append, List.filter_cons_of_neg (by simpa using fun h => hr h.symm)]
      simp
    · rw [List.filter_filter, List.filter_congr]
      intro x _
      by_cases hx : x.reference = r
      · simp [hx, hr]
      · simp [hx]

def Inner.reacted (s : Inner) (act : MessageReactAct) : Inner := { s with reactions := s.reactedRows act }

/-- Whether an act is to change the rows of its message, when its account sees it. -/
def Inner.reacts (s : Inner) (act : MessageReactAct) : Bool :=
  let held := (s.on act.reference).any fun x =>
    x.key = act.key.pack ∧ x.reactor = Inner.reactorKey act.who
  act.add ≠ held && !(act.add && !s.hasRoom act)

/-- An act changes nothing, or the rows of a message its account sees. -/
theorem reactMessage_cases (s : Inner) (act : MessageReactAct) :
    if (s.seen act.reference act.who act.openSince).isSome && s.reacts act then
      s.reactMessage act =
        (((s.reacted act).state act.reference).elim .dropped .applied, s.reacted act)
    else (s.reactMessage act).2 = s ∧ ∀ st, (s.reactMessage act).1 ≠ .applied st := by
  unfold Inner.reactMessage Inner.reacts
  cases s.seen act.reference act.who act.openSince with
  | none => exact ⟨rfl, fun _ => nofun⟩
  | some p =>
    dsimp only [Option.isSome_some]
    generalize ((s.on act.reference).any fun x =>
      decide (x.key = act.key.pack ∧ x.reactor = Inner.reactorKey act.who)) = held
    by_cases hheld : act.add = held
    · rw [if_pos hheld, if_neg (by simp [hheld])]
      exact ⟨rfl, fun _ => nofun⟩
    · rw [if_neg hheld]
      by_cases hroom : act.add = true ∧ ¬ s.hasRoom act = true
      · rw [if_pos hroom, if_neg (by simp [hroom])]
        exact ⟨rfl, fun _ => nofun⟩
      · rw [if_neg hroom, if_pos]
        · rfl
        · have hno : (act.add && !s.hasRoom act) = false := by
            cases hadd : act.add <;> cases hr : s.hasRoom act <;> simp_all
          simp [hno, hheld]

theorem act_eq_some {a : PmReaction} {sess : UserSession}
    (h : a.act policy unread s sess = some act) :
    act.reference = a.reference ∧ act.who = sess.mailbox ∧ act.openSince = pmOpenSince a.now unread := by
  simp only [PmReaction.act, Option.bind_eq_bind, Option.bind_eq_some_iff] at h
  obtain ⟨parties, -, h⟩ := h
  split at h
  · cases h
  · obtain rfl := Option.some.inj h
    exact ⟨rfl, rfl, rfl⟩

/-- The act a reaction comes to, when it is to change any row. -/
def PmReaction.comes (a : PmReaction) (policy : ReactionPolicy) (unread : Duration) (s : Inner)
    (roster : List UserSession) : Option MessageReactAct :=
  (((roster.find? fun x => x.uid = a.uid).filter fun sess =>
      sess.isPerson && !sess.system && sess.sendChat && !a.limited).bind (a.act policy unread s)).filter
    fun act => (s.seen act.reference act.who act.openSince).isSome && s.reacts act

theorem comes_eq_some {a : PmReaction} {roster : List UserSession}
    (h : a.comes policy unread s roster = some act) :
    act.reference = a.reference ∧ act.openSince = pmOpenSince a.now unread ∧
      (s.seen act.reference act.who act.openSince).isSome = true ∧
      ∃ sess ∈ roster, sess.uid = a.uid ∧ act.who = sess.mailbox := by
  obtain ⟨hact, hyes⟩ := Option.filter_eq_some_iff.mp h
  obtain ⟨sess, hsess, hact⟩ := Option.bind_eq_some_iff.mp hact
  obtain ⟨hsess, -⟩ := Option.filter_eq_some_iff.mp hsess
  obtain ⟨href, hwho, hopen⟩ := act_eq_some hact
  have huid : sess.uid = a.uid := by simpa using List.find?_some hsess
  exact ⟨href, hopen, (Bool.and_eq_true_iff.mp hyes).1, sess, List.mem_of_find?_eq_some hsess, huid, hwho⟩

/-- A reaction changes nothing, or its message's rows, and the message is told as it then stands. -/
theorem react_eq (policy : ReactionPolicy) (unread read : Duration) (s : Inner) (roster : List UserSession)
    (a : PmReaction) :
    perform policy unread read s (.react roster a) =
      (a.comes policy unread s roster).elim ([], s) fun act =>
        (((s.reacted act).state a.reference).elim [] fun st =>
          pmTell roster [st] (pmOpenSince a.now unread) (some a.uid), s.reacted act) := by
  simp only [perform, reactPm, PmReaction.comes]
  cases roster.find? fun x => x.uid = a.uid with
  | none => rfl
  | some sess =>
    dsimp only
    by_cases hmay : sess.isPerson && !sess.system && sess.sendChat && !a.limited
    · have hallowed : ¬ (¬ sess.isPerson = true ∨ sess.system = true ∨ ¬ sess.sendChat = true) := by
        simp only [Bool.and_eq_true, Bool.not_eq_true'] at hmay
        simp [hmay]
      have hrate : ¬ a.limited = true := by
        simp only [Bool.and_eq_true, Bool.not_eq_true'] at hmay
        simp [hmay]
      rw [if_neg hallowed, if_neg hrate, Option.filter_some, if_pos hmay, Option.bind_some]
      unfold PmReaction.apply
      cases hact : a.act policy unread s sess with
      | none => rfl
      | some act =>
        obtain ⟨href, -, hopen⟩ := act_eq_some hact
        have hcases := reactMessage_cases s act
        rw [Option.filter_some]
        split at hcases
        · next hyes =>
          rw [if_pos hyes]
          dsimp only
          rw [hcases, href, hopen, Option.elim_some]
          cases (s.reacted act).state a.reference <;> rfl
        · next hno =>
          rw [if_neg hno]
          dsimp only
          split
          · next heq => exact absurd (congrArg Prod.fst heq) (hcases.2 _)
          · next heq => exact Prod.ext rfl ((congrArg Prod.snd heq).symm.trans hcases.1)
    · rw [Option.filter_some, if_neg hmay]
      have hcases : (¬ sess.isPerson = true ∨ sess.system = true ∨ ¬ sess.sendChat = true) ∨
          a.limited = true := by
        cases h₁ : sess.isPerson <;> cases h₂ : sess.system <;> cases h₃ : sess.sendChat <;>
          simp_all
      rcases hcases with hno | hlimited
      · rw [if_pos hno]
        rfl
      · rw [if_pos hlimited]
        split <;> rfl

/-- What a reaction comes to is read off who sees its message and the reactions on it. -/
theorem comes_congr {a : PmReaction} {roster : List UserSession}
    (hseen : ∀ who, s₁.seen a.reference who (pmOpenSince a.now unread) =
      s₂.seen a.reference who (pmOpenSince a.now unread))
    (hon : s₁.on a.reference = s₂.on a.reference) :
    a.comes policy unread s₁ roster = a.comes policy unread s₂ roster := by
  have hact : a.act policy unread s₁ = a.act policy unread s₂ := by
    funext sess
    simp only [PmReaction.act, Inner.messageParty, hseen]
  have hfilter : ∀ act : MessageReactAct, act.reference = a.reference →
      act.openSince = pmOpenSince a.now unread →
      ((s₁.seen act.reference act.who act.openSince).isSome && s₁.reacts act) =
        ((s₂.seen act.reference act.who act.openSince).isSome && s₂.reacts act) := by
    intro act href hopen
    simp only [Inner.reacts, Inner.hasRoom, href, hopen, hseen, hon]
  unfold PmReaction.comes
  rw [hact]
  cases hsess : ((roster.find? fun x => x.uid = a.uid).filter fun sess =>
      sess.isPerson && !sess.system && sess.sendChat && !a.limited).bind (a.act policy unread s₂) with
  | none => rfl
  | some act =>
    obtain ⟨sess, -, hact⟩ := Option.bind_eq_some_iff.mp hsess
    obtain ⟨href, -, hopen⟩ := act_eq_some hact
    rw [Option.filter_some, Option.filter_some, hfilter act href hopen]

end React

theorem kept_of_seen {who : Mailbox} {openSince : SystemTime}
    (h : (s.seen r who openSince).isSome = true) : (s.kept r).isSome = true := by
  rw [seen_eq] at h
  cases hk : s.kept r with
  | none => rw [hk] at h; cases h
  | some t => rfl

/-! ## Every call keeps a run sound -/

theorem Ended.of_concat (h : Ended unread (calls ++ [op]) r) : Ended unread calls r ∨
    ∃ p ∈ calls, ∃ m now, p.pushes = some (r, m) ∧ op = .prune now ∧ unread ≤ elapsed now m.sentAt := by
  obtain ⟨p, a, m, now, hsub, hp, rfl, ha⟩ := h
  rcases (sublist_concat : ([p] ++ [_]).Sublist _ ↔ _).mp hsub with hsub | ⟨hsub, heq⟩
  · exact .inl ⟨p, .prune now, m, now, hsub, hp, rfl, ha⟩
  · exact .inr ⟨p, List.singleton_sublist.mp hsub, m, now, hp, heq.symm, ha⟩

theorem Sound.of_kept (h : Sound unread calls s) (hk : ∀ r, s'.kept r = s.kept r) (hr : s'.refs = s.refs)
    (hx : ∀ x ∈ s'.reactions, (s.kept x.reference).isSome = true) : Sound unread calls s' :=
  ⟨hr ▸ h.refs, fun t r ht => h.pushed t r (hk r ▸ ht), hr ▸ h.drawn,
    fun t r ht => h.spent t r (hk r ▸ ht), fun x hmem => hk x.reference ▸ hx x hmem⟩

/-- A call other than a prune, once it was made. -/
theorem Sound.called (h : Sound unread calls s) (hop : ∀ now, op ≠ .prune now) :
    Sound unread (calls ++ [op]) s := by
  refine ⟨h.refs, fun t r ht => ?_, fun r hr => ?_, fun t r ht hended => ?_, h.reactions⟩
  · obtain ⟨p, hp, rest⟩ := h.pushed t r ht
    exact ⟨p, List.mem_append_left _ hp, rest⟩
  · obtain ⟨p, hp, rest⟩ := h.drawn r hr
    exact ⟨p, List.mem_append_left _ hp, rest⟩
  · rcases hended.of_concat with hended | ⟨-, -, -, now, -, heq, -⟩
    · exact h.spent t r ht hended
    · exact absurd heq (hop now)

theorem pushes_unique {p p' : Call} {m m' : NewMessage}
    (hnodup : ((calls.filterMap Call.pushes).map Prod.fst).Nodup) (hp : p ∈ calls) (hp' : p' ∈ calls)
    (hm : p.pushes = some (r, m)) (hm' : p'.pushes = some (r, m')) : m = m' :=
  (Prod.mk.inj (List.inj_on_of_nodup_map hnodup (List.mem_filterMap.mpr ⟨p, hp, hm⟩)
    (List.mem_filterMap.mpr ⟨p', hp', hm'⟩) rfl : (r, m) = (r, m'))).2

theorem Sound.fresh (h : Sound unread calls s) {m : NewMessage} {x : MessageRef}
    (hnodup : (((calls ++ [op]).filterMap Call.pushes).map Prod.fst).Nodup)
    (hop : op.pushes = some (x, m)) : x ∉ s.refs := by
  intro hx
  obtain ⟨p, hp, m', hm'⟩ := h.drawn x hx
  rw [List.filterMap_append, List.map_append, List.nodup_append] at hnodup
  refine hnodup.2.2 x (List.mem_map.mpr ⟨(x, m'), List.mem_filterMap.mpr ⟨p, hp, hm'⟩, rfl⟩) x ?_ rfl
  simp [hop]

theorem Sound.add (h : Sound unread calls s) {m : NewMessage} {x : MessageRef}
    (hnodup : (((calls ++ [op]).filterMap Call.pushes).map Prod.fst).Nodup)
    (hop : op.pushes = some (x, m)) (hprune : ∀ now, op ≠ .prune now) :
    Sound unread (calls ++ [op]) (s.add m x) := by
  have hx := h.fresh hnodup hop
  have hcalled := h.called hprune
  have hkept := fun r => kept_add (m := m) hx r
  refine ⟨?_, fun t r ht => ?_, fun r hr => ?_, fun t r ht hended => ?_, fun y hy => ?_⟩
  · exact refs_add.nodup_iff.mpr (List.nodup_cons.mpr ⟨hx, h.refs⟩)
  · rw [hkept] at ht
    split at ht
    · next hr =>
      subst hr
      split at ht
      · next hpriv =>
        obtain rfl := Option.some.inj ht
        have hpriv : m.kind = .message ∧ m.friendship = none := by
          simpa [isPrivate, isMail, Inner.stored] using hpriv
        exact ⟨op, List.mem_append_right _ (List.mem_singleton_self op), m, hop, rfl, rfl, rfl, hpriv.1,
          hpriv.2⟩
      · cases ht
    · exact hcalled.pushed t r ht
  · rcases List.mem_cons.mp (refs_add.mem_iff.mp hr) with rfl | hr
    · exact ⟨op, List.mem_append_right _ (List.mem_singleton_self op), m, hop⟩
    · exact hcalled.drawn r hr
  · rw [hkept] at ht
    split at ht
    · next hr =>
      subst hr
      -- A message just pushed was found ended by no call yet.
      rcases hended.of_concat with hended | ⟨-, -, -, now, -, heq, -⟩
      · obtain ⟨p, a, m', now, hsub, hp, -, -⟩ := hended
        rw [List.filterMap_append, List.map_append, List.nodup_append] at hnodup
        refine absurd rfl (hnodup.2.2 r (List.mem_map.mpr ⟨(r, m'), ?_, rfl⟩) r (by simp [hop]))
        exact List.mem_filterMap.mpr ⟨p, hsub.subset List.mem_cons_self, hp⟩
      · exact absurd heq (hprune now)
    · exact hcalled.spent t r ht hended
  · rw [hkept]
    split
    · next hy' => exact absurd (hy' ▸ mem_refs_of_kept h.refs (Option.get_mem (h.reactions y hy))) hx
    · exact h.reactions y hy

theorem Sound.prune (h : Sound unread calls s) (now : SystemTime)
    (hnodup : ((calls.filterMap Call.pushes).map Prod.fst).Nodup) :
    Sound unread (calls ++ [.prune now]) (s.prune now unread read).2 := by
  have hkept := fun r => kept_prune unread read now h.refs r
  have hrefs : ∀ {r}, r ∈ (s.prune now unread read).2.refs → r ∈ s.refs := by
    intro r hr
    obtain ⟨hm, hs⟩ := prune_eq unread read now h.refs
    rcases List.mem_append.mp hr with hr | hr
    · obtain ⟨m', hmem, rfl⟩ := List.mem_map.mp hr
      rw [hm] at hmem
      obtain ⟨m, hfrom, rfl⟩ := List.mem_map.mp hmem
      rw [reference_stripGuid]
      exact List.mem_append_left _ (List.mem_map_of_mem (List.mem_filter.mp hfrom).1)
    · obtain ⟨t, hmem, rfl⟩ := List.mem_map.mp hr
      rw [hs, List.mem_filter] at hmem
      rcases List.mem_append.mp hmem.1 with hmem | hmem
      · exact List.mem_append_right _ (List.mem_map_of_mem hmem)
      · obtain ⟨m, hfrom, rfl⟩ := List.mem_map.mp hmem
        exact List.mem_append_left _ (List.mem_map.mpr ⟨m, (List.mem_filter.mp hfrom).1, rfl⟩)
  refine ⟨refs_prune unread read now h.refs, fun t' r ht' => ?_, fun r hr => ?_, fun t' r ht' hended => ?_, fun x hx => ?_⟩
  · obtain ⟨t, ht, rfl⟩ := (hkept r).2 t' ht'
    obtain ⟨p, hp, m, hm, rest⟩ := h.pushed t r ht
    refine ⟨p, List.mem_append_left _ hp, m, hm, ?_⟩
    unfold spend
    split <;> exact rest
  · obtain ⟨p, hp, rest⟩ := h.drawn r (hrefs hr)
    exact ⟨p, List.mem_append_left _ hp, rest⟩
  · obtain ⟨t, ht, rfl⟩ := (hkept r).2 t' ht'
    unfold spend
    split
    · next hopen =>
      rcases hended.of_concat with hended | ⟨p, hp, m, now', hm, heq, hle⟩
      · exact h.spent t r ht hended
      · obtain rfl := Call.prune.inj heq
        obtain ⟨p', hp', m', hm', -, -, hsent, -⟩ := h.pushed t r ht
        rw [pushes_unique hnodup hp hp' hm hm', hsent] at hle
        exact absurd (of_decide_eq_true hopen) (Nat.not_lt.mpr hle)
    · rfl
  · obtain ⟨hx, hmem⟩ := List.mem_filter.mp hx
    have hmem : x.reference ∈ (s.prune now unread read).2.refs := List.contains_iff_mem.mp hmem
    obtain ⟨t, ht⟩ := Option.isSome_iff_exists.mp (h.reactions x hx)
    obtain ⟨hmsgs, -, hcross⟩ := List.nodup_append.mp h.refs
    rcases List.mem_append.mp hmem with hrow | hstub
    · obtain ⟨m', hm', href⟩ := List.mem_map.mp hrow
      have hm' := hm'
      rw [(prune_eq unread read now h.refs).1] at hm'
      obtain ⟨m, hm, rfl⟩ := List.mem_map.mp hm'
      obtain ⟨hm, -⟩ := List.mem_filter.mp hm
      rw [reference_stripGuid] at href
      obtain ⟨htr, ⟨m₀, hm₀, hpriv, rfl⟩ | hts⟩ := (kept_eq_some h.refs).mp ht
      · obtain rfl : m₀ = m := List.inj_on_of_nodup_map hmsgs hm₀ hm (htr.trans href.symm)
        refine Option.isSome_iff_exists.mpr ⟨_, (kept_eq_some (refs_prune unread read now h.refs)).mpr
          ⟨?_, .inl ⟨Inner.stripGuid now unread m₀, ?_, ?_, rfl⟩⟩⟩
        · exact (reference_stripGuid now m₀).trans href
        · rw [(prune_eq unread read now h.refs).1]
          exact hm'
        · exact (isPrivate_stripGuid now m₀).trans hpriv
      · refine absurd rfl (hcross x.reference ?_ x.reference ?_)
        · exact List.mem_map.mpr ⟨m, hm, href⟩
        · exact List.mem_map.mpr ⟨t, hts, htr⟩
    · obtain ⟨t', ht', href⟩ := List.mem_map.mp hstub
      exact Option.isSome_iff_exists.mpr ⟨t', (kept_eq_some (refs_prune unread read now h.refs)).mpr ⟨href, .inr ht'⟩⟩

theorem Sound.reading (h : Sound unread calls s) (hr : Reading s s') : Sound unread calls s' :=
  h.of_kept hr.kept hr.refs fun x hx => h.reactions x (hr.reactions ▸ hx)

theorem reading_markDelivered (s : Inner) (ids : List MessageId) (at_ : SystemTime) (what : Delivery) :
    Reading s (s.markDelivered ids at_ what) := .restamp (.stamp _ at_ what)

theorem reading_markRead (s : Inner) (relations : RelationId → Bool) (to_ : Mailbox) (upTo : Cursor)
    (at_ : SystemTime) : Reading s (s.markRead relations to_ upTo at_).2 := .restamp (.stamp _ at_ .read)

theorem Sound.perform (h : Sound unread calls s) (hcap : op.UnderCap s)
    (hnodup : (((calls ++ [op]).filterMap Call.pushes).map Prod.fst).Nodup) :
    Sound unread (calls ++ [op]) (perform policy unread read s op).2 := by
  have hbefore : ((calls.filterMap Call.pushes).map Prod.fst).Nodup := by
    rw [List.filterMap_append, List.map_append] at hnodup
    exact (List.nodup_append.mp hnodup).1
  cases op with
  | push relations m cap drawn =>
    have hcalled : Sound unread (calls ++ [.push relations m cap drawn]) s := h.called fun _ => nofun
    show Sound unread _ (s.push relations m cap drawn).2
    rw [push_eq hcap]
    split
    · exact hcalled
    · cases drawn with
      | error e => exact hcalled
      | ok x => exact h.add hnodup rfl fun _ => nofun
  | markHanded ids => exact (h.called (by nofun)).reading ⟨rfl, rfl, fun _ => rfl, rfl, rfl⟩
  | receiptTold id =>
    refine (h.called (by nofun)).reading ?_
    simp only [Inbox.perform, Inner.receiptTold]
    split
    · exact .refl s
    · exact ⟨rfl, rfl, fun _ => rfl, rfl, rfl⟩
  | markDelivered ids at_ what =>
    exact (h.called (by nofun)).reading (reading_markDelivered s ids at_ what)
  | markRead relations to_ upTo at_ =>
    exact (h.called (by nofun)).reading (reading_markRead s relations to_ upTo at_)
  | react roster a =>
    have hcalled : Sound unread (calls ++ [.react roster a]) s := h.called fun _ => nofun
    rw [react_eq]
    cases hcomes : a.comes policy unread s roster with
    | none => exact hcalled
    | some act =>
      refine hcalled.of_kept (fun _ => rfl) rfl fun x hx => ?_
      change x ∈ s.reactedRows act at hx
      unfold Inner.reactedRows at hx
      split at hx
      · rcases List.mem_append.mp hx with hx | hx
        · exact h.reactions x hx
        · rw [List.mem_singleton.mp hx]
          exact kept_of_seen (comes_eq_some hcomes).2.2.1
      · exact h.reactions x (List.mem_filter.mp hx).1
  | forget roster who within now told =>
    refine (h.called (by nofun)).of_kept (fun _ => rfl) rfl fun x hx => ?_
    exact h.reactions x (List.mem_filter.mp hx).1
  | prune now => exact h.prune now hbefore
  | ask now => exact h.called (by nofun)

/-! ## Every call keeps two runs alike -/

theorem Alike.symm (h : Alike unread calls s₁ s₂) : Alike unread calls s₂ s₁ :=
  ⟨h.next.symm, h.cursors.symm, h.others.symm, fun r hr => (h.kept r hr).symm, fun r hr => (h.on r hr).symm⟩

/-- A reading on one side. -/
theorem Alike.reading (h : Alike unread calls s₁ s₂) (hr : Reading s₁ s')
    (ho : s'.msgs.filter (fun m => !isPrivate m) = s₁.msgs.filter fun m => !isPrivate m) :
    Alike unread calls s' s₂ := by
  refine ⟨hr.next.trans h.next, hr.cursors.trans h.cursors, ho.trans h.others,
    fun r hno => (hr.kept r).trans (h.kept r hno), fun r hno => ?_⟩
  rw [← h.on r hno, Inner.on, Inner.on, hr.reactions]

/-- One more call changes what is asked of the two. -/
theorem Alike.called (h : Alike unread calls s₁ s₂) (op : Call) : Alike unread (calls ++ [op]) s₁ s₂ :=
  ⟨h.next, h.cursors, h.others, fun r hno => h.kept r fun he => hno (he.mono op),
    fun r hno => h.on r fun hs => hno (hs.mono op)⟩

/-- Both sides mark the rows the same condition picks. -/
theorem others_stamp_both {c : StoredMessage → Bool} {at_ : SystemTime} {what : Delivery}
    (h : s₁.msgs.filter (fun m => !isPrivate m) = s₂.msgs.filter fun m => !isPrivate m) :
    (s₁.msgs.map fun m => if c m then Inner.stamp m at_ what else m).filter (fun m => !isPrivate m) =
      (s₂.msgs.map fun m => if c m then Inner.stamp m at_ what else m).filter fun m => !isPrivate m := by
  have hpriv : (fun m : StoredMessage => !isPrivate m) ∘ (fun m => if c m then Inner.stamp m at_ what else m) =
      fun m => !isPrivate m := by
    funext m
    rw [Function.comp_apply, (Restamp.stamp c at_ what).isPrivate]
  rw [List.filter_map, List.filter_map, hpriv, h]

/-- A retry finds its message in both, or in neither. -/
theorem Alike.found (h : Alike unread calls s₁ s₂) (h₁ : Sound unread calls s₁)
    (h₂ : Sound unread calls s₂) (to_ : Mailbox) (from_ : Option Mailbox) (g : Option MessageGuid) :
    (g.bind (s₁.findGuid to_ from_)).isSome = (g.bind (s₂.findGuid to_ from_)).isSome := by
  cases g with
  | none => rfl
  | some g =>
    rw [Option.bind_some, Option.bind_some, Bool.eq_iff_iff, findGuid_isSome h₁.refs,
      findGuid_isSome h₂.refs, h.others]
    refine or_congr_left (exists_congr fun r => exists_congr fun t => ?_)
    constructor
    · rintro ⟨hk, hg, hp⟩
      refine ⟨(h.kept r fun he => ?_) ▸ hk, hg, hp⟩
      rw [h₁.spent t r hk he] at hg
      cases hg
    · rintro ⟨hk, hg, hp⟩
      refine ⟨(h.kept r fun he => ?_).symm ▸ hk, hg, hp⟩
      rw [h₂.spent t r hk he] at hg
      cases hg

theorem Alike.add (h : Alike unread calls s₁ s₂) {m : NewMessage} {x : MessageRef}
    (hx₁ : x ∉ s₁.refs) (hx₂ : x ∉ s₂.refs) : Alike unread calls (s₁.add m x) (s₂.add m x) := by
  have hrow : s₁.stored m x = s₂.stored m x := by
    simp only [Inner.stored, Inner.last, h.next, h.cursors]
  refine ⟨congrArg (· + 1) h.next, ?_, ?_, fun r hno => ?_, h.on⟩
  · simp only [Inner.add, hrow, h.cursors]
  · simp only [Inner.add, hrow, List.filter_append, h.others]
  · rw [kept_add hx₁, kept_add hx₂, hrow, h.kept r hno]

/-- A message found ended by no call is inside its window at a prune. -/
theorem Sound.open_of_not_ended (h : Sound unread calls s) {now : SystemTime} (hk : s.kept r = some t)
    (hno : ¬ Ended unread (calls ++ [.prune now]) r) : Inner.isOpen now unread t.sentAt = true := by
  obtain ⟨p, hp, m, hm, -, -, hsent, -⟩ := h.pushed t r hk
  by_contra hclosed
  refine hno ⟨p, .prune now, m, now, pair_sublist hp, hm, rfl, ?_⟩
  rw [hsent]
  exact Nat.le_of_not_lt fun hlt => hclosed (decide_eq_true hlt)

theorem Sound.kept_prune (h : Sound unread calls s) {now : SystemTime}
    (hno : ¬ Ended unread (calls ++ [.prune now]) r) : (s.prune now unread read).2.kept r = s.kept r := by
  obtain ⟨hstays, hcomes⟩ := Inbox.kept_prune unread read now h.refs r
  cases hk : s.kept r with
  | some t => exact hstays t hk (h.open_of_not_ended hk hno)
  | none =>
    cases hk' : (s.prune now unread read).2.kept r with
    | none => rfl
    | some t' =>
      obtain ⟨t, ht, -⟩ := hcomes t' hk'
      rw [hk] at ht
      cases ht

theorem Sound.on_prune (h : Sound unread calls s) {now : SystemTime}
    (hno : ¬ Ended unread (calls ++ [.prune now]) r) : (s.prune now unread read).2.on r = s.on r := by
  show (List.filter _ s.reactions).filter _ = _
  rw [List.filter_filter, Inner.on]
  refine List.filter_congr fun x hx => ?_
  by_cases hr : x.reference = r
  · obtain ⟨t, ht⟩ := Option.isSome_iff_exists.mp (h.reactions x hx)
    have hkept : (s.prune now unread read).2.kept x.reference = some t :=
      (h.kept_prune (hr ▸ hno)).trans ht
    have hmem : x.reference ∈ (s.prune now unread read).2.refs :=
      mem_refs_of_kept (refs_prune unread read now h.refs) hkept
    rw [decide_eq_true hr, Bool.true_and]
    exact List.contains_iff_mem.mpr hmem
  · rw [decide_eq_false hr, Bool.false_and]

theorem others_prune (now : SystemTime) :
    (s.prune now unread read).2.msgs.filter (fun m => !isPrivate m) =
      ((s.msgs.filter fun m => !isPrivate m).filter (Inner.keeps now unread read)).map
        (Inner.stripGuid now unread) := by
  show ((s.msgs.filter _).map _).filter _ = _
  have hpriv : (fun m : StoredMessage => !isPrivate m) ∘ Inner.stripGuid now unread = fun m => !isPrivate m := by
    funext m
    rw [Function.comp_apply, isPrivate_stripGuid]
  rw [List.filter_map, hpriv, List.filter_filter, List.filter_filter]
  congr 2
  funext m
  exact Bool.and_comm _ _

theorem on_forget (s : Inner) (who : Mailbox) (since : SystemTime) (r : MessageRef) :
    (s.forgetMessageReactions who since).2.on r =
      (s.on r).filter fun x => ¬ (x.reactor = Inner.reactorKey who ∧ since ≤ x.at_) := by
  show (List.filter _ s.reactions).filter _ = (List.filter _ s.reactions).filter _
  rw [List.filter_filter, List.filter_filter]
  congr 1
  funext x
  simp only [decide_eq_true_eq]
  exact Bool.and_comm _ _

def Inner.afterAct (s : Inner) (act : Option MessageReactAct) : Inner := act.elim s s.reacted

theorem react_afterAct (s : Inner) (roster : List UserSession) (a : PmReaction) :
    (perform policy unread read s (.react roster a)).2 = s.afterAct (a.comes policy unread s roster) := by
  rw [react_eq]
  cases a.comes policy unread s roster <;> rfl

theorem kept_afterAct (s : Inner) (act : Option MessageReactAct) (r : MessageRef) :
    (s.afterAct act).kept r = s.kept r := by
  cases act <;> rfl

theorem on_afterAct_of_ne {act : Option MessageReactAct} (h : ∀ x ∈ act, r ≠ x.reference) :
    (s.afterAct act).on r = s.on r := by
  cases act with
  | none => rfl
  | some x =>
    refine (on_reactedRows s x r).trans ?_
    rw [if_pos (h x rfl)]

theorem on_afterAct_congr {act : Option MessageReactAct} (h : s₁.on r = s₂.on r) :
    (s₁.afterAct act).on r = (s₂.afterAct act).on r := by
  cases act with
  | none => exact h
  | some x =>
    refine (on_reactedRows s₁ x r).trans ((on_reactedRows s₂ x r).trans ?_).symm
    rw [h]

/-- A reaction to a message no call found ended comes to the same in both. -/
theorem Alike.comes (h : Alike unread calls s₁ s₂) (h₂ : Sound unread calls s₂)
    {roster : List UserSession} {a : PmReaction}
    (hno : ¬ Shut unread (calls ++ [.react roster a]) a.reference) :
    a.comes policy unread s₁ roster = a.comes policy unread s₂ roster := by
  have hbefore : ¬ Shut unread calls a.reference := fun hs => hno (hs.mono _)
  refine comes_congr (fun who => ?_) (h.on _ hbefore)
  rw [seen_eq, seen_eq, h.kept _ fun he => hbefore he.shut]
  cases hk : s₂.kept a.reference with
  | none => rfl
  | some t =>
    obtain ⟨p, hp, m, hm, -, -, hsent, -⟩ := h₂.pushed t _ hk
    refine seenBy_open ?_ _ _
    rw [← hsent]
    exact not_lt.mp fun hlt => hno (Shut.of_last hp hm hlt)

theorem Alike.react (h : Alike unread calls s₁ s₂) (h₂ : Sound unread calls s₂) (roster : List UserSession)
    (a : PmReaction) : Alike unread (calls ++ [.react roster a])
      (perform policy unread read s₁ (.react roster a)).2
      (perform policy unread read s₂ (.react roster a)).2 := by
  rw [react_afterAct, react_afterAct]
  have hcalled := h.called (.react roster a)
  have hplain : ∀ (s : Inner) (act : Option MessageReactAct), (s.afterAct act).nextId = s.nextId ∧
      (s.afterAct act).cursors = s.cursors ∧ (s.afterAct act).msgs = s.msgs := by
    intro s act
    cases act <;> exact ⟨rfl, rfl, rfl⟩
  obtain ⟨hnext₁, hcursors₁, hmsgs₁⟩ := hplain s₁ (a.comes policy unread s₁ roster)
  obtain ⟨hnext₂, hcursors₂, hmsgs₂⟩ := hplain s₂ (a.comes policy unread s₂ roster)
  refine ⟨?_, ?_, ?_, fun r hno => ?_, fun r hno => ?_⟩
  · rw [hnext₁, hnext₂, h.next]
  · rw [hcursors₁, hcursors₂, h.cursors]
  · rw [hmsgs₁, hmsgs₂, h.others]
  · rw [kept_afterAct, kept_afterAct]
    exact hcalled.kept r hno
  · by_cases hr : r = a.reference
    · subst hr
      rw [h.comes h₂ hno]
      exact on_afterAct_congr (hcalled.on _ hno)
    · have hne : ∀ s : Inner, ∀ x ∈ a.comes policy unread s roster, r ≠ x.reference :=
        fun s x hx => (comes_eq_some hx).1 ▸ hr
      rw [on_afterAct_of_ne (hne s₁), on_afterAct_of_ne (hne s₂)]
      exact hcalled.on r hno

theorem Alike.prune (h : Alike unread calls s₁ s₂) (h₁ : Sound unread calls s₁) (h₂ : Sound unread calls s₂)
    (now : SystemTime) : Alike unread (calls ++ [.prune now]) (s₁.prune now unread read).2
      (s₂.prune now unread read).2 := by
  have hcalled := h.called (.prune now)
  refine ⟨h.next, h.cursors, ?_, fun r hno => ?_, fun r hno => ?_⟩
  · rw [others_prune, others_prune, h.others]
  · rw [h₁.kept_prune hno, h₂.kept_prune hno]
    exact hcalled.kept r hno
  · have hended : ¬ Ended unread (calls ++ [.prune now]) r := fun he => hno he.shut
    rw [h₁.on_prune hended, h₂.on_prune hended]
    exact hcalled.on r hno

theorem Alike.perform (h : Alike unread calls s₁ s₂) (h₁ : Sound unread calls s₁)
    (h₂ : Sound unread calls s₂) (hcap₁ : op.UnderCap s₁) (hcap₂ : op.UnderCap s₂)
    (hnodup : (((calls ++ [op]).filterMap Call.pushes).map Prod.fst).Nodup) :
    Alike unread (calls ++ [op]) (perform policy unread read s₁ op).2 (perform policy unread read s₂ op).2 := by
  have hcalled := h.called op
  cases op with
  | push relations m cap drawn =>
    show Alike unread _ (s₁.push relations m cap drawn).2 (s₂.push relations m cap drawn).2
    rw [push_eq hcap₁, push_eq hcap₂, h.found h₁ h₂]
    split
    · exact hcalled
    · cases drawn with
      | error e => exact hcalled
      | ok x => exact hcalled.add (h₁.fresh hnodup rfl) (h₂.fresh hnodup rfl)
  | markHanded ids => exact ⟨hcalled.next, hcalled.cursors, hcalled.others, hcalled.kept, hcalled.on⟩
  | receiptTold id =>
    have hplain : ∀ s : Inner, (s.receiptTold id).2.nextId = s.nextId ∧
        (s.receiptTold id).2.cursors = s.cursors ∧ (s.receiptTold id).2.msgs = s.msgs ∧
        (s.receiptTold id).2.stubs = s.stubs ∧ (s.receiptTold id).2.reactions = s.reactions := by
      intro s
      unfold Inner.receiptTold
      split <;> exact ⟨rfl, rfl, rfl, rfl, rfl⟩
    obtain ⟨hnext₁, hcursors₁, hmsgs₁, hstubs₁, hreactions₁⟩ := hplain s₁
    obtain ⟨hnext₂, hcursors₂, hmsgs₂, hstubs₂, hreactions₂⟩ := hplain s₂
    show Alike unread _ (s₁.receiptTold id).2 (s₂.receiptTold id).2
    refine ⟨?_, ?_, ?_, fun r hno => ?_, fun r hno => ?_⟩
    · rw [hnext₁, hnext₂, h.next]
    · rw [hcursors₁, hcursors₂, h.cursors]
    · rw [hmsgs₁, hmsgs₂, h.others]
    · have hkept := hcalled.kept r hno
      unfold Inner.kept at hkept ⊢
      rw [hmsgs₁, hmsgs₂, hstubs₁, hstubs₂]
      exact hkept
    · have hon := hcalled.on r hno
      unfold Inner.on at hon ⊢
      rw [hreactions₁, hreactions₂]
      exact hon
  | markDelivered ids at_ what =>
    have hr₁ := reading_markDelivered s₁ ids at_ what
    have hr₂ := reading_markDelivered s₂ ids at_ what
    refine ⟨h.next, h.cursors, others_stamp_both h.others, fun r hno => ?_, hcalled.on⟩
    exact (hr₁.kept r).trans ((hcalled.kept r hno).trans (hr₂.kept r).symm)
  | markRead relations to_ upTo at_ =>
    have hr₁ := reading_markRead s₁ relations to_ upTo at_
    have hr₂ := reading_markRead s₂ relations to_ upTo at_
    refine ⟨h.next, h.cursors, others_stamp_both h.others, fun r hno => ?_, hcalled.on⟩
    exact (hr₁.kept r).trans ((hcalled.kept r hno).trans (hr₂.kept r).symm)
  | react roster a => exact h.react h₂ roster a
  | forget roster who within now told =>
    refine ⟨h.next, h.cursors, h.others, hcalled.kept, fun r hno => ?_⟩
    show (s₁.forgetMessageReactions who (backFrom now within)).2.on r =
      (s₂.forgetMessageReactions who (backFrom now within)).2.on r
    rw [on_forget, on_forget, hcalled.on r hno]
  | prune now => exact h.prune h₁ h₂ now
  | ask now => exact hcalled

/-- Two runs that differ in their readings are sound, and alike. -/
theorem alike_run {e₁ e₂ : List ReactionsChanged}
    (h : Twin policy unread read calls (e₁, s₁) (e₂, s₂))
    (hnodup : ((calls.filterMap Call.pushes).map Prod.fst).Nodup) :
    Sound unread calls s₁ ∧ Sound unread calls s₂ ∧ Alike unread calls s₁ s₂ := by
  generalize hx : (e₁, s₁) = x₁ at h
  generalize hy : (e₂, s₂) = x₂ at h
  induction h generalizing e₁ s₁ e₂ s₂ with
  | nil =>
    obtain ⟨rfl, rfl⟩ := Prod.mk.inj hx
    obtain ⟨rfl, rfl⟩ := Prod.mk.inj hy
    have hempty : Sound unread [] ({} : Inner) := ⟨List.nodup_nil, fun _ _ => (by nofun), fun _ => (by nofun),
      fun _ _ => (by nofun), fun _ => (by nofun)⟩
    exact ⟨hempty, hempty, rfl, rfl, rfl, fun _ _ => rfl, fun _ _ => rfl⟩
  | both h op hcap₁ hcap₂ ih =>
    obtain ⟨-, rfl⟩ := Prod.mk.inj hx
    obtain ⟨-, rfl⟩ := Prod.mk.inj hy
    have hbefore := hnodup
    rw [List.filterMap_append, List.map_append, List.nodup_append] at hbefore
    obtain ⟨h₁, h₂, halike⟩ := ih hbefore.1 rfl rfl
    exact ⟨h₁.perform hcap₁ hnodup, h₂.perform hcap₂ hnodup, halike.perform h₁ h₂ hcap₁ hcap₂ hnodup⟩
  | left h op hreads ih =>
    obtain ⟨-, rfl⟩ := Prod.mk.inj hx
    obtain ⟨-, rfl⟩ := Prod.mk.inj hy
    obtain ⟨h₁, h₂, halike⟩ := ih hnodup rfl rfl
    obtain ⟨hr, ho⟩ := reading_of_readsPrivate hreads
    exact ⟨h₁.reading hr, h₂, halike.reading hr ho⟩
  | right h op hreads ih =>
    obtain ⟨-, rfl⟩ := Prod.mk.inj hx
    obtain ⟨-, rfl⟩ := Prod.mk.inj hy
    obtain ⟨h₁, h₂, halike⟩ := ih hnodup rfl rfl
    obtain ⟨hr, ho⟩ := reading_of_readsPrivate hreads
    exact ⟨h₁, h₂.reading hr, (halike.symm.reading hr ho).symm⟩

end HxdNg.Inbox
