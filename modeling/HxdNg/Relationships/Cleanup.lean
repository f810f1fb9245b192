import HxdNg.Lib.Sweep
import HxdNg.Relationships.Pairs

/-!
# Cleaning up the relationship store

The store whole, as far as it keeps anything that lapses: the rows, the holds, the ledger of
requests and the offers. Reads leave out what has lapsed, and a cleanup takes it away.

* `Store.cleanup` : it, with how much it took;
* `Store.isHeld`, `offer`, `requestsTo` … : what is read beside the rows;
* `SameAnswers` : that two stores answer every read alike, from given times on;
* `cleanup_invisible` : a cleanup leaves the answers, and one that reached everything is the last.
-/

namespace HxdNg.Relationships

open Identity

/-! ## The rest of the store -/

abbrev MessageGuid := List UInt8

/-- Who sent a request, as its bounds and holds count it. -/
inductive Requester where
  | account (m : Mailbox)
  | address (a : String)
  | identity (fp : Fingerprint)
  deriving DecidableEq

inductive RequestKind where
  | message
  | friend
  deriving DecidableEq

/-- What a sender sent, whatever became of it. -/
structure LedgerEntry where
  kind : RequestKind
  sender : Option Mailbox
  address : Option String
  recipient : Mailbox
  guid : Option MessageGuid
  bytes : Nat
  sentAt : SystemTime
  deriving DecidableEq

/-- One side of a hold: either key may be gone. -/
structure HoldKey where
  login : Option String
  fingerprint : Option Fingerprint
  deriving DecidableEq

namespace HoldKey

/-- A hold's match: either key. -/
def loosely (k : HoldKey) (m : Mailbox) : Bool :=
  k.login = some m.login || (k.fingerprint.isSome && k.fingerprint = m.fingerprint)

end HoldKey

inductive Held where
  | account (k : HoldKey)
  | address (a : String)
  deriving DecidableEq

def Held.matches_ : Held → Requester → Bool
  | .account h, .account m => h.loosely m
  | .account h, .identity fp => h.fingerprint = some fp
  | .address h, .address a => h = a
  | _, _ => false

structure Hold where
  owner : HoldKey
  held : Held
  lapsesAt : SystemTime
  deriving DecidableEq

/-- An offer waiting for its answer. -/
structure StoredOffer where
  offer : List UInt8
  lapsesAt : SystemTime
  deriving DecidableEq

structure Store where
  edges : Edges := {}
  holds : List Hold := []
  ledger : List LedgerEntry := []
  offers : List (Fingerprint × Fingerprint × StoredOffer) := []

def sentBy (e : LedgerEntry) (from_ : Requester) : Bool :=
  match from_, e.sender with
  | .account m, some s => is s m
  | .address a, none => e.address = some a
  | .identity fp, some s => s.fingerprint = some fp
  | _, _ => false

/-- Messages and their bytes. -/
structure Sent where
  messages : Nat
  bytes : Nat
  deriving DecidableEq

/-- Those blocked by `owner`, the first first. -/
def Edges.blocked (e : Edges) (owner : Mailbox) : List Mailbox :=
  let rows := (e.rows.filter fun r => is r.rel.owner owner).filterMap fun r =>
    r.rel.blockedAt.map fun t => (secs t, r.seq, r.rel.other)
  (rows.mergeSort fun a b => a.1 < b.1 ∨ a.1 = b.1 ∧ a.2.1 ≤ b.2.1).map fun r => r.2.2

namespace Store

/-! ### What is read -/

def isHeld (s : Store) (owner : Mailbox) (sender : Requester) (now : SystemTime) : Bool :=
  s.holds.any fun h => floor now < h.lapsesAt && h.owner.loosely owner && h.held.matches_ sender

def offer (s : Store) (owner other : Fingerprint) (now : SystemTime) : Option StoredOffer :=
  (s.offers.find? fun o => o.1 = owner && o.2.1 = other && floor now < o.2.2.lapsesAt).map (·.2.2)

def requestsTo (s : Store) (from_ : Requester) (to_ : Mailbox) (kind : RequestKind)
    (since : SystemTime) : Nat :=
  (s.ledger.filter fun e =>
    e.kind = kind && floor since ≤ e.sentAt && is e.recipient to_ && sentBy e from_).length

def recipientsSince (s : Store) (from_ : Requester) (since : SystemTime) : Nat :=
  ((s.ledger.filter fun e => floor since ≤ e.sentAt && sentBy e from_).map fun e =>
    e.recipient.spelling).dedup.length

/-- The addresses guests asked `to` from, in order, each once. -/
def requestAddresses (s : Store) (to_ : Mailbox) (since : SystemTime) (before : Option SystemTime) :
    List String :=
  (s.ledger.filter fun e => e.sender.isNone && floor since ≤ e.sentAt &&
      before.all (fun b => e.sentAt < floor b) && is e.recipient to_).foldl
    (fun out e => match e.address with
      | some a => if a ∈ out then out else out ++ [a]
      | none => out) []

def guestRequestsTo (s : Store) (address : String) (to_ : Mailbox) (since : SystemTime) : Nat :=
  (s.ledger.filter fun e => e.kind = .message && e.address = some address &&
    e.sender.all (·.login = "guest") && floor since ≤ e.sentAt && is e.recipient to_).length

def recipientsFromAddress (s : Store) (address : String) (since : SystemTime) : Nat :=
  ((s.ledger.filter fun e => floor since ≤ e.sentAt && e.address = some address).map fun e =>
    e.recipient.spelling).dedup.length

def requestedSince (s : Store) (from_ : Requester) (since : SystemTime) : Sent :=
  (s.ledger.filter fun e => e.kind = .message && floor since ≤ e.sentAt && sentBy e from_).foldl
    (fun n e => ⟨n.messages + 1, n.bytes + e.bytes⟩) ⟨0, 0⟩

/-! ### Cleaning up -/

def holdLapsed (before : SystemTime) (h : Hold) : Bool := h.lapsesAt ≤ before

def offerLapsed (before : SystemTime) (o : Fingerprint × Fingerprint × StoredOffer) : Bool :=
  o.2.2.lapsesAt ≤ before

def entryOld (before : SystemTime) (e : LedgerEntry) : Bool := e.sentAt < before

/-- A row as it reads at a time. -/
def rowAsOf (before : SystemTime) (r : Row) : Option Row :=
  (Edges.asOf r before).map fun rel => { r with rel }

/-- Reclaim at most `batch` of each kind, with how many were changed or taken. -/
def cleanup (s : Store) (lapsedBefore ledgerBefore : SystemTime) (batch : Nat) : Nat × Store :=
  let lapsed := floor lapsedBefore
  let old := floor ledgerBefore
  (min batch (s.holds.countP (holdLapsed lapsed)) +
      min batch (s.edges.rows.countP fun r => Edges.asOf r lapsed ≠ some r.rel) +
      min batch (s.ledger.countP (entryOld old)) + min batch (s.offers.countP (offerLapsed lapsed)),
    { edges := s.edges.cleanup lapsedBefore batch
      holds := sweep (dropping (holdLapsed lapsed)) batch s.holds
      ledger := sweep (dropping (entryOld old)) batch s.ledger
      offers := sweep (dropping (offerLapsed lapsed)) batch s.offers })

end Store

/-! ## What lapses stays lapsed -/

theorem floor_mono {a b : SystemTime} (h : a ≤ b) : floor a ≤ floor b := by
  have hdiv : a / 1000000000 ≤ b / 1000000000 := Int.ediv_le_ediv (by decide) h
  have hsecs : secs a ≤ secs b := Int.toNat_le_toNat hdiv
  exact Int.mul_le_mul_of_nonneg_right (Int.ofNat_le.mpr hsecs) (by decide)

namespace Edge
variable {d : Edge} {before now : SystemTime}

/-- The part of a row that has not lapsed at a time. -/
def unlapsed (d : Edge) (now : SystemTime) : Edge :=
  { d with
    pendingOut := d.pendingOut.filter fun p => now < p.lapsesAt
    ignore := d.ignore.filter fun i => i.«until».all fun u => now < u }

theorem asOf_eq (d : Edge) (now : SystemTime) :
    d.asOf now = if (d.unlapsed now).settle.isEmpty then none else some (d.unlapsed now).settle := by
  have hkept : ∀ e : Edge, (if e.ignore.any (fun i => i.«until».any fun u => u ≤ now) then
      { e with ignore := none } else e) =
        { e with ignore := e.ignore.filter fun i => i.«until».all fun u => now < u } := by
    rintro ⟨name, blocked, friendship, approval, pending, _ | ⟨mode, _ | u⟩⟩
    · rfl
    · rfl
    · by_cases hu : u ≤ now
      · simp [Option.filter, hu]
      · simp [Option.filter, hu]
  have hwaiting : (if d.pendingOut.any (fun p => p.lapsesAt ≤ now) then
      { d with pendingOut := none } else d) =
        { d with pendingOut := d.pendingOut.filter fun p => now < p.lapsesAt } := by
    obtain ⟨name, blocked, friendship, approval, _ | p, ignore⟩ := d
    · rfl
    · by_cases hp : p.lapsesAt ≤ now
      · simp [Option.filter, hp]
      · simp [Option.filter, hp]
  have hboth := hkept { d with pendingOut := d.pendingOut.filter fun p => now < p.lapsesAt }
  dsimp only at hboth
  unfold asOf
  simp only [hwaiting]
  rw [hboth]
  rfl

theorem settle_unlapsed : d.settle.unlapsed now = (d.unlapsed now).settle := by
  unfold settle unlapsed
  dsimp only
  split <;> rfl

theorem settle_settle : d.settle.settle = d.settle := by
  obtain ⟨name, blocked, friendship, approval, pending, ignore⟩ := d
  cases blocked <;> cases friendship <;> rfl

theorem isEmpty_settle : d.settle.isEmpty = d.isEmpty := by
  unfold settle isEmpty
  split <;> rfl

theorem isEmpty_unlapsed (h : d.isEmpty = true) : (d.unlapsed now).isEmpty = true := by
  obtain ⟨name, blocked, friendship, approval, pending, ignore⟩ := d
  simp only [isEmpty, decide_eq_true_iff, Option.isNone_iff_eq_none] at h
  obtain ⟨rfl, rfl, rfl, rfl, rfl⟩ := h
  rfl

theorem filter_filter_of_imp {α : Type} {p q : α → Bool} (o : Option α)
    (h : ∀ a, q a = true → p a = true) : (o.filter p).filter q = o.filter q := by
  rw [Option.filter_filter]
  refine congrArg (Option.filter · o) (funext fun a => ?_)
  cases hq : q a with
  | false => rw [Bool.and_false]
  | true => rw [h a hq, Bool.and_true]

theorem unlapsed_unlapsed (h : before ≤ now) : (d.unlapsed before).unlapsed now = d.unlapsed now := by
  unfold unlapsed
  dsimp only
  rw [filter_filter_of_imp, filter_filter_of_imp]
  · intro i hi
    cases hu : i.«until» with
    | none => rfl
    | some u =>
      rw [hu] at hi
      exact decide_eq_true (lt_of_le_of_lt h (of_decide_eq_true hi))
  · exact fun p hp => decide_eq_true (lt_of_le_of_lt h (of_decide_eq_true hp))

theorem asOf_asOf (h : before ≤ now) : (d.asOf before).bind (·.asOf now) = d.asOf now := by
  rw [asOf_eq d before]
  split
  · rename_i hempty
    rw [isEmpty_settle] at hempty
    have hlater : (d.unlapsed now).settle.isEmpty = true := by
      rw [isEmpty_settle, ← unlapsed_unlapsed h]
      exact isEmpty_unlapsed hempty
    rw [asOf_eq, if_pos hlater]
    rfl
  · rw [Option.bind_some, asOf_eq, settle_unlapsed, unlapsed_unlapsed h, settle_settle, ← asOf_eq]

theorem asOf_blockedAt (d : Edge) (now : SystemTime) :
    ((d.asOf now).bind fun e => e.blockedAt) = d.blockedAt := by
  rw [asOf_eq]
  have hblocked : (d.unlapsed now).settle.blockedAt = d.blockedAt := by
    unfold settle
    split <;> rfl
  split
  · rename_i hempty
    rw [settle_eq_empty hempty] at hblocked
    exact hblocked
  · exact hblocked

end Edge

/-! ## What a sweep of the rows leaves -/

namespace Edges
variable {e : Edges} {before now : SystemTime} {n : Nat} {rows : List Row}

theorem rowAsOf_self (r : Row) : Store.rowAsOf before r = some r ↔ asOf r before = some r.rel := by
  unfold Store.rowAsOf
  rw [Option.map_eq_some_iff]
  constructor
  · rintro ⟨rel, hrel, heq⟩
    rw [hrel]
    exact congrArg some (congrArg Row.rel heq)
  · exact fun h => ⟨r.rel, h, rfl⟩

theorem lapse_eq_sweep (before : SystemTime) (n : Nat) (rows : List Row) :
    lapse before n rows = sweep (Store.rowAsOf before) n rows := by
  induction rows generalizing n with
  | nil =>
    rw [sweep_nil]
    cases n <;> rfl
  | cons r rows ih =>
    cases n with
    | zero => rfl
    | succ n =>
      rw [lapse, sweep, ih, ih]
      simp only [rowAsOf_self]
      rfl

theorem countP_eq_stale (before : SystemTime) (l : List Row) :
    (l.countP fun r => asOf r before ≠ some r.rel) = stale (Store.rowAsOf before) l :=
  List.countP_congr fun r _ => by simp [rowAsOf_self]

theorem asOf_rowAsOf (h : before ≤ now) (r : Row) :
    ((Store.rowAsOf before r).bind fun r => asOf r now) = asOf r now := by
  unfold Store.rowAsOf asOf
  rw [← Edge.asOf_asOf h]
  cases r.rel.toEdge.asOf before with
  | none => rfl
  | some edge => rfl

/-- A row read as of a time reads then as it is. -/
theorem rowAsOf_again {r r' : Row} (h : Store.rowAsOf before r = some r') :
    Store.rowAsOf before r' = some r' := by
  rw [rowAsOf_self]
  have hread := asOf_rowAsOf (le_refl before) r
  rw [h] at hread
  refine hread.trans ?_
  obtain ⟨rel, hrel, rfl⟩ := Option.map_eq_some_iff.mp h
  exact hrel

theorem rowAsOf_some {r r' : Row} (h : Store.rowAsOf before r = some r') :
    r'.seq = r.seq ∧ r'.rel.owner = r.rel.owner ∧ r'.rel.other = r.rel.other := by
  unfold Store.rowAsOf asOf at h
  rw [Option.map_map] at h
  obtain ⟨edge, -, rfl⟩ := Option.map_eq_some_iff.mp h
  exact ⟨rfl, rfl, rfl⟩

/-- What a read asks of whose rows, in their order, as they read by then. -/
def reading {β : Type} (now : SystemTime) (whose : Mailbox → Mailbox → Bool)
    (k : Nat → Relationship → Option β) (r : Row) : Option β :=
  if whose r.rel.owner r.rel.other then (asOf r now).bind (k r.seq) else none

theorem filterMap_lapse {β : Type} (h : before ≤ now) (whose : Mailbox → Mailbox → Bool)
    (k : Nat → Relationship → Option β) :
    (lapse before n rows).filterMap (reading now whose k) =
      rows.filterMap (reading now whose k) := by
  rw [lapse_eq_sweep]
  refine filterMap_sweep fun r => ?_
  have hread := asOf_rowAsOf h r
  cases hr : Store.rowAsOf before r with
  | none =>
    rw [hr] at hread
    unfold reading
    rw [← hread]
    exact (ite_self _).symm
  | some r' =>
    obtain ⟨hseq, howner, hother⟩ := rowAsOf_some hr
    rw [hr] at hread
    unfold reading
    rw [Option.bind_some, hseq, howner, hother, ← hread]
    rfl

/-- With one row a pair, finding one is reading the first of those that say anything. -/
theorem find_bind {β : Type} (hu : e.Unique) (a b : Mailbox) (g : Row → Option β) :
    (e.find a b).bind g =
      (e.rows.filterMap fun r => if is r.rel.owner a && is r.rel.other b then g r else none).head? := by
  unfold find
  have hn : e.rows.Pairwise fun r r' => r.keys ≠ r'.keys := List.pairwise_map.mp hu
  revert hn
  induction e.rows with
  | nil => exact fun _ => rfl
  | cons r rows ih =>
    intro hn
    obtain ⟨hhead, hn⟩ := List.pairwise_cons.mp hn
    rw [List.find?_cons, List.filterMap_cons]
    cases hr : is r.rel.owner a && is r.rel.other b with
    | false =>
      rw [if_neg Bool.false_ne_true]
      exact ih hn
    | true =>
      rw [if_pos rfl]
      have hrest : (rows.filterMap fun r =>
          if is r.rel.owner a && is r.rel.other b then g r else none) = [] := by
        refine List.filterMap_eq_nil_iff.mpr fun r' hr' => if_neg fun hsame => ?_
        rw [is_and_is, decide_eq_true_iff] at hr hsame
        exact hhead r' hr' (hr.trans hsame.symm)
      rw [Option.bind_some, hrest]
      cases g r <;> rfl

theorem find_lapse (hu : e.Unique) (h : before ≤ now) (a b : Mailbox) :
    (({ e with rows := lapse before n e.rows } : Edges).find a b).bind (asOf · now) =
      (e.find a b).bind (asOf · now) := by
  have hu' : ({ e with rows := lapse before n e.rows } : Edges).Unique :=
    hu.sublist (lapse_spec before n e.rows).1
  rw [find_bind hu, find_bind hu']
  have hread : ∀ rows : List Row, (rows.filterMap fun r =>
      if is r.rel.owner a && is r.rel.other b then asOf r now else none) =
        rows.filterMap (reading now (fun o t => is o a && is t b) fun _ rel => some rel) := by
    intro rows
    refine List.filterMap_congr fun r _ => ?_
    unfold reading
    rw [Option.bind_fun_some]
  rw [hread, hread]
  exact congrArg List.head? (filterMap_lapse h _ _)

end Edges

/-! ## What a cleanup leaves -/

/-- Two stores answer alike: each read of the rows, the holds and the offers made at a time from
`lapsed` on, each block and each time of a friendship, and each count of the ledger over a window
from `old` on. -/
structure SameAnswers (s s' : Store) (lapsed old : SystemTime) : Prop where
  relationship : ∀ owner other now, lapsed ≤ now →
    s'.edges.relationship owner other now = s.edges.relationship owner other now
  relationships : ∀ owner now, lapsed ≤ now →
    s'.edges.relationships owner now = s.edges.relationships owner now
  pendingIn : ∀ owner now, lapsed ≤ now → s'.edges.pendingIn owner now = s.edges.pendingIn owner now
  rosterSize : ∀ owner now, lapsed ≤ now →
    s'.edges.rosterSize owner now = s.edges.rosterSize owner now
  isBlocked : ∀ owner other, s'.edges.isBlocked owner other = s.edges.isBlocked owner other
  blocked : ∀ owner, s'.edges.blocked owner = s.edges.blocked owner
  madeAt : s'.edges.made = s.edges.made
  isLive : s'.edges.relations = s.edges.relations
  isHeld : ∀ owner sender now, lapsed ≤ now → s'.isHeld owner sender now = s.isHeld owner sender now
  offer : ∀ owner other now, lapsed ≤ now → s'.offer owner other now = s.offer owner other now
  requestsTo : ∀ from_ to_ kind since, old ≤ since →
    s'.requestsTo from_ to_ kind since = s.requestsTo from_ to_ kind since
  recipientsSince : ∀ from_ since, old ≤ since →
    s'.recipientsSince from_ since = s.recipientsSince from_ since
  requestAddresses : ∀ to_ since before, old ≤ since →
    s'.requestAddresses to_ since before = s.requestAddresses to_ since before
  guestRequestsTo : ∀ address to_ since, old ≤ since →
    s'.guestRequestsTo address to_ since = s.guestRequestsTo address to_ since
  recipientsFromAddress : ∀ address since, old ≤ since →
    s'.recipientsFromAddress address since = s.recipientsFromAddress address since
  requestedSince : ∀ from_ since, old ≤ since →
    s'.requestedSince from_ since = s.requestedSince from_ since

/-- A cleanup's batch was enough for all there was to reclaim, of each kind. -/
structure Fits (s : Store) (lapsedBefore ledgerBefore : SystemTime) (batch : Nat) : Prop where
  holds : s.holds.countP (Store.holdLapsed (floor lapsedBefore)) ≤ batch
  rows : (s.edges.rows.countP fun r => Edges.asOf r (floor lapsedBefore) ≠ some r.rel) ≤ batch
  ledger : s.ledger.countP (Store.entryOld (floor ledgerBefore)) ≤ batch
  offers : s.offers.countP (Store.offerLapsed (floor lapsedBefore)) ≤ batch

section Cleanup
variable {s : Store} {lapsedBefore ledgerBefore : SystemTime} {batch : Nat}

theorem sameAnswers_cleanup (hu : s.edges.Unique) :
    SameAnswers s (s.cleanup lapsedBefore ledgerBefore batch).2 lapsedBefore ledgerBefore := by
  have hread : ∀ {β : Type} {now : SystemTime} (whose : Mailbox → Mailbox → Bool)
      (k : Nat → Relationship → Option β), floor lapsedBefore ≤ now →
      (s.cleanup lapsedBefore ledgerBefore batch).2.edges.rows.filterMap
        (Edges.reading now whose k) = s.edges.rows.filterMap (Edges.reading now whose k) :=
    fun whose k hnow => Edges.filterMap_lapse hnow whose k
  have hledger : ∀ (since : SystemTime) (p : LedgerEntry → Bool), ledgerBefore ≤ since →
      (∀ e, p e = true → floor since ≤ e.sentAt) →
      (s.cleanup lapsedBefore ledgerBefore batch).2.ledger.filter p = s.ledger.filter p := by
    intro since p hsince hp
    refine filter_sweep fun e he => decide_eq_false (not_lt.mpr ?_)
    exact (floor_mono hsince).trans (hp e he)
  have hrelationships : ∀ owner now, lapsedBefore ≤ now →
      (s.cleanup lapsedBefore ledgerBefore batch).2.edges.relationships owner now =
        s.edges.relationships owner now := by
    intro owner now hnow
    have hrel : ∀ e : Edges, e.relationships owner now =
        e.rows.filterMap (Edges.reading (floor now) (fun o _ => is o owner) fun _ rel => some rel) := by
      intro e
      unfold Edges.relationships
      rw [List.filterMap_filter]
      refine List.filterMap_congr fun r _ => ?_
      unfold Edges.reading
      rw [Option.bind_fun_some]
    rw [hrel, hrel, hread _ _ (floor_mono hnow)]
  refine ⟨fun owner other now hnow => Edges.find_lapse hu (floor_mono hnow) owner other,
    hrelationships, fun owner now hnow => ?_,
    fun owner now hnow => congrArg List.length (hrelationships owner now hnow),
    fun owner other => ?_, fun owner => ?_, rfl, rfl, fun owner sender now hnow => ?_,
    fun owner other now hnow => ?_, fun from_ to_ kind since hsince => ?_,
    fun from_ since hsince => ?_, fun to_ since before hsince => ?_,
    fun address to_ since hsince => ?_, fun address since hsince => ?_, fun from_ since hsince => ?_⟩
  · have hpending : ∀ e : Edges, e.pendingIn owner now =
        ((e.rows.filterMap (Edges.reading (floor now) (fun _ t => is t owner) fun seq rel =>
          (rel.pendingOut.filter fun p => p.delivered).bind fun p =>
            some (secs p.sentAt, seq, rel))).mergeSort
          fun a b => a.1 < b.1 ∨ a.1 = b.1 ∧ a.2.1 ≤ b.2.1).map fun r => r.2.2 := by
      intro e
      unfold Edges.pendingIn
      rw [List.filterMap_filter]
      rfl
    rw [hpending, hpending, hread _ _ (floor_mono hnow)]
  · have hblocked : ∀ e : Edges, e.isBlocked owner other =
        ((e.find owner other).bind (Edges.asOf · (floor lapsedBefore))).any fun rel =>
          rel.blockedAt.isSome := by
      intro e
      unfold Edges.isBlocked Edges.asOf
      cases e.find owner other with
      | none => rfl
      | some r =>
        rw [Option.bind_some, Option.any_some, ← Edge.asOf_blockedAt _ (floor lapsedBefore)]
        cases r.rel.toEdge.asOf (floor lapsedBefore) <;> rfl
    rw [hblocked, hblocked]
    exact congrArg _ (Edges.find_lapse hu le_rfl owner other)
  · have hblocked : ∀ e : Edges, e.blocked owner =
        ((e.rows.filterMap (Edges.reading (floor lapsedBefore) (fun o _ => is o owner) fun seq rel =>
          rel.blockedAt.map fun t => (secs t, seq, rel.other))).mergeSort
          fun a b => a.1 < b.1 ∨ a.1 = b.1 ∧ a.2.1 ≤ b.2.1).map fun r => r.2.2 := by
      intro e
      unfold Edges.blocked
      rw [List.filterMap_filter]
      refine congrArg (fun l => (List.mergeSort l _).map _) (List.filterMap_congr fun r _ => ?_)
      have hkept := Edge.asOf_blockedAt r.rel.toEdge (floor lapsedBefore)
      unfold Edges.reading Edges.asOf
      rw [← hkept]
      cases r.rel.toEdge.asOf (floor lapsedBefore) <;> rfl
    rw [hblocked, hblocked, hread _ _ le_rfl]
  · refine any_sweep fun h hh => decide_eq_false (not_le.mpr ?_)
    rw [Bool.and_eq_true, Bool.and_eq_true, decide_eq_true_iff] at hh
    exact lt_of_le_of_lt (floor_mono hnow) hh.1.1
  · unfold Store.offer
    rw [← List.head?_filter, ← List.head?_filter]
    refine congrArg (Option.map _ <| List.head? ·) (filter_sweep fun o ho => ?_)
    rw [Bool.and_eq_true, Bool.and_eq_true, decide_eq_true_iff, decide_eq_true_iff,
      decide_eq_true_iff] at ho
    exact decide_eq_false (not_le.mpr (lt_of_le_of_lt (floor_mono hnow) ho.2))
  · refine congrArg List.length (hledger since _ hsince fun e he => ?_)
    simp only [Bool.and_eq_true, decide_eq_true_iff] at he
    exact he.1.1.2
  · unfold Store.recipientsSince
    rw [hledger since _ hsince fun e he => ?_]
    simp only [Bool.and_eq_true, decide_eq_true_iff] at he
    exact he.1
  · unfold Store.requestAddresses
    rw [hledger since _ hsince fun e he => ?_]
    simp only [Bool.and_eq_true, decide_eq_true_iff] at he
    exact he.1.1.2
  · refine congrArg List.length (hledger since _ hsince fun e he => ?_)
    simp only [Bool.and_eq_true, decide_eq_true_iff] at he
    exact he.1.2
  · unfold Store.recipientsFromAddress
    rw [hledger since _ hsince fun e he => ?_]
    simp only [Bool.and_eq_true, decide_eq_true_iff] at he
    exact he.1
  · unfold Store.requestedSince
    rw [hledger since _ hsince fun e he => ?_]
    simp only [Bool.and_eq_true, decide_eq_true_iff] at he
    exact he.1.2

/-- A cleanup that reached everything leaves nothing to a second. -/
theorem cleanup_again (hfits : Fits s lapsedBefore ledgerBefore batch) :
    (s.cleanup lapsedBefore ledgerBefore batch).2.cleanup lapsedBefore ledgerBefore batch =
      (0, (s.cleanup lapsedBefore ledgerBefore batch).2) := by
  have hholds : stale (dropping (Store.holdLapsed (floor lapsedBefore)))
      (s.cleanup lapsedBefore ledgerBefore batch).2.holds = 0 :=
    stale_dropping_again hfits.holds
  have hrows : stale (Store.rowAsOf (floor lapsedBefore))
      (s.cleanup lapsedBefore ledgerBefore batch).2.edges.rows = 0 := by
    have hfit := hfits.rows
    rw [Edges.countP_eq_stale] at hfit
    have h := stale_again (fun _ _ => Edges.rowAsOf_again) hfit
    rwa [← Edges.lapse_eq_sweep] at h
  have hledger : stale (dropping (Store.entryOld (floor ledgerBefore)))
      (s.cleanup lapsedBefore ledgerBefore batch).2.ledger = 0 :=
    stale_dropping_again hfits.ledger
  have hoffers : stale (dropping (Store.offerLapsed (floor lapsedBefore)))
      (s.cleanup lapsedBefore ledgerBefore batch).2.offers = 0 :=
    stale_dropping_again hfits.offers
  revert hholds hrows hledger hoffers
  generalize (s.cleanup lapsedBefore ledgerBefore batch).2 = t
  intro hholds hrows hledger hoffers
  have hedges : t.edges.cleanup lapsedBefore batch = t.edges := by
    unfold Edges.cleanup
    rw [Edges.lapse_eq_sweep, sweep_of_stale hrows]
  unfold Store.cleanup
  dsimp only
  rw [hedges, sweep_of_stale hholds, sweep_of_stale hledger, sweep_of_stale hoffers,
    Edges.countP_eq_stale, countP_eq_stale, countP_eq_stale, countP_eq_stale, hholds, hrows, hledger,
    hoffers, Nat.min_zero]

end Cleanup

/-- A request that lapsed, a hold that lapsed and one that has not. -/
def lapsing : Store where
  edges := (runs Edges.step {} [.setPendingOut ⟨"bob", none⟩ ⟨"carol", none⟩
    (some ⟨0, 1000000000, true, none⟩)]).2
  holds := [⟨⟨some "bob", none⟩, .address "192.0.2.1", 1000000000⟩,
    ⟨⟨some "bob", none⟩, .address "192.0.2.2", 9000000000⟩]

/-- What a key asked of a login it then claims, and that login's block of it. -/
def merged : Store where
  edges := (runs Edges.step {}
    [.setPendingOut (.identified "fred" (.replicate 32 1)) ⟨"bob", none⟩ (some ⟨0, 0, true, none⟩),
      .setBlocked ⟨"bob", none⟩ (.identified "fred" (.replicate 32 1)) true 0,
      .claim "bob" (.replicate 32 1)]).2

end HxdNg.Relationships
