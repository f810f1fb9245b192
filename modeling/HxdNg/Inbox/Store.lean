import HxdNg.History.Log
import HxdNg.Lib.Sorting

/-!
# The in-memory message store

Private and instant messages, read receipts, and what retention leaves of messages it deletes.

* `StoredMessage`, `Stub` : a message kept, and what is left of one deleted before its window ended;
* `Inner` : the store, with `push`, `findGuid`, the marks, `list` and `prune`;
* `collapse`, `renumber` : duplicates and cursors as one mailbox is merged into another, by `claim`
  and `rotate`.

What the relationship store says of a friendship or an approval, and the bytes a reference is drawn
from, are parameters of the calls that ask for them.
-/

namespace HxdNg.Inbox

open Relationships History Assoc
open Identity (Fingerprint)

abbrev MessageId := Nat

/-- Random bytes made when a row is stored. -/
abbrev MessageRef := Bytes 16

abbrev Cursor := Nat

/-- Nanoseconds. -/
abbrev Duration := Nat

inductive MessageKind where
  | message
  | readReceipt
  deriving DecidableEq

/-- What a message was sent on: a friendship or an approval, by its id, or a message request. -/
inductive SentOn where
  | request
  | relation (id : RelationId)
  deriving DecidableEq

/-- A message on its way into the store. -/
structure NewMessage where
  recipient : Mailbox
  sender : Option Mailbox
  body : String
  sentAt : SystemTime
  guid : Option MessageGuid
  kind : MessageKind
  signed : Option Signature
  friendship : Option SentOn
  senderAddress : Option String
  deriving DecidableEq

structure StoredMessage where
  id : MessageId
  reference : MessageRef
  /-- 0 for a row that is not mail. -/
  cursor : Cursor
  recipient : Mailbox
  sender : Option Mailbox
  body : String
  sentAt : SystemTime
  guid : Option MessageGuid
  kind : MessageKind
  signed : Option Signature
  friendship : Option SentOn
  deliveredAt : Option SystemTime
  readAt : Option SystemTime
  deriving DecidableEq

/-- What is left of a private message deleted before its sender's window ended. -/
structure Stub where
  reference : MessageRef
  recipient : Mailbox
  sender : Option Mailbox
  guid : Option MessageGuid
  signed : Option (Bytes 32)
  sentAt : SystemTime
  deriving DecidableEq

structure Reaction where
  reference : MessageRef
  key : List UInt8
  reactor : String
  nick : String
  at_ : SystemTime
  deriving DecidableEq

structure Inner where
  nextId : MessageId := 0
  msgs : List StoredMessage := []
  cursors : List (List Char × Cursor) := []
  handed : List MessageId := []
  receipted : List MessageId := []
  requested : List MessageId := []
  addresses : List (MessageId × String) := []
  stubs : List Stub := []
  reactions : List Reaction := []

/-! ## Rows -/

/-- Every read path the inbox exposes is mail only. -/
def isMail (m : StoredMessage) : Bool := m.kind = .message

/-- A private message, which leaves a stub. -/
def isPrivate (m : StoredMessage) : Bool := isMail m && m.friendship.isNone

/-- Does the gate let a message through? -/
def live (relations : RelationId → Bool) (m : StoredMessage) : Bool :=
  match m.friendship with
  | none => true
  | some .request => false
  | some (.relation id) => relations id

/-- Is a row or stub from `sender` to `recipient` one of the pair's? -/
def ofPair (recipient : Mailbox) (sender : Option Mailbox) (to_ : Mailbox) (from_ : Option Mailbox) :
    Bool :=
  is recipient to_ && match sender, from_ with
    | some a, some b => is a b
    | none, none => true
    | _, _ => false

def elapsed (now since : SystemTime) : Duration := (now - since).toNat

inductive Found where
  | row (m : StoredMessage)
  | stub (s : Stub)
  deriving DecidableEq

inductive Pushed where
  | stored (id : MessageId) (reference : MessageRef) (cursor : Cursor)
  | existing (m : StoredMessage)
  | full
  | pruned (reference : MessageRef) (signed : Option (Bytes 32))
  deriving DecidableEq

inductive Delivery where
  | delivered
  | read
  deriving DecidableEq

namespace Inner

/-- The last cursor issued under a key, 0 for none. -/
def last (s : Inner) (key : List Char) : Cursor := (lookup s.cursors key).getD 0

def waiting (relations : RelationId → Bool) (s : Inner) (m : StoredMessage) : Bool :=
  isMail m && m.deliveredAt.isNone && !s.handed.contains m.id && live relations m

/-- The row before its stub. -/
def findGuid (s : Inner) (to_ : Mailbox) (from_ : Option Mailbox) (guid : MessageGuid) :
    Option Found :=
  match s.msgs.find? fun m => m.guid = some guid && ofPair m.recipient m.sender to_ from_ with
  | some m => some (.row m)
  | none => (s.stubs.find? fun t => t.guid = some guid && ofPair t.recipient t.sender to_ from_).map
      .stub

/-- Marks and reactions go with the rows and stubs they are of. -/
def forgetRemoved (s : Inner) : Inner :=
  let held := s.msgs.map (·.id)
  let refs := s.msgs.map (·.reference) ++ s.stubs.map (·.reference)
  { s with
    handed := s.handed.filter held.contains
    receipted := s.receipted.filter held.contains
    requested := s.requested.filter held.contains
    addresses := s.addresses.filter fun a => held.contains a.1
    reactions := s.reactions.filter fun r => refs.contains r.reference }

/-! ## Sending -/

/-- The row a message is stored as. -/
def stored (s : Inner) (m : NewMessage) (reference : MessageRef) : StoredMessage where
  id := s.nextId + 1
  reference := reference
  cursor := if m.kind = .message then s.last m.recipient.spelling + 1 else 0
  recipient := m.recipient
  sender := m.sender
  body := m.body
  sentAt := m.sentAt
  guid := m.guid
  kind := m.kind
  signed := m.signed
  friendship := m.friendship
  deliveredAt := none
  readAt := if m.kind ≠ .message then some m.sentAt else none

/-- A message is stored once for its pair and guid. The cap is about mail: how many messages wait. -/
def push (relations : RelationId → Bool) (s : Inner) (m : NewMessage) (cap : Nat)
    (drawn : Except StoreError MessageRef) : Except StoreError Pushed × Inner :=
  match m.guid.bind (s.findGuid m.recipient m.sender) with
  | some (.row existing) => (.ok (.existing existing), s)
  | some (.stub stub) => (.ok (.pruned stub.reference stub.signed), s)
  | none =>
    if m.kind = .message ∧
        cap ≤ s.msgs.countP (fun x => is x.recipient m.recipient && s.waiting relations x) then
      (.ok .full, s)
    else match drawn with
      | .error e => (.error e, s)
      | .ok reference =>
        let row := s.stored m reference
        (.ok (.stored row.id reference row.cursor),
          { s with
            nextId := row.id
            msgs := s.msgs ++ [row]
            cursors := if m.kind = .message then insert m.recipient.spelling row.cursor s.cursors
              else s.cursors
            requested := if m.friendship = some .request then s.requested ++ [row.id] else s.requested
            addresses := match m.senderAddress with
              | some a => insert row.id a s.addresses
              | none => s.addresses })

/-! ## Reading -/

def markHanded (s : Inner) (ids : List MessageId) : Inner :=
  { s with handed := s.handed ++ ids.filter fun i => !s.handed.contains i }

def receiptTold (s : Inner) (id : MessageId) : Bool × Inner :=
  if s.receipted.contains id then (false, s) else (true, { s with receipted := s.receipted ++ [id] })

/-- A row handed over, and with `read` read in the same step; one stamped already keeps its stamp. -/
def stamp (m : StoredMessage) (at_ : SystemTime) (what : Delivery) : StoredMessage :=
  { m with
    deliveredAt := m.deliveredAt.or (some at_)
    readAt := if what = .read then m.readAt.or (some at_) else m.readAt }

def markDelivered (s : Inner) (ids : List MessageId) (at_ : SystemTime) (what : Delivery) : Inner :=
  { s with msgs := s.msgs.map fun m => if ids.contains m.id then stamp m at_ what else m }

/-- Whether `mark_read` marks a row. -/
def marks (relations : RelationId → Bool) (to_ : Mailbox) (upTo : Cursor) (m : StoredMessage) : Bool :=
  isMail m && is m.recipient to_ && m.cursor ≤ upTo && m.readAt.isNone && live relations m

def markRead (relations : RelationId → Bool) (s : Inner) (to_ : Mailbox) (upTo : Cursor)
    (at_ : SystemTime) : Nat × Inner :=
  (s.msgs.countP (marks relations to_ upTo),
    { s with msgs := s.msgs.map fun m => if marks relations to_ upTo m then stamp m at_ .read else m })

/-- The newest first by cursor, from the cursor `before`. -/
def list (relations : RelationId → Bool) (s : Inner) (to_ : Mailbox) (before : Option Cursor)
    (limit : Nat) : List StoredMessage :=
  let mine := s.msgs.filter fun m =>
    isMail m && is m.recipient to_ && before.all (m.cursor < ·) && live relations m
  (sortBy (fun m => OrderDual.toDual m.cursor) mine).take limit

def lastCursor (s : Inner) (of_ : Mailbox) : Cursor := s.last of_.spelling

end Inner

/-! ## Merging mailboxes -/

/-- What names a message: its pair and its guid. -/
structure Named where
  recipient : Mailbox
  sender : Option Mailbox
  guid : Option MessageGuid
  deriving DecidableEq

def StoredMessage.named (m : StoredMessage) : Named := ⟨m.recipient, m.sender, m.guid⟩

def Stub.named (s : Stub) : Named := ⟨s.recipient, s.sender, s.guid⟩

/-- A merge of one mailbox into another: which mailboxes are the destination's, which move, and the
key a mailbox has afterwards. -/
structure Merge where
  present : Mailbox → Bool
  moves : Mailbox → Bool
  after : Mailbox → List Char

/-- Does the recipient, or with `senderSide` the sender, of what has a guid meet `f`? -/
def Named.side (n : Named) (senderSide : Bool) (f : Mailbox → Bool) : Bool :=
  n.guid.isSome && if senderSide then n.sender.any f else f n.recipient

/-- The key the guid index will hold for a row or stub once the merge has moved what it moves. -/
def Named.mergedKey (n : Named) (after : Mailbox → List Char) :
    List Char × List Char × Option MessageGuid :=
  (after n.recipient, (n.sender.map after).getD [], n.guid)

/-- Copy each reaction on the first of a pair onto the second, unless the second holds that key from
that account already. -/
def carry (reactions : List Reaction) (pairs : List (MessageRef × MessageRef)) : List Reaction :=
  let carried := reactions.flatMap fun r =>
    (pairs.filter fun p => p.1 = r.reference).map fun p => { r with reference := p.2 }
  carried.foldl (fun held r =>
    if held.any fun h => h.reference = r.reference ∧ h.key = r.key ∧ h.reactor = r.reactor then held
    else held ++ [r]) reactions

/-- Each of `moving` against what it meets in `kept` by key. -/
def meeting {κ : Type*} [DecidableEq κ] (moving kept : List (κ × MessageRef)) :
    List (MessageRef × MessageRef) :=
  moving.flatMap fun d => (kept.filter fun k => k.1 = d.1).map fun k => (d.2, k.2)

namespace Merge

def rowKey (g : Merge) (m : StoredMessage) := m.named.mergedKey g.after

def stubKey (g : Merge) (s : Stub) := s.named.mergedKey g.after

/-- Each moving row against the row it will collide with, by index. -/
def doomed (g : Merge) (senderSide : Bool) (msgs : List StoredMessage) : List (Nat × Nat) :=
  msgs.zipIdx.filterMap fun (m, i) =>
    if m.named.side senderSide g.moves then
      (msgs.findIdx? fun k => k.named.side senderSide g.present && g.rowKey k = g.rowKey m).map (i, ·)
    else none

/-- What the row kept learns of its duplicate. -/
def learn (kept : StoredMessage) (dup : Option StoredMessage) : StoredMessage :=
  { kept with
    deliveredAt := kept.deliveredAt.or (dup.bind (·.deliveredAt))
    readAt := kept.readAt.or (dup.bind (·.readAt)) }

def promote (msgs : List StoredMessage) (doomed : List (Nat × Nat)) : List StoredMessage :=
  doomed.foldl (fun ms (dup, kept) => ms.modify kept fun k => learn k ms[dup]?) msgs

/-- The references of a list of pairs of rows. -/
def refPairs (msgs : List StoredMessage) (doomed : List (Nat × Nat)) :
    List (MessageRef × MessageRef) :=
  doomed.filterMap fun (dup, kept) => do
    let d ← msgs[dup]?
    let k ← msgs[kept]?
    return (d.reference, k.reference)

def withoutDoomed (msgs : List StoredMessage) (doomed : List (Nat × Nat)) : List StoredMessage :=
  (msgs.zipIdx.filter fun (_, i) => !doomed.any fun d => d.1 = i).map Prod.fst

/-- When the moving stubs of a key were first sent. -/
def readWhen (g : Merge) (senderSide : Bool) (stubs : List Stub)
    (key : List Char × List Char × Option MessageGuid) : Option SystemTime :=
  ((stubs.filter fun s => s.named.side senderSide g.moves && g.stubKey s = key).map (·.sentAt)).min?

/-- A row at the destination that a moving stub meets was read, as when that was sent. -/
def stampRead (g : Merge) (senderSide : Bool) (stubs : List Stub) (m : StoredMessage) :
    StoredMessage :=
  if m.named.side senderSide g.present then
    match g.readWhen senderSide stubs (g.rowKey m) with
    | some at_ => { m with deliveredAt := m.deliveredAt.or (some at_), readAt := m.readAt.or (some at_) }
    | none => m
  else m

/-- The keys and references of the rows, and of the stubs, on one side. -/
def rowsOf (g : Merge) (senderSide : Bool) (f : Mailbox → Bool) (msgs : List StoredMessage) :=
  (msgs.filter (·.named.side senderSide f)).map fun m => (g.rowKey m, m.reference)

def stubsOf (g : Merge) (senderSide : Bool) (f : Mailbox → Bool) (stubs : List Stub) :=
  (stubs.filter (·.named.side senderSide f)).map fun s => (g.stubKey s, s.reference)

/-- Moving rows go where a row of their key is at the destination, which learns what they knew. -/
def collapseRows (g : Merge) (senderSide : Bool) (s : Inner) : Inner :=
  let doomed := g.doomed senderSide s.msgs
  let msgs := promote s.msgs doomed
  { s with
    reactions := carry s.reactions (refPairs msgs doomed)
    msgs := (withoutDoomed msgs doomed).map (g.stampRead senderSide s.stubs) }

/-- Moving rows go where a stub of their key is. -/
def collapseOntoStubs (g : Merge) (senderSide : Bool) (s : Inner) : Inner :=
  let pairs := meeting (g.rowsOf senderSide g.moves s.msgs) (g.stubsOf senderSide g.present s.stubs)
  { s with
    reactions := carry s.reactions pairs
    msgs := s.msgs.filter fun m => !pairs.any fun p => p.1 = m.reference }

/-- Moving stubs go where what is kept has their key. -/
def collapseStubs (g : Merge) (senderSide : Bool)
    (kept : List ((List Char × List Char × Option MessageGuid) × MessageRef)) (s : Inner) : Inner :=
  let pairs := meeting (g.stubsOf senderSide g.moves s.stubs) kept
  { s with
    reactions := carry s.reactions pairs
    stubs := s.stubs.filter fun t => !pairs.any fun p => p.1 = t.reference }

/-- One pass, over recipients or over senders. -/
def pass (g : Merge) (senderSide : Bool) (s : Inner) : Inner :=
  let s := g.collapseRows senderSide s
  let stubbed := g.stubsOf senderSide g.present s.stubs
  let rowed := g.rowsOf senderSide g.present s.msgs
  let s := g.collapseOntoStubs senderSide s
  let s := g.collapseStubs senderSide rowed s
  g.collapseStubs senderSide stubbed s

/-- Merge duplicate guids when two mailboxes become one, keeping what is already at the destination:
recipients, then senders. -/
def collapse (g : Merge) (s : Inner) : Inner := g.pass true (g.pass false s)

end Merge

namespace Inner

/-- The cursors of a merge: into a mailbox that never issued one the moved mail keeps its cursors and
the count carries over, into one that did it is numbered after the last cursor of either. -/
def renumber (s : Inner) (moves : Mailbox → Bool) (from_ into : List Char) : Inner :=
  if s.last into = 0 then
    if 0 < s.last from_ then { s with cursors := insert into (s.last from_) s.cursors } else s
  else
    let moving := sortBy (fun p => p.1.cursor)
      (s.msgs.zipIdx.filter fun (m, _) => isMail m && moves m.recipient)
    let last := max (s.last from_) (s.last into)
    { s with
      msgs := s.msgs.mapIdx fun i m =>
        match moving.findIdx? fun p => p.2 = i with
        | some n => { m with cursor := last + n + 1 }
        | none => m
      cursors := insert into (last + moving.length) s.cursors }

/-- Stamp a mailbox that moves with the fingerprint it is keyed by from now on. -/
def restampOne (moves : Mailbox → Bool) (into : Fingerprint) (m : Mailbox) : Mailbox :=
  if moves m then { m with fingerprint := some into } else m

def restampAll (s : Inner) (moves : Mailbox → Bool) (into : Fingerprint) : Inner :=
  { s with
    stubs := s.stubs.map fun t => { t with
      recipient := restampOne moves into t.recipient
      sender := t.sender.map (restampOne moves into) }
    msgs := s.msgs.map fun m => { m with
      recipient := restampOne moves into m.recipient
      sender := m.sender.map (restampOne moves into) } }

/-- How many keys of rows a merge moves, each half of a row's for itself. -/
def moved (s : Inner) (moves : Mailbox → Bool) : Nat :=
  s.msgs.countP (fun m => moves m.recipient) + s.msgs.countP fun m => m.sender.any moves

/-- The merge of what `moves` says into the mailbox of a fingerprint. -/
def mergeInto (moves : Mailbox → Bool) (into : Fingerprint) : Merge where
  present m := m.fingerprint = some into
  moves := moves
  after m := if moves m then hex into.val else m.spelling

/-- Is this the bare mailbox of `login`? -/
def bare (login : String) (m : Mailbox) : Bool := m.fingerprint.isNone && m.login = login

/-- Is this the mailbox of `fp`? -/
def keyed (fp : Fingerprint) (m : Mailbox) : Bool := m.fingerprint = some fp

/-- An account linked an identity: its bare login's mailbox is merged into the identity's, and the
login's count goes with its mail. -/
def claim (s : Inner) (login : String) (fp : Fingerprint) : Nat × Inner :=
  let s := ((mergeInto (bare login) fp).collapse s).forgetRemoved
  let s := s.renumber (bare login) login.toList (hex fp.val)
  let s := { s with cursors := erase login.toList s.cursors }
  (s.moved (bare login), s.restampAll (bare login) fp)

/-- An identity's key moved to a successor. -/
def rotate (s : Inner) (from_ into : Fingerprint) : Nat × Inner :=
  let s := ((mergeInto (keyed from_) into).collapse s).forgetRemoved
  let s := s.renumber (keyed from_) (hex from_.val) (hex into.val)
  (s.moved (keyed from_), s.restampAll (keyed from_) into)

/-- An account gave up its link: its bare login counts on past the identity's cursors. -/
def unlinked (s : Inner) (login : String) (fp : Fingerprint) : Inner :=
  match lookup s.cursors (hex fp.val) with
  | some past => { s with cursors := insert login.toList (max (s.last login.toList) past) s.cursors }
  | none => s

/-! ## Removing -/

def reactorKey (who : Mailbox) : String :=
  match who.fingerprint with
  | some fp => "f:" ++ String.ofList (hex fp.val)
  | none => "l:" ++ who.login

/-- Is `of_` a party? -/
def party (of_ recipient : Mailbox) (sender : Option Mailbox) : Bool :=
  is recipient of_ || sender.any (is · of_)

def purge (s : Inner) (of_ : Mailbox) : Nat × Inner :=
  let kept := s.msgs.filter fun m => !party of_ m.recipient m.sender
  (s.msgs.length - kept.length,
    forgetRemoved { s with
      msgs := kept
      stubs := s.stubs.filter fun t => !party of_ t.recipient t.sender
      cursors := erase of_.spelling s.cursors
      reactions := s.reactions.filter fun r => r.reactor ≠ reactorKey of_ })

/-- Whether a message's sender's window is open. -/
def isOpen (now : SystemTime) (unread : Duration) (sentAt : SystemTime) : Bool :=
  elapsed now sentAt < unread

/-- Whether retention keeps a row. -/
def keeps (now : SystemTime) (unread read : Duration) (m : StoredMessage) : Bool :=
  match m.readAt with
  | some readAt => elapsed now readAt < read
  | none => isOpen now unread m.sentAt

/-- Whether a row goes and leaves a stub. -/
def leavesStub (now : SystemTime) (unread read : Duration) (m : StoredMessage) : Bool :=
  !keeps now unread read m && isPrivate m && isOpen now unread m.sentAt

def stubOf (m : StoredMessage) : Stub :=
  ⟨m.reference, m.recipient, m.sender, m.guid, m.signed.map (·.content), m.sentAt⟩

/-- One stub for each reference. -/
def insertStub (stubs : List Stub) (t : Stub) : List Stub :=
  stubs.filter (fun x => x.reference ≠ t.reference) ++ [t]

/-- A private message past its sender's window answers no retry. -/
def stripGuid (now : SystemTime) (unread : Duration) (m : StoredMessage) : StoredMessage :=
  if isPrivate m && !isOpen now unread m.sentAt then { m with guid := none } else m

def prune (s : Inner) (now : SystemTime) (unread read : Duration) : Nat × Inner :=
  let kept := s.msgs.filter (keeps now unread read)
  let stubs := ((s.msgs.filter (leavesStub now unread read)).map stubOf).foldl insertStub s.stubs
  (s.msgs.length - kept.length,
    forgetRemoved { s with
      stubs := stubs.filter fun t => isOpen now unread t.sentAt
      msgs := kept.map (stripGuid now unread) })

/-- Each message sent on the first id of a pair carries the second, in order. -/
def restamp (s : Inner) (merged : List (RelationId × RelationId)) : Inner :=
  merged.foldl (fun s p => { s with
    msgs := s.msgs.map fun m =>
      if m.friendship = some (.relation p.1) then { m with friendship := some (.relation p.2) } else m })
    s

end Inner

end HxdNg.Inbox
