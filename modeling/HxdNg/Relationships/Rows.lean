import Mathlib
import HxdNg.Identity.Keys
import HxdNg.Lib.Keyed

/-!
# The in-memory relationship store: its rows

What each account has decided about another, one row each, and the ids of the friendships and
approvals that are live.

* `Edge` : what a row's owner has decided, with `asOf`, `settle` and `absorb`;
* `Edges` : the rows and the ids, with an operation for each the store offers on them;
* `Edges.rekey` : a claim or a rotation, which moves one key's rows onto another.
-/

namespace HxdNg.Relationships

open Identity

/-! ## Times -/

/-- A time, in nanoseconds from the epoch. -/
abbrev SystemTime := Int

/-- Whole seconds, none before the epoch. -/
def secs (t : SystemTime) : Nat := (t / 1000000000).toNat

def floor (t : SystemTime) : SystemTime := secs t * 1000000000

def unixTime (secs : UInt64) : SystemTime := secs.toNat * 1000000000

/-! ## Mailboxes -/

structure Mailbox where
  login : String
  fingerprint : Option Fingerprint
  deriving DecidableEq

/-- What a mailbox is told apart by: its fingerprint, its login where it has none. -/
inductive Key where
  | login (login : String)
  | fingerprint (fp : Fingerprint)
  deriving DecidableEq

def hexDigit (n : Nat) : Char := "0123456789abcdef".toList.getD n '0'

def hex (bytes : List UInt8) : List Char :=
  bytes.flatMap fun b => [hexDigit (b.toNat / 16), hexDigit (b.toNat % 16)]

namespace Mailbox

def identified (login : String) (fp : Fingerprint) : Mailbox := ⟨login, some fp⟩

/-- Whether a row addressed to `login` and `fp` is this mailbox's. -/
def «matches» (m : Mailbox) (login : String) (fp : Option Fingerprint) : Bool :=
  match m.fingerprint, fp with
  | some mine, some theirs => mine = theirs
  | none, none => m.login = login
  | _, _ => false

def key (m : Mailbox) : Key :=
  match m.fingerprint with
  | some fp => .fingerprint fp
  | none => .login m.login

/-- The spelling rows are compared by as they are re-keyed (`key`). -/
def spelling (m : Mailbox) : List Char :=
  match m.fingerprint with
  | some fp => hex fp.val
  | none => m.login.toList

end Mailbox

def is (m key : Mailbox) : Bool := key.matches m.login m.fingerprint

/-! ## What a row says -/

abbrev RelationId := Nat

inductive IgnoreMode where
  | messages | presence | chat | all
  deriving DecidableEq

structure Ignore where
  mode : IgnoreMode
  /-- None keeps it until it is lifted. -/
  «until» : Option SystemTime
  deriving DecidableEq

/-- A friend request that was sent and is not answered. -/
structure PendingOut where
  sentAt : SystemTime
  lapsesAt : SystemTime
  delivered : Bool
  note : Option String
  deriving DecidableEq

/-- What a row's owner has decided about the other. -/
structure Edge where
  «alias» : Option String := none
  blockedAt : Option SystemTime := none
  friendship : Option RelationId := none
  approval : Option RelationId := none
  pendingOut : Option PendingOut := none
  ignore : Option Ignore := none
  deriving DecidableEq

namespace Edge

/-- An alias outlives neither the friendship nor the block it was kept for. -/
def settle (e : Edge) : Edge :=
  if e.friendship.isNone ∧ e.blockedAt.isNone then { e with «alias» := none } else e

def isEmpty (e : Edge) : Bool :=
  e.blockedAt.isNone ∧ e.friendship.isNone ∧ e.approval.isNone ∧ e.pendingOut.isNone ∧
    e.ignore.isNone

/-- The row as it reads at `now`. -/
def asOf (e : Edge) (now : SystemTime) : Option Edge :=
  let e := if e.pendingOut.any fun p => p.lapsesAt ≤ now then { e with pendingOut := none } else e
  let e := if e.ignore.any fun i => i.«until».any fun u => u ≤ now then { e with ignore := none } else e
  let e := e.settle
  if e.isEmpty then none else some e

/-- Times to the second (`floor_row`). -/
def floorRow (e : Edge) : Edge :=
  { e with
    blockedAt := e.blockedAt.map floor
    pendingOut := e.pendingOut.map fun p =>
      { p with sentAt := floor p.sentAt, lapsesAt := floor p.lapsesAt }
    ignore := e.ignore.map fun i => { i with «until» := i.«until».map floor } }

/-- One part of a fold: mine where I have one, and the pair of what theirs lost to. -/
def absorbId (mine theirs : Option RelationId) :
    List (RelationId × RelationId) × Option RelationId :=
  match mine, theirs with
  | none, t => ([], t)
  | some m, some t => (if m ≠ t then [(t, m)] else [], some m)
  | some m, none => ([], some m)

/-- Fold in a duplicate of this row; the ids of the duplicate's that lost, each with what it lost
to. -/
def absorb (e dup : Edge) : List (RelationId × RelationId) × Edge :=
  let (lostFriendship, friendship) := absorbId e.friendship dup.friendship
  let (lostApproval, approval) := absorbId e.approval dup.approval
  let blockedAt := match e.blockedAt, dup.blockedAt with
    | some a, some b => some (min a b)
    | a, b => a.or b
  (lostFriendship ++ lostApproval,
    settle { friendship, approval, blockedAt
             «alias» := e.«alias».or dup.«alias»
             pendingOut := e.pendingOut.or dup.pendingOut
             ignore := e.ignore.or dup.ignore })

end Edge

/-- What `owner` has decided about `other`. -/
structure Relationship extends Edge where
  owner : Mailbox
  other : Mailbox
  deriving DecidableEq

structure Row where
  seq : Nat
  rel : Relationship
  deriving DecidableEq

/-! ## The rows and the live ids -/

structure Edges where
  nextSeq : Nat := 0
  nextRelation : RelationId := 0
  rows : List Row := []
  relations : Finset RelationId := ∅
  made : RelationId → Option SystemTime := fun _ => none

/-- What a claim or a rotation did. -/
structure Rekeyed where
  merged : List (RelationId × RelationId)

namespace Edges

def find (e : Edges) (owner other : Mailbox) : Option Row :=
  e.rows.find? fun r => is r.rel.owner owner && is r.rel.other other

/-- A row changed, and dropped if nothing is left in it. -/
def editRow {α : Type} (f : Edge → α × Edge) (r : Row) : α × Option Row :=
  let (out, edge) := f r.rel.toEdge
  let edge := edge.floorRow.settle
  (out, if edge.isEmpty then none else some { r with rel := { r.rel with toEdge := edge } })

/-- Change one row, creating it if need be and dropping it if nothing is left in it. -/
def edit {α : Type} (e : Edges) (owner other : Mailbox) (f : Edge → α × Edge) : α × Edges :=
  match editFirst (fun r => is r.rel.owner owner && is r.rel.other other) (editRow f) e.rows with
  | some (out, rows) => (out, { e with rows })
  | none =>
    let (out, row) := editRow f ⟨e.nextSeq + 1, { owner, other }⟩
    (out, { e with nextSeq := e.nextSeq + 1, rows := e.rows ++ row.toList })

def mint (e : Edges) : RelationId × Edges :=
  (e.nextRelation + 1,
    { e with nextRelation := e.nextRelation + 1
             relations := insert (e.nextRelation + 1) e.relations })

/-- Whether a row points at an id. -/
def holds (e : Edges) (id : RelationId) : Bool :=
  e.rows.any fun r => r.rel.friendship = some id ∨ r.rel.approval = some id

/-- Drop ids no row points at any more. -/
def forget (e : Edges) : List RelationId → Edges
  | [] => e
  | id :: ids =>
    if e.holds id then forget e ids
    else
      forget { e with relations := e.relations.erase id
                      made := fun i => if i = id then none else e.made i } ids

/-! ### Re-keying -/

def moving (moves : Mailbox → Bool) (r : Row) : Bool := moves r.rel.owner || moves r.rel.other

def stamp (moves : Mailbox → Bool) (into : Fingerprint) (m : Mailbox) : Mailbox :=
  if moves m then { m with fingerprint := some into } else m

/-- How a mailbox is spelled once it is stamped. -/
def after (moves : Mailbox → Bool) (into : Fingerprint) (m : Mailbox) : List Char :=
  if moves m then (Mailbox.identified "" into).spelling else m.spelling

def afterRow (moves : Mailbox → Bool) (into : Fingerprint) (r : Row) : List Char × List Char :=
  (after moves into r.rel.owner, after moves into r.rel.other)

def absorbRow (k r : Row) : List (RelationId × RelationId) × Row :=
  let (lost, edge) := k.rel.absorb r.rel.toEdge
  (lost, { k with rel := { k.rel with toEdge := edge } })

def stampRow (moves : Mailbox → Bool) (into : Fingerprint) (r : Row) : Row :=
  { r with rel := { r.rel with owner := stamp moves into r.rel.owner
                               other := stamp moves into r.rel.other } }

/-- Re-key every mailbox `moves` names with `to`. A row that moves onto a pair some unmoving row
already holds is folded into that row, which is kept. -/
def rekey (e : Edges) (moves : Mailbox → Bool) (into : Fingerprint) : Rekeyed × Edges :=
  let (lost, rows) :=
    foldInto (moving moves) (afterRow moves into) absorbRow e.rows.length [] e.rows
  let merged := lost.flatten
  let e := forget { e with rows } (merged.map Prod.fst)
  (⟨(merged.mergeSort fun a b => a.1 < b.1 ∨ a.1 = b.1 ∧ a.2 ≤ b.2).dedup⟩,
    { e with rows := e.rows.map (stampRow moves into) })

def claimMoves (login : String) (m : Mailbox) : Bool := m.fingerprint.isNone && m.login = login

/-- A claim of a login by an identity. -/
def claim (e : Edges) (login : String) (fp : Fingerprint) : Rekeyed × Edges :=
  e.rekey (claimMoves login) fp

def rotateMoves (old : Fingerprint) (m : Mailbox) : Bool := m.fingerprint = some old

def rotate (e : Edges) (old new : Fingerprint) : Rekeyed × Edges := e.rekey (rotateMoves old) new

/-! ### What is read -/

def asOf (r : Row) (now : SystemTime) : Option Relationship :=
  (r.rel.toEdge.asOf now).map fun edge => { r.rel with toEdge := edge }

def relationship (e : Edges) (owner other : Mailbox) (now : SystemTime) : Option Relationship :=
  (e.find owner other).bind fun r => asOf r (floor now)

def relationships (e : Edges) (owner : Mailbox) (now : SystemTime) : List Relationship :=
  (e.rows.filter fun r => is r.rel.owner owner).filterMap fun r => asOf r (floor now)

/-- The requests waiting for `owner`, oldest first. -/
def pendingIn (e : Edges) (owner : Mailbox) (now : SystemTime) : List Relationship :=
  let rows := (e.rows.filter fun r => is r.rel.other owner).filterMap fun r => do
    let rel ← asOf r (floor now)
    let p ← rel.pendingOut.filter fun p => p.delivered
    return (secs p.sentAt, r.seq, rel)
  (rows.mergeSort fun a b => a.1 < b.1 ∨ a.1 = b.1 ∧ a.2.1 ≤ b.2.1).map fun r => r.2.2

def rosterSize (e : Edges) (owner : Mailbox) (now : SystemTime) : Nat :=
  (e.relationships owner now).length

def isBlocked (e : Edges) (owner other : Mailbox) : Bool :=
  (e.find owner other).any fun r => r.rel.blockedAt.isSome

/-! ### What is written -/

def setAlias (e : Edges) (owner other : Mailbox) (name : Option String) : Edges :=
  (e.edit owner other fun d => ((), { d with «alias» := name })).2

def setBlocked (e : Edges) (owner other : Mailbox) (blocked : Bool) (now : SystemTime) : Edges :=
  (e.edit owner other fun d =>
    ((), { d with blockedAt := if blocked then d.blockedAt.or (some now) else none })).2

def setPendingOut (e : Edges) (owner other : Mailbox) (pending : Option PendingOut) : Edges :=
  (e.edit owner other fun d => ((), { d with pendingOut := pending })).2

def setIgnore (e : Edges) (owner other : Mailbox) (ignore : Option Ignore) : Edges :=
  (e.edit owner other fun d => ((), { d with ignore := ignore })).2

/-- What making friends under `id` writes on either row, answering what it ends. -/
def befriendEdge (id : RelationId) (d : Edge) : List RelationId × Edge :=
  (d.approval.toList, { d with friendship := some id, pendingOut := none, approval := none })

def befriend (e : Edges) (a b : Mailbox) (now : SystemTime) : RelationId × Edges :=
  let friendship (x y : Mailbox) := (e.find x y).bind fun r => r.rel.friendship
  let make :=
    let (id, e) := e.mint
    let e := { e with made := fun i => if i = id then some (floor now) else e.made i }
    let (endedA, e) := e.edit a b (befriendEdge id)
    let (endedB, e) := e.edit b a (befriendEdge id)
    (id, e.forget ((friendship a b).toList ++ (friendship b a).toList ++ endedA ++ endedB))
  match friendship a b with
  | some x => if friendship b a = some x then (x, e) else make
  | none => make

/-- One side of ending a friendship. -/
def takeFriendship (e : Edges) (x y : Mailbox) : Option RelationId × Edges :=
  if (e.find x y).isSome then e.edit x y fun d => (d.friendship, { d with friendship := none })
  else (none, e)

def unfriend (e : Edges) (a b : Mailbox) : Option RelationId × Edges :=
  let (endedA, e) := e.takeFriendship a b
  let (endedB, e) := e.takeFriendship b a
  let ended := endedA.toList ++ endedB.toList
  (ended.head?, e.forget ended)

def approve (e : Edges) (owner other : Mailbox) (now : SystemTime) : RelationId × Edges :=
  match (e.find owner other).bind fun r => r.rel.approval with
  | some id => (id, e)
  | none =>
    let (id, e) := e.mint
    let e := { e with made := fun i => if i = id then some (floor now) else e.made i }
    (id, (e.edit owner other fun d => ((), { d with approval := some id })).2)

def endApproval (e : Edges) (owner other : Mailbox) : Option RelationId × Edges :=
  if (e.find owner other).isSome then
    let (id, e) := e.edit owner other fun d => (d.approval, { d with approval := none })
    (id, e.forget id.toList)
  else (none, e)

/-- What making friends again under `id` writes on either row, answering what it ends. -/
def refriendEdge (id : RelationId) (d : Edge) : List RelationId × Edge :=
  (d.friendship.toList ++ d.approval.toList,
    { d with friendship := some id, pendingOut := none, approval := none })

def refriend (e : Edges) (a b : Mailbox) (id : RelationId) (now : SystemTime) : Edges :=
  let e := { e with
    relations := insert id e.relations
    made := fun i => if i = id then (e.made id).or (some (floor now)) else e.made i }
  let (endedA, e) := e.edit a b (refriendEdge id)
  let (endedB, e) := e.edit b a (refriendEdge id)
  e.forget ((endedA ++ endedB).filter fun i => i ≠ id)

def purge (e : Edges) (of : Mailbox) : Edges :=
  let doomed (r : Row) := is r.rel.owner of || is r.rel.other of
  let ids := (e.rows.filter doomed).flatMap fun r =>
    r.rel.friendship.toList ++ r.rel.approval.toList
  { e with rows := e.rows.filter fun r => !doomed r }.forget ids

/-- The first rows that lapsed, `batch` at most, as they read now. -/
def lapse (before : SystemTime) : Nat → List Row → List Row
  | _, [] => []
  | 0, rows => rows
  | n + 1, r :: rows =>
    if asOf r before = some r.rel then r :: lapse before (n + 1) rows
    else ((asOf r before).map fun rel => { r with rel }).toList ++ lapse before n rows

def cleanup (e : Edges) (lapsedBefore : SystemTime) (batch : Nat) : Edges :=
  { e with rows := lapse (floor lapsedBefore) batch e.rows }

end Edges

/-! ## Runs -/

/-- What the store is asked to do to its rows. -/
inductive Op where
  | setAlias (owner other : Mailbox) (name : Option String)
  | setBlocked (owner other : Mailbox) (blocked : Bool) (now : SystemTime)
  | setPendingOut (owner other : Mailbox) (pending : Option PendingOut)
  | setIgnore (owner other : Mailbox) (ignore : Option Ignore)
  | befriend (a b : Mailbox) (now : SystemTime)
  | unfriend (a b : Mailbox)
  | approve (owner other : Mailbox) (now : SystemTime)
  | endApproval (owner other : Mailbox)
  | refriend (a b : Mailbox) (id : RelationId) (now : SystemTime)
  | claim (login : String) (fp : Fingerprint)
  | rotate (old new : Fingerprint)
  | purge (of : Mailbox)
  | cleanup (lapsedBefore : SystemTime) (batch : Nat)

/-- One operation, with the id it answers. -/
def Edges.step (e : Edges) : Op → Option RelationId × Edges
  | .setAlias owner other name => (none, e.setAlias owner other name)
  | .setBlocked owner other blocked now => (none, e.setBlocked owner other blocked now)
  | .setPendingOut owner other pending => (none, e.setPendingOut owner other pending)
  | .setIgnore owner other ignore => (none, e.setIgnore owner other ignore)
  | .befriend a b now => ((e.befriend a b now).map some id)
  | .unfriend a b => e.unfriend a b
  | .approve owner other now => ((e.approve owner other now).map some id)
  | .endApproval owner other => e.endApproval owner other
  | .refriend a b id now => (none, e.refriend a b id now)
  | .claim login fp => (none, (e.claim login fp).2)
  | .rotate old new => (none, (e.rotate old new).2)
  | .purge of => (none, e.purge of)
  | .cleanup lapsedBefore batch => (none, e.cleanup lapsedBefore batch)

end HxdNg.Relationships
