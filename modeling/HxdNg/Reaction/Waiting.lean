import Mathlib
import HxdNg.Lib.Assoc
import HxdNg.Lib.Checked
import HxdNg.Lib.SortedMap
import HxdNg.Lib.Sorting
import HxdNg.Reaction.Live

/-!
# Instant-message reactions that wait

The reaction desk's other half: reactions to instant messages, kept for a party with no session to
hear them.

* `Waiting`, `Drain` : one such change, and a taking under way;
* `LiveIm` with `prune`, `take`, `toldLive`, `rekey`, `forget`, `keep` : the queues, the count of all
  they hold, and the order the server-wide bound gives them up in;
* `LiveIm.step` : these as one step.

A subtraction of counts that would go below zero is a failure.
-/

namespace HxdNg.Reaction

open Relationships Assoc

/-- Changes kept for one party; past it, the reactor holding the most gives up its oldest. -/
def imWaiting : Nat := 100

/-- The message a reply, or a reaction, is to. -/
inductive Reply where
  | line (room : Nat) (id : Nat)
  | im (login : String) (guid : List UInt8)
  | pm (ref : Nat)
  | signed (signer : List UInt8) (id : List UInt8) (hash : List UInt8)
  deriving DecidableEq

/-- An instant-message reaction kept for a party with no session. -/
structure Waiting where
  reactor : Mailbox
  target : Reply
  key : History.ReactionKey
  add : Bool
  at_ : Instant
  seq : Nat
  deriving DecidableEq

/-- Which reactor, message and key a change is of: the latest of each stands. -/
abbrev Identity := Key × Reply × History.ReactionKey

namespace Waiting

def identityOf (w : Waiting) : Identity := (w.reactor.key, w.target, w.key)

/-- Its reactor, if it is `old`, as `new` names it. A rotation names the successor by its key alone. -/
def rename (w : Waiting) (old : Key) (new : Mailbox) : Waiting :=
  if w.reactor.key = old then
    { w with reactor :=
      { fingerprint := new.fingerprint
        login := if new.login = "" then w.reactor.login else new.login } }
  else w

/-- Whether it has not waited too long. A clock read before it was made makes it new. -/
def young (w : Waiting) (imKeep : Nat) (now : Instant) : Bool := now - w.at_ < imKeep

/-- Where it stands in the order. -/
def place (w : Waiting) : Instant ×ₗ Nat := toLex (w.at_, w.seq)

end Waiting

/-- What a drain under way gives way to. -/
inductive DrainEvent where
  | told (reactor : Key) (target : Reply) (key : History.ReactionKey) (at_ : Instant)
  | purged (reactor : Key)
  | renamed (old : Key) (new : Mailbox)
  deriving DecidableEq

/-- What a drain took, and what has happened since that it must give way to. -/
structure Drain where
  to_ : Key
  uid : Uid
  serial : Nat
  taken : List Identity
  events : List DrainEvent
  gone : Bool
  rekeyed : Bool
  deriving DecidableEq

def Drain.tookFrom (d : Drain) (reactor : Key) : Bool := d.taken.any fun t => t.1 = reactor

structure LiveIm where
  waiting : Map Key (List Waiting) := .empty
  /-- How many `waiting` holds, so the server-wide bound costs nothing to ask. -/
  waitingLen : Nat := 0
  order : SortedMap (Instant ×ₗ Nat) Key := .empty
  nextSeq : Nat := 0
  imKeep : Nat
  waitingAll : Nat
  drains : Map Nat Drain := .empty
  nextDrain : Nat := 0

namespace LiveIm

/-- The queues, each with what `p` passes of it, those left empty dropped. -/
def retain (p : Waiting → Bool) (m : Map Key (List Waiting)) : Map Key (List Waiting) :=
  (m.mapVals fun _ queue => queue.filter p).filter fun kv => !kv.2.isEmpty

/-- Put a queue back, or drop it if it is empty. -/
def putQueue (m : Map Key (List Waiting)) (k : Key) (queue : List Waiting) : Map Key (List Waiting) :=
  if queue.isEmpty then m.drop k else m.set k queue

/-- Everything that waits, with whom it waits for, by its place. -/
def places (m : Map Key (List Waiting)) : List ((Instant ×ₗ Nat) × Key) :=
  m.entries.flatMap fun kv => kv.2.map fun w => (w.place, kv.1)

/-- Count again, and once the entries whose change has gone outnumber the rest, order again. -/
def recount (l : LiveIm) : LiveIm :=
  let waitingLen := l.waiting.total List.length
  { l with
    waitingLen
    order := if l.order.size > 2 * waitingLen then .ofList (places l.waiting) else l.order }

/-- Give up what has waited too long. -/
def prune (l : LiveIm) (now : Instant) : LiveIm :=
  recount { l with waiting := retain (·.young l.imKeep now) l.waiting }

/-- What waits for `to_` and has not waited too long, taken to hand over, and the drain. -/
def take (l : LiveIm) (to_ : Key) (uid : Uid) (serial : Nat) (now : Instant) :
    Option (Option (Nat × List Waiting) × LiveIm) :=
  match l.waiting.get to_ with
  | none => some (none, l)
  | some queue =>
    (minus l.waitingLen queue.length).map fun waitingLen =>
      let queue := queue.filter (·.young l.imKeep now)
      let drain : Drain :=
        { to_, uid, serial, taken := queue.map (·.identityOf), events := [], gone := false,
          rekeyed := false }
      (some (l.nextDrain + 1, queue),
        { l with
          waiting := l.waiting.drop to_
          waitingLen
          nextDrain := l.nextDrain + 1
          drains := l.drains.set (l.nextDrain + 1) drain })

/-- `w` was told live to `to_`'s sessions: what waits of the same key gives way to it, and so does what
a drain under way took. -/
def toldLive (l : LiveIm) (to_ : Key) (w : Waiting) : Option LiveIm :=
  let drains := l.drains.mapVals fun _ d =>
    if d.to_ = to_ ∧ w.identityOf ∈ d.taken then
      { d with events := d.events ++ [.told w.reactor.key w.target w.key w.at_] }
    else d
  match l.waiting.get to_ with
  | none => some { l with drains }
  | some queue =>
    let left := queue.filter fun q => q.identityOf ≠ w.identityOf
    (minus queue.length left.length).bind fun gone =>
      (minus l.waitingLen gone).map fun waitingLen =>
        { l with waiting := putQueue l.waiting to_ left, waitingLen, drains }

/-! ### Keeping -/

/-- Of a queue past its bound, the first change of a reactor that holds the most goes. -/
def shed : Nat → List Waiting → List Waiting
  | 0, queue => queue
  | n + 1, queue =>
    if queue.length ≤ imWaiting then queue else
    let held (q : Waiting) := queue.countP fun q' => q'.reactor.key = q.reactor.key
    let most := (queue.map held).max?
    match queue.findIdx? fun q => some (held q) = most with
    | none => queue
    | some i => shed n (queue.eraseIdx i)

/-- `w` joins the queue it waits in, unless a later change of its key is there or it is too old; what
it is later than gives way. -/
def join (l : LiveIm) (to_ : Key) (w : Waiting) (now : Instant) : LiveIm × List Waiting :=
  let queue := ((l.waiting.get to_).getD []).filter (·.young l.imKeep now)
  let superseded := queue.any fun q => q.identityOf = w.identityOf ∧ w.at_ < q.at_
  if ¬superseded ∧ w.young l.imKeep now then
    let queue := queue.filter fun q => q.identityOf ≠ w.identityOf
    let w := { w with seq := l.nextSeq + 1 }
    ({ l with nextSeq := l.nextSeq + 1, order := l.order.insert w.place to_ },
      queue.takeWhile (·.at_ ≤ w.at_) ++ w :: queue.dropWhile (·.at_ ≤ w.at_))
  else (l, queue)

/-- While more wait than may for everyone at once, what comes up first in the order goes; an entry
whose change has gone since is passed over. -/
def giveUp : Nat → LiveIm → Option LiveIm
  | 0, l => some l
  | n + 1, l =>
    if l.waitingLen ≤ l.waitingAll then some l else
    match l.order.popFirst with
    | none => some l
    | some ((place, k), order) =>
      match l.waiting.get k with
      | none => giveUp n { l with order }
      | some queue =>
        match queue.findIdx? fun w => w.seq = (ofLex place).2 with
        | none => giveUp n { l with order }
        | some i => (minus l.waitingLen 1).bind fun waitingLen =>
            giveUp n { l with
              order, waitingLen, waiting := putQueue l.waiting k (queue.eraseIdx i) }

/-- `w` among what waits for `to_`, before the server-wide bound is asked. -/
def kept (l : LiveIm) (to_ : Key) (w : Waiting) (now : Instant) : Option LiveIm :=
  let joined := l.join to_ w now
  let queue := shed joined.2.length joined.2
  (minus l.waitingLen ((l.waiting.get to_).getD []).length).map fun rest =>
    { joined.1 with waiting := putQueue l.waiting to_ queue, waitingLen := rest + queue.length }

/-- Keep `w` for `to_`: the one way anything joins the waiting. -/
def keep (l : LiveIm) (to_ : Key) (w : Waiting) (now : Instant) : Option LiveIm :=
  (l.kept to_ w now).bind fun l => (giveUp l.order.size l).map fun l =>
    if l.order.size > 2 * l.waitingLen + imWaiting then l.recount else l

/-! ### Renaming and forgetting -/

/-- Take the queues of `keys` out, each change with whom it waits for. -/
def takeOut : List Key → LiveIm → Option (List (Key × Waiting) × LiveIm)
  | [], l => some ([], l)
  | k :: keys, l =>
    let queue := (l.waiting.get k).getD []
    (minus l.waitingLen queue.length).bind fun waitingLen =>
      (takeOut keys { l with waiting := l.waiting.drop k, waitingLen }).map fun (moved, l) =>
        (queue.map (fun w => (k, w)) ++ moved, l)

/-- A drain as a renaming leaves it. -/
def rekeyDrain (old : Key) (new : Mailbox) (d : Drain) : Drain :=
  let d := if d.to_ = old then { d with to_ := new.key, rekeyed := true } else d
  if d.tookFrom old then
    { d with
      events := d.events ++ [.renamed old new]
      taken := d.taken.map fun t => if t.1 = old then (new.key, t.2) else t }
  else d

/-- The first's account is the second's now: what waits for it, and what it reacted, follow, each kept
again as anything new is. -/
def rekey (l : LiveIm) (old new : Mailbox) (now : Instant) : Option LiveIm :=
  if old.key = new.key then some l else
  let l := { l with drains := l.drains.mapVals fun _ => rekeyDrain old.key new }
  let touched := (l.waiting.entries.filter fun kv =>
    kv.1 = old.key || kv.2.any fun w => w.reactor.key = old.key).map Prod.fst
  (takeOut touched l).bind fun (moved, l) =>
    (sortBy (fun m => m.2.at_) moved).foldlM
      (fun l m => l.keep (if m.1 = old.key then new.key else m.1) (m.2.rename old.key new) now) l

/-- An account is gone: nothing waits for it or from it. -/
def forget (l : LiveIm) (who : Mailbox) : LiveIm :=
  recount { l with
    drains := l.drains.mapVals fun _ d =>
      let d := if d.to_ = who.key then { d with gone := true } else d
      if d.tookFrom who.key then { d with events := d.events ++ [.purged who.key] } else d
    waiting := retain (fun w => w.reactor.key ≠ who.key) (l.waiting.drop who.key) }

/-! ### Steps -/

inductive Op where
  | prune (now : Instant)
  | take (to_ : Key) (uid : Uid) (serial : Nat) (now : Instant)
  | toldLive (to_ : Key) (w : Waiting)
  | rekey (old new : Mailbox) (now : Instant)
  | forget (who : Mailbox)
  | keep (to_ : Key) (w : Waiting) (now : Instant)
  | rehash (waiting : Map Key (List Waiting))

def step (l : LiveIm) : Op → Option LiveIm
  | .prune now => some (l.prune now)
  | .take to_ uid serial now => (l.take to_ uid serial now).map Prod.snd
  | .toldLive to_ w => l.toldLive to_ w
  | .rekey old new now => l.rekey old new now
  | .forget who => some (l.forget who)
  | .keep to_ w now => l.keep to_ w now
  | .rehash waiting => some (if waiting.entries.Perm l.waiting.entries then { l with waiting } else l)

def run (l : LiveIm) (ops : List Op) : Option LiveIm := ops.foldlM step l

end LiveIm

end HxdNg.Reaction
