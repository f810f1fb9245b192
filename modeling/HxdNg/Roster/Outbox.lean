import Mathlib
import HxdNg.Lib.Machine

/-!
# A session's outbox

Every event a session should see is stamped with a per-session seq and goes to the attached
connection's channel, or to a bounded buffer while the session is detached. The model is of one
session, with every connection it ever had; the server's other queues show only as what they hold
of the shared budget.
-/

namespace HxdNg.Roster

def outboxBufferCap : Nat := 512

def liveQueueCap : Nat := 8192

/-- And how many bytes, near enough. -/
def liveQueueBytes : Nat := 16 <<< 20

/-! ## The budget the queues share -/

structure QueueBudget where
  limit : Nat
  held : Nat
  shares : Nat

/-- Why a queue was refused what it asked for. -/
inductive Over where
  | own
  | server
  deriving DecidableEq

namespace QueueBudget

/-- A share of `held` takes `bytes`, up to its `own` bound, or is refused. -/
def take (b : QueueBudget) (held bytes own : Nat) : Except Over (QueueBudget × Nat) :=
  let mine := held + bytes
  let all := b.held + bytes
  let average := all / max b.shares 1
  if mine > own then .error .own
  else if all > b.limit ∧ mine > average ∧ mine - bytes > average / 2 then .error .server
  else .ok ({ b with held := all }, mine)

def give (b : QueueBudget) (bytes : Nat) : QueueBudget := { b with held := b.held - bytes }

/-- One more queue draws on the budget. -/
def share (b : QueueBudget) : QueueBudget := { b with shares := b.shares + 1 }

end QueueBudget

/-! ## Events and channels -/

/-- An event: a sealed message, whose box a session may lose the means to open, or any other. -/
inductive Event (α : Type) where
  | sealed (msg : α) (box : Option (List UInt8))
  | other (ev : α)
  deriving DecidableEq

/-- The placeholder a sealed message becomes; other events stay. -/
def Event.lose {α : Type} : Event α → Event α
  | .sealed msg _ => .sealed msg none
  | .other ev => .other ev

/-- The bytes of the box an event still has. -/
def Event.box {α : Type} : Event α → Nat
  | .sealed _ (some b) => b.length
  | _ => 0

structure SeqEvent (α : Type) where
  seq : Nat
  event : Event α
  deriving DecidableEq

/-- A channel with what its connection shares with the session's sink. -/
structure Conn (α : Type) where
  queue : List (SeqEvent α)
  receiving : Bool
  share : Nat
  lagged : Bool

/-- `Events::channel`. -/
def Conn.channel {α : Type} : Conn α := ⟨[], true, 0, false⟩

/-- Where a session's events currently go. -/
inductive Sink (α : Type) where
  | live (conn : Nat)
  | lagged (conn : Nat)
  | buffering (startSeq : Nat) (buf : List (SeqEvent α)) (share : Nat) (broken : Bool)

structure Outbox (α : Type) where
  nextSeq : Nat
  sink : Sink α

/-- Where an outbox put an event. -/
inductive Pushed where
  | live
  | dropped
  | closed
  | buffered
  deriving DecidableEq

/-- One session: its connections by the order they were attached, and its outbox until it ends. -/
structure Session (α : Type) where
  budget : QueueBudget
  conns : Nat → Conn α
  attached : Nat
  outbox : Option (Outbox α)

/-- The outcome of a resume. -/
inductive Resume (α : Type) where
  | replayed (rx : Nat) (events : List (SeqEvent α))
  | resyncRequired (rx : Nat)
  | gone

variable {α : Type}

/-! ## Pushing -/

section Push
variable (weight : Event α → Nat)

/-- An event sent on a live channel. Past a bound the connection lags, whichever bound it was. -/
def Conn.push (b : QueueBudget) (conn : Conn α) (se : SeqEvent α) :
    QueueBudget × Conn α × Pushed :=
  let w := weight se.event
  match b.take conn.share w liveQueueBytes with
  | .error _ => (b, { conn with lagged := true }, .dropped)
  | .ok (b, held) =>
    if ¬ conn.receiving then (b.give w, { conn with share := held - w }, .closed)
    else if conn.queue.length ≥ liveQueueCap then
      (b.give w, { conn with share := held - w, lagged := true }, .dropped)
    else (b, { conn with share := held, queue := conn.queue ++ [se] }, .live)

/-- An event kept for a replay. A buffer past its count or its share of the budget breaks. -/
def Sink.buffer (b : QueueBudget) (startSeq : Nat) (buf : List (SeqEvent α)) (share : Nat)
    (broken : Bool) (se : SeqEvent α) : QueueBudget × Sink α × Pushed :=
  if broken then (b, .buffering startSeq buf share true, .dropped)
  else if buf.length ≥ outboxBufferCap then
    (b.give share, .buffering startSeq [] 0 true, .dropped)
  else
    match b.take share (weight se.event) maxWord with
    | .error _ => (b.give share, .buffering startSeq [] 0 true, .dropped)
    | .ok (b, held) => (b, .buffering startSeq (buf ++ [se]) held false, .buffered)

def Sink.afterPush (c : Nat) : Pushed → Sink α
  | .dropped => .lagged c
  | _ => .live c

/-- `Outbox::push`, for a session that has not ended. -/
def Session.push (s : Session α) (event : Event α) : Session α :=
  match s.outbox with
  | none => s
  | some o =>
    let se : SeqEvent α := ⟨o.nextSeq, event⟩
    match o.sink with
    | .live c =>
      let (b, conn, pushed) := (s.conns c).push weight s.budget se
      { s with
        budget := b, conns := Function.update s.conns c conn
        outbox := some ⟨o.nextSeq + 1, .afterPush c pushed⟩ }
    | .lagged c => { s with outbox := some ⟨o.nextSeq + 1, .lagged c⟩ }
    | .buffering startSeq buf share broken =>
      let (b, sink, _) := Sink.buffer weight s.budget startSeq buf share broken se
      { s with budget := b, outbox := some ⟨o.nextSeq + 1, sink⟩ }

/-- `Events::recv`: the next event of a connection, if one waits. -/
def Session.recv (s : Session α) (c : Nat) : Option (SeqEvent α) × Session α :=
  let conn := s.conns c
  match conn.receiving, conn.queue with
  | true, se :: rest =>
    let w := weight se.event
    (some se, { s with
      budget := s.budget.give w
      conns := Function.update s.conns c { conn with queue := rest, share := conn.share - w } })
  | _, _ => (none, s)

end Push

/-- The frontend drops its end of a connection, and what waits there with it. -/
def Session.dropEvents (s : Session α) (c : Nat) : Session α :=
  { s with conns := Function.update s.conns c { s.conns c with queue := [], receiving := false } }

/-- `RosterInner::end_session`, as far as the outbox goes. -/
def Session.endSession (s : Session α) : Session α := { s with outbox := none }

/-! ## Losing and resuming -/

def Sink.isLagged : Sink α → Bool
  | .lagged _ => true
  | _ => false

/-- `Core::lose`. `parks` is whether the session may detach and is neither kicked nor refused. -/
def Session.lose (s : Session α) (parks : Bool) : Session α :=
  match s.outbox with
  | none => s
  | some o =>
    if parks then
      { s with
        budget := s.budget.share
        outbox := some ⟨o.nextSeq, .buffering o.nextSeq [] 0 o.sink.isLagged⟩ }
    else s.endSession

/-- Whether connection `c` is the one the session is attached to. -/
def Session.holds (s : Session α) (c : Nat) : Bool :=
  match s.outbox with
  | some ⟨_, .live c'⟩ => c' = c
  | some ⟨_, .lagged c'⟩ => c' = c
  | _ => false

/-- `Core::connection_lost_from`: nothing is done for a connection that was taken over. -/
def Session.connectionLostFrom (s : Session α) (c : Nat) (parks : Bool) : Session α :=
  if s.holds c then s.lose parks else s

/-- `Outbox::lose_sealed`: every sealed message held becomes the placeholder and keeps its seq. -/
def Session.loseSealed (s : Session α) : Session α :=
  match s.outbox with
  | some ⟨n, .buffering startSeq buf share broken⟩ =>
    let boxes := (buf.map fun se => se.event.box).sum
    { s with
      budget := s.budget.give boxes
      outbox := some ⟨n, .buffering startSeq (buf.map fun se => ⟨se.seq, se.event.lose⟩)
        (share - boxes) broken⟩ }
  | _ => s

/-- What the sink a new connection replaces still has for a client at `lastSeq`, and none where the
client must sync. The sum wraps, as in a release build. -/
def Sink.replay (sink : Sink α) (nextSeq : Nat) (lastSeq : UInt64) : Option (List (SeqEvent α)) :=
  let wanted := (lastSeq + 1).toNat
  match sink with
  | .buffering startSeq buf _ broken =>
    if broken ∨ wanted < startSeq ∨ wanted > nextSeq then none
    else some (buf.filter fun se => lastSeq.toNat < se.seq)
  | .live _ => if wanted = nextSeq then some [] else none
  | .lagged _ => none

/-- What a resume on a new connection `rx` answers. -/
def Sink.answer (sink : Sink α) (nextSeq : Nat) (lastSeq : UInt64) (rx : Nat) : Resume α :=
  match sink.replay nextSeq lastSeq with
  | some events => .replayed rx events
  | none => .resyncRequired rx

/-- `Core::resume_locked`. `refused` is whether the session was kicked or its key is refused. -/
def Session.resume (s : Session α) (lastSeq : UInt64) (refused : Bool) : Resume α × Session α :=
  match s.outbox with
  | none => (.gone, s)
  | some o =>
    if refused then (.gone, s.endSession)
    else
      let rx := s.attached
      (o.sink.answer o.nextSeq lastSeq rx, { s with
        budget := s.budget.share, conns := Function.update s.conns rx .channel, attached := rx + 1
        outbox := some ⟨o.nextSeq, .live rx⟩ })

/-- `Core::resume_sealed`: `lost` is whether the session can no longer open sealed messages. -/
def Session.resumeSealed (s : Session α) (lastSeq : UInt64) (lost refused : Bool) :
    Resume α × Session α :=
  (if lost then s.loseSealed else s).resume lastSeq refused

/-- `Core::attach`: a session with its first connection. -/
def Session.attach (budget : QueueBudget) : Session α :=
  ⟨budget.share, fun _ => .channel, 1, some ⟨1, .live 0⟩⟩

end HxdNg.Roster
