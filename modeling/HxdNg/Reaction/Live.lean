import HxdNg.History.Log

/-!
# Live lines and what they owe

The reaction desk's half of a room: which lines are live, what has changed on them since the room's
last batch, and the batch as it is taken and told.

* `Owe`, `Owe.then` : what a live line owes, and what it owes after one more change;
* `Live` with `relayed`, `owe`, `restore`, `unowe`, `sent`, `forgetRoom` : the desk's state;
* `Desk` : it with the log and the lines relayed since the last run; one definition for each op;
* `takeBatch`, `Batch.toldTo` : a room's batch, and what one session is told of it.

A log call may fail: which do in an op is part of the op.
-/

namespace HxdNg.Reaction

open Relationships History Assoc

/-- A reading of the steady clock. -/
abbrev Instant := Nat

abbrev Uid := Nat

/-- What a live line owes its room's next batch. -/
inductive Owe where
  | summary
  | clear
  | gone
  | clearedGone
  deriving DecidableEq

/-- What is owed when `next` follows. -/
def Owe.then : Owe → Owe → Owe
  | .gone, _ => .gone
  | .clearedGone, _ => .clearedGone
  | .clear, .gone => .clearedGone
  | _, next => next

structure Owed where
  due : Instant
  lines : List (LineId × Owe)

structure Live where
  /-- Lines a room keeps live; 0, a server without reactions, none. -/
  window : Nat
  batch : Nat
  recent : List (Nat × List LineId) := []
  roomOf : List (LineId × Nat) := []
  owed : List (Nat × Owed) := []

namespace Live

/-- The window has moved past `old`, which owes nothing. -/
def letGo (l : Live) (room : Nat) (old : LineId) : Live :=
  { l with
    roomOf := erase old l.roomOf
    owed := alter room (Option.map fun o => { o with lines := erase old o.lines }) l.owed }

/-- `id` was relayed in `room`: live until the window has moved past it. -/
def relayed (l : Live) (room : Nat) (id : LineId) : Live :=
  if l.window = 0 then l else
  let ring := (lookup l.recent room).getD [] ++ [id]
  let older := ring.length - l.window
  (ring.take older).foldl (fun l old => l.letGo room old)
    { l with recent := insert room (ring.drop older) l.recent, roomOf := insert id room l.roomOf }

def isLive (l : Live) (line : LineId) : Bool := (lookup l.roomOf line).isSome

/-- What a room owes, due a whole batch from now where it owed nothing. -/
def entry (l : Live) (now : Instant) (o : Option Owed) : Owed := o.getD ⟨now + l.batch, []⟩

/-- Owe `line`'s room `what` in its next batch, if the line is live. -/
def owe (l : Live) (line : LineId) (what : Owe) (now : Instant) : Live :=
  match lookup l.roomOf line with
  | none => l
  | some room => { l with
      owed := alter room (fun o =>
        let o := l.entry now o
        some { o with lines := alter line (fun at_ => some (Owe.then (at_.getD what) what)) o.lines })
        l.owed }

/-- A batch that could not be read, owed again: behind any change since. -/
def restore (l : Live) (room : Nat) (lines : List (LineId × Owe)) (now : Instant) : Live :=
  let lines := lines.filter fun p => l.isLive p.1
  if lines.isEmpty then l else
  { l with
    owed := alter room (fun o =>
      let o := l.entry now o
      some { o with lines := lines.foldl (fun ls p =>
        alter p.1 (fun at_ => some (Owe.then p.2 (at_.getD p.2))) ls) o.lines }) l.owed }

/-- `line`, redacted with no reactions, owes nothing but a clear a moderator made before. -/
def unowe (l : Live) (line : LineId) : Live :=
  match lookup l.roomOf line with
  | none => l
  | some room => { l with
      owed := alter room (Option.map fun o => { o with
        lines := alter line (fun
          | some .clear => some .clearedGone
          | _ => none) o.lines }) l.owed }

/-- `room`'s batch went at `now`: the next is due a whole batch after. -/
def sent (l : Live) (room : Nat) (now : Instant) : Live :=
  { l with
    owed := alter room (Option.map fun o => { o with due := max o.due (now + l.batch) }) l.owed }

/-- A room deleted or archived keeps no live lines. -/
def forgetRoom (l : Live) (room : Nat) : Live :=
  { l with
    recent := erase room l.recent
    roomOf := ((lookup l.recent room).getD []).foldl (fun m id => erase id m) l.roomOf
    owed := erase room l.owed }

end Live

/-! ## Who hears -/

/-- What a session's reading of rooms and batches depends on. -/
structure Session where
  mailbox : Mailbox
  isPerson : Bool
  visible : Bool
  readChat : Bool
  chatHistory : Bool
  manageRooms : Bool
  moderate : Bool
  roles : List String
  reactions : Bool
  redactions : Bool
  heardFrom : List (Nat × LineId)

structure Room where
  read : List String
  archived : Bool
  deleted : Bool
  members : List Uid

structure Roster where
  users : List (Uid × Session)
  rooms : List (Nat × Room)
  lastIds : List (Nat × LineId)

/-- Whether `list` names this session's account, or a role it holds. -/
def named (list : List String) (s : Session) : Bool :=
  list.any fun e =>
    match e.toList with
    | '@' :: role => s.isPerson ∧ s.roles.any fun r => r.toList = role
    | _ => e.toLower = s.mailbox.login.toLower

def reads (s : Session) (room : Room) : Bool :=
  s.readChat ∧ (room.read.isEmpty ∨ named room.read s)

def sees (s : Session) (room : Room) : Bool :=
  ¬room.deleted ∧ (s.manageRooms ∨ s.moderate ∨ (¬room.archived ∧ reads s room))

/-- Whether `s` hears `room`'s reactions as they change. -/
def hears (r : Roster) (room : Nat) (uid : Uid) (s : Session) : Bool :=
  s.reactions ∧
    if room = 0 then s.visible ∧ s.readChat
    else (lookup r.rooms room).any fun e => uid ∈ e.members ∧ sees s e

/-- Whether `s` could have read line `line` of `room`: one it can read, already relayed, and either
heard live or readable in history. -/
def couldHaveRead (r : Roster) (s : Session) (room : Nat) (line : LineId) : Bool :=
  let readable : Bool :=
    if room = 0 then s.readChat else (lookup r.rooms room).any fun e => sees s e
  let relayed := (lookup r.lastIds room).any fun last => line ≤ last
  let heard := (lookup s.heardFrom room).any fun began => began < line
  readable ∧ relayed ∧ (heard ∨ s.chatHistory)

/-! ## The desk -/

structure Desk where
  live : Live
  log : MemoryInner := {}
  relayed : List (Nat × List LineId) := []

/-- The configuration: whether reactions are taken, and their window and batch. -/
structure ReactionPolicy where
  liveWindow : Nat
  batch : Nat

def Desk.new (policy : Option ReactionPolicy) : Desk :=
  { live :=
      match policy with
      | some p => { window := p.liveWindow, batch := p.batch }
      | none => { window := 0, batch := 0 } }

/-- A run's reactions as the log took them: together, or each again alone, where the transaction
failed, with what it applied, and each act may fail too. -/
inductive Together where
  | taken
  | failed (applied : Bool) (alone : List Bool)

inductive ReactionChange where
  | summary (room : Nat) (line : LineId) (keys : List (ReactionKey × Nat)) (mine : List Nat)
  | clear (room : Nat) (line : LineId)
  deriving DecidableEq

/-- A room's batch as the desk took it: what each line owes, the keys of those owed a summary, and
each reactor's own keys on them. -/
structure Batch where
  lines : List (LineId × Owe)
  keys : List (LineId × List (ReactionKey × Nat))
  mine : List (List Char × LineId × Nat)

/-- The indexes of the keys of `id` that `s`'s account holds. -/
def Batch.mineOf (b : Batch) (s : Session) (id : LineId) : List Nat :=
  ((b.mine.filter fun m => s.isPerson ∧ m.1 = reactorKey s.mailbox ∧ m.2.1 = id).map
    fun m => m.2.2).mergeSort

/-- What `s` is told of a batch: the lines it could have read, with its own account's keys, and a
redaction's clear only on a wire that shows redactions. -/
def Batch.toldTo (b : Batch) (r : Roster) (s : Session) (room : Nat) : List ReactionChange :=
  (b.lines.filter fun p => couldHaveRead r s room p.1).filterMap fun (id, what) =>
    match what with
    | .summary => some (.summary room id ((lookup b.keys id).getD []) (b.mineOf s id))
    | .clear | .clearedGone => some (.clear room id)
    | .gone => if s.redactions then some (.clear room id) else none

/-- The lines owed a summary. -/
def summaries (lines : List (LineId × Owe)) : List LineId :=
  (lines.filter fun p => p.2 = .summary).map Prod.fst

/-- The batch of `lines`, each summary read as the log has it. -/
def Batch.read (log : MemoryInner) (lines : List (LineId × Owe)) : Batch :=
  let asked := summaries lines
  let keys := asked.map fun id => (id, (log.reactionsOn id none).keys)
  { lines
    keys
    mine := (log.reactorsOn asked).filterMap fun (line, reactor, key) => do
      let on ← lookup keys line
      let i ← on.findIdx? fun k => k.1 = key
      return (reactor, line, ← fitsByte i) }

/-- The lines whose count a run of reactions changed. -/
def counted (acts : List ReactAct) (all : List Reacted) : List LineId :=
  (acts.zip all).filterMap fun (act, r) =>
    match r with
    | .count _ => some act.line
    | _ => none

namespace Desk

/-- A line logged in `room`, and relayed there to a desk that keeps lines live. -/
def say (d : Desk) (room : Nat) (line : NewLine) (relays : Bool) : Desk :=
  match d.log.append { line with channel := room } with
  | (.ok ⟨id, true⟩, log) =>
    if relays then
      let ring := (lookup d.relayed room).getD [] ++ [id]
      { d with log, relayed := insert room (ring.drop (ring.length - d.live.window)) d.relayed }
    else { d with log }
  | (_, log) => { d with log }

/-- What a run begins with: the lines relayed since the last one. -/
def takeRelayed (d : Desk) : Desk :=
  { d with
    live := d.relayed.foldl (fun l p => p.2.foldl (fun l id => l.relayed p.1 id) l) d.live
    relayed := [] }

def oweAll (l : Live) (lines : List LineId) (now : Instant) : Live :=
  lines.foldl (fun l line => l.owe line .summary now) l

/-- Each act alone: a summary is owed whatever it answered, since its line may have changed in the
run that failed. -/
def reactAlone (d : Desk) (now : Instant) : List (ReactAct × Bool) → Desk
  | [] => d
  | (act, answers) :: acts =>
    if answers then
      let log := (d.log.reactIn act).2
      reactAlone { d with log, live := d.live.owe act.line .summary now } now acts
    else reactAlone d now acts

/-- A run's reactions: each line whose count changed owes a summary. -/
def reactAll (d : Desk) (acts : List ReactAct) (together : Together) (now : Instant) : Desk :=
  match together with
  | .taken =>
    let (all, log) := d.log.reactAll acts
    { d with log, live := oweAll d.live (counted acts all) now }
  | .failed applied alone =>
    let log := if applied then (d.log.reactAll acts).2 else d.log
    reactAlone { d with log } now (acts.zip alone)

/-- An account's reactions taken, its own or another's name for them, each line that lost one owing a
summary. -/
def forgetReactions (d : Desk) (who : Mailbox) (since : SystemTime) (now : Instant) : Desk :=
  let (lines, log) := d.log.forgetReactions who since
  { d with log, live := oweAll d.live lines now }

def rekeyReactions (d : Desk) (from_ into : Mailbox) (now : Instant) : Desk :=
  let (lines, log) := d.log.rekeyReactions from_ into
  { d with log, live := oweAll d.live lines now }

/-- A moderator's clear, up to the log's last call: whether it took any reactions. -/
def clears (d : Desk) (room : Nat) (line : LineId) : Bool :=
  d.log.isOpen room line ∧ ¬(d.log.reactionsOn line none).keys.isEmpty

/-- A moderator's clear: recorded, then taken and owed as cleared. -/
def reactClear (d : Desk) (room : Nat) (line : LineId) (answers : Bool) (now : Instant) : Desk :=
  if d.clears room line ∧ answers then
    { d with log := (d.log.clearReactions room line).2, live := d.live.owe line .clear now }
  else d

/-- Which of `ids` are live and have reactions; none where that could not be read. -/
def reacted (d : Desk) (ids : List LineId) (read : Bool) : Option (List LineId) :=
  let liveIds := ids.filter d.live.isLive
  if liveIds.isEmpty then some []
  else if read then some (liveIds.filter fun id => ¬(d.log.reactionsOn id none).keys.isEmpty)
  else none

/-- Whether a tombstone of `ids` is told as cleared: it had reactions, or may have. -/
def had (d : Desk) (ids : List LineId) (read : Bool) (id : LineId) : Bool :=
  match d.reacted ids read with
  | some ids => id ∈ ids
  | none => true

/-- Tombstone `ids` with their reactions, the live ones that had any owed as cleared. -/
def chunkGone (d : Desk) (ids : List LineId) (read answers : Bool) (now : Instant) : Desk :=
  if ¬answers then d else
  let (gone, log) := d.log.tombstoneAll ids
  { d with
    log
    live := gone.foldl (fun l id =>
      if d.had ids read id then l.owe id .gone now else l.unowe id) d.live }

/-- `room`'s owed batch taken, if it is due and anyone hears the room, and read. One that could not
be read is owed again. -/
def takeBatch (d : Desk) (room : Nat) (r : Roster) (read : Bool) (now : Instant) :
    Option Batch × Desk :=
  match lookup d.live.owed room with
  | none => (none, d)
  | some o =>
    if now < o.due then (none, d) else
    let live := { d.live with owed := erase room d.live.owed }
    let lines := o.lines.filter fun p => live.isLive p.1
    let anyone := r.users.any fun (uid, s) => hears r room uid s
    if lines.isEmpty ∨ ¬anyone then (none, { d with live }) else
    if read ∨ (summaries lines).isEmpty then (some (Batch.read d.log lines), { d with live })
    else (none, { d with live := live.restore room lines now })

end Desk

end HxdNg.Reaction
