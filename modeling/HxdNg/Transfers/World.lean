import HxdNg.Transfers.Registry

/-!
# Transfer connections, sessions and the clock around the registry

* `Call` : a claim or a sweep between the moments it holds the registry's lock;
* `Guard` : who holds a `RunningTransfer`;
* `Past` : what an onlooker keeps of a run: what was drawn, who waited, what became of them, what was
  told and answered;
* `World`, `Op`, `step`, `run` : everything that touches the registry, one locked step at a time.
-/

namespace HxdNg.Transfers

open Assoc (Map)
open Limits (IpAddr)

/-- A presentation, with the entry it read. -/
structure Presented where
  preamble : Preamble
  entry : Entry
  fromPeer : Bool

inductive Call where
  /-- `claim_running`, the registry read and let go. -/
  | read (p : Presented)
  | judged (p : Presented) (now : Nat) (session : Bool)
  /-- `sweep`: what waited and is still to be looked up, and whose session has ended. -/
  | gathered (waiting : List (Nat × FilePrincipal)) (gone : List Nat)

/-- Who holds the guard of a running transfer. -/
inductive Guard where
  | failed
  | transfer (generation : Nat)
  | piece
  deriving DecidableEq

/-- An answer `claim_running` gave, and what it was judged by. -/
structure Answered where
  presented : Presented
  judgedAt : Nat
  session : Bool
  result : Except FileError PreparedTransfer
  spent : Bool
  answeredAt : Nat

structure Past where
  drawn : List Nat := []
  arrived : List (Nat × Nat) := []
  claimed : List Nat := []
  started : List Nat := []
  killed : List Nat := []
  finished : List Nat := []
  foreign : List Nat := []
  told : List Told := []
  answers : List Answered := []

structure World where
  now : Nat := 0
  sessions : Map Nat Nat := Map.empty
  state : State := {}
  calls : Map Nat Call := Map.empty
  guards : Map Nat Guard := Map.empty
  past : Past := {}

def World.alive (w : World) (p : FilePrincipal) : Bool := w.sessions.get p.uid == some p.serial

inductive Op where
  | wait (d : Nat)
  | login (uid serial : Nat)
  | logout (uid : Nat)
  /-- `began` is the clock as read before the registry was locked, here and for a sweep. -/
  | issueAs (transfer : PreparedTransfer) (person : String) (began : Nat) (draws : List (Option Nat))
      (generation : Option Nat)
  | runUpload (principal : FilePrincipal) (person : String) (draws : List (Option Nat))
  /-- `claim_running`, in its three moments. -/
  | present (call : Nat) (peer : IpAddr) (preamble : Preamble)
  | judge (call : Nat)
  | spend (call : Nat)
  /-- A `RunningTransfer` is dropped. -/
  | letGo (reference : Nat)
  | kill (principal : FilePrincipal) (reference : Nat)
  /-- `sweep`, in its three moments. -/
  | gather (call : Nat)
  | lookUp (call : Nat)
  | clear (call : Nat) (began : Nat)

/-- The generation an operation draws. -/
def Op.generation : Op → Option Nat
  | .issueAs _ _ _ _ g => g
  | _ => none

/-! ## What the onlooker adds -/

/-- The generations of the entries told they may start. -/
def startedBy (s : State) (told : List Told) : List Nat :=
  told.filterMap fun t =>
    if t.position = 0 then (s.entries.get t.reference).map Entry.generation else none

/-- The registry after a step that told sessions where they stand. -/
def World.tell (w : World) (r : State × List Told) : World :=
  { w with
    state := r.1
    past := { w.past with
      told := r.2.reverse ++ w.past.told
      started := startedBy r.1 r.2 ++ w.past.started } }

/-- Entries whose sessions are over as a step ends. -/
def World.mark (w : World) : World :=
  { w with
    past := { w.past with
      finished := ((w.state.entries.entries.filter fun kv => !w.alive kv.2.transfer.principal).map
        fun kv => kv.2.generation) ++ w.past.finished } }

def World.answer (w : World) (p : Presented) (judgedAt : Nat) (session : Bool)
    (result : Except FileError PreparedTransfer) (spent : Bool) : World :=
  { w with
    past := { w.past with
      answers := ⟨p, judgedAt, session, result, spent, w.now⟩ :: w.past.answers } }

/-! ## The steps -/

def World.issueAs (reg : TransferRegistry) (w : World) (t : PreparedTransfer) (person : String)
    (began : Nat) (draws : List (Option Nat)) (generation : Option Nat) : World :=
  let now := min began w.now
  let w := w.tell (expire reg now w.state)
  match issueLocked reg w.state t person now draws generation with
  | (.error _, s) => { w with state := s }
  | (.ok (r, position), s) =>
    let g := generation.getD 0
    { w with
      state := s
      past := { w.past with
        drawn := g :: w.past.drawn
        arrived := if position = 0 then w.past.arrived else w.past.arrived ++ [(r, g)]
        told := ⟨t.principal, r, position⟩ :: w.past.told } }

def World.runUpload (reg : TransferRegistry) (w : World) (principal : FilePrincipal)
    (person : String) (draws : List (Option Nat)) : World :=
  match Transfers.runUpload reg w.state principal person draws with
  | (.error _, _) => w
  | (.ok r, s) => { w with state := s, guards := w.guards.set r .piece }

def World.present (w : World) (call : Nat) (peer : IpAddr) (preamble : Preamble) : World :=
  match w.calls.get call, w.state.entries.get preamble.reference with
  | none, some e =>
    let fromPeer := e.transfer.peer.all fun expected => expected.toCanonical == peer.toCanonical
    { w with
      calls := w.calls.set call (.read ⟨preamble, e, fromPeer⟩)
      past := { w.past with
        foreign := if fromPeer then w.past.foreign else e.generation :: w.past.foreign } }
  | _, _ => w

def World.judge (w : World) (call : Nat) : World :=
  match w.calls.get call with
  | some (.read p) =>
    let session := w.alive p.entry.transfer.principal
    if decide (w.now < p.entry.expires) && session && p.fromPeer && p.entry.queued.isSome then
      { w with calls := w.calls.drop call }.answer p w.now session (.error .busy) false
    else { w with calls := w.calls.set call (.judged p w.now session) }
  | _ => w

/-- What a presentation that spends its reference is answered. -/
def Presented.outcome (reg : TransferRegistry) (p : Presented) (judgedAt : Nat) (session : Bool) :
    Except FileError PreparedTransfer :=
  if decide (judgedAt < p.entry.expires) && session && p.fromPeer then
    resolve reg.digestMatches p.entry.transfer p.preamble
  else .error .notFound

def World.spend (reg : TransferRegistry) (w : World) (call : Nat) : World :=
  match w.calls.get call with
  | some (.judged p judgedAt session) =>
    let r := p.preamble.reference
    let w := { w with calls := w.calls.drop call }
    if (w.state.entries.get r).any fun e => e.generation == p.entry.generation then
      let result := p.outcome reg judgedAt session
      let claimed := match result with
        | .ok _ => true
        | .error _ => false
      let guard := if claimed then Guard.transfer p.entry.generation else .failed
      let w := { w with
        state := w.state.spend r p.entry
        guards := if (direction p.entry.transfer).isSome then w.guards.set r guard else w.guards
        past := { w.past with
          claimed := if claimed then p.entry.generation :: w.past.claimed else w.past.claimed } }
      w.answer p judgedAt session result true
    else w.answer p judgedAt session (.error .notFound) false
  | _ => w

def World.letGo (reg : TransferRegistry) (w : World) (r : Nat) : World :=
  match w.guards.get r with
  | none => w
  | some _ => { w with guards := w.guards.drop r }.tell (Transfers.letGo reg w.now w.state r)

def World.kill (reg : TransferRegistry) (w : World) (principal : FilePrincipal) (r : Nat) : World :=
  let ended := (w.state.entries.get r).filter fun e => e.transfer.principal == principal
  let w := w.tell (Transfers.kill reg w.now w.state principal r).2
  { w with past := { w.past with killed := (ended.map Entry.generation).toList ++ w.past.killed } }

def World.gather (w : World) (call : Nat) : World :=
  match w.calls.get call with
  | none =>
    let waiting := w.state.queue.filterMap fun r =>
      (w.state.entries.get r).map fun e => (r, e.transfer.principal)
    { w with calls := w.calls.set call (.gathered waiting []) }
  | some _ => w

def World.lookUp (w : World) (call : Nat) : World :=
  match w.calls.get call with
  | some (.gathered ((r, p) :: waiting) gone) =>
    let gone := if w.alive p then gone else gone ++ [r]
    { w with calls := w.calls.set call (.gathered waiting gone) }
  | _ => w

def World.clear (reg : TransferRegistry) (w : World) (call began : Nat) : World :=
  match w.calls.get call with
  | some (.gathered [] gone) =>
    { w with calls := w.calls.drop call }.tell (sweepLocked reg (min began w.now) w.state gone)
  | _ => w

def act (reg : TransferRegistry) (w : World) : Op → World
  | .wait d => { w with now := w.now + d }
  | .login uid serial => { w with sessions := w.sessions.set uid serial }
  | .logout uid => { w with sessions := w.sessions.drop uid }
  | .issueAs t person began draws generation => w.issueAs reg t person began draws generation
  | .runUpload principal person draws => w.runUpload reg principal person draws
  | .present call peer preamble => w.present call peer preamble
  | .judge call => w.judge call
  | .spend call => w.spend reg call
  | .letGo r => w.letGo reg r
  | .kill principal r => w.kill reg principal r
  | .gather call => w.gather call
  | .lookUp call => w.lookUp call
  | .clear call began => w.clear reg call began

def step (reg : TransferRegistry) (w : World) (op : Op) : World := (act reg w op).mark

def run (reg : TransferRegistry) (ops : List Op) : World := ops.foldl (step reg) {}

end HxdNg.Transfers
