import HxdNg.Limits.ConnGate

/-!
# The transfer registry

A control session is issued a reference for a transfer, and a transfer connection presents it to claim
the transfer. A download past a limit waits in a queue.

* `PreparedTransfer`, `Preamble` : what a reference stands for, and what a connection presents;
  `resolve` checks the one against the other;
* `Entry`, `Running`, `State` : references issued, transfers running, and the queue;
* `inUse`, `mayStart`, `Turn`, `promote`, `expire` : what counts against a limit, and who starts;
* `issueLocked`, `runUpload`, `kill`, `letGo` : what is done under the registry's lock in one step.

Instants are `Nat`. The keys of a sealed session are known by a number.
-/

namespace HxdNg.Transfers

open Assoc (Map)
open Limits (IpAddr)

structure FilePrincipal where
  uid : Nat
  serial : Nat
  deriving DecidableEq

inductive FileError where
  | notFound
  | invalidPath
  | busy
  | tooManyTransfers
  | rangeInvalid
  | tooLarge
  | unavailable
  deriving DecidableEq

/-- A resume digest, as `hxfiles_xfer` encodes one. -/
abbrev Digest := List UInt8

structure UploadQuote where
  dataOffset : Nat
  resourceOffset : Nat
  generation : Bytes 16
  digest : Option Digest
  deriving DecidableEq

inductive Prepared where
  | download (large : Bool) (transferLen : Nat)
  | folder (large fits : Bool)
  | folderUpload
  | upload (transferLen : Option Nat) (large : Bool) (quote : Option UploadQuote)
  | banner
  deriving DecidableEq

structure PreparedTransfer where
  principal : FilePrincipal
  account : String
  peer : Option IpAddr
  hope : Option Nat
  what : Prepared
  deriving DecidableEq

inductive Direction where
  | down
  | up
  deriving DecidableEq

def direction (t : PreparedTransfer) : Option Direction :=
  match t.what with
  | .download .. | .folder .. => some .down
  | .upload .. | .folderUpload => some .up
  | .banner => none

def isBanner (t : PreparedTransfer) : Bool := t.what == .banner

def isFolder (t : PreparedTransfer) : Bool :=
  match t.what with
  | .folder .. => true
  | _ => false

/-! ## What a connection presents -/

structure Flags where
  largeFile : Bool := false
  size64 : Bool := false
  resume : Bool := false
  deriving DecidableEq

def Flags.any (f : Flags) : Bool := f.largeFile || f.size64 || f.resume

structure Preamble where
  reference : Nat
  transferLen : Nat
  typeCode : Nat
  flags : Flags
  resumeDigest : Option Digest

def maxU64 : Nat := 2 ^ 64 - 1

/-- Whether an upload under `quote` is continued, for what the handshake says of it. -/
def resumes (matches_ : Digest → Digest → Bool) (transferLen : Option Nat) (large : Bool)
    (quote : Option UploadQuote) (p : Preamble) : Except FileError Bool :=
  match quote, p.resumeDigest with
  | some q, some echoed =>
    if q.digest.any fun expected => matches_ expected echoed then .ok true else .error .invalidPath
  | some q, none =>
    if p.flags.largeFile then .ok false
    else if 2 ^ 32 - 1 < q.dataOffset ∨ 2 ^ 32 - 1 < q.resourceOffset ∨
        (large = true ∧ transferLen = none) then .error .invalidPath
    else .ok true
  | none, some _ => .error .invalidPath
  | none, none => .ok false

/-- The size a claimed upload has: as declared, or what was quoted and what the handshake states. -/
def resolvedLen (transferLen : Option Nat) (resumed : Nat) (p : Preamble) : Except FileError Nat :=
  match transferLen with
  | some total =>
    if total < resumed then .error .rangeInvalid
    else if p.transferLen ≠ total - resumed then .error .invalidPath
    else .ok total
  | none => if maxU64 < resumed + p.transferLen then .error .tooLarge else .ok (resumed + p.transferLen)

/-- A transfer as the handshake that claims it settles it, or why the handshake is refused. -/
def resolve (matches_ : Digest → Digest → Bool) (t : PreparedTransfer) (p : Preamble) :
    Except FileError PreparedTransfer :=
  match t.what with
  | .banner => if p.flags.resume then .error .invalidPath else .ok t
  | .folder large fits =>
    if (p.flags.largeFile && !large) || (!p.flags.largeFile && !fits) || p.flags.resume then
      .error .invalidPath
    else .ok { t with what := .folder p.flags.largeFile fits }
  | .folderUpload => if p.flags.any then .error .invalidPath else .ok t
  | .download large len =>
    if p.typeCode ≠ 0 then .error .invalidPath
    else if (p.flags.largeFile && !large) || (!p.flags.largeFile && !decide (len ≤ 2 ^ 32 - 1)) ||
        p.flags.resume then .error .invalidPath
    else .ok t
  | .upload transferLen large quote =>
    if p.typeCode ≠ 0 then .error .invalidPath
    else if p.flags.largeFile && !large then .error .invalidPath
    else do
      let resumed ← resumes matches_ transferLen large quote p
      let bytes := match quote with
        | some q => if resumed then min (q.dataOffset + q.resourceOffset) maxU64 else 0
        | none => 0
      let total ← resolvedLen transferLen bytes p
      return { t with what := .upload (some total) p.flags.largeFile (if resumed then quote else none) }

/-! ## The registry's state -/

structure EntryLimits where
  total : Nat
  perSession : Nat
  perAccount : Nat

/-- How many downloads and uploads may run at once, a person's and the server's; 0 for no limit. -/
structure TransferLimits where
  downloadsPerAccount : Nat := 0
  uploadsPerAccount : Nat := 0
  downloads : Nat := 0
  uploads : Nat := 0
  queue : Nat := 0

structure TransferRegistry where
  limits : EntryLimits
  ttl : Nat
  transfers : TransferLimits
  digestMatches : Digest → Digest → Bool

structure Entry where
  generation : Nat
  transfer : PreparedTransfer
  expires : Nat
  queued : Option Nat
  person : String
  deriving DecidableEq

structure Running where
  direction : Direction
  principal : FilePrincipal
  person : String
  cancel : Bool
  deriving DecidableEq

structure State where
  entries : Map Nat Entry := Map.empty
  running : Map Nat Running := Map.empty
  queue : List Nat := []
  issued : List (Nat × Nat) := []

/-- A position a session is told its reference stands at, 0 when it may start. -/
structure Told where
  principal : FilePrincipal
  reference : Nat
  position : Nat
  deriving DecidableEq

/-! ## Who may start -/

def Entry.counts (e : Entry) (dir : Direction) : Bool :=
  e.queued == none && direction e.transfer == some dir

/-- The members of a map that `p` holds of. -/
def count {ν : Type} (m : Map Nat ν) (p : ν → Bool) : Nat := m.entries.countP fun kv => p kv.2

/-- What counts against `person`'s and everyone's limit for `dir`: references issued and not waiting,
and transfers running. -/
def inUse (entries : Map Nat Entry) (running : Map Nat Running) (dir : Direction) (person : String) :
    Nat × Nat :=
  (count entries (fun e => e.counts dir && e.person == person) +
      count running fun r => r.direction == dir && r.person == person,
    count entries (fun e => e.counts dir) + count running fun r => r.direction == dir)

/-- Whether one more fits under a limit, 0 being none. -/
def under (limit used : Nat) : Bool := limit == 0 || decide (used < limit)

def TransferLimits.perAccount (l : TransferLimits) : Direction → Nat
  | .down => l.downloadsPerAccount
  | .up => l.uploadsPerAccount

def TransferLimits.total (l : TransferLimits) : Direction → Nat
  | .down => l.downloads
  | .up => l.uploads

def mayStart (l : TransferLimits) (entries : Map Nat Entry) (running : Map Nat Running)
    (dir : Direction) (person : String) : Bool :=
  let (mine, all) := inUse entries running dir person
  under (l.perAccount dir) mine && under (l.total dir) all

def maxPosition : Nat := 65535

/-- `promote`'s loop: the entries as they stand, who goes on waiting, the position the last of them
has, and whom to tell. -/
structure Turn where
  entries : Map Nat Entry
  waiting : List Nat := []
  position : Nat := 0
  told : List Told := []

def promoteOne (reg : TransferRegistry) (running : Map Nat Running) (now : Nat) (t : Turn)
    (reference : Nat) : Turn :=
  match t.entries.get reference with
  | none => t
  | some entry =>
    let principal := entry.transfer.principal
    -- Only downloads wait.
    if mayStart reg.transfers t.entries running ((direction entry.transfer).getD .down) entry.person then
      { t with
        entries := t.entries.set reference { entry with queued := none, expires := now + reg.ttl }
        told := t.told ++ [⟨principal, reference, 0⟩] }
    else
      let position := min (t.position + 1) maxPosition
      let t := { t with position, waiting := t.waiting ++ [reference] }
      if entry.queued ≠ some position then
        { t with
          entries := t.entries.set reference { entry with queued := some position }
          told := t.told ++ [⟨principal, reference, position⟩] }
      else t

/-- Starts what waits and now may, in the order it came, and renumbers the rest. -/
def promote (reg : TransferRegistry) (now : Nat) (s : State) : State × List Told :=
  let t := s.queue.foldl (promoteOne reg s.running now) { entries := s.entries }
  ({ s with entries := t.entries, queue := t.waiting }, t.told)

/-- What neither waits nor has outlived its deadline. -/
def unexpired (now : Nat) (entries : Map Nat Entry) : Map Nat Entry :=
  entries.filter fun kv => kv.2.queued.isSome || decide (now < kv.2.expires)

/-- Drops what has expired unclaimed, and starts what that made room for. -/
def expire (reg : TransferRegistry) (now : Nat) (s : State) : State × List Told :=
  let kept := unexpired now s.entries
  if kept.entries.length = s.entries.entries.length then (s, [])
  else promote reg now { s with entries := kept }

/-! ## Issuing -/

/-- Whether one more entry fits beside those its session and its account have outstanding. -/
def EntryLimits.admits (l : EntryLimits) (entries : Map Nat Entry) (t : PreparedTransfer) : Bool :=
  let owners := (entries.entries.map fun kv => kv.2.transfer).filter fun u => !isBanner u
  decide (entries.entries.length < l.total) &&
    (owners.isEmpty ||
      decide (owners.countP (fun u => u.principal == t.principal) < l.perSession) &&
        decide (owners.countP (fun u => u.account == t.account) < l.perAccount))

/-- The first of 64 draws that may be used, unless the system fails to draw one first. -/
def allocate (free : Nat → Bool) (draws : List (Option Nat)) : Option Nat :=
  match (draws.take 64).find? fun d => d.all free with
  | some (some r) => some r
  | _ => none

def State.unused (s : State) (r : Nat) : Bool :=
  r != 0 && (s.entries.get r).isNone && (s.running.get r).isNone

/-- Whether `reference` is new to the keys `hope`. -/
def State.claims (s : State) (hope : Option Nat) (r : Nat) : Bool :=
  hope.all fun keys => decide ((keys, r) ∉ s.issued)

/-- Where a transfer would wait, 0 when it may start now. -/
def TransferRegistry.place (reg : TransferRegistry) (s : State) (t : PreparedTransfer)
    (person : String) : Except FileError (Option Nat) :=
  match direction t with
  | none => .ok none
  | some dir =>
    if mayStart reg.transfers s.entries s.running dir person then .ok none
    else if dir = .up then .error .tooManyTransfers
    else if reg.transfers.queue ≠ 0 ∧ reg.transfers.queue ≤ s.queue.length then .error .busy
    else .ok (some (min (s.queue.length + 1) maxPosition))

/-- Whether the registry takes the entry: within the bounds on entries, and no second folder walked
for one session. -/
def TransferRegistry.admitted (reg : TransferRegistry) (s : State) (t : PreparedTransfer) : Bool :=
  (if isBanner t then decide (s.entries.entries.length < reg.limits.total)
    else reg.limits.admits s.entries t) &&
  !(isFolder t && s.entries.entries.any fun kv =>
      isFolder kv.2.transfer && kv.2.transfer.principal == t.principal)

/-- The entry made, for the reference and the generation drawn. -/
def State.enter (s : State) (r : Nat) (e : Entry) : State :=
  { entries := s.entries.set r e
    running := s.running
    queue := if e.queued.isSome then s.queue ++ [r] else s.queue
    issued := match e.transfer.hope with
      | some keys => (keys, r) :: s.issued
      | none => s.issued }

/-- The reference issued and the position it waits at, with the state that leaves. -/
def issueLocked (reg : TransferRegistry) (s : State) (t : PreparedTransfer) (person : String)
    (now : Nat) (draws : List (Option Nat)) (generation : Option Nat) :
    Except FileError (Nat × Nat) × State :=
  if reg.admitted s t then
    match reg.place s t person with
    | .error why => (.error why, s)
    | .ok queued =>
      match allocate (fun r => s.unused r && s.claims t.hope r) draws with
      | none => (.error .unavailable, s)
      | some r =>
        match generation with
        -- The keys have counted the reference theirs by now.
        | none => (.error .unavailable, { s with issued := match t.hope with
            | some keys => (keys, r) :: s.issued
            | none => s.issued })
        | some g =>
          (.ok (r, queued.getD 0),
            s.enter r
              { generation := g, transfer := t, expires := now + reg.ttl, queued, person })
  else (.error .busy, s)

/-! ## Running -/

/-- A piece of an ng upload, which has no reference of its own, counted while it runs. -/
def runUpload (reg : TransferRegistry) (s : State) (principal : FilePrincipal) (person : String)
    (draws : List (Option Nat)) : Except FileError Nat × State :=
  if mayStart reg.transfers s.entries s.running .up person then
    match allocate s.unused draws with
    | none => (.error .unavailable, s)
    | some r =>
      (.ok r, { s with running := s.running.set r ⟨.up, principal, person, false⟩ })
  else (.error .tooManyTransfers, s)

/-- `RunningTransfer`'s end. -/
def letGo (reg : TransferRegistry) (now : Nat) (s : State) (r : Nat) : State × List Told :=
  promote reg now { s with running := s.running.drop r }

/-- Spends a reference, and runs its transfer from here. -/
def State.spend (s : State) (r : Nat) (e : Entry) : State :=
  { s with
    entries := s.entries.drop r
    queue := s.queue.filter (· ≠ r)
    running := match direction e.transfer with
      | some dir => s.running.set r ⟨dir, e.transfer.principal, e.person, false⟩
      | none => s.running }

/-- Kill Download: ends a reference if it is the principal's. -/
def kill (reg : TransferRegistry) (now : Nat) (s : State) (principal : FilePrincipal) (r : Nat) :
    Bool × State × List Told :=
  if (s.entries.get r).any fun e => e.transfer.principal == principal then
    (true, promote reg now { s with entries := s.entries.drop r })
  else
    match s.running.get r with
    | some run =>
      if run.principal = principal then
        (true, { s with running := s.running.set r { run with cancel := true } }, [])
      else (false, s, [])
    | none => (false, s, [])

/-- What a sweep drops once it has found whose sessions have ended. -/
def sweepLocked (reg : TransferRegistry) (now : Nat) (s : State) (gone : List Nat) :
    State × List Told :=
  promote reg now { s with entries := unexpired now (gone.foldl Map.drop s.entries) }

end HxdNg.Transfers
