import HxdNg.Registrars.Store

/-!
# The registrar

Registration, the records users post, the operator's actions and the side effects of the lists. Every
write is one decision and what it leads to, under one lock; a refusal keeps what was written on the
way in, a due rotation. Times are Unix seconds and the caller's.

What the rate limits and the table of answered requests say is given to a call: `limited` is the wait
a limit asks for, `seen` the answer the same request got before.
-/

namespace HxdNg.Registrars

open HxdNg.Identity
open Assoc

/-- The number of seconds in a day. -/
def day : UInt64 := 86400

def satMul (a b : UInt64) : UInt64 := UInt64.ofNat (min (a.toNat * b.toNat) maxWord)

/-- Who may register. -/
inductive Signup where
  | anyone
  | invite
  | closed
  deriving DecidableEq

structure Config where
  /-- The name attestations carry as `registrar`. -/
  host : String
  signup : Signup
  proofUrl : Option String
  level : UInt64
  attestationDays : UInt64
  holdDays : UInt64
  handleMin : Nat
  handleMax : Nat
  reserved : List String
  /-- Seconds a posted rotation is held before it is published. -/
  rotationDelay : UInt64
  recordsMaxAge : UInt64
  retiring : List (PublicKey × UInt64)
  clockSkew : UInt64

/-- Why a request was refused. -/
inductive Refusal where
  | badRequest (why : String)
  | malformed (e : Error)
  | badSignature
  | badTime
  | handleInvalid
  | handleReserved
  | handleTaken
  | handleHeld
  | proofRequired (url : Option String)
  | proofInvalid
  | signupClosed
  | frozen
  /-- Revoked, or rotated away to `successor`. -/
  | revoked (successor : Option PublicKey)
  | successorMismatch
  | notRegistered
  | tooLarge
  | rateLimited (retryAfter : UInt64)
  deriving DecidableEq

/-- Why an operator's action was. -/
inductive OpError where
  | unknownIdentity
  | unknownHandle
  | sameIdentity
  deriving DecidableEq

/-- How a parse failure is answered. -/
def parseRefusal : Error → Refusal
  | .badSignature => .badSignature
  | .invalidKey => .badSignature
  | .tooLarge => .tooLarge
  | e => .malformed e

/-- The answer to a registration. -/
structure Registered where
  attestation : List UInt8
  handle : String
  registered : UInt64
  expires : UInt64
  reissued : Bool
  deriving DecidableEq

/-- The answer to a posted record. -/
inductive Posted where
  | published (seq : Nat)
  | pending (lastsUntil : UInt64)
  deriving DecidableEq

/-- An invite with its grouping and case taken out, which is what is hashed. -/
def inviteHash (code : String) : List UInt8 :=
  utf8 (String.ofList ((code.toList.filter fun c => !isWhitespace c && c ≠ '-').map Char.toUpper))

/-- The identity's standing, for anything that writes on its behalf. -/
def usable (row : IdentityRow) : Except Refusal Unit :=
  match row.rotatedTo with
  | some successor => .error (.revoked (some successor))
  | none =>
    if row.revoked then .error (.revoked none)
    else if row.frozen then .error .frozen
    else .ok ()

/-- What a request may have of a handle. -/
structure Claim where
  registered : UInt64
  first : Bool
  recovery : Option String

/-- A registrar: its settings and its key. -/
structure Registrar extends Config where
  key : Bytes 32

namespace Registrar

variable (P : Primitives) (R : Registrar) (s : State)

def hold : UInt64 := satMul R.holdDays day

def keys : List PublicKey := P.ed25519Public R.key :: R.retiring.map Prod.fst

/-- Who the records it signed come from. -/
def signer : RegistrarKeys := ⟨R.host, R.keys P⟩

/-- The records naming a key, as `identity` or as `other`. -/
def recordsOf (key : PublicKey) : List NewRecord :=
  s.records.filter fun r => r.identity = key ∨ r.other = some key

/-- What a record revokes through when, if it is a revocation of the identity's attestations for the
handle. -/
def revokes (identity : PublicKey) (handle : String) (r : NewRecord) : Option UInt64 :=
  match Record.parse P r.bytes (some (R.signer P)) with
  | .ok (.revokeAttestation r) => if r.identity = identity ∧ r.handle = handle then some r.time else none
  | _ => none

/-- The latest time this registrar revoked the identity's attestations for the handle. -/
def revokedThrough (identity : PublicKey) (handle : String) : Option UInt64 :=
  ((recordsOf s identity).filterMap (R.revokes P identity handle)).max?

/-- `now`, or the second after an earlier revocation. -/
def past (through : Option UInt64) (now : UInt64) : UInt64 :=
  match through with
  | some t => if t ≥ now then satAdd t 1 else now
  | none => now

/-! ## Rotations and revocations -/

/-- A revocation of the identity's attestations for the handle. Dated past the earlier ones, it voids
everything `register` could have issued. -/
def attestationRevocation (identity : PublicKey) (handle : String) (reason now : UInt64) : NewRecord :=
  let time := past (R.revokedThrough P s identity handle) now
  let r : AttestationRevocation := ⟨identity, R.host, handle, time, some reason⟩
  ⟨.revokeAttestation, identity, none, some ((s.attestationsExpire identity handle time).getD time),
    r.sign P R.key⟩

/-- Whether `row` may rotate to `successor` as things stand. -/
def rotationAllowed (row : IdentityRow) (successor : PublicKey) : Except Refusal Unit :=
  if row.commitment.any fun c => c ≠ Fingerprint.of P successor then .error .successorMismatch
  else if (s.identities.get successor).any fun succ => succ.revoked || succ.rotatedTo.isSome then
    .error (.badRequest "the successor key is revoked or rotated away")
  else .ok ()

/-- The record under both keys, the handles moved with their age, and the predecessor's attestations
revoked. -/
def publishRotation (source target : PublicKey) (bytes : List UInt8) (now : UInt64) : List Nat × State :=
  let revocations := (s.handlesOf source).map fun h =>
    R.attestationRevocation P s source h.name attestationReason.rotated now
  s.publish (⟨.rotate, source, some target, none, bytes⟩ :: revocations)
    [.rotate source target now, .dropPending source]

/-- Why a held rotation is not published after all. -/
def dueRefused (p : Pending) : Option Refusal :=
  match s.identities.get p.identity with
  | none => some .notRegistered
  | some row =>
    match usable row, rotationAllowed P s row p.successor with
    | .error e, _ => some e
    | .ok (), .error e => some e
    | .ok (), .ok () => none

def publishOne (now : UInt64) (p : Pending) : State :=
  match dueRefused P s p with
  | some _ => (s.publish [] [.dropPending p.identity]).2
  | none => (R.publishRotation P s p.identity p.successor p.bytes now).2

/-- Publish every pending rotation whose delay has passed. -/
def publishDue (now : UInt64) : State := (s.pendingDue now).foldl (fun s p => R.publishOne P s now p) s

/-! ## Registration -/

/-- What the request may have of the handle it names. -/
def claimOf (req : RegisterRequest) (now : UInt64) : Except Refusal Claim :=
  match s.recoveries.get req.handle, s.handles.get req.handle with
  | some g, existing =>
    -- An operator's recovery: the grantee's next request is a reissue, and anyone else waits.
    if g.fingerprint = Fingerprint.of P req.identity then
      let registered := match existing, g.keepAge with
        | some h, true => h.registered
        | _, _ => now
      .ok ⟨registered, false, some g.handle⟩
    else .error .handleHeld
  | none, some h =>
    if h.identity = req.identity then
      match h.state now R.hold with
      | .released => .ok ⟨now, true, none⟩
      | _ => if h.barred then .error .handleHeld else .ok ⟨h.registered, false, none⟩
    else
      match h.state now R.hold with
      | .held => .error .handleTaken
      | .lapsed => .error .handleHeld
      | .released => .ok ⟨now, true, none⟩
  | none, none => .ok ⟨now, true, none⟩

/-- The invite a first registration is to spend. -/
def admitted (req : RegisterRequest) : Except Refusal (Option (List UInt8)) :=
  match R.signup with
  | .closed => .error .signupClosed
  | .anyone => .ok none
  | .invite =>
    match req.proof with
    | none => .error (.proofRequired R.proofUrl)
    | some code =>
      if s.inviteOpen (inviteHash code) then .ok (some (inviteHash code)) else .error .proofInvalid

/-- What a first registration has to pass besides, and the invite it spends. -/
def newcomer (req : RegisterRequest) (first : Bool) (limited : Option UInt64) :
    Except Refusal (Option (List UInt8)) :=
  if ¬ first then .ok none
  else if R.reserved.contains req.handle then .error .handleReserved
  else do
    let invite ← R.admitted s req
    match limited with
    | some wait => .error (.rateLimited wait)
    | none => return invite

def checkIdentity (req : RegisterRequest) : Except Refusal Unit :=
  match s.identities.get req.identity with
  | none => .ok ()
  | some row => do
    usable row
    -- Once recorded, the commitment is immutable: a request that changes or drops it is refused.
    if row.commitment.isSome ∧ req.successor ≠ row.commitment then throw .successorMismatch
    else return ()

def issuedAt (req : RegisterRequest) (now : UInt64) : UInt64 :=
  match s.identities.get req.identity with
  | some _ => past (R.revokedThrough P s req.identity req.handle) now
  | none => now

/-- What a registration comes to, decided on the state as it stands. -/
def registration (req : RegisterRequest) (limited : Option UInt64) (now : UInt64) :
    Except Refusal Issue := do
  checkIdentity s req
  let claim ← R.claimOf P s req now
  let invite ← R.newcomer s req claim.first limited
  let issued := R.issuedAt P s req now
  if issued > satAdd now R.clockSkew then throw (.rateLimited (issued - now - R.clockSkew))
  else
    let expires := satAdd issued (satMul R.attestationDays day)
    let attestation : Attestation :=
      { identity := req.identity, registrar := R.host, registrarKey := P.ed25519Public R.key
        handle := req.handle, registered := claim.registered, issued, expires, level := some R.level }
    return {
      identity := req.identity
      commitment := req.successor
      handle := ⟨req.handle, req.identity, claim.registered, expires, none, false⟩
      first := claim.first
      attestation
      bytes := attestation.sign P R.key
      invite
      recovery := claim.recovery }

/-- Decide a parsed request and write what it comes to. -/
def registerNow (req : RegisterRequest) (limited : Option UInt64) (now : UInt64) :
    Except Refusal Registered × State :=
  match R.registration P s req limited now with
  | .error e => (.error e, s)
  | .ok w =>
    match s.issue w with
    | none => (.error .proofInvalid, s)
    | some s' =>
      (.ok ⟨w.bytes, w.handle.name ++ "@" ++ R.host, w.handle.registered, w.handle.expires, !w.first⟩, s')

def register (bytes : List UInt8) (limited : Option UInt64) (seen : Option Registered) (now : UInt64) :
    Except Refusal Registered × State :=
  match RegisterRequest.parse P bytes with
  | .error e => (.error (parseRefusal e), s)
  | .ok req =>
    if req.registrar ≠ R.host then
      (.error (.badRequest ("this registrar is " ++ R.host ++ ", not " ++ req.registrar)), s)
    else if absDiff req.time now > R.clockSkew then (.error .badTime, s)
    else
      match seen with
      -- A replay inside the skew window is answered with what the request got the first time.
      | some reply => (.ok reply, s)
      | none =>
        if ¬ handleIsCanonical req.handle R.handleMin R.handleMax then (.error .handleInvalid, s)
        else R.registerNow P (R.publishDue P s now) req limited now

/-! ## Records -/

/-- Publish an accepted rotation, or hold it. -/
def acceptRotation (row : IdentityRow) (r : Rotation) (bytes : List UInt8) (now : UInt64) :
    Except Refusal Posted × State :=
  if (s.pending.get r.identity).isSome then
    (.error (.badRequest "a rotation for this identity is already pending"), s)
  else
    match rotationAllowed P s row r.successor with
    | .error e => (.error e, s)
    | .ok () =>
      if R.rotationDelay > 0 then
        let publishAt := satAdd now R.rotationDelay
        (.ok (.pending publishAt),
          (s.publish [] [.setPending ⟨r.identity, r.successor, publishAt, bytes⟩]).2)
      else
        let (seqs, s') := R.publishRotation P s r.identity r.successor bytes now
        (.ok (.published (seqs.headD 0)), s')

/-- What an accepted record does. -/
def accept (row : IdentityRow) (record : Record) (bytes : List UInt8) (now : UInt64) :
    Except Refusal Posted × State :=
  match record with
  | .revokeDevice r =>
    let (seqs, s') := s.publish [⟨.revokeDevice, r.identity, none, some r.lastsUntil, bytes⟩] []
    (.ok (.published (seqs.headD 0)), s')
  | .revokeIdentity r =>
    -- Permanent: the handles lapse now, and a pending rotation has nothing left to rotate.
    let (seqs, s') := s.publish [⟨.revokeIdentity, r.identity, none, none, bytes⟩]
      [.revoke r.identity, .lapseHandles r.identity now, .dropPending r.identity]
    (.ok (.published (seqs.headD 0)), s')
  | .rotate r => R.acceptRotation P s row r bytes now
  | .freeze _ | .revokeAttestation _ =>
    (.error (.badRequest "registrar-signed records come from the registrar's own tools"), s)

/-- Decide a parsed record and write what it comes to. -/
def postNow (record : Record) (bytes : List UInt8) (limited : Option UInt64) (now : UInt64) :
    Except Refusal Posted × State :=
  match s.recordSeq bytes with
  -- Posting again after a lost reply is not a failure.
  | some seq => (.ok (.published seq), s)
  | none =>
    match (s.pending.get record.identity).filter fun p => p.bytes = bytes with
    | some p => (.ok (.pending p.publishAt), s)
    | none =>
      match s.identities.get record.identity with
      | none => (.error .notRegistered, s)
      | some row =>
        match usable row, limited with
        | .error e, _ => (.error e, s)
        | .ok (), some wait => (.error (.rateLimited wait), s)
        | .ok (), none => R.accept P s row record bytes now

/-- Accept a user-signed record. -/
def postRecord (bytes : List UInt8) (limited : Option UInt64) (now : UInt64) :
    Except Refusal Posted × State :=
  match Record.parse P bytes (some (R.signer P)) with
  | .error e => (.error (parseRefusal e), s)
  | .ok record =>
    if ¬ record.userSigned then
      (.error (.badRequest "registrar-signed records come from the registrar's own tools"), s)
    else if record.time > satAdd now R.clockSkew then (.error .badTime, s)
    else R.postNow P (R.publishDue P s now) record bytes limited now

/-! ## Cards and the operator -/

/-- Record an accepted card's commitment, for an identity attested here that has none yet. -/
def noteCard (identity : PublicKey) (successor : Option (Bytes 32)) : State :=
  successor.elim s (s.setCommitment identity)

/-- A freeze's time: past every earlier one of the identity. -/
def freezeTime (key : PublicKey) (now : UInt64) : UInt64 :=
  (recordsOf s key).foldl (fun time r =>
    match Record.parse P r.bytes (some (R.signer P)) with
    | .ok (.freeze f) => max time (f.time + 1)
    | _ => time) now

/-- Freeze or lift. A freeze cancels a pending rotation. -/
def freeze (fp : Fingerprint) (frozen : Bool) (now : UInt64) : Except OpError Nat × State :=
  let s := R.publishDue P s now
  match s.identityByFingerprint P fp with
  | none => (.error .unknownIdentity, s)
  | some row =>
    let f : Freeze := ⟨row.key, R.host, frozen, R.freezeTime P s row.key now⟩
    let (seqs, s') := s.publish [⟨.freeze, row.key, none, none, f.sign P R.key⟩]
      (.setFrozen row.key frozen :: if frozen then [.dropPending row.key] else [])
    (.ok (seqs.headD 0), s')

/-- Withdraw the registrar's word for a handle; with `bar` the holder may not reissue it. -/
def revokeHandle (handle : String) (reason : UInt64) (bar : Bool) (now : UInt64) :
    Except OpError Nat × State :=
  let handle := handle.toLower
  let s := R.publishDue P s now
  match s.handles.get handle with
  | none => (.error .unknownHandle, s)
  | some h =>
    let (seqs, s') := s.publish [R.attestationRevocation P s h.identity handle reason now]
      [.lapseHandle handle now bar]
    (.ok (seqs.headD 0), s')

/-- Void the old key's attestations for the handle, and grant its next registration to `newFp`. -/
def recover (handle : String) (newFp : Fingerprint) (keepAge : Bool) (now : UInt64) :
    Except OpError Nat × State :=
  let handle := handle.toLower
  let s := R.publishDue P s now
  match s.handles.get handle with
  | none => (.error .unknownHandle, s)
  | some h =>
    if Fingerprint.of P h.identity = newFp then (.error .sameIdentity, s)
    else
      let (seqs, s') := s.publish
        [R.attestationRevocation P s h.identity handle attestationReason.recovered now]
        [.lapseHandle handle now true, .grantRecovery ⟨handle, newFp, keepAge, now⟩]
      (.ok (seqs.headD 0), s')

def addInvites (codes : List String) : State := s.addInvites (codes.map inviteHash)

/-! ## Runs -/

/-- One call. -/
inductive Op where
  | register (bytes : List UInt8) (limited : Option UInt64) (seen : Option Registered)
  | postRecord (bytes : List UInt8) (limited : Option UInt64)
  | freeze (fp : Fingerprint) (frozen : Bool)
  | revokeHandle (handle : String) (reason : UInt64) (bar : Bool)
  | recover (handle : String) (newFp : Fingerprint) (keepAge : Bool)
  | noteCard (identity : PublicKey) (successor : Option (Bytes 32))
  | addInvites (codes : List String)
  | list
  | read

/-- The state a call leaves, made at `now`. -/
def step (now : UInt64) : Op → State
  | .register bytes limited seen => (R.register P s bytes limited seen now).2
  | .postRecord bytes limited => (R.postRecord P s bytes limited now).2
  | .freeze fp frozen => (R.freeze P s fp frozen now).2
  | .revokeHandle handle reason bar => (R.revokeHandle P s handle reason bar now).2
  | .recover handle newFp keepAge => (R.recover P s handle newFp keepAge now).2
  | .noteCard identity successor => noteCard s identity successor
  | .addInvites codes => addInvites s codes
  | .list => R.publishDue P s now
  | .read => s

/-- The state a run of calls leaves, from a registrar that has issued nothing. -/
def run (calls : List (UInt64 × Op)) : State :=
  calls.foldl (fun s c => R.step P s c.1 c.2) .empty

end Registrar

end HxdNg.Registrars
