import HxdNg.Registrars.Records
import HxdNg.Lib.Assoc
import HxdNg.Lib.Sorting

/-!
# What the registrar keeps

The store in memory, which the SQLite one is held to: the identities, the handles, the log of what
was issued, the records published, the rotations held back, the recoveries granted and the invites.
A record's `seq` is its place among the records, from one, and so is a log entry's. Digests are of
SHA-256 and stand for the bytes they are of.

It decides nothing: `State.issue` writes one issuance, `State.publish` records and everything they
change.
-/

namespace HxdNg.Registrars

open HxdNg.Identity
open Assoc

/-- An identity the registrar has attested at least once. -/
structure IdentityRow where
  key : PublicKey
  /-- SHA-256 of the committed successor. Once set, immutable. -/
  commitment : Option (Bytes 32)
  frozen : Bool
  revoked : Bool
  rotatedTo : Option PublicKey
  created : UInt64
  deriving DecidableEq

/-- Where a handle is in its lifecycle. -/
inductive HandleState where
  | held
  | lapsed
  | released
  deriving DecidableEq

structure HandleRow where
  name : String
  identity : PublicKey
  registered : UInt64
  /-- The latest attestation's `expires`. -/
  expires : UInt64
  lapsedAt : Option UInt64
  barred : Bool
  deriving DecidableEq

namespace HandleRow

/-- When the handle stopped being held, if it has. -/
def lapsed (h : HandleRow) (now : UInt64) : Option UInt64 :=
  match h.lapsedAt with
  | some t => some (min t h.expires)
  | none => if h.expires ≤ now then some h.expires else none

def state (h : HandleRow) (now hold : UInt64) : HandleState :=
  match h.lapsed now with
  | none => .held
  | some t => if now < satAdd t hold then .lapsed else .released

end HandleRow

/-- One attestation, and everything its issuance writes. -/
structure Issue where
  identity : PublicKey
  /-- Created with the identity row, or set on it when it has none. -/
  commitment : Option (Bytes 32)
  handle : HandleRow
  first : Bool
  attestation : Attestation
  bytes : List UInt8
  invite : Option (List UInt8)
  recovery : Option String

/-- An issuance in the log. -/
structure LogEntry where
  attestation : Attestation
  first : Bool
  bytes : List UInt8
  deriving DecidableEq

inductive RecordKind where
  | revokeDevice
  | revokeIdentity
  | rotate
  | freeze
  | revokeAttestation
  deriving DecidableEq

/-- A record to publish, with what the lists index it by. -/
structure NewRecord where
  kind : RecordKind
  identity : PublicKey
  other : Option PublicKey
  lastsUntil : Option UInt64
  bytes : List UInt8
  deriving DecidableEq

/-- A rotation accepted and held back. -/
structure Pending where
  identity : PublicKey
  successor : PublicKey
  publishAt : UInt64
  bytes : List UInt8
  deriving DecidableEq

/-- An operator's recovery: the handle's next registration from `fingerprint` is a reissue. -/
structure Recovery where
  handle : String
  fingerprint : Fingerprint
  /-- Whether `registered` survives. -/
  keepAge : Bool
  granted : UInt64
  deriving DecidableEq

/-- What a published record changes. -/
inductive Effect where
  | setFrozen (key : PublicKey) (frozen : Bool)
  | revoke (key : PublicKey)
  | rotate (source target : PublicKey) (time : UInt64)
  | lapseHandles (identity : PublicKey) (time : UInt64)
  | lapseHandle (name : String) (time : UInt64) (barred : Bool)
  | grantRecovery (r : Recovery)
  | setPending (p : Pending)
  | dropPending (key : PublicKey)

structure State where
  identities : Map PublicKey IdentityRow
  handles : Map String HandleRow
  log : List LogEntry
  records : List NewRecord
  pending : Map PublicKey Pending
  recoveries : Map String Recovery
  invites : Map (List UInt8) Bool

namespace State

def empty : State := ⟨.empty, .empty, [], [], .empty, .empty, .empty⟩

variable (s : State)

/-- Change the row of an identity, if it has one. -/
def onIdentity (key : PublicKey) (f : IdentityRow → IdentityRow) : State :=
  { s with identities := s.identities.mapVals fun k row => if k = key then f row else row }

/-- The row of a key first heard of at `time`. -/
def newRow (key : PublicKey) (time : UInt64) : IdentityRow := ⟨key, none, false, false, none, time⟩

def lapse (h : HandleRow) (time : UInt64) (barred : Bool) : HandleRow :=
  { h with lapsedAt := h.lapsedAt.or (some time), barred := h.barred || barred }

def apply : Effect → State
  | .setFrozen key frozen => s.onIdentity key fun row => { row with frozen := frozen }
  | .revoke key => s.onIdentity key fun row => { row with revoked := true }
  | .rotate source target time =>
    let s := s.onIdentity source fun row => { row with rotatedTo := some target }
    { s with
      identities := s.identities.set target ((s.identities.get target).getD (newRow target time))
      handles := s.handles.mapVals fun _ h =>
        if h.identity = source then { h with identity := target } else h }
  | .lapseHandles identity time =>
    { s with handles := s.handles.mapVals fun _ h =>
        if h.identity = identity then lapse h time false else h }
  | .lapseHandle name time barred =>
    { s with handles := s.handles.mapVals fun n h => if n = name then lapse h time barred else h }
  | .grantRecovery r => { s with recoveries := s.recoveries.set r.handle r }
  | .setPending p => { s with pending := s.pending.set p.identity p }
  | .dropPending key => { s with pending := s.pending.drop key }

/-- By SHA-256 of the key. -/
def identityByFingerprint (P : Primitives) (fp : Fingerprint) : Option IdentityRow :=
  s.identities.values.find? fun row => Fingerprint.of P row.key = fp

/-- Every handle row naming the identity. -/
def handlesOf (key : PublicKey) : List HandleRow := s.handles.values.filter fun h => h.identity = key

/-- Spend the invite, if one is to be spent. -/
def spendInvite : Option (List UInt8) → Option State
  | none => some s
  | some hash =>
    if s.invites.get hash = some false then some { s with invites := s.invites.set hash true }
    else none

/-- Write one issuance; nothing, if the invite cannot be spent. -/
def issue (w : Issue) : Option State :=
  (s.spendInvite w.invite).map fun s =>
    let row := (s.identities.get w.identity).getD (newRow w.identity w.attestation.issued)
    { s with
      identities := s.identities.set w.identity { row with commitment := row.commitment.or w.commitment }
      handles := s.handles.set w.handle.name w.handle
      recoveries := w.recovery.elim s.recoveries s.recoveries.drop
      log := s.log ++ [⟨w.attestation, w.first, w.bytes⟩] }

/-- The latest `expires` among the identity's attestations for the handle issued by then. -/
def attestationsExpire (identity : PublicKey) (handle : String) (issuedUpTo : UInt64) : Option UInt64 :=
  ((s.log.filter fun e => e.attestation.identity = identity ∧ e.attestation.handle = handle ∧
    e.attestation.issued ≤ issuedUpTo).map fun e => e.attestation.expires).max?

def recordSeq (bytes : List UInt8) : Option Nat :=
  (s.records.findIdx? fun r => r.bytes = bytes).map (· + 1)

/-- A record already held is not written again. -/
def write (r : NewRecord) : State :=
  if s.records.any fun held => held.bytes = r.bytes then s else { s with records := s.records ++ [r] }

/-- Write records and their effects, with each record's `seq`. -/
def publish (records : List NewRecord) (effects : List Effect) : List Nat × State :=
  let written := records.foldl write s
  (records.filterMap fun r => written.recordSeq r.bytes, effects.foldl apply written)

def setCommitment (key : PublicKey) (commitment : Bytes 32) : State :=
  s.onIdentity key fun row => { row with commitment := row.commitment.or (some commitment) }

/-- Pending rotations whose time has come, by it and then by identity. -/
def pendingDue (now : UInt64) : List Pending :=
  sortBy (fun p => beBytes 8 p.publishAt.toNat ++ p.identity.val)
    (s.pending.values.filter fun p => p.publishAt ≤ now)

def inviteOpen (hash : List UInt8) : Bool := s.invites.get hash = some false

def addInvites (hashes : List (List UInt8)) : State :=
  { s with invites := hashes.foldl (fun m h => if (m.get h).isSome then m else m.set h false) s.invites }

end State

end HxdNg.Registrars
