import HxdNg.Admission.State

/-!
# What an identity's standing here is

Rotations accepted, records applied, attestations accepted and the admission policy: steps 4 to 6 of an
admission, as far as they are about the identity rather than an account.

* `acceptRotation`, `rotationShown`, `finishRotations` : a rotation learned, and what it moves;
* `applyRecords` : what the registrars publish, oldest first;
* `admissible`, `standing` : the checks, of which the last writes nothing.
-/

namespace HxdNg.Admission

open Identity Assoc
open Registrars (Attestation Record)

variable {A : Type} (P : Primitives) (cfg : IdentityConfig) (env : Env A)

/-- Without what is held of an identity. -/
def Tables.forget (t : Tables) (fp : Fingerprint) : Tables :=
  { t with
    cards := t.cards.drop fp
    devices := t.devices.filter fun e => Fingerprint.of P e.2.identity ≠ fp
    tokens := t.tokens.filter fun e => e.2.1.fingerprint ≠ fp }

namespace Server

/-! ## Rotations -/

/-- Move what a rotation moves: the account link, then what the core keeps. -/
def finishRotation (s : Server A) (from_ to_ : Fingerprint) : Server A :=
  match s.anchors with
  | none => s
  | some anchors =>
    match env.auth.rotateLink s.accounts from_ to_ with
    | (.error _, accounts) => { s with accounts }
    | (.ok _, accounts) =>
      if env.rotateIdentity from_ to_ then { s with accounts, anchors := some (anchors.moved from_) }
      else { s with accounts }

/-- Finish each rotation, to `to_` or to anyone, whose moves have not all landed. -/
def finishRotations (s : Server A) (to_ : Option Fingerprint) : Server A :=
  (s.anchors.elim [] (·.unmoved to_)).foldl (fun s e => s.finishRotation env e.1 e.2) s

/-- The first rotation of a key stands, and one to another than its committed successor is ignored. -/
def acceptRotation (s : Server A) (from_ to_ : Fingerprint) : Server A :=
  match s.anchors with
  | none => s
  | some anchors =>
    if (anchors.rotatedTo from_).isSome then s
    else if (s.committedSuccessor from_).any (· ≠ to_) then s
    else
      match anchors.rotate from_ to_ with
      | (false, _) => s
      | (true, anchors) =>
        let s : Server A := { s with
          anchors := some anchors
          refused := { s.refused with rotated := from_ :: s.refused.rotated }
          tables := s.tables.forget P from_ }
        s.finishRotation env from_ to_

/-- A rotation an auth carries, for the identity it admits: accepted only to the anchor on file. -/
def rotationShown (s : Server A) (bytes : List UInt8) (successor : Fingerprint) : Server A :=
  match Rotation.parse P bytes with
  | .error _ => s
  | .ok r =>
    if Fingerprint.of P r.successor ≠ successor then s
    else
      let from_ := Fingerprint.of P r.identity
      if s.anchors.bind (·.get from_) = some successor then s.acceptRotation P env from_ successor else s

/-! ## The registrars' records -/

/-- The attestations that survive, and each registrar's latest word of a freeze. -/
structure Applied where
  attestations : List Attestation
  frozen : List (String × Bool)

def applyRecord (s : Server A) (fp : Fingerprint) (device : PublicKey) (acc : Applied) :
    Record → Except AuthRefused Applied × Server A
  | .revokeIdentity _ => (.error .revoked, s)
  | .revokeDevice r => if r.device = device then (.error .revoked, s.dropDevice device) else (.ok acc, s)
  | .freeze f => (.ok { acc with frozen := insert f.registrar f.frozen acc.frozen }, s)
  | .revokeAttestation r =>
    (.ok { acc with attestations := acc.attestations.filter fun a => ¬ r.voids a }, s)
  | .rotate r =>
    let from_ := Fingerprint.of P r.identity
    let to_ := Fingerprint.of P r.successor
    let s' := s.acceptRotation P env from_ to_
    -- With no file to keep rotations in, the record is all there is.
    let accepted := if s.anchors.isSome then s'.rotatedTo from_ else some to_
    match accepted with
    | some successor => if from_ = fp then (.error (.rotated successor), s') else (.ok acc, s')
    | none => (.ok acc, s')

def applyEach (s : Server A) (fp : Fingerprint) (device : PublicKey) (acc : Applied) :
    List Record → Except AuthRefused Applied × Server A
  | [] => (.ok acc, s)
  | r :: records =>
    match s.applyRecord P env fp device acc r with
    | (.error e, s) => (.error e, s)
    | (.ok acc, s) => s.applyEach fp device acc records

/-- The attestations that survive, or none when the identity is taken as unattested. -/
def applyRecords (s : Server A) (card : Card) (cert : DeviceCert) :
    Except AuthRefused (Option (List Attestation)) × Server A :=
  match env.registrars with
  | none => (.ok (some card.attestations), s)
  | some registrars =>
    let hosts := (card.attestations.filter fun a =>
      a.registrarKey ∈ registrars.keys a.registrar a.identity env.unix).map (·.registrar)
    let found := registrars.find card.identity hosts env.unix
    if found.stale ∧ registrars.stale = .deny then (.error .denied, s)
    else
      match s.applyEach P env (Fingerprint.of P card.identity) cert.device ⟨card.attestations, []⟩
          found.records with
      | (.error e, s) => (.error e, s)
      | (.ok acc, s) =>
        if acc.frozen.any (·.2) then
          match cfg.frozen with
          | .deny => (.error .denied, s)
          | .guest => (.ok none, s)
        else if found.stale ∧ registrars.stale = .guest then (.ok none, s)
        else (.ok (some acc.attestations), s)

end Server

/-! ## The checks that write nothing -/

/-- The handle of the oldest attestation a trusted registrar's key stands behind, and its age. -/
def acceptAttestations (atts : List Attestation) : Option (String × UInt64) :=
  atts.foldl (fun best a =>
    let keys := match env.registrars with
      | some registrars => registrars.keys a.registrar a.identity env.unix
      | none => (lookup cfg.registrarKeys a.registrar).toList
    if ¬ keys.any (fun k => (a.verifyRegistrar k env.unix cfg.clockSkew).isOk) then best
    else
      let age := satSub env.unix a.registered
      if best.any fun b => b.2 ≥ age then best else some (a.fullHandle, age)) none

/-- What an admission finds of an identity. -/
structure Standing where
  fingerprint : Fingerprint
  handle : Option String
  age : UInt64
  attested : Bool
  deriving DecidableEq

/-- What association work an admission may do. -/
inductive Association where
  | write
  | readOnly
  deriving DecidableEq

def eqIgnoreAsciiCase (a b : String) : Bool := a.toList.map Char.toLower = b.toList.map Char.toLower

/-- Whether a ban names the identity, or any handle its card names. -/
def identityBanned (fp : Fingerprint) (handle : Option String) (card : Card) : Bool :=
  (handle :: card.attestations.map fun a => some a.fullHandle).any fun h =>
    env.personBanned none (some fp) h

def Server.admissible (s : Server A) (card : Card) (attestations : Option (List Attestation))
    (assoc : Association) : Except AuthRefused Standing :=
  let fingerprint := Fingerprint.of P card.identity
  -- Admitted only once every rotation to it has moved what it moves.
  if s.anchors.any fun a => ¬ (a.unmoved (some fingerprint)).isEmpty then .error .backend
  else
    let best := attestations.bind (acceptAttestations cfg env)
    let handle := best.map (·.1)
    let age := (best.map (·.2)).getD 0
    let attested : Bool := handle.isSome && age ≥ cfg.minAttestationAge
    if successorChanged (s.committedSuccessor fingerprint) card then .error .badCard
    else if env.registrar.any fun check => check card = .successorMismatch then .error .badCard
    else if env.registrar.any fun check => check card = .failed then .error .backend
    else if assoc = .write ∧ identityBanned env fingerprint handle card then .error .banned
    else if cfg.allowList ≠ [] ∧ ¬ cfg.allowList.any (fun e =>
        eqIgnoreAsciiCase e fingerprint.toText || handle = some e) then .error .denied
    else if ¬ attested ∧ cfg.unattested = .deny then .error .denied
    else .ok ⟨fingerprint, handle, age, attested⟩

/-- Steps 4 to 6, as far as they are about the identity. -/
def Server.standing (s : Server A) (card : Card) (cert : DeviceCert) (rotation : Option (List UInt8))
    (assoc : Association) : Except AuthRefused Standing × Server A :=
  let fingerprint := Fingerprint.of P card.identity
  match s.rotatedTo fingerprint with
  | some successor => (.error (.rotated successor), s)
  | none =>
    let shown := rotation.elim s fun bytes => s.rotationShown P env bytes fingerprint
    let finished := shown.finishRotations env (some fingerprint)
    if finished.refused.isRevoked fingerprint (Fingerprint.of P cert.device) then
      (.error .revoked, finished.dropDevice cert.device)
    else if card.attestations.any fun a => a.registrar ∈ cfg.bannedRegistrars then
      (.error .denied, finished)
    else
      match finished.applyRecords P cfg env card cert with
      | (.error e, s) => (.error e, s)
      | (.ok attestations, s) => (s.admissible P cfg env card attestations assoc, s)

end HxdNg.Admission
