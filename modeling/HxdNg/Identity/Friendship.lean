import HxdNg.Identity.Message

/-!
# Friendship objects

An offer, the acceptance that answers it, the friendship the two make, and the withdrawal that ends
friendships between a pair. Each is signed by a device key whose certificate it carries. A refusal
names the step of its check it failed at.

* `Withdrawal.parse` : what a withdrawal can be kept on with no pair at hand (`Kept`);
* `Kept.checkPair` : the rest of its check, against a pair and the rotations applied (`Held`);
* `Cutoff.ends`, `Friendship.cutBy` : what a withdrawal ends.
-/

namespace HxdNg.Identity

open Cbor

/-! ## Rotations -/

/-- A decoded map with the signatures of two signers split out. -/
structure AckedEnvelope where
  value : Value
  signedBytes : List UInt8
  sig : Signature
  ack : Signature

namespace AckedEnvelope

def fromValue (value : Value) : Except Error AckedEnvelope :=
  if ¬ isMap value then .error .notAMap
  else do
    let v ← uint value "v"
    if v ≠ version then throw (.unsupportedVersion v)
    else
      let sig ← bytes32x2 value "sig"
      let ack ← bytes32x2 value "ack"
      return ⟨value, encode ((value.without "sig").without "ack"), sig, ack⟩

def verify (P : Primitives) (env : AckedEnvelope) (first second : PublicKey) (domain : String) :
    Except Error Unit := do
  verifyDomain P first domain env.signedBytes env.sig
  verifyDomain P second (domain ++ "/ack") env.signedBytes env.ack

end AckedEnvelope

/-- A key's handover to its successor. -/
structure Rotation where
  identity : PublicKey
  successor : PublicKey
  time : UInt64
  deriving DecidableEq

namespace Rotation

def domain : String := "hl-identity/rotate/v1"

/-- The bound on a small record. -/
def maxBytes : Nat := 512

def fromValue (P : Primitives) (value : Value) : Except Error Rotation := do
  let env ← AckedEnvelope.fromValue value
  let v := env.value
  let identity ← bytes32 v "identity"
  let successor ← bytes32 v "successor"
  let time ← uint v "time"
  if identity = successor then throw (.badField "successor")
  else
    env.verify P identity successor domain
    return ⟨identity, successor, time⟩

def parse (P : Primitives) (bytes : List UInt8) : Except Error Rotation :=
  if bytes.length > maxBytes then .error .tooLarge
  else do
    let value ← ofCbor (decodeCanonical bytes)
    fromValue P value

end Rotation

/-! ## The parts every object shares -/

namespace Friend

def offerDomain : String := "hl-identity/friend-offer/v1"
def acceptDomain : String := "hl-identity/friend-accept/v1"
def withdrawDomain : String := "hl-identity/friend-withdraw/v1"
def pairDomain : String := "hl-identity/friend-pair/v1"

/-- The bound on each object, and on each element of a friendship. -/
def maxBytes : Nat := 1024

/-- A friendship's array at its longest. -/
def friendshipMaxBytes : Nat := 1 + 2 * (3 + maxBytes)

/-- How long after its `time` an offer may expire. -/
def offerMaxLifetime : UInt64 := 30 * 24 * 3600

/-- Why a check refused an object: the step it failed at, and what failed there. -/
structure Refused where
  step : Nat
  error : Error
  deriving DecidableEq

def atStep {α : Type} (step : Nat) : Except Error α → Except Refused α
  | .ok a => .ok a
  | .error e => .error ⟨step, e⟩

/-- Decode an object within its bound. -/
def «open» {α : Type} (bytes : List UInt8) (read : Value → Except Error α) :
    Except Error (α × Envelope) :=
  if bytes.length > maxBytes then .error .tooLarge
  else do
    let env ← Envelope.open bytes
    let a ← read env.value
    return (a, env)

/-- A `time` no later than `now` plus the skew. -/
def notAhead (time now : UInt64) : Except Error Unit :=
  if time > satAdd now skew then .error .clockSkew else .ok ()

/-- The certificate: for `identity`, allowing messages, small enough, valid at `time`. -/
def certAt (bytes : List UInt8) (identity : PublicKey) (time : UInt64) :
    Except Error (DeviceCert × Envelope) :=
  if bytes.length > certMaxBytes then .error (.badField "cert")
  else do
    let (cert, env) ← DeviceCert.open bytes
    if cert.identity ≠ identity then throw .keyMismatch
    else
      cert.require caps.message
      checkWindow cert.issued cert.expires time skew
      return (cert, env)

/-- The identity's signature on the certificate, then its device's on the object. -/
def verify (P : Primitives) (cert : DeviceCert × Envelope) (env : Envelope) (domain : String) :
    Except Error Unit := do
  cert.2.verify P cert.1.identity DeviceCert.domain
  env.verify P cert.1.device domain

end Friend

open Friend

/-- Two identities, without saying which is which. -/
structure Pair where
  lo : Fingerprint
  hi : Fingerprint
  deriving DecidableEq

namespace Pair

def new (a b : Fingerprint) : Pair := if a.val ≤ b.val then ⟨a, b⟩ else ⟨b, a⟩

def contains (p : Pair) (fp : Fingerprint) : Bool := p.lo = fp ∨ p.hi = fp

def hash (P : Primitives) (p : Pair) : Bytes 32 :=
  P.sha256 (utf8 pairDomain ++ 0 :: (p.lo.val ++ p.hi.val))

end Pair

/-- What a withdrawal ends, apart from who signed it. -/
structure Cutoff where
  pair : Bytes 32
  party : Fingerprint
  before : UInt64
  deriving DecidableEq

/-- Whether a half by `party`, dated `time`, of a friendship between `pair` is ended. -/
def Cutoff.ends (P : Primitives) (c : Cutoff) (pair : Pair) (party : Fingerprint)
    (time : UInt64) : Bool :=
  c.pair = pair.hash P ∧ c.party = party ∧ time < c.before

/-- The last key of the chain of rotations from `key`, none where they fork or loop. -/
def chainEndFrom (P : Primitives) (rotations : List Rotation) :
    Nat → Fingerprint → Option Fingerprint
  | 0, _ => none
  | n + 1, key =>
    match (rotations.filter fun r => Fingerprint.of P r.identity = key).map Rotation.successor with
    | [] => some key
    | successor :: rest =>
      if rest.all fun s => s = successor then
        chainEndFrom P rotations n (Fingerprint.of P successor)
      else none

def chainEnd (P : Primitives) (start : Fingerprint) (rotations : List Rotation) :
    Option Fingerprint :=
  chainEndFrom P rotations (rotations.length + 1) start

/-! ## Offers, acceptances and friendships -/

structure Offer where
  /-- The offerer's key (`from`). -/
  fromKey : PublicKey
  /-- Whom it is to (`to`). -/
  toFp : Fingerprint
  time : UInt64
  expires : UInt64
  id : Bytes 16
  cert : List UInt8
  deriving DecidableEq

namespace Offer
variable (P : Primitives)

def offerer (o : Offer) : Fingerprint := Fingerprint.of P o.fromKey

def pair (o : Offer) : Pair := Pair.new (o.offerer P) o.toFp

def unsigned (o : Offer) : Value :=
  map [("v", some (.uint version)), ("from", some (.bytes o.fromKey.val)),
    ("to", some (.bytes o.toFp.val)), ("time", some (.uint o.time)),
    ("expires", some (.uint o.expires)), ("id", some (.bytes o.id.val)),
    ("cert", some (.bytes o.cert))]

def fromValue (v : Value) : Except Error Offer := do
  let fromKey ← bytes32 v "from"
  let toFp ← bytes32 v "to"
  let time ← uint v "time"
  let expires ← uint v "expires"
  let id ← bytes16 v "id"
  let cert ← bytes v "cert"
  let offer : Offer := ⟨fromKey, toFp, time, expires, id, cert⟩
  if expires ≤ time ∨ expires > satAdd time offerMaxLifetime then throw (.badField "expires")
  else if toFp = offer.offerer P then throw (.badField "to")
  else return offer

/-- Whether `c` ends this offer. -/
def cutBy (o : Offer) (c : Cutoff) : Bool := c.ends P (o.pair P) (o.offerer P) o.time

end Offer

structure Acceptance where
  /-- The SHA-256 of the offer's bytes. -/
  offer : Bytes 32
  fromKey : PublicKey
  time : UInt64
  cert : List UInt8
  deriving DecidableEq

namespace Acceptance

def unsigned (a : Acceptance) : Value :=
  map [("v", some (.uint version)), ("offer", some (.bytes a.offer.val)),
    ("from", some (.bytes a.fromKey.val)), ("time", some (.uint a.time)),
    ("cert", some (.bytes a.cert))]

def fromValue (v : Value) : Except Error Acceptance := do
  let offer ← bytes32 v "offer"
  let fromKey ← bytes32 v "from"
  let time ← uint v "time"
  let cert ← bytes v "cert"
  return ⟨offer, fromKey, time, cert⟩

end Acceptance

/-- An offer and its acceptance, both checked. -/
structure Friendship where
  offer : Offer
  acceptance : Acceptance
  /-- The SHA-256 of the array's bytes. -/
  hash : Bytes 32
  deriving DecidableEq

namespace Friendship
variable (P : Primitives)

/-- The array a friendship is carried as. -/
def encode (offer acceptance : List UInt8) : List UInt8 :=
  Cbor.encode (.array [.bytes offer, .bytes acceptance])

/-- The array's two byte strings, and nothing else in their place. -/
def split (bytes : List UInt8) : Except Error (List UInt8 × List UInt8) :=
  if bytes.length > friendshipMaxBytes then .error .tooLarge
  else do
    match ← ofCbor (decodeCanonical bytes) with
    | .array [.bytes offer, .bytes acceptance] => return (offer, acceptance)
    | _ => throw (.badField "friendship")

def pair (f : Friendship) : Pair := f.offer.pair P

/-- Whether `c` ends this friendship: a half by the cutoff's party is dated before it. -/
def cutBy (f : Friendship) (c : Cutoff) : Bool :=
  c.ends P (f.pair P) (f.offer.offerer P) f.offer.time ||
    c.ends P (f.pair P) f.offer.toFp f.acceptance.time

/-- The six steps of the check, against no withdrawals: the server compares those itself. -/
def check (bytes : List UInt8) (now : UInt64) : Except Refused Friendship := do
  let (offerBytes, acceptBytes) ← atStep 1 (split bytes)
  let (offer, offerEnv) ← atStep 1 (Friend.open offerBytes (Offer.fromValue P))
  let (acceptance, acceptEnv) ← atStep 1 (Friend.open acceptBytes Acceptance.fromValue)
  if acceptance.offer ≠ P.sha256 offerBytes then throw ⟨2, .badField "offer"⟩
  else if Fingerprint.of P acceptance.fromKey ≠ offer.toFp ∨ acceptance.fromKey = offer.fromKey then
    throw ⟨2, .keyMismatch⟩
  else
    atStep 3 (notAhead offer.time now)
    atStep 3 (notAhead acceptance.time now)
    if ¬ (offer.time ≤ acceptance.time ∧ acceptance.time ≤ offer.expires) then
      throw ⟨3, .badField "time"⟩
    else
      let offerCert ← atStep 4 (certAt offer.cert offer.fromKey offer.time)
      let acceptCert ← atStep 4 (certAt acceptance.cert acceptance.fromKey acceptance.time)
      atStep 5 (Friend.verify P offerCert offerEnv offerDomain)
      atStep 5 (Friend.verify P acceptCert acceptEnv acceptDomain)
      return ⟨offer, acceptance, P.sha256 bytes⟩

end Friendship

/-! ## Withdrawals -/

structure Withdrawal where
  fromKey : PublicKey
  pair : Bytes 32
  /-- None means the signer's own fingerprint. -/
  party : Option Fingerprint
  before : UInt64
  time : UInt64
  cert : List UInt8
  deriving DecidableEq

/-- A withdrawal that passed the steps that need no pair. -/
structure Kept where
  withdrawal : Withdrawal
  deriving DecidableEq

/-- A withdrawal checked whole. -/
structure Held where
  withdrawal : Withdrawal
  deriving DecidableEq

namespace Withdrawal
variable (P : Primitives)

def unsigned (w : Withdrawal) : Value :=
  map [("v", some (.uint version)), ("from", some (.bytes w.fromKey.val)),
    ("pair", some (.bytes w.pair.val)), ("party", w.party.map fun p => .bytes p.val),
    ("before", some (.uint w.before)), ("time", some (.uint w.time)),
    ("cert", some (.bytes w.cert))]

def fromValue (v : Value) : Except Error Withdrawal := do
  let fromKey ← bytes32 v "from"
  let pair ← bytes32 v "pair"
  let party ← optBytes32 v "party"
  let before ← uint v "before"
  let time ← uint v "time"
  let cert ← bytes v "cert"
  if party = some (Fingerprint.of P fromKey) then throw (.badField "party")
  else return ⟨fromKey, pair, party, before, time, cert⟩

def effectiveParty (w : Withdrawal) : Fingerprint := w.party.getD (Fingerprint.of P w.fromKey)

def cutoff (w : Withdrawal) : Cutoff := ⟨w.pair, w.effectiveParty P, w.before⟩

/-- Steps 1 and 2. -/
def openTimed (bytes : List UInt8) (now : UInt64) : Except Refused (Withdrawal × Envelope) := do
  let (w, env) ← atStep 1 (Friend.open bytes (fromValue P))
  if w.before > w.time then throw ⟨2, .badField "before"⟩
  else
    atStep 2 (notAhead w.time now)
    return (w, env)

/-- Steps 5 and 6. -/
def verify (w : Withdrawal) (env : Envelope) : Except Refused Unit := do
  let cert ← atStep 5 (certAt w.cert w.fromKey w.time)
  atStep 6 (Friend.verify P cert env withdrawDomain)

/-- Steps 1, 2, 5 and 6, which need nothing but the withdrawal. -/
def parse (bytes : List UInt8) (now : UInt64) : Except Refused Kept := do
  let (w, env) ← openTimed P bytes now
  w.verify P env
  return ⟨w⟩

/-- Steps 3 and 4, against the pair and the rotations the checker has applied. -/
def pairRules (w : Withdrawal) (pair : Pair) (rotations : List Rotation) : Except Refused Unit :=
  if w.pair ≠ pair.hash P then .error ⟨3, .keyMismatch⟩
  else if chainEnd P pair.lo rotations ≠ some (Fingerprint.of P w.fromKey) ∧
      chainEnd P pair.hi rotations ≠ some (Fingerprint.of P w.fromKey) then
    .error ⟨4, .keyMismatch⟩
  else if ¬ pair.contains (w.effectiveParty P) then .error ⟨4, .badField "party"⟩
  else if rotations.any fun r =>
      Fingerprint.of P r.identity = w.effectiveParty P ∧ w.before > r.time then
    .error ⟨4, .badField "before"⟩
  else .ok ()

end Withdrawal

/-- Steps 3 and 4, the rest of the check. -/
def Kept.checkPair (P : Primitives) (k : Kept) (pair : Pair) (rotations : List Rotation) :
    Except Refused Held := do
  k.withdrawal.pairRules P pair rotations
  return ⟨k.withdrawal⟩

def Held.cutoff (P : Primitives) (h : Held) : Cutoff := h.withdrawal.cutoff P

/-! ## Later cutoffs end more -/

section Later
variable {P : Primitives} {c c' : Cutoff}

end Later

end HxdNg.Identity
