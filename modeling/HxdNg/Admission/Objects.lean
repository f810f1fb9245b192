import HxdNg.Registrars.Records

/-!
# What a login shows

The card with its attestations, the login proof, and the checks of the three objects against each
other.

* `Attestation.fromValue`, `Card.parse`, `LoginProof.parse` : the readers;
* `verifyLogin`, `verifyPresented` : steps 1 to 3 of an admission, by challenge and by client
  certificate.

A host's canonical form is the `url` crate's, and is a parameter.
-/

namespace HxdNg.Identity

open Cbor

/-- May perform identity login. -/
def caps.login : UInt64 := (1 : UInt64) <<< 0

def asItems : Value → Option (List Value)
  | .array items => some items
  | _ => none

/-- An absent array is empty. -/
def optArray (v : Value) (key : String) : Except Error (List Value) := do
  let items ← optional asItems v key
  return items.getD []

end HxdNg.Identity

namespace HxdNg.Registrars.Attestation

open Identity Cbor

def fullHandle (a : Attestation) : String := a.handle ++ "@" ++ a.registrar

/-- `expect` is the identity of the card it is embedded in: whose it is comes before its signature. -/
def fromEnvelope (P : Primitives) (env : Envelope) (expect : Option PublicKey) :
    Except Error Attestation := do
  let v := env.value
  let identity ← bytes32 v "identity"
  let registrar ← text v "registrar"
  let registrarKey ← bytes32 v "registrar_key"
  let handle ← text v "handle"
  let registered ← uint v "registered"
  let issued ← uint v "issued"
  let expires ← uint v "expires"
  let level ← optUint v "level"
  if ¬ isHost registrar then throw (.badField "registrar")
  else if handle = "" ∨ handle.utf8ByteSize > maxHandleBytes ∨ '@' ∈ handle.toList ∨
      handle.toList.any (fun c => c = ' ' || isDeceptive c) then throw (.badField "handle")
  else if level.any (· > 3) then throw (.badField "level")
  else if expect.any (· ≠ identity) then throw .keyMismatch
  else if registered > issued ∨ registered = 0 then throw (.badField "registered")
  else if issued ≥ expires then throw (.badField "expires")
  else
    env.verify P registrarKey domain
    return ⟨identity, registrar, registrarKey, handle, registered, issued, expires, level⟩

/-- One embedded in a card of `expect`. -/
def fromValue (P : Primitives) (value : Value) (expect : PublicKey) : Except Error Attestation := do
  let env ← Envelope.fromValue value
  fromEnvelope P env (some expect)

/-- The step that gives it meaning: its key is the registrar's, and it is within its window. -/
def verifyRegistrar (a : Attestation) (expected : PublicKey) (now skew : UInt64) : Except Error Unit :=
  if a.registrarKey ≠ expected then .error .keyMismatch else checkWindow a.issued a.expires now skew

end HxdNg.Registrars.Attestation

namespace HxdNg.Admission

open Identity Cbor
open Registrars (Attestation)

/-! ## The card -/

structure Card where
  identity : PublicKey
  updated : UInt64
  name : String
  icon : Option UInt64
  profile : Option String
  attestations : List Attestation
  vouches : List Value
  links : List String
  successor : Option (Bytes 32)
  deriving DecidableEq

namespace Card

def domain : String := "hl-identity/card/v1"

def maxBytes : Nat := 16 * 1024

def nameMaxChars : Nat := 32

def profileMaxBytes : Nat := 2048

def maxAttestations : Nat := 8

def checkFields (c : Card) : Except Error Unit :=
  let n := c.name.toList
  if n.length = 0 ∨ n.length > nameMaxChars then .error (.badField "name")
  else if trim n ≠ n ∨ trim n = [] then .error (.badField "name")
  else if n.any isDeceptive then .error (.badField "name")
  else if c.profile.any (·.utf8ByteSize > profileMaxBytes) then .error (.badField "profile")
  else .ok ()

/-- The unsigned map. Those embedded are signed values: parsed ones have lost their signatures. -/
def unsigned (c : Card) (attestations : List Value) : Value :=
  map [("v", some (.uint version)), ("identity", some (.bytes c.identity.val)),
    ("updated", some (.uint c.updated)), ("name", some (.text c.name)), ("icon", c.icon.map .uint),
    ("profile", c.profile.map .text),
    ("attestations", if attestations.isEmpty then none else some (.array attestations)),
    ("vouches", if c.vouches.isEmpty then none else some (.array c.vouches)),
    ("links", if c.links.isEmpty then none else some (.array (c.links.map .text))),
    ("successor", c.successor.map fun s => .bytes s.val)]

/-- The bytes `sign` hands out, where it does. -/
def sealed (P : Primitives) (c : Card) (identity : Bytes 32) (attestations : List Value) : List UInt8 :=
  Envelope.seal (c.unsigned attestations) (signDomain P identity domain)

/-- Sign with an identity's seed; none where the assertion fails. -/
def sign (P : Primitives) (c : Card) (identity : Bytes 32) (attestations : List Value) :
    Option (Except Error (List UInt8)) :=
  if P.ed25519Public identity = c.identity then
    some do
      c.checkFields
      if attestations.length > maxAttestations then throw (.badField "attestations")
      else
        let bytes := c.sealed P identity attestations
        if bytes.length > maxBytes then throw .tooLarge else return bytes
  else none

/-- One this version cannot read is left out; one that does not verify fails the card. -/
def readAttestations (P : Primitives) (identity : PublicKey) : List Value → Except Error (List Attestation)
  | [] => .ok []
  | value :: values =>
    match Attestation.fromValue P value identity with
    | .ok a => (readAttestations P identity values).map (a :: ·)
    | .error (.unsupportedVersion _) => readAttestations P identity values
    | .error e => .error e

/-- The card's own signature and fields come before any attestation's signature. -/
def parse (P : Primitives) (bytes : List UInt8) : Except Error Card :=
  if bytes.length > maxBytes then .error .tooLarge
  else do
    let env ← Envelope.open bytes
    let v := env.value
    let identity ← bytes32 v "identity"
    env.verify P identity domain
    let embedded ← optArray v "attestations"
    if embedded.length > maxAttestations then throw (.badField "attestations")
    else
      let links ← optArray v "links"
      let links ← links.mapM fun l => (asText l).elim (.error (.badField "links")) .ok
      let updated ← uint v "updated"
      let name ← text v "name"
      let icon ← optUint v "icon"
      let profile ← optText v "profile"
      let vouches ← optArray v "vouches"
      let successor ← optBytes32 v "successor"
      let card : Card := ⟨identity, updated, name, icon, profile, [], vouches, links, successor⟩
      card.checkFields
      let attestations ← readAttestations P identity embedded
      return { card with attestations }

end Card

/-! ## The login proof -/

structure LoginProof where
  challenge : Bytes 32
  serverKey : PublicKey
  /-- None for a `v = 1` proof, which names no host. -/
  host : Option String
  device : PublicKey
  time : UInt64
  deriving DecidableEq

/-- What a server needs to know to check a login. -/
structure LoginContext where
  challenge : Bytes 32
  serverKey : PublicKey
  host : Option String
  now : UInt64
  skew : UInt64

namespace LoginProof

variable (P : Primitives) (canonicalHost : String → Option String)

def domain : String := "hl-identity/login/v1"

/-- The version that carries `host`. -/
def hostVersion : UInt64 := 2

/-- Present, and in canonical form already. -/
def hostField (v : Value) : Except Error String := do
  let host ← text v "host"
  if canonicalHost host ≠ some host then throw (.badField "host") else return host

def parse (bytes : List UInt8) : Except Error LoginProof := do
  let value ← ofCbor (decodeCanonical bytes)
  let env ← Envelope.fromValueUpto value hostVersion
  let challenge ← bytes32 env.value "challenge"
  let serverKey ← bytes32 env.value "server_key"
  let device ← bytes32 env.value "device"
  let time ← uint env.value "time"
  let host ← if env.v = hostVersion then (hostField canonicalHost env.value).map some else .ok none
  env.verify P device domain
  return ⟨challenge, serverKey, host, device, time⟩

/-- The challenge and the key, then the host, then the clock. -/
def check (p : LoginProof) (ctx : LoginContext) : Except Error Unit :=
  if p.challenge ≠ ctx.challenge ∨ p.serverKey ≠ ctx.serverKey then .error .challengeMismatch
  else if p.host.any (fun signedFor => ctx.host.bind canonicalHost ≠ some signedFor) then
    .error .hostMismatch
  else if absDiff p.time ctx.now > ctx.skew then .error .clockSkew
  else .ok ()

end LoginProof

/-! ## The three together -/

section Verify
variable (P : Primitives) (canonicalHost : String → Option String)

/-- The certificate is good for `device` now, and the card is its identity's. -/
def verifyPresented (card cert : List UInt8) (device : PublicKey) (now skew : UInt64) :
    Except Error (Card × DeviceCert) := do
  let cert ← DeviceCert.parse P cert
  if cert.device ≠ device then throw .keyMismatch
  else
    cert.checkValid now skew
    cert.require caps.login
    let card ← Card.parse P card
    if card.identity ≠ cert.identity then throw .keyMismatch
    else return (card, cert)

def verifyLogin (card cert proof : List UInt8) (ctx : LoginContext) :
    Except Error (Card × DeviceCert × LoginProof) := do
  let proof ← LoginProof.parse P canonicalHost proof
  proof.check canonicalHost ctx
  let (card, cert) ← verifyPresented P card cert proof.device ctx.now ctx.skew
  return (card, cert, proof)

end Verify

end HxdNg.Admission
