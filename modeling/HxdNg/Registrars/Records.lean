import HxdNg.Identity.Friendship

/-!
# The registrar's objects

What a user signs (the registration request, the revocations of a device and of an identity, the
rotation), what the registrar signs (the attestation, the freeze, the attestation revocation), and
`Record.parse`, the one verifier of the five records a record list carries.
-/

namespace HxdNg.Registrars

open HxdNg.Identity HxdNg.Identity.Cbor

/-! ## Hosts and handles -/

def maxHostBytes : Nat := 253

def maxHandleBytes : Nat := 64

def isHostChar (c : Char) : Bool := c.isAlphanum || c = '-' || c = '.'

/-- Lowercase hostname syntax, bounded. -/
def isHost (host : String) : Bool :=
  host.toLower = host && host ≠ "" && host.utf8ByteSize ≤ maxHostBytes && host.toList.all isHostChar

def checkHost (host : String) : Except Error Unit :=
  if isHost host then .ok () else .error (.badField "registrar")

def isAlnum (c : UInt8) : Bool := (97 ≤ c && c ≤ 122) || (48 ≤ c && c ≤ 57)

/-- One of `.`, `_` and `-`. -/
def isPunct (c : UInt8) : Bool := c = 46 || c = 95 || c = 45

/-- The handles a registrar issues: lowercase letters, digits and punctuation, a letter or digit at
each end, and no two punctuation characters in a row. -/
def handleIsCanonical (handle : String) (min max : Nat) : Bool :=
  let b := utf8 handle
  !(b.length < min || b.length > max || b.isEmpty) &&
    b.head?.any isAlnum && b.getLast?.any isAlnum && b.all (fun c => isAlnum c || isPunct c) &&
    !(b.zip b.tail).any fun w => isPunct w.1 && isPunct w.2

def reason (v : Value) (max : UInt64) : Except Error (Option UInt64) := do
  let r ← optUint v "reason"
  if r.any (· > max) then throw (.badField "reason")
  else return r

/-! ## The registration request -/

structure RegisterRequest where
  identity : PublicKey
  registrar : String
  handle : String
  time : UInt64
  /-- SHA-256 of a pre-committed successor key. -/
  successor : Option (Bytes 32)
  proof : Option String
  deriving DecidableEq

namespace RegisterRequest

def domain : String := "hl-identity/register/v1"

def maxBytes : Nat := 2 * 1024

def proofMaxBytes : Nat := 1024

def unsigned (r : RegisterRequest) : Value :=
  map [("v", some (.uint version)), ("identity", some (.bytes r.identity.val)),
    ("registrar", some (.text r.registrar)), ("handle", some (.text r.handle)),
    ("time", some (.uint r.time)), ("successor", r.successor.map fun s => .bytes s.val),
    ("proof", r.proof.map .text)]

def sign (P : Primitives) (r : RegisterRequest) (identity : Bytes 32) : List UInt8 :=
  Envelope.seal r.unsigned (signDomain P identity domain)

/-- Decode, bound and verify against the embedded identity key. -/
def parse (P : Primitives) (bytes : List UInt8) : Except Error RegisterRequest :=
  if bytes.length > maxBytes then .error .tooLarge
  else do
    let env ← Envelope.open bytes
    let v := env.value
    let identity ← bytes32 v "identity"
    let registrar ← text v "registrar"
    let handle ← text v "handle"
    let time ← uint v "time"
    let successor ← optBytes32 v "successor"
    let proof ← optText v "proof"
    checkHost registrar
    if handle = "" ∨ handle.utf8ByteSize > maxHandleBytes then throw (.badField "handle")
    else if proof.any fun p => p.utf8ByteSize > proofMaxBytes then throw (.badField "proof")
    else
      env.verify P identity domain
      return ⟨identity, registrar, handle, time, successor, proof⟩

end RegisterRequest

/-! ## The attestation -/

structure Attestation where
  identity : PublicKey
  registrar : String
  registrarKey : PublicKey
  handle : String
  registered : UInt64
  issued : UInt64
  expires : UInt64
  level : Option UInt64
  deriving DecidableEq

namespace Attestation

def domain : String := "hl-identity/attestation/v1"

def unsigned (a : Attestation) : Value :=
  map [("v", some (.uint version)), ("identity", some (.bytes a.identity.val)),
    ("registrar", some (.text a.registrar)), ("registrar_key", some (.bytes a.registrarKey.val)),
    ("handle", some (.text a.handle)), ("registered", some (.uint a.registered)),
    ("issued", some (.uint a.issued)), ("expires", some (.uint a.expires)),
    ("level", a.level.map .uint)]

def sign (P : Primitives) (a : Attestation) (key : Bytes 32) : List UInt8 :=
  Envelope.seal a.unsigned (signDomain P key domain)

end Attestation

/-! ## Device revocation -/

structure DeviceRevocation where
  identity : PublicKey
  device : PublicKey
  time : UInt64
  lastsUntil : UInt64
  reason : Option UInt64
  signer : Option PublicKey
  signerCert : Option (List UInt8)
  deriving DecidableEq

namespace DeviceRevocation

def domain : String := "hl-identity/revoke-device/v1"

/-- The bound on the largest record, which carries a whole certificate. -/
def maxBytes : Nat := 6 * 1024

def retired : UInt64 := 3

/-- The signer's certificate had to be good when the revocation was signed. -/
def checkSigner (P : Primitives) (env : Envelope) (r : DeviceRevocation) : Except Error Unit :=
  match r.signer, r.signerCert with
  | none, none => env.verify P r.identity domain
  | some signer, some bytes => do
    let cert ← DeviceCert.parse P bytes
    if cert.identity ≠ r.identity ∨ cert.device ≠ signer then throw .keyMismatch
    else
      cert.require caps.manage
      if r.time < cert.issued ∨ r.time > cert.expires then throw .expired
      else env.verify P signer domain
  | some _, none => .error (.missingField "signer_cert")
  | none, some _ => .error (.missingField "signer")

def fromEnvelope (P : Primitives) (env : Envelope) : Except Error DeviceRevocation := do
  let v := env.value
  let identity ← bytes32 v "identity"
  let device ← bytes32 v "device"
  let time ← uint v "time"
  let lastsUntil ← uint v "until"
  let reason ← Registrars.reason v retired
  let signer ← optBytes32 v "signer"
  let signerCert ← optBytes v "signer_cert"
  if lastsUntil < time then throw (.badField "until")
  else
    let r : DeviceRevocation := ⟨identity, device, time, lastsUntil, reason, signer, signerCert⟩
    r.checkSigner P env
    return r

end DeviceRevocation

/-! ## Identity revocation -/

structure IdentityRevocation where
  identity : PublicKey
  time : UInt64
  reason : Option UInt64
  deriving DecidableEq

namespace IdentityRevocation

def domain : String := "hl-identity/revoke-identity/v1"

def compromised : UInt64 := 2

def fromEnvelope (P : Primitives) (env : Envelope) : Except Error IdentityRevocation := do
  let v := env.value
  let identity ← bytes32 v "identity"
  let time ← uint v "time"
  let reason ← Registrars.reason v compromised
  env.verify P identity domain
  return ⟨identity, time, reason⟩

end IdentityRevocation

/-! ## The registrar's own records -/

/-- A registrar may publish under a current key and any retiring ones: a signature by any of them is
the registrar's. -/
def verifyAny (P : Primitives) (env : Envelope) (keys : List PublicKey) (domain : String) :
    Except Error Unit :=
  if keys.isEmpty then .error .keyMismatch
  else go keys .badSignature
where
  go : List PublicKey → Error → Except Error Unit
    | [], last => .error last
    | k :: keys, _ =>
      match env.verify P k domain with
      | .ok () => .ok ()
      | .error e => go keys e

def boolean := required asBool

structure Freeze where
  identity : PublicKey
  registrar : String
  /-- `true` freezes, `false` lifts; the latest `time` wins. -/
  frozen : Bool
  time : UInt64
  deriving DecidableEq

namespace Freeze

def domain : String := "hl-identity/freeze/v1"

def unsigned (r : Freeze) : Value :=
  map [("v", some (.uint version)), ("identity", some (.bytes r.identity.val)),
    ("registrar", some (.text r.registrar)), ("frozen", some (.bool r.frozen)),
    ("time", some (.uint r.time))]

def sign (P : Primitives) (r : Freeze) (registrar : Bytes 32) : List UInt8 :=
  Envelope.seal r.unsigned (signDomain P registrar domain)

def fromEnvelope (P : Primitives) (env : Envelope) (keys : List PublicKey) : Except Error Freeze := do
  let v := env.value
  let identity ← bytes32 v "identity"
  let registrar ← text v "registrar"
  let frozen ← boolean v "frozen"
  let time ← uint v "time"
  checkHost registrar
  verifyAny P env keys domain
  return ⟨identity, registrar, frozen, time⟩

end Freeze

namespace attestationReason

def unspecified : UInt64 := 0
def recovered : UInt64 := 1
def rotated : UInt64 := 2
def lapsed : UInt64 := 3
def abuse : UInt64 := 4

end attestationReason

structure AttestationRevocation where
  identity : PublicKey
  registrar : String
  handle : String
  time : UInt64
  reason : Option UInt64
  deriving DecidableEq

namespace AttestationRevocation

def domain : String := "hl-identity/revoke-attestation/v1"

def unsigned (r : AttestationRevocation) : Value :=
  map [("v", some (.uint version)), ("identity", some (.bytes r.identity.val)),
    ("registrar", some (.text r.registrar)), ("handle", some (.text r.handle)),
    ("time", some (.uint r.time)), ("reason", r.reason.map .uint)]

def sign (P : Primitives) (r : AttestationRevocation) (registrar : Bytes 32) : List UInt8 :=
  Envelope.seal r.unsigned (signDomain P registrar domain)

/-- Whether this voids `a`. -/
def voids (r : AttestationRevocation) (a : Attestation) : Prop :=
  a.identity = r.identity ∧ a.registrar = r.registrar ∧ a.handle = r.handle ∧ a.issued ≤ r.time

instance (r : AttestationRevocation) (a : Attestation) : Decidable (r.voids a) :=
  inferInstanceAs (Decidable (_ ∧ _))

def fromEnvelope (P : Primitives) (env : Envelope) (keys : List PublicKey) :
    Except Error AttestationRevocation := do
  let v := env.value
  let identity ← bytes32 v "identity"
  let registrar ← text v "registrar"
  let handle ← text v "handle"
  let time ← uint v "time"
  let reason ← Registrars.reason v attestationReason.abuse
  checkHost registrar
  if handle = "" ∨ handle.utf8ByteSize > maxHandleBytes then throw (.badField "handle")
  else
    verifyAny P env keys domain
    return ⟨identity, registrar, handle, time, reason⟩

end AttestationRevocation

/-! ## The records, as one type -/

/-- Any of the five records a record list carries. -/
inductive Record where
  | revokeDevice (r : DeviceRevocation)
  | revokeIdentity (r : IdentityRevocation)
  | rotate (r : Rotation)
  | freeze (r : Freeze)
  | revokeAttestation (r : AttestationRevocation)
  deriving DecidableEq

/-- Who a registrar-signed record must come from. -/
structure RegistrarKeys where
  host : String
  keys : List PublicKey

namespace Record

/-- The identity the record is about: the predecessor, for a rotation. -/
def identity : Record → PublicKey
  | .revokeDevice r => r.identity
  | .revokeIdentity r => r.identity
  | .rotate r => r.identity
  | .freeze r => r.identity
  | .revokeAttestation r => r.identity

def time : Record → UInt64
  | .revokeDevice r => r.time
  | .revokeIdentity r => r.time
  | .rotate r => r.time
  | .freeze r => r.time
  | .revokeAttestation r => r.time

/-- The host a registrar-signed record names. -/
def registrar : Record → Option String
  | .freeze r => some r.registrar
  | .revokeAttestation r => some r.registrar
  | _ => none

/-- Whether a user may post this. -/
def userSigned (r : Record) : Bool := r.registrar.isNone

def smallMaxBytes : Nat := 512

/-- The two kinds a registrar signs. -/
def readRegistrar (P : Primitives) (env : Envelope) (keys : List PublicKey) : Except Error Record :=
  if (env.value.get "frozen").isSome then .freeze <$> Freeze.fromEnvelope P env keys
  else .revokeAttestation <$> AttestationRevocation.fromEnvelope P env keys

def parseRegistrar (P : Primitives) (value : Value) (registrar : Option RegistrarKeys) :
    Except Error Record := do
  let reg ← registrar.elim (.error .keyMismatch) .ok
  let env ← Envelope.fromValue value
  let r ← readRegistrar P env reg.keys
  if r.registrar ≠ some reg.host then throw (.badField "registrar")
  else return r

/-- The kind is read from the keys each object alone has, and the signature is then checked under
that kind's domain. -/
def parse (P : Primitives) (bytes : List UInt8) (registrar : Option RegistrarKeys) :
    Except Error Record :=
  if bytes.length > DeviceRevocation.maxBytes then .error .tooLarge
  else do
    let value ← ofCbor (decodeCanonical bytes)
    let has := fun key => (value.get key).isSome
    if has "ack" ∨ has "successor" then
      if bytes.length > smallMaxBytes then throw .tooLarge
      else .rotate <$> Rotation.fromValue P value
    else if has "device" then do
      let env ← Envelope.fromValue value
      .revokeDevice <$> DeviceRevocation.fromEnvelope P env
    else if bytes.length > smallMaxBytes then throw .tooLarge
    else if has "frozen" ∨ has "handle" then parseRegistrar P value registrar
    else do
      let env ← Envelope.fromValue value
      .revokeIdentity <$> IdentityRevocation.fromEnvelope P env

end Record

end HxdNg.Registrars
