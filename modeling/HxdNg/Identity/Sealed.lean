import HxdNg.Identity.Message

/-!
# Sealed private messages

A whole signed map, padded and encrypted to one device's `device_enc` key (a signed box), or the map
without its signature encrypted under the sender's own `device_enc` key as well (a deniable box), and
opening either. HPKE is a parameter, and so is the memory of accepted messages, which the caller
keeps: `Replay` is its three operations.
-/

namespace HxdNg.Identity

open Cbor

/-- What the crate takes from `hpke`: X25519 keys, base mode or auth mode. -/
structure Hpke where
  /-- `PublicKey::from_bytes`. -/
  validPublic : Bytes 32 → Bool
  /-- `EncappedKey::from_bytes`. -/
  validEncapped : Bytes 32 → Bool
  /-- `single_shot_seal`, in auth mode when there is a sender's key pair: mode, recipient, `info`,
  plaintext, `aad` and the draw the ephemeral key is made from. -/
  singleShotSeal : Option (Bytes 32 × Bytes 32) → Bytes 32 → List UInt8 → List UInt8 → List UInt8 →
    Bytes 32 → Option (Bytes 32 × List UInt8)
  /-- `single_shot_open`: mode, secret, encapped key, `info`, ciphertext and `aad`. -/
  singleShotOpen : Option (Bytes 32) → Bytes 32 → Bytes 32 → List UInt8 → List UInt8 → List UInt8 →
    Option (List UInt8)

/-- HPKE as RFC 9180 has it, for the keys devices have: sealing to one succeeds, adds the tag's 16
bytes, and opening under the same keys, `info` and `aad` gives the plaintext back. -/
structure Hpke.Correct (P : Primitives) (H : Hpke) : Prop where
  validPublic : ∀ secret, H.validPublic (P.x25519Public secret) = true
  open_seal : ∀ (sender : Option (Bytes 32)) (secret : Bytes 32) (info plaintext aad : List UInt8)
    (ikm : Bytes 32), ∃ enc ct,
      H.singleShotSeal (sender.map fun s => (s, P.x25519Public s)) (P.x25519Public secret) info
        plaintext aad ikm = some (enc, ct) ∧
      H.validEncapped enc = true ∧ ct.length = plaintext.length + 16 ∧
      H.singleShotOpen (sender.map P.x25519Public) secret enc info ct aad = some plaintext

theorem Hpke.Correct.validPublic_publicEnc {P : Primitives} {H : Hpke} (hH : H.Correct P)
    (k : DeviceKey) : H.validPublic (k.publicEnc P) = true :=
  hH.validPublic _

namespace Sealed

def signedInfo : List UInt8 := utf8 "hl-identity/sealed-message/v1/hpke"

def deniableInfo : List UInt8 := utf8 "hl-identity/sealed-message/v1/hpke-auth"

/-- The leading byte of each form, which is its `aad` as well. -/
def signedBox : UInt8 := 0x01

def deniableBox : UInt8 := 0x02

/-- What a box adds to its padded plaintext. -/
def overhead : Nat := 1 + 32 + 16

/-- How long a sealed message can be held, in seconds. -/
def hold : UInt64 := 24 * 3600

/-! ## Sealing -/

section Seal
variable (P : Primitives) (H : Hpke)

/-- The box around a padded plaintext. -/
def sealPadded (plaintext : List UInt8) (recipient : Bytes 32) (sender : Option DeviceKey)
    (ikm : Bytes 32) : Except Error (List UInt8) :=
  if ¬ H.validPublic recipient then .error .invalidKey
  else
    match sender with
    | none =>
      match H.singleShotSeal none recipient signedInfo plaintext [signedBox] ikm with
      | some (enc, ct) => .ok (signedBox :: (enc.val ++ ct))
      | none => .error .invalidKey
    | some s =>
      if ¬ H.validPublic (s.publicEnc P) then .error .invalidKey
      else
        match H.singleShotSeal (some (s.encSecret P, s.publicEnc P)) recipient deniableInfo plaintext
            [deniableBox] ikm with
        | some (enc, ct) => .ok (deniableBox :: ((s.publicEnc P).val ++ enc.val ++ ct))
        | none => .error .invalidKey

/-- Sign and seal, or seal unsigned under the sender's own key, which its certificate must name. -/
def sealFromIkm (message : PrivateMessage) (sender : DeviceKey) (recipient : Bytes 32)
    (deniable : Bool) (ikm : Bytes 32) : Except Error (List UInt8) :=
  if ¬ deniable then do
    let signed ← PrivateMessage.object.sign P message sender
    let plaintext ← pad signed false
    sealPadded P H plaintext recipient none ikm
  else do
    let unsigned := message.unsigned
    let _ ← PrivateMessage.fromValue unsigned false
    let cert ← checkCert P message.cert message.sent message.sent
    if cert.deviceEnc ≠ sender.publicEnc P then throw .keyMismatch
    else
      let plaintext ← pad (encode unsigned) true
      sealPadded P H plaintext recipient (some sender) ikm

end Seal

/-! ## Opening -/

/-- Who the server says sent a message. -/
inductive Sender where
  | named (fp : Fingerprint)
  | certificate
  | unknown
  deriving DecidableEq

/-- What a reader knows about a box it was handed. -/
structure Opening where
  now : UInt64
  received : UInt64
  reader : Fingerprint
  sender : Sender

/-- The states a sealed message ends in. -/
inductive Opened where
  | verified (message : Signed PrivateMessage) (sentApart : Bool)
  | deniable (message : PrivateMessage) (cert : DeviceCert) (sentApart : Bool)
  | unverified (message : PrivateMessage) (signer : Fingerprint) (whole : Option (List UInt8))
  | invalid (message : PrivateMessage) (error : Error)
  | dropped (error : Error)
  | unopened (error : Error)

/-- The memory of accepted messages, kept by the caller in a state `M`. -/
structure Replay (M : Type) where
  latest : M → UInt64 → UInt64 × M
  accepted : M → Fingerprint → Bytes 16 → Bool
  /-- Insert if absent: `false` if it was there already. -/
  accept : M → Fingerprint → Bytes 16 → UInt64 → Bool × M

def split32 (bytes : List UInt8) : Except Error (Bytes 32 × List UInt8) :=
  match Bytes.ofList 32 (bytes.take 32) with
  | some key => .ok (key, bytes.drop 32)
  | none => .error .openFailed

/-- Whether a box of this leading byte and length could hold a padded plaintext. -/
def checkLen (form : UInt8) (len : Nat) : Except Error Unit :=
  if form ≠ signedBox ∧ form ≠ deniableBox then .error (.unsupportedVersion form.toUInt64)
  else if ¬ padSizes.any fun size => size + overhead = len then .error (.badField "padding")
  else .ok ()

section Open
variable (P : Primitives) (H : Hpke)

/-- The plaintext behind the encapped key, in either mode. -/
def unboxFrom (form : UInt8) (info : List UInt8) (pkS : Option (Bytes 32)) (rest : List UInt8)
    (reader : DeviceKey) : Except Error (List UInt8 × Option (Bytes 32)) :=
  if pkS.any fun pk => ¬ H.validPublic pk then .error .openFailed
  else do
    let (enc, ct) ← split32 rest
    if ¬ H.validEncapped enc then throw .openFailed
    else
      match H.singleShotOpen pkS (reader.encSecret P) enc info ct [form] with
      | some plaintext => return (plaintext, pkS)
      | none => throw .openFailed

/-- Step 1: the padded plaintext, and for a deniable box the key it opened under. -/
def unbox (sealed : List UInt8) (reader : DeviceKey) :
    Except Error (List UInt8 × Option (Bytes 32)) :=
  match sealed with
  | [] => .error .openFailed
  | form :: rest => do
    checkLen form sealed.length
    if form = signedBox then unboxFrom P H form signedInfo none rest reader
    else if form = deniableBox then
      let (pkS, rest) ← split32 rest
      unboxFrom P H form deniableInfo (some pkS) rest reader
    else throw (.unsupportedVersion form.toUInt64)

/-- The map of a deniable box: no signature inside, which would undo it. -/
def readDeniable (value : Value) : Except Error PrivateMessage :=
  if ¬ isMap value then .error .notAMap
  else if (value.get "sig").isSome then .error (.badField "sig")
  else do
    let v ← uint value "v"
    if v ≠ version then throw (.unsupportedVersion v)
    else PrivateMessage.fromValue value false

/-- The map of a signed box. -/
def readSigned (value : Value) : Except Error (PrivateMessage × Envelope) := do
  let env ← Envelope.fromValue value
  let message ← PrivateMessage.fromValue env.value false
  return (message, env)

/-- Step 2: the padding, then the map, sent to the reader. -/
def readMap (padded : List UInt8) (deniable : Bool) (reader : Fingerprint) :
    Except Error (PrivateMessage × Option Envelope) := do
  let bytes ← unpad padded deniable
  let value ← ofCbor (decodeCanonical bytes)
  let (message, env) ←
    if deniable then do
      let message ← readDeniable value
      pure (message, none)
    else do
      let (message, env) ← readSigned value
      pure (message, some env)
  if message.toFp ≠ reader then throw (.badField "to")
  else return (message, env)

/-- Step 3: neither older than the hold time nor from the future. -/
def fresh (sent now latest : UInt64) : Except Error Unit :=
  if sent < satSub (max now latest) hold ∨ sent > satAdd now skew then .error .clockSkew else .ok ()

def shownAsAnother (sender : Sender) (signer : Fingerprint) : Bool :=
  match sender with
  | .named fp => fp ≠ signer
  | _ => false

/-- Steps 5 and 6: the certificate, valid now as well and the sender's, then the signature. -/
def verify (message : PrivateMessage) (env : Option Envelope) (pkS : Option (Bytes 32))
    (ctx : Opening) : Except Error DeviceCert := do
  let cert ← checkCert P message.cert message.sent ctx.received
  cert.checkValid ctx.now skew
  if shownAsAnother ctx.sender (Fingerprint.of P cert.identity) ∨ pkS.any fun pk => pk ≠ cert.deviceEnc
  then throw .keyMismatch
  else
    match env with
    | some env => do
      env.verify P cert.device PrivateMessage.object.domain
      return cert
    | none => return cert

/-- Steps 1 and 2. -/
def read (sealed : List UInt8) (reader : DeviceKey) (ctx : Opening) :
    Except Error ((PrivateMessage × Option Envelope) × Option (Bytes 32)) := do
  let (padded, pkS) ← unbox P H sealed reader
  let map ← readMap padded pkS.isSome ctx.reader
  return (map, pkS)

/-- The signer a certificate claims, before it is checked. -/
def claimed (message : PrivateMessage) : Option Fingerprint :=
  match DeviceCert.parse P message.cert with
  | .ok cert => some (Fingerprint.of P cert.identity)
  | .error _ => none

/-- What a box that passed every step is shown as. -/
def shown (message : PrivateMessage) (env : Option Envelope) (cert : DeviceCert) (received : UInt64) :
    Opened :=
  let sentApart := absDiff message.sent received > skew
  match env with
  | some env => .verified ⟨message, cert, env.value⟩ sentApart
  | none => .deniable message cert sentApart

/-- How long an accepted message is remembered. -/
def heldUntil (sent : UInt64) : UInt64 := satAdd sent (hold + skew)

variable {M : Type} (R : Replay M)

/-- Steps 5 to 7, for a message that is fresh and not known to be accepted. -/
def admitFresh (message : PrivateMessage) (env : Option Envelope) (pkS : Option (Bytes 32))
    (ctx : Opening) (memory : M) : Opened × M :=
  match verify P message env pkS ctx with
  | .error e => (.invalid message e, memory)
  | .ok cert =>
    let signer := Fingerprint.of P cert.identity
    if ctx.sender = .unknown then
      (.unverified message signer (env.map fun env => encode env.value), memory)
    else
      let (added, memory) := R.accept memory signer message.id (heldUntil message.sent)
      if ¬ added then (.dropped .replayed, memory)
      else (shown message env cert ctx.received, memory)

/-- Steps 4 to 7, `freshness` being the outcome of step 3. -/
def admitUnseen (freshness : Except Error Unit) (message : PrivateMessage) (env : Option Envelope)
    (pkS : Option (Bytes 32)) (ctx : Opening) (memory : M) : Opened × M :=
  match freshness with
  | .error e => (.dropped e, memory)
  | .ok () =>
    if (claimed P message).any fun signer => R.accepted memory signer message.id then
      (.dropped .replayed, memory)
    else admitFresh P R message env pkS ctx memory

def «open» (sealed : List UInt8) (reader : DeviceKey) (ctx : Opening) (memory : M) : Opened × M :=
  match read P H sealed reader ctx with
  | .error e => (.unopened e, memory)
  | .ok ((message, env), pkS) =>
    let (latest, memory) := R.latest memory ctx.now
    admitUnseen P R (fresh message.sent ctx.now latest) message env pkS ctx memory

end Open

end Sealed

end HxdNg.Identity
