import HxdNg.Identity.Signed

/-!
# The device certificate
-/

namespace HxdNg.Identity

open Cbor

/-! ## Names -/

/-- Unicode's `Cc`. -/
def isControl (c : Char) : Bool := c.toNat ≤ 0x1f || (0x7f ≤ c.toNat && c.toNat ≤ 0x9f)

/-- Unicode's `White_Space`. -/
def isWhitespace (c : Char) : Bool :=
  let n := c.toNat
  (9 ≤ n && n ≤ 13) || n = 0x20 || n = 0x85 || n = 0xa0 || n = 0x1680 ||
    (0x2000 ≤ n && n ≤ 0x200a) || n = 0x2028 || n = 0x2029 || n = 0x202f || n = 0x205f || n = 0x3000

/-- The code points that render as nothing, or as something else, in the order the source lists
them. -/
def deceptiveRanges : List (Nat × Nat) :=
  [(0xad, 0xad), (0x34f, 0x34f), (0x61c, 0x61c), (0x115f, 0x1160), (0x17b4, 0x17b5),
    (0x180b, 0x180f), (0x200b, 0x200f), (0x202a, 0x202e), (0x2060, 0x206f), (0x3164, 0x3164),
    (0xfe00, 0xfe0f), (0xfeff, 0xfeff), (0xffa0, 0xffa0), (0xfff0, 0xfff8), (0x1bca0, 0x1bca3),
    (0x1d173, 0x1d17a), (0xe0000, 0xe0fff), (0x600, 0x605), (0x6dd, 0x6dd), (0x70f, 0x70f),
    (0x890, 0x891), (0x8e2, 0x8e2), (0x110bd, 0x110bd), (0x110cd, 0x110cd), (0x13430, 0x1343f),
    (0xfff9, 0xfffb), (0x2800, 0x2800)]

def isDeceptive (c : Char) : Bool :=
  isControl c || (isWhitespace c && c ≠ ' ') ||
    deceptiveRanges.any fun r => r.1 ≤ c.toNat && c.toNat ≤ r.2

/-- A text's characters without the surrounding white space. -/
def trim (s : List Char) : List Char :=
  ((s.dropWhile isWhitespace).reverse.dropWhile isWhitespace).reverse

/-! ## The certificate -/

namespace caps

def message : UInt64 := (1 : UInt64) <<< 1

/-- May link and unlink accounts and change the user card. -/
def manage : UInt64 := (1 : UInt64) <<< 3

end caps

structure DeviceCert where
  identity : PublicKey
  device : PublicKey
  deviceEnc : Bytes 32
  issued : UInt64
  expires : UInt64
  /-- `none` is unrestricted. -/
  caps : Option UInt64
  name : Option String
  deriving DecidableEq

namespace DeviceCert

def domain : String := "hl-identity/device-cert/v1"

def maxBytes : Nat := 4 * 1024

def nameMaxChars : Nat := 64

def unsigned (c : DeviceCert) : Value :=
  map [("v", some (.uint version)), ("identity", some (.bytes c.identity.val)),
    ("device", some (.bytes c.device.val)), ("device_enc", some (.bytes c.deviceEnc.val)),
    ("issued", some (.uint c.issued)), ("expires", some (.uint c.expires)),
    ("caps", c.caps.map .uint), ("name", c.name.map .text)]

/-- Sign with an identity's seed. -/
def sign (P : Primitives) (c : DeviceCert) (identity : Bytes 32) : List UInt8 :=
  Envelope.seal c.unsigned (signDomain P identity domain)

def checkFields (c : DeviceCert) : Except Error Unit :=
  match c.name with
  | some n =>
    if n.toList.length > nameMaxChars ∨ trim n.toList ≠ n.toList ∨ trim n.toList = [] ∨
        n.toList.any isDeceptive then .error (.badField "name")
    else .ok ()
  | none => .ok ()

def fromEnvelope (env : Envelope) : Except Error DeviceCert := do
  let v := env.value
  let identity ← bytes32 v "identity"
  let device ← bytes32 v "device"
  let deviceEnc ← bytes32 v "device_enc"
  let issued ← uint v "issued"
  let expires ← uint v "expires"
  let caps ← optUint v "caps"
  let name ← optText v "name"
  return ⟨identity, device, deviceEnc, issued, expires, caps, name⟩

/-- `parse` short of the signature. -/
def «open» (bytes : List UInt8) : Except Error (DeviceCert × Envelope) :=
  if bytes.length > maxBytes then .error .tooLarge
  else do
    let env ← Envelope.open bytes
    let cert ← fromEnvelope env
    cert.checkFields
    return (cert, env)

/-- Decode, and verify the signature against the embedded identity key. -/
def parse (P : Primitives) (bytes : List UInt8) : Except Error DeviceCert := do
  let (cert, env) ← DeviceCert.open bytes
  env.verify P cert.identity domain
  return cert

def checkValid (c : DeviceCert) (now skew : UInt64) : Except Error Unit :=
  checkWindow c.issued c.expires now skew

def allows (c : DeviceCert) (cap : UInt64) : Bool := c.caps.all fun x => x &&& cap = cap

def require (c : DeviceCert) (cap : UInt64) : Except Error Unit :=
  if c.allows cap then .ok () else .error .capabilityMissing

end DeviceCert

end HxdNg.Identity
