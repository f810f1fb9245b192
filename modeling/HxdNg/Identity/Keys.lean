import HxdNg.Identity.Cbor
import HxdNg.Lib.Machine

/-!
# Keys, fingerprints and domain-separated signatures

The crate's dependencies are the fields of `Primitives`; `Primitives.Correct` says of them what
their documentation does. Everything else is computed as the source computes it.
-/

namespace HxdNg.Identity

open Cbor (CborError)

abbrev PublicKey := Bytes 32

/-- SHA-256 of a public key. -/
abbrev Fingerprint := Bytes 32

abbrev Signature := Bytes 64

/-- Every parse and verification failure. -/
inductive Error where
  | cbor (e : CborError)
  | notAMap
  | missingField (key : String)
  | badField (key : String)
  | unsupportedVersion (v : UInt64)
  | invalidKey
  | badSignature
  | keyMismatch
  | expired
  | notYetValid
  | clockSkew
  | challengeMismatch
  | hostMismatch
  | capabilityMissing
  | tooLarge
  | certMismatch
  | openFailed
  | replayed
  | withdrawn
  deriving DecidableEq, Repr

/-- What the crate takes from `sha2`, `ed25519-dalek` and `x25519-dalek`. -/
structure Primitives where
  sha256 : List UInt8 → Bytes 32
  ed25519Public : Bytes 32 → PublicKey
  ed25519Sign : Bytes 32 → List UInt8 → Signature
  validKey : PublicKey → Bool
  verifyStrict : PublicKey → List UInt8 → Signature → Bool
  x25519Public : Bytes 32 → Bytes 32

/-- Ed25519 as documented: a seed's public key is a valid one, and verifies what the seed signs. -/
structure Primitives.Correct (P : Primitives) : Prop where
  validKey_public : ∀ seed, P.validKey (P.ed25519Public seed) = true
  verify_sign : ∀ seed msg, P.verifyStrict (P.ed25519Public seed) msg (P.ed25519Sign seed msg) = true

variable (P : Primitives)

def Fingerprint.of (pk : PublicKey) : Fingerprint := P.sha256 pk.val

/-- What a signature under `domain` is over. -/
def domainMessage (domain : String) (bytes : List UInt8) : List UInt8 := utf8 domain ++ 0 :: bytes

/-- Sign `bytes` under `domain`. -/
def signDomain (seed : Bytes 32) (domain : String) (bytes : List UInt8) : Signature :=
  P.ed25519Sign seed (domainMessage domain bytes)

/-- Verify a domain-separated signature. -/
def verifyDomain (pk : PublicKey) (domain : String) (bytes : List UInt8) (sig : Signature) :
    Except Error Unit :=
  if ¬ P.validKey pk then .error .invalidKey
  else if P.verifyStrict pk (domainMessage domain bytes) sig then .ok ()
  else .error .badSignature

theorem verifyDomain_signDomain {P : Primitives} (hP : P.Correct) (seed : Bytes 32)
    (domain : String) (bytes : List UInt8) :
    verifyDomain P (P.ed25519Public seed) domain bytes (signDomain P seed domain bytes) = .ok () := by
  simp [verifyDomain, signDomain, hP.validKey_public, hP.verify_sign]

/-- A device's signing and encryption keys, both derived from one seed. -/
structure DeviceKey where
  seed : Bytes 32
  deriving DecidableEq

namespace DeviceKey

def publicKey (k : DeviceKey) : PublicKey := P.ed25519Public k.seed

/-- The X25519 secret. -/
def encSecret (k : DeviceKey) : Bytes 32 := P.sha256 (utf8 "hl-identity/device-enc/v1" ++ k.seed.val)

def publicEnc (k : DeviceKey) : Bytes 32 := P.x25519Public (k.encSecret P)

def sign (k : DeviceKey) (domain : String) (bytes : List UInt8) : Signature :=
  signDomain P k.seed domain bytes

end DeviceKey

end HxdNg.Identity
