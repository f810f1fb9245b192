import HxdNg.Identity.Keys

/-!
# The shape every signed object shares

A canonical CBOR map with a `v` and a `sig`, verified over the map without `sig`. The field
accessors come in two families: a `required` field fails on absence, an `optional` one only on a
value of the wrong shape.
-/

namespace HxdNg.Identity

open Cbor

/-- The current version of every object type. -/
def version : UInt64 := 1

/-- A decoder's result as the crate's own error. -/
def ofCbor {α : Type} : Except CborError α → Except Error α
  | .ok a => .ok a
  | .error e => .error (.cbor e)

/-! ## Field accessors -/

section Fields
variable {α : Type} (read : Value → Option α)

def required (v : Value) (key : String) : Except Error α :=
  match v.get key with
  | some x => (read x).elim (.error (.badField key)) .ok
  | none => .error (.missingField key)

def optional (v : Value) (key : String) : Except Error (Option α) :=
  match v.get key with
  | some x => (read x).elim (.error (.badField key)) fun a => .ok (some a)
  | none => .ok none

end Fields

def asUint : Value → Option UInt64
  | .uint n => some n
  | _ => none

def asBytes : Value → Option (List UInt8)
  | .bytes b => some b
  | _ => none

def asArray (n : Nat) : Value → Option (Bytes n)
  | .bytes b => Bytes.ofList n b
  | _ => none

def asText : Value → Option String
  | .text s => some s
  | _ => none

def asBool : Value → Option Bool
  | .bool b => some b
  | _ => none

def uint := required asUint
def optUint := optional asUint
def bytes := required asBytes
def optBytes := optional asBytes
def bytes32 := required (asArray 32)
def optBytes32 := optional (asArray 32)
def bytes32x2 := required (asArray 64)
def text := required asText
def optText := optional asText
def optBool := optional asBool

/-! ## Envelopes -/

/-- A decoded map with its signature split out, not yet verified. -/
structure Envelope where
  value : Value
  v : UInt64
  signedBytes : List UInt8
  sig : Signature

def isMap : Value → Bool
  | .map _ => true
  | _ => false

namespace Envelope

/-- Checks map-ness, `v` and the shape of `sig`; any `v` from 1 to `newest` is read. -/
def fromValueUpto (value : Value) (newest : UInt64) : Except Error Envelope :=
  if ¬ isMap value then .error .notAMap
  else do
    let v ← uint value "v"
    if v = 0 ∨ v > newest then throw (.unsupportedVersion v)
    else
      let sig ← bytes32x2 value "sig"
      return ⟨value, v, encode (value.without "sig"), sig⟩

def fromValue (value : Value) : Except Error Envelope := fromValueUpto value version

/-- Decode and split. -/
def «open» (bytes : List UInt8) : Except Error Envelope := do
  let value ← ofCbor (decodeCanonical bytes)
  fromValue value

def verify (P : Primitives) (env : Envelope) (pk : PublicKey) (domain : String) :
    Except Error Unit :=
  verifyDomain P pk domain env.signedBytes env.sig

end Envelope

/-- A map with one entry more. -/
def pushEntry (key : String) (x : Value) : Value → Value
  | .map entries => .map (entries ++ [(.text key, x)])
  | v => v

/-- Attach a signature to an unsigned map and encode it. -/
def Envelope.seal (unsigned : Value) (sign : List UInt8 → Signature) : List UInt8 :=
  encode (pushEntry "sig" (.bytes (sign (encode unsigned)).val) unsigned)

/-- The validity-window check, `skew` allowed in both directions. -/
def checkWindow (issued expires now skew : UInt64) : Except Error Unit :=
  if expires ≤ issued then .error .notYetValid
  else if issued > satAdd now skew then .error .notYetValid
  else if satAdd expires skew < now then .error .expired
  else .ok ()

end HxdNg.Identity
