import HxdNg.Identity.Cert

/-!
# Signed messages

A private message, a line of public chat and a news article, each signed by the sender device's key.
`Object` is what the three share; `Signed` is an object whose map, certificate and signature have
been checked, in any of three forms: whole, detached (without its texts) and link (without its
certificate as well).
-/

namespace HxdNg.Identity

open Cbor

/-- The skew allowance, in seconds. -/
def skew : UInt64 := 600

def certMaxBytes : Nat := 512

def detachedMaxBytes : Nat := 1020

def linkMaxBytes : Nat := 256

/-- The sizes a sealed message's plaintext is padded to. -/
def padSizes : List Nat := [512, 1024, 2048, 4096, 8192, 17103]

def deniableKeyBytes : Nat := 32

/-! ## Texts -/

/-- `text.replace("\r\n", "\n")`. -/
def replaceCrLf : List Char → List Char
  | '\r' :: '\n' :: t => '\n' :: replaceCrLf t
  | c :: t => c :: replaceCrLf t
  | [] => []

/-- Each CR LF pair, then each lone CR, as one LF. -/
def canonicalize (s : String) : String :=
  String.ofList ((replaceCrLf s.toList).map fun c => if c = '\r' then '\n' else c)

/-- Holds no C0 control but LF and TAB. -/
def isCanonical (s : String) : Bool := !s.toList.any fun c => c < ' ' && c ≠ '\n' && c ≠ '\t'

/-- Canonical and within `min..=max` bytes. -/
def checkText (s : String) (key : String) (min max : Nat) : Except Error Unit :=
  if ¬ isCanonical s ∨ s.utf8ByteSize < min ∨ s.utf8ByteSize > max then .error (.badField key)
  else .ok ()

def canonicalValue (s : String) : Value := .text (canonicalize s)

/-! ## Fields -/

/-- A key whose presence would let one object pass for another. -/
def refuse (v : Value) (key : String) : Except Error Unit :=
  match v.get key with
  | some _ => .error (.badField key)
  | none => .ok ()

/-- No keys but `allowed`. -/
def onlyKeys (allowed : List String) : Value → Bool
  | .map entries => entries.all fun e => allowed.any fun t => e.1 = .text t
  | _ => false

/-- A nested map holding no keys but `allowed`. -/
def exactly (v : Value) (key : String) (allowed : List String) : Except Error Value :=
  match v.get key with
  | some inner => if onlyKeys allowed inner then .ok inner else .error (.badField key)
  | none => .error (.missingField key)

def optBytes16 := optional (asArray 16)

def bytes16 (v : Value) (key : String) : Except Error (Bytes 16) := do
  match ← optBytes16 v key with
  | some b => return b
  | none => throw (.missingField key)

/-- A flag present only when true. -/
def onlyTrue (v : Value) (key : String) : Except Error Bool := do
  match ← optBool v key with
  | some false => throw (.badField key)
  | flag => return flag.isSome

/-- Any failure as one about `key`. -/
def orBad {α : Type} (key : String) : Except Error α → Except Error α
  | .ok a => .ok a
  | .error _ => .error (.badField key)

/-- The fields all three share, and the key only a link form carries. -/
def common (v : Value) : Except Error (Bytes 16 × UInt64 × List UInt8) := do
  refuse v "cert_sha256"
  let id ← bytes16 v "id"
  let sent ← uint v "sent"
  let cert ← bytes v "cert"
  return (id, sent, cert)

/-! ## The three objects -/

/-- A private message, bound to its recipient. -/
structure PrivateMessage where
  id : Bytes 16
  sent : UInt64
  toFp : Fingerprint
  cert : List UInt8
  text : String
  quote : Option String
  auto : Bool
  deriving DecidableEq

/-- A line of public chat, bound to its server and room. -/
structure ChatLine where
  id : Bytes 16
  sent : UInt64
  server : PublicKey
  /-- 0 for the lobby, or a curated room's id. -/
  room : UInt64
  cert : List UInt8
  text : String
  act : Bool
  deriving DecidableEq

/-- The article a reply answers. -/
structure Parent where
  article : UInt64
  /-- Its own `id` and its signer's fingerprint, when it is signed. -/
  signed : Option (Bytes 16 × Fingerprint)
  deriving DecidableEq

/-- A news article, bound to its server and category. -/
structure Article where
  id : Bytes 16
  sent : UInt64
  server : PublicKey
  category : Bytes 16
  parent : Option Parent
  cert : List UInt8
  subject : String
  body : String
  mime : String
  deriving DecidableEq

/-- A flag as it is written: only when true. -/
def flag (b : Bool) : Option Value := if b then some (.bool true) else none

namespace PrivateMessage

/-- The map without `sig`, its texts canonical. -/
def unsigned (m : PrivateMessage) : Value :=
  map [("v", some (.uint version)), ("id", some (.bytes m.id.val)), ("sent", some (.uint m.sent)),
    ("to", some (.bytes m.toFp.val)), ("cert", some (.bytes m.cert)),
    ("text", some (canonicalValue m.text)), ("quote", m.quote.map canonicalValue),
    ("auto", flag m.auto)]

/-- A quote: only in a whole map, and bounded. -/
def checkQuote (quote : Option String) (detached : Bool) : Except Error Unit :=
  match quote with
  | none => .ok ()
  | some q => if detached then .error (.badField "quote") else checkText q "quote" 1 8192

/-- Read and check the fields of a whole map, under the limits of the form it arrived in. -/
def fromValue (v : Value) (detached : Bool) : Except Error PrivateMessage := do
  refuse v "in"
  let (id, sent, cert) ← common v
  let quote ← optText v "quote"
  checkQuote quote detached
  let txt ← Identity.text v "text"
  checkText txt "text" 1 (if detached then 4096 else 8192)
  let toFp ← bytes32 v "to"
  let auto ← onlyTrue v "auto"
  return { id, sent, toFp, cert, text := txt, quote, auto }

end PrivateMessage

namespace ChatLine

def unsigned (m : ChatLine) : Value :=
  let scope := map [("server", some (.bytes m.server.val)), ("room", some (.uint m.room))]
  map [("v", some (.uint version)), ("id", some (.bytes m.id.val)), ("sent", some (.uint m.sent)),
    ("in", some scope), ("cert", some (.bytes m.cert)), ("text", some (canonicalValue m.text)),
    ("act", flag m.act)]

def fromValue (v : Value) (_detached : Bool) : Except Error ChatLine := do
  refuse v "to"
  let (id, sent, cert) ← common v
  let scope ← exactly v "in" ["server", "room"]
  let txt ← Identity.text v "text"
  checkText txt "text" 1 4096
  let server ← orBad "in" (bytes32 scope "server")
  let room ← orBad "in" (uint scope "room")
  let act ← onlyTrue v "act"
  return { id, sent, server, room, cert, text := txt, act }

end ChatLine

namespace Article

def parentValue (p : Parent) : Value :=
  map [("article", some (.uint p.article)), ("id", p.signed.map fun s => .bytes s.1.val),
    ("by", p.signed.map fun s => .bytes s.2.val)]

def unsigned (m : Article) : Value :=
  let scope := map [("server", some (.bytes m.server.val)), ("category", some (.bytes m.category.val))]
  map [("v", some (.uint version)), ("id", some (.bytes m.id.val)), ("sent", some (.uint m.sent)),
    ("in", some scope), ("parent", m.parent.map parentValue), ("cert", some (.bytes m.cert)),
    ("subject", some (canonicalValue m.subject)), ("body", some (canonicalValue m.body)),
    ("mime", some (.text m.mime))]

/-- Both of a signed parent's fields, or neither. -/
def parentSigned (p : Value) : Except Error (Option (Bytes 16 × Fingerprint)) := do
  let id ← orBad "parent" (optBytes16 p "id")
  let signer ← orBad "parent" (optBytes32 p "by")
  match id, signer with
  | some id, some signer => return some (id, signer)
  | none, none => return none
  | _, _ => throw (.badField "parent")

def readParent (v : Value) : Except Error (Option Parent) :=
  match v.get "parent" with
  | none => .ok none
  | some _ => do
    let p ← exactly v "parent" ["article", "id", "by"]
    let signed ← parentSigned p
    let article ← orBad "parent" (uint p "article")
    return some { article, signed }

def checkSubject (subject : String) : Except Error Unit := do
  checkText subject "subject" 1 255
  if subject.toList.contains '\n' then throw (.badField "subject")

def checkMime (mime : String) : Except Error Unit :=
  if mime ≠ "text/plain" ∧ mime ≠ "text/markdown" then .error (.badField "mime") else .ok ()

def fromValue (v : Value) (_detached : Bool) : Except Error Article := do
  refuse v "to"
  let (id, sent, cert) ← common v
  let scope ← exactly v "in" ["server", "category"]
  let parent ← readParent v
  let subject ← Identity.text v "subject"
  checkSubject subject
  let body ← Identity.text v "body"
  checkText body "body" 0 65535
  let mime ← Identity.text v "mime"
  checkMime mime
  let server ← orBad "in" (bytes32 scope "server")
  let category ← orBad "in" (bytes16 scope "category")
  return { id, sent, server, category, parent, cert, subject, body, mime }

end Article

/-! ## What they share -/

/-- One of the three signed object types. -/
structure Object (T : Type) where
  domain : String
  textKeys : List String
  wholeMaxBytes : Nat
  sent : T → UInt64
  cert : T → List UInt8
  unsigned : T → Value
  fromValue : Value → Bool → Except Error T

def headLen (n : Nat) : Nat :=
  if n < 24 then 1 else if n ≤ 0xff then 2 else if n ≤ 0xffff then 3 else 5

/-- A text key of `keyLen` bytes and a text of `max`, encoded. -/
def textEntry (keyLen max : Nat) : Nat := headLen keyLen + keyLen + headLen max + max

def PrivateMessage.object : Object PrivateMessage where
  domain := "hl-identity/message/v1"
  textKeys := ["text"]
  wholeMaxBytes := padSizes.getLastD 0
  sent := sent
  cert := cert
  unsigned := unsigned
  fromValue := fromValue

def ChatLine.object : Object ChatLine where
  domain := "hl-identity/chat/v1"
  textKeys := ["text"]
  wholeMaxBytes := detachedMaxBytes + textEntry 4 4096 + 1
  sent := sent
  cert := cert
  unsigned := unsigned
  fromValue := fromValue

def Article.object : Object Article where
  domain := "hl-identity/news/v1"
  textKeys := ["subject", "body"]
  wholeMaxBytes := detachedMaxBytes + textEntry 7 255 + textEntry 4 65535 + 1
  sent := sent
  cert := cert
  unsigned := unsigned
  fromValue := fromValue

section Forms
variable (P : Primitives) {T : Type} (O : Object T)

/-- A certificate that allows messages, of bounded size, valid at `sent` and when received. -/
def checkCert (bytes : List UInt8) (sent received : UInt64) : Except Error DeviceCert :=
  if bytes.length > certMaxBytes then .error (.badField "cert")
  else do
    let cert ← DeviceCert.parse P bytes
    cert.require caps.message
    checkWindow cert.issued cert.expires sent skew
    checkWindow cert.issued cert.expires received skew
    return cert

/-- Sign with the device key the certificate names, refusing anything a reader would. -/
def Object.sign (m : T) (device : DeviceKey) : Except Error (List UInt8) := do
  let unsigned := O.unsigned m
  let _ ← O.fromValue unsigned false
  let cert ← checkCert P (O.cert m) (O.sent m) (O.sent m)
  if cert.device ≠ device.publicKey P then throw .keyMismatch
  else return Envelope.seal unsigned (device.sign P O.domain)

/-- A signed object that passed the checks, with its whole map. -/
structure Signed (T : Type) where
  message : T
  cert : DeviceCert
  whole : Value

/-- The texts a form is carried beside, one for each of the object's text keys. -/
abbrev Object.Texts := { texts : List String // texts.length = O.textKeys.length }

namespace Signed

def verify (value : Value) (detached : Bool) (received : UInt64) : Except Error (Signed T) := do
  let env ← Envelope.fromValue value
  let message ← O.fromValue env.value detached
  let cert ← checkCert P (O.cert message) (O.sent message) received
  env.verify P cert.device O.domain
  return ⟨message, cert, env.value⟩

/-- A whole map. -/
def parse (whole : List UInt8) (received : UInt64) : Except Error (Signed T) :=
  if whole.length > O.wholeMaxBytes then .error .tooLarge
  else do
    let value ← ofCbor (decodeCanonical whole)
    verify P O value false received

/-- The map with each text put back under its key, which must not be there already. -/
def pushTexts : List (String × String) → Value → Except Error Value
  | [], v => .ok v
  | (key, txt) :: rest, v =>
    if (v.get key).isSome then .error (.badField key)
    else pushTexts rest (pushEntry key (canonicalValue txt) v)

def reassemble (value : Value) (texts : O.Texts) (received : UInt64) : Except Error (Signed T) :=
  if ¬ isMap value then .error .notAMap
  else do
    let whole ← pushTexts (O.textKeys.zip texts.val) value
    verify P O whole true received

/-- A detached form and the texts it was carried beside. -/
def parseDetached (bytes : List UInt8) (texts : O.Texts) (received : UInt64) :
    Except Error (Signed T) :=
  if bytes.length > detachedMaxBytes then .error .tooLarge
  else do
    let value ← ofCbor (decodeCanonical bytes)
    reassemble P O value texts received

/-- A link form's map and the hash it names its certificate by. -/
def linkValue (bytes : List UInt8) : Except Error (Value × Bytes 32) :=
  if bytes.length > linkMaxBytes then .error .tooLarge
  else do
    let value ← ofCbor (decodeCanonical bytes)
    if ¬ isMap value then throw .notAMap
    else if (value.get "cert").isSome then throw (.badField "cert")
    else
      let hash ← bytes32 value "cert_sha256"
      return (value, hash)

/-- A link form with the certificate fetched for it, which must hash to the one it names. -/
def parseLink (bytes : List UInt8) (texts : O.Texts) (cert : List UInt8) (received : UInt64) :
    Except Error (Signed T) := do
  let (value, hash) ← linkValue bytes
  if P.sha256 cert ≠ hash then throw .certMismatch
  else reassemble P O (pushEntry "cert" (.bytes cert) (value.without "cert_sha256")) texts received

/-- `content_sha256` of a link form and its texts, from before its certificate is held. -/
def linkContentSha256 (bytes : List UInt8) (texts : O.Texts) : Except Error (Bytes 32) := do
  let (value, _) ← linkValue bytes
  let content := ((value.without "cert_sha256").without "sent").without "sig"
  let whole := (O.textKeys.zip texts.val).foldl (fun v kt => pushEntry kt.1 (canonicalValue kt.2) v) content
  return P.sha256 (encode whole)

variable (s : Signed T)

def wholeBytes : List UInt8 := encode s.whole

/-- SHA-256 of what two messages that say the same thing share. -/
def contentSha256 : Bytes 32 :=
  P.sha256 (encode (((s.whole.without "sent").without "cert").without "sig"))

def detachedValue : Value := O.textKeys.foldl (fun v key => v.without key) s.whole

/-- The map without its texts, refused where its form's limits are tighter than a whole map's. -/
def detached : Except Error (List UInt8) := do
  let _ ← O.fromValue s.whole true
  let bytes := encode (s.detachedValue O)
  if bytes.length > detachedMaxBytes then throw .tooLarge
  else return bytes

/-- The detached form with `cert` replaced by its SHA-256. -/
def link : Except Error (List UInt8) := do
  let _ ← s.detached O
  let hash := P.sha256 (O.cert s.message)
  let bytes := encode (pushEntry "cert_sha256" (.bytes hash.val) ((s.detachedValue O).without "cert"))
  if bytes.length > linkMaxBytes then throw .tooLarge
  else return bytes

end Signed

end Forms

/-! ## Padding -/

def padSizesFor (deniable : Bool) : List Nat :=
  padSizes.map fun size => size - if deniable then deniableKeyBytes else 0

/-- Pad a private message's map to the smallest size it fits, less the sender's key for a deniable
box. -/
def pad (bytes : List UInt8) (deniable : Bool) : Except Error (List UInt8) :=
  match (padSizesFor deniable).find? fun size => bytes.length ≤ size with
  | some size => .ok (bytes ++ List.replicate (size - bytes.length) 0)
  | none => .error .tooLarge

/-- The map a padded plaintext holds: one item from the start, every byte after it zero. -/
def unpad (padded : List UInt8) (deniable : Bool) : Except Error (List UInt8) :=
  if ¬ (padSizesFor deniable).any fun size => size = padded.length then .error (.badField "padding")
  else do
    let last ← ofCbor (itemLen padded)
    if (padded.drop last).any fun b => b ≠ 0 then throw (.badField "padding")
    else return padded.take last

end HxdNg.Identity
