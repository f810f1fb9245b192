import Mathlib
import HxdNg.Admission.Objects
import HxdNg.Accounts.Access
import HxdNg.Identity.FingerprintText
import HxdNg.Lib.Assoc

/-!
# What the server keeps of identities

Outstanding challenges, transport tokens, the devices and cards it was shown, the successor anchors with
the rotations accepted, and the accounts behind them.

* `Tables`, `rememberToken`, `rememberDevice`, `rememberCard` : the tables under one lock, each with a
  ceiling;
* `Anchors`, `Refused` : the commitments and rotations on file; the keys refused;
* `AuthBackend`, `Env` : the account backend, and what one call reads of the world outside;
* `Server` : all of it.
-/

namespace HxdNg.Admission

open Identity Assoc
open Registrars (Attestation)
open Accounts (AccessBits)

/-- Nanoseconds of a clock that does not follow the wall's. -/
abbrev Instant := Nat

/-- How long before `now` an instant is; none before it. -/
def since (now at_ : Instant) : Nat := now - at_

def second : Nat := 1000000000

/-- Challenge and token lifetime. -/
def ttl : Nat := 60 * second

def maxDevices : Nat := 8192
def maxCards : Nat := 4096
def maxChallenges : Nat := 65536
def maxTokens : Nat := 65536
def sweepEvery : Nat := 256
def maxAnchors : Nat := 16384

/-! ## Configuration -/

/-- What to do with an identity that has no linked account. -/
inductive NewAccounts where
  | deny
  | guest
  | create
  deriving DecidableEq

/-- How to treat an identity with no acceptable attestation. -/
inductive Unattested where
  | deny
  | guest
  | allow
  deriving DecidableEq

/-- What a freeze at a registrar does here. -/
inductive Frozen where
  | deny
  | guest
  deriving DecidableEq

/-- What a list past its lifetime does. -/
inductive Stale where
  | cached
  | guest
  | deny
  deriving DecidableEq

structure IdentityConfig where
  newAccounts : NewAccounts
  allowList : List String
  minAttestationAge : UInt64
  unattested : Unattested
  registrarKeys : List (String × PublicKey)
  clockSkew : UInt64
  defaultAccess : Option AccessBits
  maxNewAccountsPerHour : Option Nat
  frozen : Frozen
  bannedRegistrars : List String
  newcomerDelay : UInt64
  hosts : List String
  loginProofV1 : Bool

/-! ## An identity here -/

/-- What an identity will get at application login. -/
inductive Outcome where
  | linked
  | created
  | guest
  | unattestedGuest
  | classicPendingLink
  deriving DecidableEq

/-- What a client declares about the hop behind it. -/
inductive Downstream where
  | loopback
  | cleartext
  deriving DecidableEq

/-- What an authenticated upgrade carries. -/
structure TransportIdentity where
  identity : PublicKey
  device : PublicKey
  fingerprint : Fingerprint
  handle : Option String
  age : UInt64
  outcome : Outcome
  deviceCaps : Option UInt64
  deviceExpires : UInt64
  deviceCert : List UInt8
  deviceEnc : Bytes 32
  account : Option String
  downstreamCleartext : Bool
  quietUntil : Option UInt64
  deriving DecidableEq

def TransportIdentity.allows (ident : TransportIdentity) (cap : UInt64) : Bool :=
  ident.deviceCaps.all fun c => c &&& cap = cap

inductive AuthRefused where
  | badCard
  | badCert
  | badProof
  | revoked
  | denied
  | cardTooLarge
  | unknownChallenge
  | wrongHost
  | unsupportedProof
  | loginFailed
  | guestLink
  | noManage
  | alreadyLinked
  | notLinked
  | banned
  | rotated (successor : Fingerprint)
  | backend
  deriving DecidableEq

/-! ## The tables -/

structure DeviceRecord where
  cert : List UInt8
  identity : PublicKey
  expires : UInt64
  downstream : Downstream
  seen : Instant

structure CardRecord where
  updated : UInt64
  successor : Option (Bytes 32)
  bytes : List UInt8
  seen : Instant

structure Tables where
  /-- By the challenge's digest. -/
  challenges : Map (Bytes 32) Instant := .empty
  /-- By the token's digest. -/
  tokens : Map (Bytes 32) (TransportIdentity × Instant) := .empty
  devices : Map PublicKey DeviceRecord := .empty
  cards : Map Fingerprint CardRecord := .empty
  sinceSweep : Nat := 0
  swept : Instant := 0
  created : List Instant := []

section Evict
variable {κ ν : Type} [DecidableEq κ]

/-- Without its entry of the least `key`. -/
def evictOldest (key : ν → Instant) (m : Map κ ν) : Map κ ν :=
  match m.entries.argmin fun e => key e.2 with
  | some e => m.drop e.1
  | none => m

end Evict

/-- Insert a token, dropping the expired and then, at the ceiling, the oldest. -/
def rememberToken (tokens : Map (Bytes 32) (TransportIdentity × Instant)) (key : Bytes 32)
    (ident : TransportIdentity) (now : Instant) (cap : Nat) :
    Map (Bytes 32) (TransportIdentity × Instant) :=
  let live := tokens.filter fun e => since now e.2.2 < ttl
  let room := if live.size ≥ cap then evictOldest (·.2) live else live
  room.set key (ident, now)

/-- Insert a device, at the ceiling dropping the expired and then the least recently seen. -/
def rememberDevice (devices : Map PublicKey DeviceRecord) (key : PublicKey) (rec : DeviceRecord)
    (now : UInt64) : Map PublicKey DeviceRecord :=
  let room :=
    if devices.size ≥ maxDevices ∧ devices.get key = none then
      let live := devices.filter fun e => e.2.expires ≥ now
      if live.size ≥ maxDevices then evictOldest (·.seen) live else live
    else devices
  room.set key rec

/-- What a card leaves of its entry: the stored bytes unless it is newer, and any successor seen. -/
def CardRecord.refreshed (entry : CardRecord) (card : Card) (bytes : List UInt8) (seen : Instant) :
    CardRecord :=
  let successor := entry.successor.or card.successor
  if entry.bytes.isEmpty ∨ card.updated > entry.updated then ⟨card.updated, successor, bytes, seen⟩
  else { entry with successor, seen }

/-- Insert or refresh a card under the same kind of ceiling. -/
def rememberCard (cards : Map Fingerprint CardRecord) (fp : Fingerprint) (card : Card)
    (bytes : List UInt8) (seen : Instant) : Map Fingerprint CardRecord :=
  let room := if cards.size ≥ maxCards ∧ cards.get fp = none then evictOldest (·.seen) cards else cards
  room.set fp (((room.get fp).getD ⟨0, none, [], seen⟩).refreshed card bytes seen)

/-! ## Anchors and refused keys -/

/-- The successor file, as read and written in this run. -/
structure Anchors where
  map : Map Fingerprint (Bytes 32)
  rotated : Map Fingerprint (Fingerprint × Bool)
  /-- False where the file could not be read. -/
  writable : Bool

namespace Anchors

def get (a : Anchors) (fp : Fingerprint) : Option (Bytes 32) := a.map.get fp

def rotatedTo (a : Anchors) (fp : Fingerprint) : Option Fingerprint := (a.rotated.get fp).map (·.1)

/-- The rotations whose moves have not all landed, to `to_` or to anyone. -/
def unmoved (a : Anchors) (to_ : Option Fingerprint) : List (Fingerprint × Fingerprint) :=
  (a.rotated.entries.filter fun e => !e.2.2 && to_.all (e.2.1 = ·)).map fun e => (e.1, e.2.1)

/-- Note that a rotation has moved all it moves. -/
def moved (a : Anchors) (from_ : Fingerprint) : Anchors :=
  { a with rotated := a.rotated.mapVals fun k e => if k = from_ then (e.1, true) else e }

/-- Record a rotation unless one is on file; whether it was recorded. -/
def rotate (a : Anchors) (from_ to_ : Fingerprint) : Bool × Anchors :=
  if (a.rotated.get from_).isSome then (false, a)
  else (true, { a with rotated := a.rotated.set from_ (to_, false) })

/-- Record a first commitment; one on file stands. -/
def commit (a : Anchors) (fp : Fingerprint) (successor : Bytes 32) : Anchors :=
  if ¬ a.writable then a
  else if (a.map.get fp).isSome then a
  else if a.map.size ≥ maxAnchors then a
  else { a with map := a.map.set fp successor }

end Anchors

/-- The operator's list, the registrars' and the keys rotated away from. -/
structure Refused where
  identities : List Fingerprint := []
  devices : List Fingerprint := []
  publishedIdentities : List Fingerprint := []
  publishedDevices : List (Fingerprint × Fingerprint) := []
  rotated : List Fingerprint := []

def Refused.isRevoked (r : Refused) (identity device : Fingerprint) : Bool :=
  (identity ∈ r.identities || device ∈ r.devices) ||
    (identity ∈ r.publishedIdentities || (identity, device) ∈ r.publishedDevices) || identity ∈ r.rotated

/-! ## The accounts -/

structure Account where
  login : String
  name : String
  hasPassword : Bool
  access : AccessBits
  fingerprint : Option Fingerprint
  identityLogin : Bool
  allowSelfLink : Bool
  deriving DecidableEq

inductive AuthError where
  | noSuchAccount
  | badProof
  | backend
  deriving DecidableEq

inductive LinkOutcome where
  | linked (a : Account)
  | already (a : Account)
  | taken (a : Account)
  | refused (a : Account)

/-- An account backend over accounts kept as an `A`. -/
structure AuthBackend (A : Type) where
  authenticate : A → String → List UInt8 → Except AuthError Account
  find : A → String → Except AuthError Account
  findByFingerprint : A → Fingerprint → Except AuthError (Option Account)
  linkIdentity : A → String → Fingerprint → Except AuthError LinkOutcome × A
  rotateLink : A → Fingerprint → Fingerprint → Except AuthError (Option Account) × A
  findOrCreateLinked : A → String → String → Fingerprint → AccessBits →
    Except AuthError (Account × Bool) × A

/-! ## The world outside -/

/-- What the trusted registrars publish against one identity. -/
structure Published where
  records : List Registrars.Record
  stale : Bool

structure RegistrarsHeld where
  stale : Stale
  keys : String → PublicKey → UInt64 → List PublicKey
  find : PublicKey → List String → UInt64 → Published

/-- What the server's own registrar says of a card. -/
inductive CardCheck where
  | ok
  | successorMismatch
  | failed
  deriving DecidableEq

/-- What one call reads: the clocks, the backend, the bans and what registrars hold. -/
structure Env (A : Type) where
  now : Instant
  unix : UInt64
  auth : AuthBackend A
  personBanned : Option String → Option Fingerprint → Option String → Bool
  registrar : Option (Card → CardCheck)
  registrars : Option RegistrarsHeld
  firstSeen : Fingerprint → UInt64 → UInt64
  rotateIdentity : Fingerprint → Fingerprint → Bool

/-! ## The server -/

structure Server (A : Type) where
  tables : Tables
  anchors : Option Anchors
  refused : Refused
  accounts : A

namespace Server

variable {A : Type} (s : Server A)

def rotatedTo (fp : Fingerprint) : Option Fingerprint := s.anchors.bind (·.rotatedTo fp)

/-- The successor anchored for an identity, or else the cached card's. -/
def committedSuccessor (fp : Fingerprint) : Option (Bytes 32) :=
  (s.anchors.bind (·.get fp)).or ((s.tables.cards.get fp).bind (·.successor))

def dropDevice (device : PublicKey) : Server A :=
  { s with tables := { s.tables with devices := s.tables.devices.drop device } }

end Server

/-- A card may set a commitment once, and never change or drop it. -/
def successorChanged (committed : Option (Bytes 32)) (card : Card) : Bool :=
  committed.any fun c => card.successor ≠ some c

end HxdNg.Admission
