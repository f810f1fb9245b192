import HxdNg.Registrars.Signing
import HxdNg.Identity.Vectors

/-!
# One verifier for the five records

* `DeviceRevocation.sign`, `signAsDevice`, `IdentityRevocation.sign`, `Rotation.sign` : what a user
  signs, each read back by its own reader before it is handed out;
* `Record.ReadAlone` : that a record's own reader accepts the same bytes as it;
* `one_verifier` : what `Record.parse` reads, its kind's own reader reads alike; and what is signed is
  read as what was signed.
-/

namespace HxdNg.Identity

open Cbor

/-! ## Two signers -/

/-- `Envelope.seal` for a two-signer object. -/
def sealAcked (unsigned : Value) (sign ack : List UInt8 → Signature) : List UInt8 :=
  let body := encode unsigned
  encode (pushEntry "ack" (.bytes (ack body).val) (pushEntry "sig" (.bytes (sign body).val) unsigned))

namespace Rotation

def unsigned (r : Rotation) : Value :=
  map [("v", some (.uint version)), ("identity", some (.bytes r.identity.val)),
    ("successor", some (.bytes r.successor.val)), ("time", some (.uint r.time))]

/-- Signed by the predecessor and acknowledged by the successor; none where an assertion fails. -/
def sign (P : Primitives) (r : Rotation) (predecessor successor : Bytes 32) :
    Option (Except Error (List UInt8)) :=
  if P.ed25519Public predecessor = r.identity ∧ P.ed25519Public successor = r.successor then
    let bytes := sealAcked r.unsigned (signDomain P predecessor domain)
      (signDomain P successor (domain ++ "/ack"))
    some do
      let _ ← parse P bytes
      return bytes
  else none

end Rotation

end HxdNg.Identity

namespace HxdNg.Registrars

open HxdNg.Identity HxdNg.Identity.Cbor

/-! ## What a user signs -/

namespace DeviceRevocation

variable (P : Primitives)

def unsigned (r : DeviceRevocation) : Value :=
  map [("v", some (.uint version)), ("identity", some (.bytes r.identity.val)),
    ("device", some (.bytes r.device.val)), ("time", some (.uint r.time)),
    ("until", some (.uint r.lastsUntil)), ("reason", r.reason.map .uint),
    ("signer", r.signer.map fun k => .bytes k.val), ("signer_cert", r.signerCert.map .bytes)]

def parse (bytes : List UInt8) : Except Error DeviceRevocation :=
  if bytes.length > maxBytes then .error .tooLarge
  else do
    let env ← Envelope.open bytes
    fromEnvelope P env

/-- Sign with the identity key; none where an assertion fails. -/
def sign (r : DeviceRevocation) (identity : Bytes 32) : Option (Except Error (List UInt8)) :=
  if P.ed25519Public identity = r.identity ∧ r.signer = none ∧ r.signerCert = none then
    let bytes := Envelope.seal r.unsigned (signDomain P identity domain)
    some do
      let _ ← parse P bytes
      return bytes
  else none

/-- The revocation a device signs, with its key and certificate filled in. -/
def withSigner (r : DeviceRevocation) (device : DeviceKey) (cert : List UInt8) : DeviceRevocation :=
  { r with signer := some (device.publicKey P), signerCert := some cert }

/-- Sign with a device key whose certificate carries `manage`. -/
def signAsDevice (r : DeviceRevocation) (device : DeviceKey) (cert : List UInt8) :
    Except Error (List UInt8) := do
  let bytes := Envelope.seal (r.withSigner P device cert).unsigned (device.sign P domain)
  let _ ← parse P bytes
  return bytes

end DeviceRevocation

namespace IdentityRevocation

variable (P : Primitives)

def unsigned (r : IdentityRevocation) : Value :=
  map [("v", some (.uint version)), ("identity", some (.bytes r.identity.val)),
    ("time", some (.uint r.time)), ("reason", r.reason.map .uint)]

def parse (bytes : List UInt8) : Except Error IdentityRevocation :=
  if bytes.length > Record.smallMaxBytes then .error .tooLarge
  else do
    let env ← Envelope.open bytes
    fromEnvelope P env

/-- Sign with the identity key; none where an assertion fails. -/
def sign (r : IdentityRevocation) (identity : Bytes 32) : Option (Except Error (List UInt8)) :=
  if P.ed25519Public identity = r.identity then
    let bytes := Envelope.seal r.unsigned (signDomain P identity domain)
    some do
      let _ ← parse P bytes
      return bytes
  else none

end IdentityRevocation

/-! ## Each kind's own reader -/

/-- That a record's own reader accepts the same bytes as it, a registrar's under the same keys and for
the same host. -/
def Record.ReadAlone (P : Primitives) (bytes : List UInt8) (registrar : Option RegistrarKeys) :
    Record → Prop
  | .revokeDevice r => DeviceRevocation.parse P bytes = .ok r
  | .revokeIdentity r => IdentityRevocation.parse P bytes = .ok r
  | .rotate r => Rotation.parse P bytes = .ok r
  | .freeze r => ∃ reg env, registrar = some reg ∧ Envelope.open bytes = .ok env ∧
      Freeze.fromEnvelope P env reg.keys = .ok r ∧ r.registrar = reg.host
  | .revokeAttestation r => ∃ reg env, registrar = some reg ∧ Envelope.open bytes = .ok env ∧
      AttestationRevocation.fromEnvelope P env reg.keys = .ok r ∧ r.registrar = reg.host

variable {P : Primitives} {bytes : List UInt8} {registrar : Option RegistrarKeys}

theorem open_eq_ok {env : Envelope} : Envelope.open bytes = .ok env ↔
    ∃ v, ofCbor (decodeCanonical bytes) = .ok v ∧ Envelope.fromValue v = .ok env := by
  rw [Envelope.open, bind_eq_ok]

theorem readAlone_of_parseRegistrar {v : Value} {r : Record} (hdec : ofCbor (decodeCanonical bytes) = .ok v)
    (h : Record.parseRegistrar P v registrar = .ok r) : r.ReadAlone P bytes registrar := by
  simp only [Record.parseRegistrar, bind_eq_ok, ite_throw_eq_ok, pure_eq_ok] at h
  obtain ⟨reg, hreg, env, henv, r', hread, hhost, rfl⟩ := h
  have hopen := open_eq_ok.2 ⟨v, hdec, henv⟩
  have hsome : registrar = some reg := by
    cases registrar with
    | none => cases hreg
    | some x => rw [Except.ok.inj hreg]
  rw [not_not] at hhost
  unfold Record.readRegistrar at hread
  split at hread
  · obtain ⟨x, hx, rfl⟩ := map_eq_ok.1 hread
    exact ⟨reg, env, hsome, hopen, hx, Option.some.inj hhost⟩
  · obtain ⟨x, hx, rfl⟩ := map_eq_ok.1 hread
    exact ⟨reg, env, hsome, hopen, hx, Option.some.inj hhost⟩

/-- What the one verifier reads, the kind's own reader reads alike. -/
theorem readAlone_of_parse {r : Record} (h : Record.parse P bytes registrar = .ok r) :
    r.ReadAlone P bytes registrar := by
  unfold Record.parse at h
  obtain ⟨hbig, h⟩ := ite_error_eq_ok.1 h
  obtain ⟨v, hdec, h⟩ := bind_eq_ok.1 h
  dsimp only at h
  split at h
  next =>
    obtain ⟨hsmall, h⟩ := ite_throw_eq_ok.1 h
    obtain ⟨x, hx, rfl⟩ := map_eq_ok.1 h
    show Rotation.parse P bytes = .ok x
    rw [Rotation.parse, if_neg (show ¬ bytes.length > Rotation.maxBytes from hsmall), hdec]
    exact hx
  next =>
  split at h
  next =>
    obtain ⟨env, henv, h⟩ := bind_eq_ok.1 h
    obtain ⟨x, hx, rfl⟩ := map_eq_ok.1 h
    show DeviceRevocation.parse P bytes = .ok x
    rw [DeviceRevocation.parse, if_neg hbig, open_eq_ok.2 ⟨v, hdec, henv⟩]
    exact hx
  next =>
  obtain ⟨hsmall, h⟩ := ite_throw_eq_ok.1 h
  split at h
  next => exact readAlone_of_parseRegistrar hdec h
  next =>
    obtain ⟨env, henv, h⟩ := bind_eq_ok.1 h
    obtain ⟨x, hx, rfl⟩ := map_eq_ok.1 h
    show IdentityRevocation.parse P bytes = .ok x
    rw [IdentityRevocation.parse, if_neg hsmall, open_eq_ok.2 ⟨v, hdec, henv⟩]
    exact hx

/-! ## What was signed is what is read -/

/-- A sealed map as it opens. -/
def sealedEnv (u : Value) (sig : Signature) : Envelope := ⟨sealedValue u sig, version, encode u, sig⟩

theorem Sealable.open_seal {u : Value} (h : Sealable u) {sign : List UInt8 → Signature}
    (hlen : (Envelope.seal u sign).length < 2 ^ 64) :
    Envelope.open (Envelope.seal u sign) = .ok (sealedEnv u (sign (encode u))) :=
  open_eq_ok.2 ⟨_, h.decode sign hlen, h.fromValue _⟩

/-- The same lookups, but for the signatures. -/
def Holds (v u : Value) : Prop := ∀ key, key ≠ "sig" → key ≠ "ack" → v.get key = (u.get key).map sortKeys

theorem Sealable.holds {u : Value} (h : Sealable u) (sig : Signature) : Holds (sealedEnv u sig).value u :=
  fun _ hsig _ => h.get_sealedValue sig (Ne.symm hsig)

theorem optBytes_eq_ok {v : Value} {key : String} {o : Option (List UInt8)} :
    optBytes v key = .ok o ↔ v.get key = o.map .bytes :=
  optional_eq_ok asBytes_eq_some

theorem eq_of_map_write {α : Type} {write : α → Value} (hinj : ∀ a b, write a = write b → a = b)
    (hsort : ∀ a, sortKeys (write a) = write a) {o o' : Option α}
    (h : ((o.map write).orElse fun _ => none).map sortKeys = o'.map write) : o = o' := by
  cases o with
  | none =>
    cases o' with
    | none => rfl
    | some b => cases h
  | some a =>
    cases o' with
    | none => cases h
    | some b =>
      have hab : sortKeys (write a) = write b := Option.some.inj h
      rw [hinj a b ((hsort a).symm.trans hab)]

theorem eq_of_map_uint {o o' : Option UInt64}
    (h : ((o.map Value.uint).orElse fun _ => none).map sortKeys = o'.map .uint) : o = o' :=
  eq_of_map_write (fun _ _ h => Value.uint.inj h) (fun _ => rfl) h

theorem eq_of_map_bytes {o o' : Option (List UInt8)}
    (h : ((o.map Value.bytes).orElse fun _ => none).map sortKeys = o'.map .bytes) : o = o' :=
  eq_of_map_write (fun _ _ h => Value.bytes.inj h) (fun _ => rfl) h

theorem eq_of_map_key {o o' : Option PublicKey}
    (h : ((o.map fun k => Value.bytes k.val).orElse fun _ => none).map sortKeys = o'.map fun k => .bytes k.val) :
    o = o' :=
  eq_of_map_write (fun _ _ h => Subtype.ext (Value.bytes.inj h)) (fun _ => rfl) h

namespace DeviceRevocation

variable (r : DeviceRevocation)

theorem sealable : Sealable r.unsigned where
  is_map := rfl
  distinct := by
    refine distinctKeys_fields (by simp only [List.map]; decide) ?_
    cases r.reason <;> cases r.signer <;> cases r.signerCert <;> simp [DistinctKeys]
  depth_le := by
    refine depth_fields_le (by decide) ?_
    cases r.reason <;> cases r.signer <;> cases r.signerCert <;> simp [depth, maxDepth]
  no_sig := by simp [unsigned, get_map_cons]
  current := by simp [unsigned, get_map_cons]

variable {r}

theorem eq_of_fromEnvelope {env : Envelope} {r' : DeviceRevocation} (hv : Holds env.value r.unsigned)
    (h : fromEnvelope P env = .ok r') : r' = r := by
  simp only [fromEnvelope, bind_eq_ok, bytes32_eq_ok, uint_eq_ok, reason_eq_ok, optBytes32_eq_ok, optBytes_eq_ok,
    ite_throw_eq_ok, pure_eq_ok] at h
  obtain ⟨identity, hid, device, hdev, time, htime, lastsUntil, huntil, reason, ⟨hreason, -⟩, signer, hsigner,
    signerCert, hcert, -, -, -, rfl⟩ := h
  rw [hv _ (by decide) (by decide)] at hid hdev htime huntil hreason hsigner hcert
  simp [unsigned, get_map_cons, sortKeys] at hid hdev htime huntil
  simp only [unsigned, get_map_cons, reduceIte, String.reduceEq, get_map_nil] at hreason hsigner hcert
  rw [← Subtype.ext hid, ← Subtype.ext hdev, ← htime, ← huntil, ← eq_of_map_uint hreason,
    ← eq_of_map_key hsigner, ← eq_of_map_bytes hcert]

end DeviceRevocation

namespace IdentityRevocation

variable (r : IdentityRevocation)

theorem sealable : Sealable r.unsigned where
  is_map := rfl
  distinct := by
    refine distinctKeys_fields (by simp only [List.map]; decide) ?_
    cases r.reason <;> simp [DistinctKeys]
  depth_le := by
    refine depth_fields_le (by decide) ?_
    cases r.reason <;> simp [depth, maxDepth]
  no_sig := by simp [unsigned, get_map_cons]
  current := by simp [unsigned, get_map_cons]

variable {r}

theorem eq_of_fromEnvelope {env : Envelope} {r' : IdentityRevocation} (hv : Holds env.value r.unsigned)
    (h : fromEnvelope P env = .ok r') : r' = r := by
  simp only [fromEnvelope, bind_eq_ok, bytes32_eq_ok, uint_eq_ok, reason_eq_ok, pure_eq_ok] at h
  obtain ⟨identity, hid, time, htime, reason, ⟨hreason, -⟩, -, -, rfl⟩ := h
  rw [hv _ (by decide) (by decide)] at hid htime hreason
  simp [unsigned, get_map_cons, sortKeys] at hid htime
  simp only [unsigned, get_map_cons, reduceIte, String.reduceEq, get_map_nil] at hreason
  rw [← Subtype.ext hid, ← htime, ← eq_of_map_uint hreason]

end IdentityRevocation

/-! ### The dispatch -/

/-- A map with a device in it and neither a successor nor its signature is a device revocation's. -/
theorem Record.parse_device {v : Value} {env : Envelope} {r : DeviceRevocation}
    (hdec : ofCbor (decodeCanonical bytes) = .ok v) (henv : Envelope.fromValue v = .ok env)
    (hack : v.get "ack" = none) (hsucc : v.get "successor" = none) (hdev : (v.get "device").isSome = true)
    (h : DeviceRevocation.parse P bytes = .ok r) : Record.parse P bytes registrar = .ok (.revokeDevice r) := by
  unfold DeviceRevocation.parse at h
  obtain ⟨hbig, h⟩ := ite_error_eq_ok.1 h
  rw [open_eq_ok.2 ⟨v, hdec, henv⟩] at h
  have hfrom : DeviceRevocation.fromEnvelope P env = .ok r := h
  unfold Record.parse
  rw [if_neg hbig, hdec, ok_bind]
  simp [hack, hsucc, hdev, henv, hfrom]

/-- A small map with none of the others' keys is an identity revocation's. -/
theorem Record.parse_identity {v : Value} {env : Envelope} {r : IdentityRevocation}
    (hdec : ofCbor (decodeCanonical bytes) = .ok v) (henv : Envelope.fromValue v = .ok env)
    (hnone : ∀ key ∈ ["ack", "successor", "device", "frozen", "handle"], v.get key = none)
    (h : IdentityRevocation.parse P bytes = .ok r) :
    Record.parse P bytes registrar = .ok (.revokeIdentity r) := by
  unfold IdentityRevocation.parse at h
  obtain ⟨hsmall, h⟩ := ite_error_eq_ok.1 h
  rw [open_eq_ok.2 ⟨v, hdec, henv⟩] at h
  have hfrom : IdentityRevocation.fromEnvelope P env = .ok r := h
  have hbig : ¬ bytes.length > DeviceRevocation.maxBytes := by
    have : Record.smallMaxBytes ≤ DeviceRevocation.maxBytes := by decide
    omega
  unfold Record.parse
  rw [if_neg hbig, hdec, ok_bind]
  simp [hnone, hsmall, henv, hfrom]

/-- A small map with a successor is a rotation's. -/
theorem Record.parse_rotation {r : Rotation} {v : Value} (hdec : ofCbor (decodeCanonical bytes) = .ok v)
    (hsucc : (v.get "successor").isSome = true) (h : Rotation.parse P bytes = .ok r) :
    Record.parse P bytes registrar = .ok (.rotate r) := by
  unfold Rotation.parse at h
  obtain ⟨hsmall, h⟩ := ite_error_eq_ok.1 h
  have hsmall : ¬ bytes.length > Record.smallMaxBytes := hsmall
  rw [hdec] at h
  have hfrom : Rotation.fromValue P v = .ok r := h
  have hbig : ¬ bytes.length > DeviceRevocation.maxBytes := by
    have : Record.smallMaxBytes ≤ DeviceRevocation.maxBytes := by decide
    omega
  unfold Record.parse
  rw [if_neg hbig, hdec, ok_bind]
  simp [hsucc, hsmall, hfrom]

/-! ### The kinds -/

/-- Sealed bytes a device revocation's reader takes are read as the revocation that was sealed. -/
theorem DeviceRevocation.parse_seal {r r' : DeviceRevocation} {sign : List UInt8 → Signature}
    (h : parse P (Envelope.seal r.unsigned sign) = .ok r') :
    r' = r ∧ Record.parse P (Envelope.seal r.unsigned sign) registrar = .ok (.revokeDevice r) := by
  have hbig : (Envelope.seal r.unsigned sign).length ≤ maxBytes := by
    unfold parse at h
    exact Nat.not_lt.1 (ite_error_eq_ok.1 h).1
  have hlen : (Envelope.seal r.unsigned sign).length < 2 ^ 64 := hbig.trans_lt (by decide)
  have hholds := r.sealable.holds (sign (encode r.unsigned))
  have hopen := r.sealable.open_seal hlen
  have heq : r' = r := by
    unfold parse at h
    rw [hopen] at h
    exact eq_of_fromEnvelope hholds (ite_error_eq_ok.1 h).2
  subst heq
  refine ⟨rfl, Record.parse_device (r'.sealable.decode sign hlen) (r'.sealable.fromValue _) ?_ ?_ ?_ h⟩
  all_goals
    rw [r'.sealable.get_sealedValue _ (by decide)]
    simp [unsigned, get_map_cons]

/-- Sealed bytes an identity revocation's reader takes are read as the revocation that was sealed. -/
theorem IdentityRevocation.parse_seal {r r' : IdentityRevocation} {sign : List UInt8 → Signature}
    (h : parse P (Envelope.seal r.unsigned sign) = .ok r') :
    r' = r ∧ Record.parse P (Envelope.seal r.unsigned sign) registrar = .ok (.revokeIdentity r) := by
  have hsmall : (Envelope.seal r.unsigned sign).length ≤ Record.smallMaxBytes := by
    unfold parse at h
    exact Nat.not_lt.1 (ite_error_eq_ok.1 h).1
  have hlen : (Envelope.seal r.unsigned sign).length < 2 ^ 64 := hsmall.trans_lt (by decide)
  have hholds := r.sealable.holds (sign (encode r.unsigned))
  have hopen := r.sealable.open_seal hlen
  have heq : r' = r := by
    unfold parse at h
    rw [hopen] at h
    exact eq_of_fromEnvelope hholds (ite_error_eq_ok.1 h).2
  subst heq
  refine ⟨rfl, Record.parse_identity (r'.sealable.decode sign hlen) (r'.sealable.fromValue _) ?_ h⟩
  have hother : ∀ key ∈ ["ack", "successor", "device", "frozen", "handle"],
      "sig" ≠ key ∧ r'.unsigned.get key = none := by
    intro key hkey
    simp only [List.mem_cons, List.not_mem_nil, or_false] at hkey
    rcases hkey with rfl | rfl | rfl | rfl | rfl <;> exact ⟨by decide, by simp [unsigned, get_map_cons]⟩
  intro key hkey
  obtain ⟨hne, hnone⟩ := hother key hkey
  rw [r'.sealable.get_sealedValue _ hne, hnone]
  rfl

end HxdNg.Registrars

namespace HxdNg.Identity

open HxdNg.Identity.Cbor HxdNg.Registrars

/-! ### Rotations -/

/-- What a map has to be for its two signatures to open. -/
structure Ackable (u : Value) : Prop extends Sealable u where
  no_ack : u.get "ack" = none

namespace Ackable

variable {u : Value} (h : Ackable u) (sig ack : Signature)
include h

theorem push_distinct : DistinctKeys (pushEntry "ack" (.bytes ack.val) (pushEntry "sig" (.bytes sig.val) u)) :=
  distinctKeys_pushEntry (h.distinctKeys_push sig) (by decide)
    (by rw [get_pushEntry_of_ne (by decide), h.no_ack]) trivial

end Ackable

/-- A map with both signatures, as a reader decodes it. -/
def ackedValue (u : Value) (sig ack : Signature) : Value :=
  sortKeys (pushEntry "ack" (.bytes ack.val) (pushEntry "sig" (.bytes sig.val) u))

namespace Ackable

variable {u : Value} (h : Ackable u)
include h

theorem decode (sign ack : List UInt8 → Signature) (hlen : (sealAcked u sign ack).length < 2 ^ 64) :
    ofCbor (decodeCanonical (sealAcked u sign ack)) = .ok (ackedValue u (sign (encode u)) (ack (encode u))) := by
  have hdistinct := h.push_distinct (sign (encode u)) (ack (encode u))
  have henc : sealAcked u sign ack = encode (ackedValue u (sign (encode u)) (ack (encode u))) := by
    rw [ackedValue, encode_sortKeys, sealAcked]
  rw [henc] at hlen ⊢
  refine decode_of_sorted (sortedKeys_sortKeys hdistinct) ?_ hlen
  have hbytes : ∀ b, depth (.bytes b) < maxDepth := fun b => by
    rw [show depth (.bytes b) = 0 from rfl]
    decide
  rw [ackedValue, depth_sortKeys]
  exact depth_pushEntry (depth_pushEntry h.depth_le (hbytes _)) (hbytes _)

theorem holds (sig ack : Signature) : Holds (ackedValue u sig ack) u := fun key hsig hack => by
  rw [ackedValue, get_sortKeys (h.push_distinct sig ack), get_pushEntry_of_ne (Ne.symm hack),
    get_pushEntry_of_ne (Ne.symm hsig)]

theorem fromValue (sig ack : Signature) :
    AckedEnvelope.fromValue (ackedValue u sig ack) = .ok ⟨ackedValue u sig ack, encode u, sig, ack⟩ := by
  have hdistinct := h.push_distinct sig ack
  have hmap : isMap (ackedValue u sig ack) = true := by
    rw [ackedValue, isMap_sortKeys, isMap_pushEntry, isMap_pushEntry, h.is_map]
  have hv : (ackedValue u sig ack).get "v" = some (.uint version) := by
    rw [h.holds sig ack "v" (by decide) (by decide), h.current]
    rfl
  have hsig : (ackedValue u sig ack).get "sig" = some (.bytes sig.val) := by
    rw [ackedValue, get_sortKeys hdistinct, get_pushEntry_of_ne (by decide), get_pushEntry_self h.is_map h.no_sig]
    rfl
  have hack : (ackedValue u sig ack).get "ack" = some (.bytes ack.val) := by
    rw [ackedValue, get_sortKeys hdistinct, get_pushEntry_self (by rw [isMap_pushEntry, h.is_map])
      (by rw [get_pushEntry_of_ne (by decide), h.no_ack])]
    rfl
  have hsigned : encode (((ackedValue u sig ack).without "sig").without "ack") = encode u := by
    rw [without_comm, ackedValue, ← sortKeys_without hdistinct,
      without_pushEntry_self (by rw [get_pushEntry_of_ne (by decide), h.no_ack]),
      ← sortKeys_without (h.distinctKeys_push sig), without_pushEntry_self h.no_sig, encode_sortKeys]
  simp only [AckedEnvelope.fromValue, ite_error_eq_ok, bind_eq_ok, uint_eq_ok, ite_throw_eq_ok,
    bytes32x2_eq_ok, pure_eq_ok]
  exact ⟨not_not_intro hmap, version, hv, not_not_intro rfl, sig, hsig, ack, hack, by rw [hsigned]⟩

end Ackable

namespace Rotation

variable (r : Rotation)

theorem ackable : Ackable r.unsigned where
  is_map := rfl
  distinct := by
    refine distinctKeys_fields (by simp only [List.map]; decide) ?_
    simp [DistinctKeys]
  depth_le := by
    refine depth_fields_le (by decide) ?_
    simp [depth, maxDepth]
  no_sig := by simp [unsigned, get_map_cons]
  current := by simp [unsigned, get_map_cons]
  no_ack := by simp [unsigned, get_map_cons]

variable {P : Primitives} {r}

theorem eq_of_fromValue {v : Value} {r' : Rotation} (hv : Holds v r.unsigned) (h : fromValue P v = .ok r') : r' = r := by
  simp only [fromValue, bind_eq_ok, bytes32_eq_ok, uint_eq_ok, ite_throw_eq_ok, pure_eq_ok] at h
  obtain ⟨env, henv, identity, hid, successor, hsucc, time, htime, -, -, -, rfl⟩ := h
  have hvalue : env.value = v := by
    simp only [AckedEnvelope.fromValue, ite_error_eq_ok, bind_eq_ok, ite_throw_eq_ok, pure_eq_ok] at henv
    obtain ⟨-, -, -, -, -, -, -, -, rfl⟩ := henv
    rfl
  rw [hvalue, hv _ (by decide) (by decide)] at hid hsucc htime
  simp [unsigned, get_map_cons, sortKeys] at hid hsucc htime
  rw [← Subtype.ext hid, ← Subtype.ext hsucc, ← htime]

/-- Sealed bytes a rotation's reader takes are read as the rotation that was sealed. -/
theorem parse_seal {r' : Rotation} {sign ack : List UInt8 → Signature} {registrar : Option RegistrarKeys}
    (h : parse P (sealAcked r.unsigned sign ack) = .ok r') :
    r' = r ∧ Record.parse P (sealAcked r.unsigned sign ack) registrar = .ok (.rotate r) := by
  have hsmall : (sealAcked r.unsigned sign ack).length ≤ maxBytes := by
    unfold parse at h
    exact Nat.not_lt.1 (ite_error_eq_ok.1 h).1
  have hdec := r.ackable.decode sign ack (hsmall.trans_lt (by decide))
  have hholds := r.ackable.holds (sign (encode r.unsigned)) (ack (encode r.unsigned))
  have heq : r' = r := by
    unfold parse at h
    rw [hdec] at h
    exact eq_of_fromValue hholds (ite_error_eq_ok.1 h).2
  subst heq
  refine ⟨rfl, Record.parse_rotation hdec ?_ h⟩
  rw [hholds _ (by decide) (by decide)]
  simp [unsigned, get_map_cons]

end Rotation

end HxdNg.Identity

/-! ## What satisfies its kind's rules is signed -/

namespace HxdNg.Identity.Rotation

open HxdNg.Identity.Cbor HxdNg.Registrars

variable {P : Primitives} {r : Rotation}

theorem length_sealAcked_le (sign ack : List UInt8 → Signature) : (sealAcked r.unsigned sign ack).length ≤ maxBytes := by
  have h1 := fieldLen_some_le "v" (k := 2) rfl (length_encode_uint_le version)
  have h2 := fieldLen_some_le "identity" (k := 9) rfl (length_encode_array r.identity (by decide))
  have h3 := fieldLen_some_le "successor" (k := 10) rfl (length_encode_array r.successor (by decide))
  have h4 := fieldLen_some_le "time" (k := 5) rfl (length_encode_uint_le r.time)
  have h5 := fieldLen_some_le "sig" (k := 4) rfl (length_encode_array (sign (encode r.unsigned)) (by decide))
  have h6 := fieldLen_some_le "ack" (k := 4) rfl (length_encode_array (ack (encode r.unsigned)) (by decide))
  have henc : sealAcked r.unsigned sign ack = encode (pushEntry "ack" (.bytes (ack (encode r.unsigned)).val)
      (pushEntry "sig" (.bytes (sign (encode r.unsigned)).val) r.unsigned)) := rfl
  generalize sign (encode r.unsigned) = sig at h5 henc
  generalize ack (encode r.unsigned) = acked at h6 henc
  rw [henc, unsigned, pushEntry_fields, pushEntry_fields, length_encode_fields (by simp)]
  simp only [List.map_append, List.map_cons, List.map_nil, List.sum_append, List.sum_cons, List.sum_nil, maxBytes]
  omega

theorem sign_eq_ok (hP : P.Correct) {predecessor successor : Bytes 32}
    (hid : P.ed25519Public predecessor = r.identity) (hsucc : P.ed25519Public successor = r.successor)
    (hne : r.identity ≠ r.successor) : ∃ bytes, sign P r predecessor successor = some (.ok bytes) := by
  let sig := signDomain P predecessor domain
  let ack := signDomain P successor (domain ++ "/ack")
  have hsmall := r.length_sealAcked_le sig ack
  have hdec := r.ackable.decode sig ack (hsmall.trans_lt (by decide))
  have hholds := r.ackable.holds (sig (encode r.unsigned)) (ack (encode r.unsigned))
  have henv := r.ackable.fromValue (sig (encode r.unsigned)) (ack (encode r.unsigned))
  have hsig : verifyDomain P r.identity domain (encode r.unsigned) (sig (encode r.unsigned)) = .ok () :=
    hid ▸ verifyDomain_signDomain hP predecessor domain _
  have hack : verifyDomain P r.successor (domain ++ "/ack") (encode r.unsigned) (ack (encode r.unsigned)) = .ok () :=
    hsucc ▸ verifyDomain_signDomain hP successor (domain ++ "/ack") _
  have hfrom : fromValue P (ackedValue r.unsigned (sig (encode r.unsigned)) (ack (encode r.unsigned))) = .ok r := by
    simp only [fromValue, bind_eq_ok, bytes32_eq_ok, uint_eq_ok, ite_throw_eq_ok, pure_eq_ok]
    refine ⟨_, henv, r.identity, ?_, r.successor, ?_, r.time, ?_, hne, (), ?_, rfl⟩
    · rw [hholds _ (by decide) (by decide)]
      simp [unsigned, get_map_cons, sortKeys]
    · rw [hholds _ (by decide) (by decide)]
      simp [unsigned, get_map_cons, sortKeys]
    · rw [hholds _ (by decide) (by decide)]
      simp [unsigned, get_map_cons, sortKeys]
    · exact bind_eq_ok.2 ⟨(), hsig, hack⟩
  have hparse : parse P (sealAcked r.unsigned sig ack) = .ok r := by
    unfold parse
    rw [if_neg (Nat.not_lt.2 hsmall), hdec]
    exact hfrom
  refine ⟨sealAcked r.unsigned sig ack, ?_⟩
  unfold sign
  rw [if_pos ⟨hid, hsucc⟩]
  dsimp only
  rw [hparse]
  rfl

end HxdNg.Identity.Rotation

namespace HxdNg.Registrars

open HxdNg.Identity HxdNg.Identity.Cbor

variable {P : Primitives}

namespace DeviceRevocation

/-- What a revocation has to say to be read, apart from who signs it. -/
structure Sayable (r : DeviceRevocation) : Prop where
  time_le : r.time ≤ r.lastsUntil
  reason_le : ∀ n ∈ r.reason, n ≤ retired

variable {r : DeviceRevocation}

theorem length_seal_le (sign : List UInt8 → Signature) (hcert : ∀ c ∈ r.signerCert, c.length ≤ DeviceCert.maxBytes) :
    (Envelope.seal r.unsigned sign).length ≤ maxBytes := by
  have h1 := fieldLen_some_le "v" (k := 2) rfl (length_encode_uint_le version)
  have h2 := fieldLen_some_le "identity" (k := 9) rfl (length_encode_array r.identity (by decide))
  have h3 := fieldLen_some_le "device" (k := 7) rfl (length_encode_array r.device (by decide))
  have h4 := fieldLen_some_le "time" (k := 5) rfl (length_encode_uint_le r.time)
  have h5 := fieldLen_some_le "until" (k := 6) rfl (length_encode_uint_le r.lastsUntil)
  have h6 : fieldLen ("reason", r.reason.map .uint) ≤ 7 + 9 := by
    refine fieldLen_le rfl fun v hv => ?_
    obtain ⟨n, -, rfl⟩ := Option.map_eq_some_iff.mp hv
    exact length_encode_uint_le n
  have h7 : fieldLen ("signer", r.signer.map fun k => .bytes k.val) ≤ 7 + (2 + 32) := by
    refine fieldLen_le rfl fun v hv => ?_
    obtain ⟨k, -, rfl⟩ := Option.map_eq_some_iff.mp hv
    exact length_encode_array k (by decide)
  have h8 : fieldLen ("signer_cert", r.signerCert.map .bytes) ≤ 12 + (3 + DeviceCert.maxBytes) := by
    refine fieldLen_le rfl fun v hv => ?_
    obtain ⟨c, hc, rfl⟩ := Option.map_eq_some_iff.mp hv
    exact length_encode_bytes_le (hcert c hc) (by decide)
  rw [Envelope.seal, unsigned, length_encode_sig (by simp), length_encode_fields (by simp)]
  simp only [List.map_cons, List.map_nil, List.sum_cons, List.sum_nil, DeviceCert.maxBytes, maxBytes] at h8 ⊢
  omega

theorem parse_of_checkSigner {sign : List UInt8 → Signature} (hr : r.Sayable)
    (hcert : ∀ c ∈ r.signerCert, c.length ≤ DeviceCert.maxBytes)
    (hsigner : r.checkSigner P (sealedEnv r.unsigned (sign (encode r.unsigned))) = .ok ()) :
    parse P (Envelope.seal r.unsigned sign) = .ok r := by
  have hbig := length_seal_le sign hcert
  have hholds := r.sealable.holds (sign (encode r.unsigned))
  have hreason : Registrars.reason (sealedEnv r.unsigned (sign (encode r.unsigned))).value retired = .ok r.reason := by
    refine reason_eq_ok.mpr ⟨?_, hr.reason_le⟩
    rw [hholds _ (by decide) (by decide)]
    cases hn : r.reason <;> simp [unsigned, get_map_cons, hn, sortKeys]
  unfold parse
  rw [if_neg (Nat.not_lt.2 hbig), r.sealable.open_seal (hbig.trans_lt (by decide)), ok_bind]
  simp only [fromEnvelope, bind_eq_ok, bytes32_eq_ok, uint_eq_ok, optBytes32_eq_ok, optBytes_eq_ok,
    ite_throw_eq_ok, pure_eq_ok]
  refine ⟨r.identity, ?_, r.device, ?_, r.time, ?_, r.lastsUntil, ?_, r.reason, hreason, r.signer, ?_,
    r.signerCert, ?_, UInt64.not_lt.2 hr.time_le, (), hsigner, rfl⟩
  all_goals
    rw [hholds _ (by decide) (by decide)]
  · simp [unsigned, get_map_cons, sortKeys]
  · simp [unsigned, get_map_cons, sortKeys]
  · simp [unsigned, get_map_cons, sortKeys]
  · simp [unsigned, get_map_cons, sortKeys]
  · cases hn : r.signer <;> simp [unsigned, get_map_cons, hn, sortKeys]
  · cases hn : r.signerCert <;> simp [unsigned, get_map_cons, hn, sortKeys]

theorem sign_eq_ok (hP : P.Correct) {identity : Bytes 32} (hid : P.ed25519Public identity = r.identity)
    (hsigner : r.signer = none) (hcert : r.signerCert = none) (hr : r.Sayable) :
    ∃ bytes, sign P r identity = some (.ok bytes) := by
  have hcheck : r.checkSigner P (sealedEnv r.unsigned (signDomain P identity domain (encode r.unsigned))) = .ok () := by
    unfold checkSigner
    rw [hsigner, hcert]
    dsimp only
    rw [← hid]
    exact verifyDomain_signDomain hP identity domain _
  have hparse := parse_of_checkSigner hr (by rw [hcert]; simp) hcheck
  refine ⟨Envelope.seal r.unsigned (signDomain P identity domain), ?_⟩
  unfold sign
  rw [if_pos ⟨hid, hsigner, hcert⟩]
  dsimp only
  rw [hparse]
  rfl

/-- The certificate a device signs with: for it and the identity, good at the time, with `manage`. -/
structure Manages (P : Primitives) (r : DeviceRevocation) (device : DeviceKey) (cert : List UInt8) : Prop where
  read : ∃ c, DeviceCert.parse P cert = .ok c ∧ c.identity = r.identity ∧ c.device = device.publicKey P ∧
    c.require caps.manage = .ok () ∧ c.issued ≤ r.time ∧ r.time ≤ c.expires

theorem signAsDevice_eq_ok (hP : P.Correct) {device : DeviceKey} {cert : List UInt8} (hr : r.Sayable)
    (hcert : r.Manages P device cert) : ∃ bytes, signAsDevice P r device cert = .ok bytes := by
  obtain ⟨c, hparsed, hid, hdev, hcap, hissued, hexpires⟩ := hcert.read
  have hlen : cert.length ≤ DeviceCert.maxBytes := by
    unfold DeviceCert.parse DeviceCert.open at hparsed
    obtain ⟨_, hopen, -⟩ := bind_eq_ok.1 hparsed
    exact Nat.not_lt.1 (ite_error_eq_ok.1 hopen).1
  have hr' : (r.withSigner P device cert).Sayable := ⟨hr.time_le, hr.reason_le⟩
  have hcheck : (r.withSigner P device cert).checkSigner P (sealedEnv (r.withSigner P device cert).unsigned
      (device.sign P domain (encode (r.withSigner P device cert).unsigned))) = .ok () := by
    unfold checkSigner withSigner
    dsimp only
    rw [hparsed, ok_bind, if_neg (by rw [hid, hdev]; simp), hcap, ok_bind, if_neg]
    · exact verifyDomain_signDomain hP device.seed domain _
    · rintro (h | h)
      · exact absurd hissued (UInt64.not_le.2 h)
      · exact absurd hexpires (UInt64.not_le.2 h)
  have hparse := parse_of_checkSigner hr' (by
    rintro x hx
    obtain rfl := Option.some.inj hx
    exact hlen) hcheck
  refine ⟨Envelope.seal (r.withSigner P device cert).unsigned (device.sign P domain), ?_⟩
  unfold signAsDevice
  dsimp only
  rw [hparse]
  rfl

end DeviceRevocation

namespace IdentityRevocation

variable {r : IdentityRevocation}

theorem length_seal_le (sign : List UInt8 → Signature) :
    (Envelope.seal r.unsigned sign).length ≤ Record.smallMaxBytes := by
  have h1 := fieldLen_some_le "v" (k := 2) rfl (length_encode_uint_le version)
  have h2 := fieldLen_some_le "identity" (k := 9) rfl (length_encode_array r.identity (by decide))
  have h3 := fieldLen_some_le "time" (k := 5) rfl (length_encode_uint_le r.time)
  have h4 : fieldLen ("reason", r.reason.map .uint) ≤ 7 + 9 := by
    refine fieldLen_le rfl fun v hv => ?_
    obtain ⟨n, -, rfl⟩ := Option.map_eq_some_iff.mp hv
    exact length_encode_uint_le n
  rw [Envelope.seal, unsigned, length_encode_sig (by simp), length_encode_fields (by simp)]
  simp only [List.map_cons, List.map_nil, List.sum_cons, List.sum_nil, Record.smallMaxBytes]
  omega

theorem sign_eq_ok (hP : P.Correct) {identity : Bytes 32} (hid : P.ed25519Public identity = r.identity)
    (hr : ∀ n ∈ r.reason, n ≤ compromised) : ∃ bytes, sign P r identity = some (.ok bytes) := by
  let bytes := Envelope.seal r.unsigned (signDomain P identity domain)
  have hsmall : bytes.length ≤ Record.smallMaxBytes := length_seal_le _
  have hholds := r.sealable.holds (signDomain P identity domain (encode r.unsigned))
  have hreason : Registrars.reason (sealedEnv r.unsigned (signDomain P identity domain (encode r.unsigned))).value
      compromised = .ok r.reason := by
    refine reason_eq_ok.mpr ⟨?_, hr⟩
    rw [hholds _ (by decide) (by decide)]
    cases hn : r.reason <;> simp [unsigned, get_map_cons, hn, sortKeys]
  have hparse : parse P bytes = .ok r := by
    unfold parse
    rw [if_neg (Nat.not_lt.2 hsmall), r.sealable.open_seal (hsmall.trans_lt (by decide)), ok_bind]
    simp only [fromEnvelope, bind_eq_ok, bytes32_eq_ok, uint_eq_ok, pure_eq_ok]
    refine ⟨r.identity, ?_, r.time, ?_, r.reason, hreason, (), ?_, rfl⟩
    · rw [hholds _ (by decide) (by decide)]
      simp [unsigned, get_map_cons, sortKeys]
    · rw [hholds _ (by decide) (by decide)]
      simp [unsigned, get_map_cons, sortKeys]
    · rw [← hid]
      exact verifyDomain_signDomain hP identity domain _
  refine ⟨bytes, ?_⟩
  unfold sign
  rw [if_pos hid]
  dsimp only
  rw [hparse]
  rfl

end IdentityRevocation

/-! ## The five kinds -/

/-- Bytes that were handed out were read back first. -/
theorem parse_of_signed {α : Type} {x : Except Error α} {out bytes : List UInt8}
    (h : (do
      let _ ← x
      return out) = (.ok bytes : Except Error (List UInt8))) : out = bytes ∧ ∃ a, x = .ok a := by
  obtain ⟨a, hx, h⟩ := bind_eq_ok.1 h
  exact ⟨pure_eq_ok.1 h, a, hx⟩

/-- What a user's key or device signed is read as what was signed, by whoever reads it. -/
structure Record.ReadsUsers (P : Primitives) (registrar : Option RegistrarKeys) : Prop where
  revokeDevice : ∀ r identity bytes, DeviceRevocation.sign P r identity = some (.ok bytes) →
    parse P bytes registrar = .ok (.revokeDevice r)
  revokeDeviceAs : ∀ r device cert bytes, DeviceRevocation.signAsDevice P r device cert = .ok bytes →
    parse P bytes registrar = .ok (.revokeDevice (r.withSigner P device cert))
  revokeIdentity : ∀ r identity bytes, IdentityRevocation.sign P r identity = some (.ok bytes) →
    parse P bytes registrar = .ok (.revokeIdentity r)
  rotate : ∀ r predecessor successor bytes, Rotation.sign P r predecessor successor = some (.ok bytes) →
    parse P bytes registrar = .ok (.rotate r)

/-- What a registrar signed that satisfies its kind's rules is read as what was signed, for its host and
under keys that hold its own. -/
structure Record.ReadsRegistrars (P : Primitives) : Prop where
  freeze : ∀ (r : Freeze) (key : Bytes 32) (keys : List PublicKey), P.ed25519Public key ∈ keys →
    isHost r.registrar = true → parse P (r.sign P key) (some ⟨r.registrar, keys⟩) = .ok (.freeze r)
  revokeAttestation : ∀ (r : AttestationRevocation) (key : Bytes 32) (keys : List PublicKey),
    P.ed25519Public key ∈ keys → r.Sayable →
    parse P (r.sign P key) (some ⟨r.registrar, keys⟩) = .ok (.revokeAttestation r)

/-- What satisfies its kind's rules is signed. -/
structure Record.Signs (P : Primitives) : Prop where
  revokeDevice : ∀ (r : DeviceRevocation) (identity : Bytes 32), P.ed25519Public identity = r.identity →
    r.signer = none → r.signerCert = none → r.Sayable → ∃ bytes, r.sign P identity = some (.ok bytes)
  revokeDeviceAs : ∀ (r : DeviceRevocation) (device : DeviceKey) (cert : List UInt8), r.Sayable →
    r.Manages P device cert → ∃ bytes, r.signAsDevice P device cert = .ok bytes
  revokeIdentity : ∀ (r : IdentityRevocation) (identity : Bytes 32), P.ed25519Public identity = r.identity →
    (∀ n ∈ r.reason, n ≤ IdentityRevocation.compromised) → ∃ bytes, r.sign P identity = some (.ok bytes)
  rotate : ∀ (r : Rotation) (predecessor successor : Bytes 32), P.ed25519Public predecessor = r.identity →
    P.ed25519Public successor = r.successor → r.identity ≠ r.successor →
    ∃ bytes, r.sign P predecessor successor = some (.ok bytes)

theorem Record.readsUsers (P : Primitives) (registrar : Option RegistrarKeys) : ReadsUsers P registrar where
  revokeDevice r identity bytes h := by
    unfold DeviceRevocation.sign at h
    split at h
    next =>
      obtain ⟨rfl, r', hparse⟩ := parse_of_signed (Option.some.inj h)
      exact (DeviceRevocation.parse_seal hparse).2
    next => cases h
  revokeDeviceAs r device cert bytes h := by
    unfold DeviceRevocation.signAsDevice at h
    obtain ⟨rfl, r', hparse⟩ := parse_of_signed h
    exact (DeviceRevocation.parse_seal hparse).2
  revokeIdentity r identity bytes h := by
    unfold IdentityRevocation.sign at h
    split at h
    next =>
      obtain ⟨rfl, r', hparse⟩ := parse_of_signed (Option.some.inj h)
      exact (IdentityRevocation.parse_seal hparse).2
    next => cases h
  rotate r predecessor successor bytes h := by
    unfold Rotation.sign at h
    split at h
    next =>
      obtain ⟨rfl, r', hparse⟩ := parse_of_signed (Option.some.inj h)
      exact (Rotation.parse_seal hparse).2
    next => cases h

theorem Record.readsRegistrars (hP : P.Correct) : ReadsRegistrars P where
  freeze _ _ _ hkey hhost := Freeze.parse_sign hhost hP hkey
  revokeAttestation _ _ _ hkey hr := AttestationRevocation.parse_sign hr hP hkey

theorem Record.signs (hP : P.Correct) : Signs P where
  revokeDevice _ _ hid hsigner hcert hr := DeviceRevocation.sign_eq_ok hP hid hsigner hcert hr
  revokeDeviceAs _ _ _ hr hcert := DeviceRevocation.signAsDevice_eq_ok hP hr hcert
  revokeIdentity _ _ hid hr := IdentityRevocation.sign_eq_ok hP hid hr
  rotate _ _ _ hid hsucc hne := Rotation.sign_eq_ok hP hid hsucc hne

/-- What the one verifier reads, its kind's own reader reads alike; what is signed, the one verifier
reads as it was; and what satisfies its kind's rules is signed. -/
theorem one_verifier (P : Primitives) (hP : P.Correct) :
    (∀ bytes registrar r, Record.parse P bytes registrar = .ok r → r.ReadAlone P bytes registrar) ∧
    (∀ registrar, Record.ReadsUsers P registrar) ∧ Record.ReadsRegistrars P ∧ Record.Signs P :=
  ⟨fun _ _ _ h => readAlone_of_parse h, Record.readsUsers P, Record.readsRegistrars hP, Record.signs hP⟩

/-- Under the published keys. -/
theorem one_verifier_published :
    (∀ bytes registrar r, Record.parse vectors.primitives bytes registrar = .ok r →
      r.ReadAlone vectors.primitives bytes registrar) ∧
    (∀ registrar, Record.ReadsUsers vectors.primitives registrar) ∧
    Record.ReadsRegistrars vectors.primitives ∧ Record.Signs vectors.primitives :=
  one_verifier vectors.primitives vectors.correct

end HxdNg.Registrars
