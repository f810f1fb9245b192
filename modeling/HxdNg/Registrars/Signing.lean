import HxdNg.Registrars.Records
import HxdNg.Identity.Objects

/-!
# What the registrar signs reads back

* `Sealable.decode`, `Sealable.fromValue` : a sealed map decodes to its sorted form, and opens as
  signed over what was sealed;
* `Freeze.parse_sign`, `AttestationRevocation.parse_sign` : the registrar's own records parse as
  themselves under any key list that holds the key they were signed with.
-/

namespace HxdNg.Registrars

open HxdNg.Identity HxdNg.Identity.Cbor

/-! ## Sealed maps -/

/-- What a map has to be for its signed form to open. -/
structure Sealable (u : Value) : Prop where
  is_map : isMap u = true
  distinct : DistinctKeys u
  depth_le : depth u ≤ maxDepth
  no_sig : u.get "sig" = none
  current : u.get "v" = some (.uint version)

/-- A map with its signature, as a reader decodes it. -/
def sealedValue (u : Value) (sig : Signature) : Value := sortKeys (pushEntry "sig" (.bytes sig.val) u)

namespace Sealable

variable {u : Value} (h : Sealable u) (sig : Signature)
include h

theorem distinctKeys_push : DistinctKeys (pushEntry "sig" (.bytes sig.val) u) :=
  distinctKeys_pushEntry h.distinct (by decide) h.no_sig trivial

theorem get_sealedValue {key : String} (hkey : "sig" ≠ key) :
    (sealedValue u sig).get key = (u.get key).map sortKeys := by
  rw [sealedValue, get_sortKeys (h.distinctKeys_push sig), get_pushEntry_of_ne hkey]

theorem decode (sign : List UInt8 → Signature) (hlen : (Envelope.seal u sign).length < 2 ^ 64) :
    ofCbor (decodeCanonical (Envelope.seal u sign)) = .ok (sealedValue u (sign (encode u))) := by
  have henc : Envelope.seal u sign = encode (sealedValue u (sign (encode u))) := by
    rw [sealedValue, encode_sortKeys, Envelope.seal]
  rw [henc] at hlen ⊢
  refine decode_of_sorted (sortedKeys_sortKeys (h.distinctKeys_push _)) ?_ hlen
  rw [sealedValue, depth_sortKeys]
  exact depth_pushEntry h.depth_le (by rw [show depth (.bytes _) = 0 from rfl]; decide)

theorem fromValue :
    Envelope.fromValue (sealedValue u sig) = .ok ⟨sealedValue u sig, version, encode u, sig⟩ := by
  have hpush := h.distinctKeys_push sig
  refine Envelope.fromValue_eq_ok.mpr ⟨?_, ?_, sig, ?_, ?_⟩
  · rw [sealedValue, isMap_sortKeys, isMap_pushEntry, h.is_map]
  · rw [h.get_sealedValue sig (by decide), h.current]
    rfl
  · rw [sealedValue, get_sortKeys hpush, get_pushEntry_self h.is_map h.no_sig]
    rfl
  · rw [sealedValue, ← sortKeys_without hpush, encode_sortKeys, without_pushEntry_self h.no_sig]

end Sealable

/-! ## Signatures by one of several keys -/

section VerifyAny
variable {P : Primitives} {env : Envelope} {keys : List PublicKey} {domain : String}

theorem verifyAny_go_eq_ok {last : Error} {u : Unit} :
    verifyAny.go P env domain keys last = .ok u ↔ ∃ k ∈ keys, env.verify P k domain = .ok () := by
  induction keys generalizing last with
  | nil => simp [verifyAny.go]
  | cons k keys ih =>
    rw [verifyAny.go]
    split
    · next hk => simp [hk]
    · next e hk => simp [hk, ih]

theorem verifyAny_eq_ok {u : Unit} :
    verifyAny P env keys domain = .ok u ↔ ∃ k ∈ keys, env.verify P k domain = .ok () := by
  cases keys with
  | nil => simp [verifyAny]
  | cons k keys => rw [verifyAny, if_neg (by simp), verifyAny_go_eq_ok]

/-- What a key signed verifies under any list that holds it. -/
theorem verifyAny_sign (hP : P.Correct) {key : Bytes 32} (hkey : P.ed25519Public key ∈ keys)
    (v : Value) (n : UInt64) (body : List UInt8) :
    verifyAny P ⟨v, n, body, signDomain P key domain body⟩ keys domain = .ok () :=
  verifyAny_eq_ok.mpr ⟨_, hkey, verifyDomain_signDomain hP key domain body⟩

end VerifyAny

/-! ## The objects -/

theorem checkHost_eq_ok {host : String} {u : Unit} : checkHost host = .ok u ↔ isHost host = true := by
  simp [checkHost]

theorem utf8ByteSize_of_isHost {host : String} (h : isHost host = true) :
    host.utf8ByteSize ≤ maxHostBytes := by
  simp only [isHost, Bool.and_eq_true, decide_eq_true_eq] at h
  exact h.1.2

theorem boolean_eq_ok {v : Value} {key : String} {b : Bool} :
    boolean v key = .ok b ↔ v.get key = some (.bool b) :=
  required_eq_ok asBool_eq_some

variable {P : Primitives} {key : Bytes 32} {keys : List PublicKey}

/-- A small map with a registrar's key in it and none of a user's is read as the registrar's. -/
theorem Record.parse_registrar {bytes : List UInt8} {v : Value} {reg : Option RegistrarKeys}
    (hlen : bytes.length ≤ smallMaxBytes) (hdec : ofCbor (decodeCanonical bytes) = .ok v)
    (hack : v.get "ack" = none) (hsucc : v.get "successor" = none) (hdev : v.get "device" = none)
    (hreg : (v.get "frozen").isSome = true ∨ (v.get "handle").isSome = true) :
    Record.parse P bytes reg = parseRegistrar P v reg := by
  have hbig : ¬ bytes.length > DeviceRevocation.maxBytes := by
    have : smallMaxBytes ≤ DeviceRevocation.maxBytes := by decide
    omega
  rw [Record.parse, if_neg hbig, hdec, ok_bind]
  simp [hack, hsucc, hdev, hreg, hlen]

namespace Freeze

variable (r : Freeze)

theorem sealable : Sealable r.unsigned where
  is_map := rfl
  distinct := by
    refine distinctKeys_fields (by simp only [List.map]; decide) ?_
    simp [DistinctKeys]
  depth_le := by
    refine depth_fields_le (by decide) ?_
    simp [depth, maxDepth]
  no_sig := by simp [unsigned, get_map_cons]
  current := by simp [unsigned, get_map_cons]

variable {r} (hhost : isHost r.registrar = true)
include hhost

theorem length_sign_le : (r.sign P key).length ≤ Record.smallMaxBytes := by
  have h1 := fieldLen_some_le "v" (k := 2) rfl (length_encode_uint_le version)
  have h2 := fieldLen_some_le "identity" (k := 9) rfl (length_encode_array r.identity (by decide))
  have h3 := fieldLen_some_le "registrar" (k := 10) rfl
    (length_encode_text_le (utf8ByteSize_of_isHost hhost) (by decide))
  have h4 : fieldLen ("frozen", some (.bool r.frozen)) ≤ 7 + 1 :=
    fieldLen_some_le "frozen" rfl (by cases r.frozen <;> decide)
  have h5 := fieldLen_some_le "time" (k := 5) rfl (length_encode_uint_le r.time)
  rw [sign, Envelope.seal, unsigned, length_encode_sig (by simp), length_encode_fields (by simp)]
  simp only [List.map_cons, List.map_nil, List.sum_cons, List.sum_nil, maxHostBytes,
    Record.smallMaxBytes] at h3 ⊢
  omega

omit hhost in
theorem fromEnvelope_eq_ok {env : Envelope} (hhost : isHost r.registrar = true)
    (hget : ∀ key, "sig" ≠ key → env.value.get key = (r.unsigned.get key).map sortKeys)
    (hver : verifyAny P env keys domain = .ok ()) : fromEnvelope P env keys = .ok r := by
  simp only [fromEnvelope, bind_eq_ok, bytes32_eq_ok, text_eq_ok, uint_eq_ok, boolean_eq_ok,
    checkHost_eq_ok]
  refine ⟨r.identity, ?_, r.registrar, ?_, r.frozen, ?_, r.time, ?_, (), hhost, (), hver, rfl⟩
  all_goals
    rw [hget _ (by decide)]
    simp [unsigned, get_map_cons, sortKeys]

theorem parse_sign (hP : P.Correct) (hkey : P.ed25519Public key ∈ keys) :
    Record.parse P (r.sign P key) (some ⟨r.registrar, keys⟩) = .ok (.freeze r) := by
  have hlen : (r.sign P key).length ≤ Record.smallMaxBytes := length_sign_le hhost
  have hdec := r.sealable.decode (signDomain P key domain) (hlen.trans_lt (by decide))
  have hget := fun k (hk : "sig" ≠ k) =>
    r.sealable.get_sealedValue (signDomain P key domain (encode r.unsigned)) hk
  have hfrom := r.sealable.fromValue (signDomain P key domain (encode r.unsigned))
  generalize sealedValue r.unsigned (signDomain P key domain (encode r.unsigned)) = v at hdec hget hfrom
  have hfrozen : (v.get "frozen").isSome = true := by
    rw [hget _ (by decide)]
    simp [unsigned, get_map_cons]
  have hread := fromEnvelope_eq_ok hhost hget
    (verifyAny_sign hP hkey v version (encode r.unsigned))
  rw [Record.parse_registrar hlen hdec (by simp [hget, unsigned, get_map_cons])
    (by simp [hget, unsigned, get_map_cons]) (by simp [hget, unsigned, get_map_cons]) (Or.inl hfrozen)]
  simp [Record.parseRegistrar, Record.readRegistrar, hfrom, hfrozen, hread, Record.registrar]

/-- Whoever reads it, it is no revocation. -/
theorem parse_sign_ne {reg : Option RegistrarKeys} (x : AttestationRevocation) :
    Record.parse P (r.sign P key) reg ≠ .ok (.revokeAttestation x) := by
  intro h
  have hlen : (r.sign P key).length ≤ Record.smallMaxBytes := length_sign_le hhost
  have hdec := r.sealable.decode (signDomain P key domain) (hlen.trans_lt (by decide))
  have hget := fun k (hk : "sig" ≠ k) =>
    r.sealable.get_sealedValue (signDomain P key domain (encode r.unsigned)) hk
  have hfrom := r.sealable.fromValue (signDomain P key domain (encode r.unsigned))
  generalize sealedValue r.unsigned (signDomain P key domain (encode r.unsigned)) = v at hdec hget hfrom
  have hfrozen : (v.get "frozen").isSome = true := by
    rw [hget _ (by decide)]
    simp [unsigned, get_map_cons]
  rw [Record.parse_registrar hlen hdec (by simp [hget, unsigned, get_map_cons])
    (by simp [hget, unsigned, get_map_cons]) (by simp [hget, unsigned, get_map_cons]) (Or.inl hfrozen)] at h
  simp only [Record.parseRegistrar, bind_eq_ok, ite_throw_eq_ok, pure_eq_ok] at h
  obtain ⟨reg', -, env, henv, x', hread, -, hx⟩ := h
  obtain rfl := Except.ok.inj (hfrom.symm.trans henv)
  rw [Record.readRegistrar, if_pos hfrozen, hx, map_eq_ok] at hread
  obtain ⟨y, -, heq⟩ := hread
  cases heq

end Freeze

theorem reason_eq_ok {v : Value} {max : UInt64} {o : Option UInt64} :
    reason v max = .ok o ↔ v.get "reason" = o.map .uint ∧ ∀ r ∈ o, r ≤ max := by
  simp only [reason, bind_eq_ok, optUint_eq_ok, ite_throw_eq_ok, pure_eq_ok]
  constructor
  · rintro ⟨o', hget, hmax, rfl⟩
    refine ⟨hget, fun r hr => ?_⟩
    obtain rfl := Option.mem_def.mp hr
    simpa using hmax
  · rintro ⟨hget, hmax⟩
    refine ⟨o, hget, ?_, rfl⟩
    cases o with
    | none => simp
    | some r => simpa using hmax r rfl

namespace AttestationRevocation

variable (r : AttestationRevocation)

theorem sealable : Sealable r.unsigned where
  is_map := rfl
  distinct := by
    refine distinctKeys_fields (by simp only [List.map]; decide) ?_
    cases r.reason <;> simp [DistinctKeys]
  depth_le := by
    refine depth_fields_le (by decide) ?_
    cases r.reason <;> simp [depth, maxDepth]
  no_sig := by simp [unsigned, get_map_cons]
  current := by simp [unsigned, get_map_cons]

/-- What a revocation has to say to be read: a host, a handle within its bound, a reason the format
names. -/
structure Sayable : Prop where
  host : isHost r.registrar = true
  handle_ne : r.handle ≠ ""
  handle_le : r.handle.utf8ByteSize ≤ maxHandleBytes
  reason_le : ∀ n ∈ r.reason, n ≤ attestationReason.abuse

variable {r}

theorem length_sign_le (hhost : isHost r.registrar = true) (hle : r.handle.utf8ByteSize ≤ maxHandleBytes) :
    (r.sign P key).length ≤ Record.smallMaxBytes := by
  have h1 := fieldLen_some_le "v" (k := 2) rfl (length_encode_uint_le version)
  have h2 := fieldLen_some_le "identity" (k := 9) rfl (length_encode_array r.identity (by decide))
  have h3 := fieldLen_some_le "registrar" (k := 10) rfl
    (length_encode_text_le (utf8ByteSize_of_isHost hhost) (by decide))
  have h4 := fieldLen_some_le "handle" (k := 7) rfl (length_encode_text_le hle (by decide))
  have h5 := fieldLen_some_le "time" (k := 5) rfl (length_encode_uint_le r.time)
  have h6 : fieldLen ("reason", r.reason.map .uint) ≤ 7 + 9 := by
    refine fieldLen_le rfl fun v hv => ?_
    obtain ⟨n, -, rfl⟩ := Option.map_eq_some_iff.mp hv
    exact length_encode_uint_le n
  rw [sign, Envelope.seal, unsigned, length_encode_sig (by simp), length_encode_fields (by simp)]
  simp only [List.map_cons, List.map_nil, List.sum_cons, List.sum_nil, maxHostBytes, maxHandleBytes,
    Record.smallMaxBytes] at h3 h4 ⊢
  omega

theorem fromEnvelope_eq_ok {env : Envelope} (hr : r.Sayable)
    (hget : ∀ key, "sig" ≠ key → env.value.get key = (r.unsigned.get key).map sortKeys)
    (hver : verifyAny P env keys domain = .ok ()) : fromEnvelope P env keys = .ok r := by
  have hhandle : ¬ (r.handle = "" ∨ r.handle.utf8ByteSize > maxHandleBytes) := by
    rintro (h | h)
    · exact hr.handle_ne h
    · exact absurd hr.handle_le (Nat.not_le.mpr h)
  have hreason : Registrars.reason env.value attestationReason.abuse = .ok r.reason := by
    refine reason_eq_ok.mpr ⟨?_, hr.reason_le⟩
    rw [hget _ (by decide)]
    cases hn : r.reason <;> simp [unsigned, get_map_cons, hn, sortKeys]
  simp only [fromEnvelope, bind_eq_ok, bytes32_eq_ok, text_eq_ok, uint_eq_ok, checkHost_eq_ok,
    ite_throw_eq_ok, pure_eq_ok]
  refine ⟨r.identity, ?_, r.registrar, ?_, r.handle, ?_, r.time, ?_, r.reason, hreason, (), hr.host,
    hhandle, (), hver, rfl⟩
  all_goals
    rw [hget _ (by decide)]
    simp [unsigned, get_map_cons, sortKeys]

theorem parse_sign (hr : r.Sayable) (hP : P.Correct) (hkey : P.ed25519Public key ∈ keys) :
    Record.parse P (r.sign P key) (some ⟨r.registrar, keys⟩) = .ok (.revokeAttestation r) := by
  have hlen : (r.sign P key).length ≤ Record.smallMaxBytes := length_sign_le hr.host hr.handle_le
  have hdec := r.sealable.decode (signDomain P key domain) (hlen.trans_lt (by decide))
  have hget := fun k (hk : "sig" ≠ k) =>
    r.sealable.get_sealedValue (signDomain P key domain (encode r.unsigned)) hk
  have hfrom := r.sealable.fromValue (signDomain P key domain (encode r.unsigned))
  generalize sealedValue r.unsigned (signDomain P key domain (encode r.unsigned)) = v at hdec hget hfrom
  have hhandle : (v.get "handle").isSome = true := by
    rw [hget _ (by decide)]
    simp [unsigned, get_map_cons]
  have hfrozen : v.get "frozen" = none := by
    rw [hget _ (by decide)]
    simp [unsigned, get_map_cons]
  have hread := fromEnvelope_eq_ok hr hget
    (verifyAny_sign hP hkey v version (encode r.unsigned))
  rw [Record.parse_registrar hlen hdec (by simp [hget, unsigned, get_map_cons])
    (by simp [hget, unsigned, get_map_cons]) (by simp [hget, unsigned, get_map_cons]) (Or.inr hhandle)]
  simp [Record.parseRegistrar, Record.readRegistrar, hfrom, hfrozen, hread, Record.registrar]

/-- Where it parses as a revocation, it is as itself. -/
theorem eq_of_parse_sign (hhost : isHost r.registrar = true) (hle : r.handle.utf8ByteSize ≤ maxHandleBytes)
    {reg : Option RegistrarKeys} {x : AttestationRevocation}
    (h : Record.parse P (r.sign P key) reg = .ok (.revokeAttestation x)) : x = r := by
  have hlen : (r.sign P key).length ≤ Record.smallMaxBytes := length_sign_le hhost hle
  have hdec := r.sealable.decode (signDomain P key domain) (hlen.trans_lt (by decide))
  have hget := fun k (hk : "sig" ≠ k) =>
    r.sealable.get_sealedValue (signDomain P key domain (encode r.unsigned)) hk
  have hfrom := r.sealable.fromValue (signDomain P key domain (encode r.unsigned))
  generalize sealedValue r.unsigned (signDomain P key domain (encode r.unsigned)) = v at hdec hget hfrom
  have hhandle : (v.get "handle").isSome = true := by
    rw [hget _ (by decide)]
    simp [unsigned, get_map_cons]
  have hfrozen : v.get "frozen" = none := by
    rw [hget _ (by decide)]
    simp [unsigned, get_map_cons]
  rw [Record.parse_registrar hlen hdec (by simp [hget, unsigned, get_map_cons])
    (by simp [hget, unsigned, get_map_cons]) (by simp [hget, unsigned, get_map_cons]) (Or.inr hhandle)] at h
  simp only [Record.parseRegistrar, bind_eq_ok, ite_throw_eq_ok, pure_eq_ok] at h
  obtain ⟨reg', -, env, henv, x', hread, -, hx⟩ := h
  obtain rfl := Except.ok.inj (hfrom.symm.trans henv)
  rw [Record.readRegistrar, if_neg (by rw [hfrozen]; decide), hx, map_eq_ok] at hread
  obtain ⟨y, hy, heq⟩ := hread
  obtain rfl := Record.revokeAttestation.inj heq
  simp only [fromEnvelope, bind_eq_ok, bytes32_eq_ok, text_eq_ok, uint_eq_ok, ite_throw_eq_ok,
    pure_eq_ok] at hy
  obtain ⟨identity, hid, registrar, hreg, handle, hhan, time, htime, reason, hreason, -, -, -, -, -, rfl⟩ := hy
  obtain ⟨hreason, -⟩ := reason_eq_ok.mp hreason
  rw [hget _ (by decide)] at hid hreg hhan htime hreason
  have hreason' : r.reason = reason := by
    cases hn : r.reason <;> cases reason <;> simp [unsigned, get_map_cons, hn, sortKeys] at hreason ⊢
    exact hreason
  simp [unsigned, get_map_cons, sortKeys] at hid hreg hhan htime
  rw [← Subtype.ext hid, ← hreg, ← hhan, ← htime, ← hreason']

end AttestationRevocation

end HxdNg.Registrars
