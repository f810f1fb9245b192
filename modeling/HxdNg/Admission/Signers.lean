import HxdNg.Registrars.OneVerifier
import HxdNg.Identity.Endings
import HxdNg.Admission.Objects

/-!
# What is signed is what is read

Cards, offers and withdrawals. An offer or a withdrawal is handed out only after every check that needs
no clock, and what was handed out is read for as long as it is not ahead of the reader's clock. A card
is handed out with its vouches unseen: it is read where they nest within the decoder's depth and repeat
no key.

* `Attestation.signedValue` : a signed attestation, as a card carries it;
* `Offer.sign`, `Withdrawal.sign` : the signers, and `Offer.checkHeld`, the check of a lone offer;
* `signers_read_back` : what they hand out, and when it is read.
-/

namespace HxdNg.Identity

namespace Cbor

/-- Sorting keeps a repeated key. -/
theorem distinctKeys_of_sorted {v : Value} (h : SortedKeys (sortKeys v)) : DistinctKeys v := by
  induction v with
  | array vs ih =>
    rw [sortKeys_array, sortedKeys_array, List.forall_mem_map] at h
    exact (distinctKeys_array vs).2 fun v hv => ih v hv (h v hv)
  | map es ih =>
    rw [sortKeys_map, sortedKeys_map] at h
    refine (distinctKeys_map es).2 ⟨?_, fun e he => ?_⟩
    · have hnd : ((sortBy entryKey (es.map sortEntry)).map entryKey).Nodup :=
        (List.pairwise_map.2 h.1).imp fun hlt => hlt.ne
      rw [((perm_sortBy entryKey _).map entryKey).nodup_iff, map_entryKey_sortEntry] at hnd
      exact hnd
    · have hmem : sortEntry e ∈ sortBy entryKey (es.map sortEntry) := mem_sortBy.2 (List.mem_map_of_mem he)
      have he' := h.2 _ hmem
      exact ⟨(ih e he).1 he'.1, (ih e he).2 he'.2⟩
  | _ => trivial

end Cbor

open Cbor Friend

/-! ## Offers and withdrawals -/

/-- Sealed by the device its certificate names, within the bound. -/
def Friend.seal (P : Primitives) (unsigned : Value) (fromKey : PublicKey) (cert : List UInt8) (time : UInt64)
    (device : DeviceKey) (domain : String) : Except Error (List UInt8) := do
  let (cert, certEnv) ← certAt cert fromKey time
  certEnv.verify P cert.identity DeviceCert.domain
  if cert.device ≠ device.publicKey P then throw .keyMismatch
  else
    let bytes := Envelope.seal unsigned (device.sign P domain)
    if bytes.length > maxBytes then throw .tooLarge else return bytes

namespace Offer
variable (P : Primitives)

/-- Sign with the device key the certificate names, refusing what a checker would refuse without a clock. -/
def sign (o : Offer) (device : DeviceKey) : Except Error (List UInt8) := do
  let _ ← fromValue P o.unsigned
  Friend.seal P o.unsigned o.fromKey o.cert o.time device offerDomain

/-- A lone offer, against the withdrawals held. -/
def check (bytes : List UInt8) (now : UInt64) (held : List Held) : Except Refused Offer := do
  let (offer, env) ← atStep 1 (Friend.open bytes (fromValue P))
  atStep 3 (notAhead offer.time now)
  let cert ← atStep 4 (certAt offer.cert offer.fromKey offer.time)
  atStep 5 (Friend.verify P cert env offerDomain)
  if held.any fun w => offer.cutBy P (w.cutoff P) then throw ⟨6, .withdrawn⟩ else return offer

end Offer

/-- Sign with the device key the certificate names, refusing what a checker would refuse without a clock
or a pair. -/
def Withdrawal.sign (P : Primitives) (w : Withdrawal) (device : DeviceKey) : Except Error (List UInt8) := do
  let _ ← fromValue P w.unsigned
  if w.before > w.time then throw (.badField "before")
  else Friend.seal P w.unsigned w.fromKey w.cert w.time device withdrawDomain

variable {P : Primitives}

theorem atStep_eq_ok {α : Type} {step : Nat} {x : Except Error α} {a : α} :
    atStep step x = .ok a ↔ x = .ok a := by
  cases x <;> simp [atStep]

theorem notAhead_eq_ok {time now : UInt64} (h : time.toNat ≤ now.toNat + skew.toNat) :
    notAhead time now = .ok () := by
  unfold notAhead
  rw [if_neg]
  intro hlt
  have hlt := UInt64.lt_iff_toNat_lt.1 hlt
  rw [toNat_satAdd] at hlt
  have hmax := time.toNat_lt
  unfold maxWord at hlt
  omega

open Registrars in
/-- What a device sealed opens, and verifies under the certificate it was sealed with. -/
theorem Friend.seal_eq_ok (hP : P.Correct) {u : Value} (hu : Sealable u) {fromKey : PublicKey}
    {cert bytes : List UInt8} {time : UInt64} {device : DeviceKey} {domain : String}
    (h : Friend.seal P u fromKey cert time device domain = .ok bytes) :
    ∃ c sig, certAt cert fromKey time = .ok c ∧ Friend.verify P c (sealedEnv u sig) domain = .ok () ∧
      ∀ {α : Type} {read : Value → Except Error α} {a : α}, read (sealedEnv u sig).value = .ok a →
        Friend.open bytes read = .ok (a, sealedEnv u sig) := by
  simp only [Friend.seal, bind_eq_ok, ite_throw_eq_ok, pure_eq_ok, not_not] at h
  obtain ⟨c, hcert, _, hver, hdev, hle, rfl⟩ := h
  refine ⟨c, device.sign P domain (encode u), hcert, ?_, fun {α read a} hread => ?_⟩
  · rw [Friend.verify, hver, ok_bind, hdev]
    exact verifyDomain_signDomain hP device.seed domain _
  · have hlen : (Envelope.seal u (device.sign P domain)).length < 2 ^ 64 :=
      lt_of_le_of_lt (Nat.not_lt.1 hle) (by decide)
    rw [Friend.open, if_neg hle, hu.open_seal hlen, ok_bind, hread]
    rfl

/-! ### Offers -/

namespace Offer

/-- The lookups and checks of an offer's reader. -/
structure Fields (P : Primitives) (v : Value) (o : Offer) : Prop where
  from_eq : v.get "from" = some (.bytes o.fromKey.val)
  to_eq : v.get "to" = some (.bytes o.toFp.val)
  time_eq : v.get "time" = some (.uint o.time)
  expires_eq : v.get "expires" = some (.uint o.expires)
  id_eq : v.get "id" = some (.bytes o.id.val)
  cert_eq : v.get "cert" = some (.bytes o.cert)
  lasts : ¬ (o.expires ≤ o.time ∨ o.expires > satAdd o.time offerMaxLifetime)
  other : o.toFp ≠ o.offerer P

theorem fromValue_eq_ok {v : Value} {o : Offer} : fromValue P v = .ok o ↔ Fields P v o := by
  simp only [fromValue, bind_eq_ok, bytes32_eq_ok, uint_eq_ok, bytes16_eq_ok, bytes_eq_ok, ite_throw_eq_ok,
    pure_eq_ok]
  constructor
  · rintro ⟨_, hfrom, _, hto, _, htime, _, hexpires, _, hid, _, hcert, hlasts, hother, rfl⟩
    exact ⟨hfrom, hto, htime, hexpires, hid, hcert, hlasts, hother⟩
  · rintro ⟨hfrom, hto, htime, hexpires, hid, hcert, hlasts, hother⟩
    exact ⟨_, hfrom, _, hto, _, htime, _, hexpires, _, hid, _, hcert, hlasts, hother, rfl⟩

theorem Fields.of_holds {v u : Value} {o : Offer} (hv : Registrars.Holds v u) (h : Fields P u o) :
    Fields P v o where
  from_eq := by rw [hv _ (by decide) (by decide), h.from_eq]; rfl
  to_eq := by rw [hv _ (by decide) (by decide), h.to_eq]; rfl
  time_eq := by rw [hv _ (by decide) (by decide), h.time_eq]; rfl
  expires_eq := by rw [hv _ (by decide) (by decide), h.expires_eq]; rfl
  id_eq := by rw [hv _ (by decide) (by decide), h.id_eq]; rfl
  cert_eq := by rw [hv _ (by decide) (by decide), h.cert_eq]; rfl
  lasts := h.lasts
  other := h.other

theorem Fields.eq {o o' : Offer} (h : Fields P o.unsigned o') : o' = o := by
  obtain ⟨hfrom, hto, htime, hexpires, hid, hcert, -, -⟩ := h
  cases o
  cases o'
  simp [unsigned, get_map_cons] at hfrom hto htime hexpires hid hcert
  simp [Subtype.ext_iff, hfrom, hto, htime, hexpires, hid, hcert]

variable (o : Offer)

theorem sealable : Registrars.Sealable o.unsigned where
  is_map := rfl
  distinct := by
    refine distinctKeys_fields (by simp only [List.map]; decide) ?_
    simp [DistinctKeys]
  depth_le := by
    refine depth_fields_le (by decide) ?_
    simp [depth, maxDepth]
  no_sig := by simp [unsigned, get_map_cons]
  current := by simp [unsigned, get_map_cons]

variable {o} {device : DeviceKey} {bytes : List UInt8} {now : UInt64}

/-- An offer that was signed is taken until the clock is behind it. -/
theorem check_sign (hP : P.Correct) (h : sign P o device = .ok bytes)
    (hnow : o.time.toNat ≤ now.toNat + skew.toNat) : check P bytes now [] = .ok o := by
  simp only [sign, bind_eq_ok] at h
  obtain ⟨o', hfields, h⟩ := h
  obtain ⟨c, sig, hcert, hver, hopen⟩ := Friend.seal_eq_ok hP o.sealable h
  have hfields := fromValue_eq_ok.1 hfields
  have hread : fromValue P (Registrars.sealedEnv o.unsigned sig).value = .ok o :=
    fromValue_eq_ok.2 ((hfields.eq ▸ hfields).of_holds (o.sealable.holds sig))
  simp only [check, bind_eq_ok, atStep_eq_ok]
  exact ⟨(o, _), hopen hread, (), notAhead_eq_ok hnow, c, hcert, (), hver, rfl⟩

end Offer

/-! ### Withdrawals -/

namespace Withdrawal

variable (w : Withdrawal)

theorem sealable : Registrars.Sealable w.unsigned where
  is_map := rfl
  distinct := by
    refine distinctKeys_fields (by simp only [List.map]; decide) ?_
    cases w.party <;> simp [DistinctKeys]
  depth_le := by
    refine depth_fields_le (by decide) ?_
    cases w.party <;> simp [depth, maxDepth]
  no_sig := by simp [unsigned, get_map_cons]
  current := by simp [unsigned, get_map_cons]

variable {w} {device : DeviceKey} {bytes : List UInt8} {now : UInt64}

/-- The lookups and checks of a withdrawal's reader. -/
structure Fields (P : Primitives) (v : Value) (w : Withdrawal) : Prop where
  from_eq : v.get "from" = some (.bytes w.fromKey.val)
  pair_eq : v.get "pair" = some (.bytes w.pair.val)
  party_eq : v.get "party" = w.party.map fun p => .bytes p.val
  before_eq : v.get "before" = some (.uint w.before)
  time_eq : v.get "time" = some (.uint w.time)
  cert_eq : v.get "cert" = some (.bytes w.cert)
  other : w.party ≠ some (Fingerprint.of P w.fromKey)

theorem fromValue_eq_ok {v : Value} {w : Withdrawal} : fromValue P v = .ok w ↔ Fields P v w := by
  simp only [fromValue, bind_eq_ok, bytes32_eq_ok, optBytes32_eq_ok, uint_eq_ok, bytes_eq_ok, ite_throw_eq_ok,
    pure_eq_ok]
  constructor
  · rintro ⟨_, hfrom, _, hpair, _, hparty, _, hbefore, _, htime, _, hcert, hother, rfl⟩
    exact ⟨hfrom, hpair, hparty, hbefore, htime, hcert, hother⟩
  · rintro ⟨hfrom, hpair, hparty, hbefore, htime, hcert, hother⟩
    exact ⟨_, hfrom, _, hpair, _, hparty, _, hbefore, _, htime, _, hcert, hother, rfl⟩

theorem Fields.of_holds {v u : Value} (hv : Registrars.Holds v u) (h : Fields P u w) : Fields P v w where
  from_eq := by rw [hv _ (by decide) (by decide), h.from_eq]; rfl
  pair_eq := by rw [hv _ (by decide) (by decide), h.pair_eq]; rfl
  party_eq := by rw [hv _ (by decide) (by decide), h.party_eq]; cases w.party <;> rfl
  before_eq := by rw [hv _ (by decide) (by decide), h.before_eq]; rfl
  time_eq := by rw [hv _ (by decide) (by decide), h.time_eq]; rfl
  cert_eq := by rw [hv _ (by decide) (by decide), h.cert_eq]; rfl
  other := h.other

theorem Fields.eq {w w' : Withdrawal} (h : Fields P w.unsigned w') : w' = w := by
  obtain ⟨hfrom, hpair, hparty, hbefore, htime, hcert, -⟩ := h
  have hparty : w.party = w'.party := by
    simp only [unsigned, get_map_cons, reduceIte, String.reduceEq, get_map_nil] at hparty
    cases hw : w.party <;> cases hw' : w'.party <;> simp [hw, hw', Subtype.ext_iff] at hparty ⊢
    exact hparty
  cases w
  cases w'
  simp [unsigned, get_map_cons] at hfrom hpair hbefore htime hcert hparty
  simp [Subtype.ext_iff, hfrom, hpair, hbefore, htime, hcert, hparty]

/-- A withdrawal that was signed is kept until the clock is behind it. -/
theorem parse_sign (hP : P.Correct) (h : sign P w device = .ok bytes)
    (hnow : w.time.toNat ≤ now.toNat + skew.toNat) : parse P bytes now = .ok ⟨w⟩ := by
  simp only [sign, bind_eq_ok, ite_throw_eq_ok] at h
  obtain ⟨w', hfields, hbefore, h⟩ := h
  obtain ⟨c, sig, hcert, hver, hopen⟩ := Friend.seal_eq_ok hP w.sealable h
  have hfields := fromValue_eq_ok.1 hfields
  have hread : fromValue P (Registrars.sealedEnv w.unsigned sig).value = .ok w :=
    fromValue_eq_ok.2 ((hfields.eq ▸ hfields).of_holds (w.sealable.holds sig))
  simp only [parse, openTimed, verify, bind_eq_ok, atStep_eq_ok, ite_throw_eq_ok, pure_eq_ok]
  exact ⟨(w, _), ⟨(w, _), hopen hread, hbefore, (), notAhead_eq_ok hnow, rfl⟩, (), ⟨c, hcert, hver⟩, rfl⟩

end Withdrawal

end HxdNg.Identity

/-! ## Attestations -/

namespace HxdNg.Registrars.Attestation

open Identity Cbor

/-- The signed object, for a card to carry; none where the assertion fails. -/
def signedValue (P : Primitives) (a : Attestation) (key : Bytes 32) : Option Value :=
  if P.ed25519Public key = a.registrarKey then (decodeCanonical (a.sign P key)).toOption else none

/-- The checks of an attestation's reader. -/
structure FieldValid (a : Attestation) : Prop where
  host : isHost a.registrar = true
  handle : ¬ (a.handle = "" ∨ a.handle.utf8ByteSize > maxHandleBytes ∨ '@' ∈ a.handle.toList ∨
    a.handle.toList.any (fun c => c = ' ' || isDeceptive c))
  level : a.level.any (· > 3) = false
  registered : ¬ (a.registered > a.issued ∨ a.registered = 0)
  window : a.issued < a.expires

variable (a : Attestation)

theorem sealable : Sealable a.unsigned where
  is_map := rfl
  distinct := by
    refine distinctKeys_fields (by simp only [List.map]; decide) ?_
    cases a.level <;> simp [DistinctKeys]
  depth_le := by
    refine depth_fields_le (by decide) ?_
    cases a.level <;> simp [depth, maxDepth]
  no_sig := by simp [unsigned, get_map_cons]
  current := by simp [unsigned, get_map_cons]

theorem depth_unsigned : depth a.unsigned ≤ 1 := by
  refine depth_fields_le (by decide) ?_
  cases a.level <;> simp [depth]

variable {P : Primitives} {a} {key : Bytes 32} {v : Value}

theorem length_seal_lt (ha : a.FieldValid) (sign : List UInt8 → Signature) :
    (Envelope.seal a.unsigned sign).length < 2 ^ 64 := by
  have hhandle : a.handle.utf8ByteSize ≤ maxHandleBytes := by
    have := ha.handle
    simp only [not_or, Nat.not_lt] at this
    exact this.2.1
  have h1 := fieldLen_some_le "v" (k := 2) rfl (length_encode_uint_le version)
  have h2 := fieldLen_some_le "identity" (k := 9) rfl (length_encode_array a.identity (by decide))
  have h3 := fieldLen_some_le "registrar" (k := 10) rfl
    (length_encode_text_le (utf8ByteSize_of_isHost ha.host) (by decide))
  have h4 := fieldLen_some_le "registrar_key" (k := 14) rfl (length_encode_array a.registrarKey (by decide))
  have h5 := fieldLen_some_le "handle" (k := 7) rfl (length_encode_text_le hhandle (by decide))
  have h6 := fieldLen_some_le "registered" (k := 11) rfl (length_encode_uint_le a.registered)
  have h7 := fieldLen_some_le "issued" (k := 7) rfl (length_encode_uint_le a.issued)
  have h8 := fieldLen_some_le "expires" (k := 8) rfl (length_encode_uint_le a.expires)
  have h9 : fieldLen ("level", a.level.map .uint) ≤ 6 + 9 := by
    refine fieldLen_le rfl fun v hv => ?_
    obtain ⟨n, -, rfl⟩ := Option.map_eq_some_iff.mp hv
    exact length_encode_uint_le n
  rw [Envelope.seal, unsigned, length_encode_sig (by simp), length_encode_fields (by simp)]
  simp only [List.map_cons, List.map_nil, List.sum_cons, List.sum_nil, maxHostBytes, maxHandleBytes] at h3 h5 ⊢
  omega

theorem signedValue_eq_some (ha : a.FieldValid) (h : a.signedValue P key = some v) :
    P.ed25519Public key = a.registrarKey ∧
      v = sealedValue a.unsigned (signDomain P key domain (encode a.unsigned)) := by
  unfold signedValue at h
  split at h
  next hkey =>
    refine ⟨hkey, ?_⟩
    have hdec := ofCbor_eq_ok.1 (a.sealable.decode (signDomain P key domain) (length_seal_lt ha _))
    rw [sign, hdec] at h
    exact (Option.some.inj h).symm
  next => cases h

/-- A value that was signed is read as what was signed, in a card of whom it is about. -/
theorem fromValue_signedValue (hP : P.Correct) (ha : a.FieldValid) (h : a.signedValue P key = some v) :
    fromValue P v a.identity = .ok a := by
  obtain ⟨hkey, rfl⟩ := signedValue_eq_some ha h
  have hholds := a.sealable.holds (signDomain P key domain (encode a.unsigned))
  have hver : (sealedEnv a.unsigned (signDomain P key domain (encode a.unsigned))).verify P a.registrarKey domain =
      .ok () := by
    rw [← hkey]
    exact verifyDomain_signDomain hP key domain _
  rw [fromValue, a.sealable.fromValue, ok_bind]
  show fromEnvelope P (sealedEnv a.unsigned (signDomain P key domain (encode a.unsigned))) _ = _
  simp only [fromEnvelope, bind_eq_ok, bytes32_eq_ok, text_eq_ok, uint_eq_ok, optUint_eq_ok, ite_throw_eq_ok,
    pure_eq_ok]
  refine ⟨a.identity, ?_, a.registrar, ?_, a.registrarKey, ?_, a.handle, ?_, a.registered, ?_, a.issued, ?_,
    a.expires, ?_, a.level, ?_, not_not_intro ha.host, ha.handle, by simp [ha.level], by simp, ha.registered,
    UInt64.not_le.2 ha.window, (), hver, rfl⟩
  all_goals
    rw [hholds _ (by decide) (by decide)]
    simp [unsigned, get_map_cons, sortKeys]
  cases a.level <;> rfl

end HxdNg.Registrars.Attestation

/-! ## Cards -/

namespace HxdNg.Admission

open Identity Cbor
open Registrars (Attestation Sealable sealedEnv Holds)

theorem optArray_eq_ok {v : Value} {key : String} {items : List Value}
    (h : v.get key = if items.isEmpty then none else some (.array items)) : optArray v key = .ok items := by
  unfold optArray Identity.optional
  rw [h]
  cases items <;> rfl

namespace Card

/-- `v` is `a` as its registrar signed it, in its fields, about this card's identity. -/
structure Carries (P : Primitives) (c : Card) (a : Attestation) (v : Value) : Prop where
  signed : ∃ key, a.signedValue P key = some v
  valid : a.FieldValid
  about : a.identity = c.identity

/-- Every vouch is what a decoder gives back: nested no deeper than it follows, below the card's map and
the array, and with no key twice in a map. -/
def VouchesRead (c : Card) : Prop := ∀ v ∈ c.vouches, DistinctKeys v ∧ depth v ≤ maxDepth - 2

/-- `c'` is `c` as its signer meant it, with the attestations embedded. -/
structure SameAs (c' c : Card) (attestations : List Attestation) : Prop where
  identity : c'.identity = c.identity
  updated : c'.updated = c.updated
  name : c'.name = c.name
  icon : c'.icon = c.icon
  profile : c'.profile = c.profile
  links : c'.links = c.links
  successor : c'.successor = c.successor
  attestations : c'.attestations = attestations

variable {P : Primitives} {c : Card} {identity : Bytes 32} {attestations : List Attestation} {values : List Value}

theorem Carries.sorted {a : Attestation} {v : Value} (h : c.Carries P a v) : SortedKeys v := by
  obtain ⟨key, hkey⟩ := h.signed
  obtain ⟨-, rfl⟩ := Attestation.signedValue_eq_some h.valid hkey
  exact sortedKeys_sortKeys (a.sealable.distinctKeys_push _)

theorem Carries.depth_le {a : Attestation} {v : Value} (h : c.Carries P a v) : depth v ≤ 1 := by
  obtain ⟨key, hkey⟩ := h.signed
  obtain ⟨-, rfl⟩ := Attestation.signedValue_eq_some h.valid hkey
  rw [Registrars.sealedValue, depth_sortKeys]
  exact depth_pushEntry a.depth_unsigned (by rw [show depth (.bytes _) = 0 from rfl]; decide)

theorem forall_carried (h : List.Forall₂ (c.Carries P) attestations values) :
    ∀ v ∈ values, SortedKeys v ∧ depth v ≤ 1 := by
  induction h with
  | nil => simp
  | cons ha _ ih => exact List.forall_mem_cons.2 ⟨⟨ha.sorted, ha.depth_le⟩, ih⟩

theorem readAttestations_eq_ok (hP : P.Correct) (h : List.Forall₂ (c.Carries P) attestations values) :
    readAttestations P c.identity values = .ok attestations := by
  induction h with
  | nil => rfl
  | cons ha _ ih =>
    obtain ⟨key, hkey⟩ := ha.signed
    have hread := Attestation.fromValue_signedValue hP ha.valid hkey
    rw [ha.about] at hread
    rw [readAttestations, hread]
    dsimp only
    rw [ih]
    rfl

/-! ### What a card is made of -/

theorem get_unsigned (c : Card) (values : List Value) :
    (c.unsigned values).get "vouches" = (if c.vouches.isEmpty then none else some (.array c.vouches)) ∧
      (c.unsigned values).get "attestations" = (if values.isEmpty then none else some (.array values)) := by
  simp only [unsigned, get_map_cons, reduceIte, String.reduceEq, get_map_nil]
  cases c.vouches <;> cases values <;> exact ⟨rfl, rfl⟩

theorem distinctKeys_list {items : List Value} (h : ∀ v ∈ items, DistinctKeys v) :
    ∀ v ∈ (if items.isEmpty then none else some (Value.array items)), DistinctKeys v := by
  intro v hv
  split at hv
  next => cases hv
  next =>
    obtain rfl := Option.some.inj hv
    exact (distinctKeys_array _).2 h

theorem depth_list {items : List Value} (h : ∀ v ∈ items, depth v ≤ maxDepth - 2) :
    ∀ v ∈ (if items.isEmpty then none else some (Value.array items)), depth v < maxDepth := by
  intro v hv
  split at hv
  next => cases hv
  next =>
    obtain rfl := Option.some.inj hv
    exact Nat.lt_of_le_of_lt (depth_array_le.2 fun v hv => Nat.lt_succ_of_le (h v hv)) (by decide)

theorem sealable (hv : c.VouchesRead) (h : ∀ v ∈ values, SortedKeys v ∧ depth v ≤ 1) :
    Sealable (c.unsigned values) where
  is_map := rfl
  distinct := by
    refine distinctKeys_fields (by simp only [List.map]; decide) ?_
    have hvalues := distinctKeys_list fun v hv => distinctKeys_of_sortedKeys (h v hv).1
    have hvouches := distinctKeys_list fun v hm => (hv v hm).1
    have htexts : ∀ v ∈ c.links.map Value.text, DistinctKeys v := List.forall_mem_map.2 fun _ _ => trivial
    have hlinks := distinctKeys_list htexts
    rw [List.isEmpty_map] at hlinks
    simp only [List.forall_mem_cons]
    refine ⟨?_, ?_, ?_, ?_, ?_, ?_, hvalues, hvouches, hlinks, ?_, by simp⟩
    all_goals cases c.icon <;> cases c.profile <;> cases c.successor <;> simp [DistinctKeys]
  depth_le := by
    refine depth_fields_le (by decide) ?_
    have hvalues := depth_list fun v hv => (h v hv).2.trans (by decide)
    have hvouches := depth_list fun v hm => (hv v hm).2
    have htexts : ∀ v ∈ c.links.map Value.text, depth v ≤ maxDepth - 2 :=
      List.forall_mem_map.2 fun _ _ => Nat.zero_le _
    have hlinks := depth_list htexts
    rw [List.isEmpty_map] at hlinks
    simp only [List.forall_mem_cons]
    refine ⟨?_, ?_, ?_, ?_, ?_, ?_, hvalues, hvouches, hlinks, ?_, by simp⟩
    all_goals cases c.icon <;> cases c.profile <;> cases c.successor <;> simp [depth, maxDepth]
  no_sig := by simp [unsigned, get_map_cons]
  current := by simp [unsigned, get_map_cons]

theorem mapM_texts (links : List String) :
    (links.map Value.text).mapM (fun l => (asText l).elim (.error (.badField "links")) .ok) =
      (.ok links : Except Error (List String)) := by
  induction links with
  | nil => rfl
  | cons l ls ih =>
    rw [List.map_cons, List.mapM_cons, ih]
    rfl

/-- A card whose vouches can be read opens as itself, its vouches with their keys in order. -/
theorem parse_sealed (hP : P.Correct) (hid : P.ed25519Public identity = c.identity)
    (hfields : c.checkFields = .ok ()) (hcarry : List.Forall₂ (c.Carries P) attestations values)
    (hcount : values.length ≤ maxAttestations) (hlen : (c.sealed P identity values).length ≤ maxBytes)
    (hv : c.VouchesRead) :
    parse P (c.sealed P identity values) =
      .ok { c with attestations := attestations, vouches := c.vouches.map sortKeys } := by
  have hu := sealable hv (forall_carried hcarry)
  have hopen : Envelope.open (Envelope.seal (c.unsigned values) (signDomain P identity domain)) =
      .ok (sealedEnv (c.unsigned values) (signDomain P identity domain (encode (c.unsigned values)))) :=
    hu.open_seal (lt_of_le_of_lt hlen (by decide))
  have hholds := hu.holds (signDomain P identity domain (encode (c.unsigned values)))
  have hver : (sealedEnv (c.unsigned values) (signDomain P identity domain (encode (c.unsigned values)))).verify P
      c.identity domain = .ok () := by
    rw [← hid]
    exact verifyDomain_signDomain hP identity domain _
  unfold parse
  rw [if_neg (Nat.not_lt.2 hlen), sealed, hopen, ok_bind]
  have hvouches : optArray (sealedEnv (c.unsigned values) (signDomain P identity domain
      (encode (c.unsigned values)))).value "vouches" = .ok (c.vouches.map sortKeys) := by
    refine optArray_eq_ok ?_
    rw [hholds _ (by decide) (by decide), (get_unsigned c values).1]
    cases c.vouches <;> simp [sortKeys_array]
  have hvalues : optArray (sealedEnv (c.unsigned values) (signDomain P identity domain
      (encode (c.unsigned values)))).value "attestations" = .ok values := by
    refine optArray_eq_ok ?_
    have hself : values.map sortKeys = values :=
      (List.map_congr_left fun v hv => sortKeys_of_sortedKeys (forall_carried hcarry v hv).1).trans (List.map_id' _)
    rw [hholds _ (by decide) (by decide), (get_unsigned c values).2]
    cases hvals : values with
    | nil => rfl
    | cons v vs =>
      rw [hvals] at hself
      simp [sortKeys_array, hself]
  simp only [bind_eq_ok, bytes32_eq_ok, text_eq_ok, uint_eq_ok, optUint_eq_ok, optText_eq_ok, optBytes32_eq_ok,
    ite_throw_eq_ok, pure_eq_ok]
  refine ⟨c.identity, ?_, (), hver, values, hvalues, Nat.not_lt.2 hcount, c.links.map .text, ?_, c.links, ?_,
    c.updated, ?_, c.name, ?_, c.icon, ?_, c.profile, ?_, _, hvouches, c.successor, ?_, (), hfields, attestations,
    readAttestations_eq_ok hP hcarry, rfl⟩
  · rw [hholds _ (by decide) (by decide)]
    simp [unsigned, get_map_cons, sortKeys]
  · refine optArray_eq_ok ?_
    rw [hholds _ (by decide) (by decide)]
    cases hl : c.links <;> simp [unsigned, get_map_cons, sortKeys_array, hl]
  · exact mapM_texts c.links
  all_goals
    rw [hholds _ (by decide) (by decide)]
    simp [unsigned, get_map_cons, sortKeys]
  · cases c.icon <;> rfl
  · cases c.profile <;> rfl
  · cases c.successor <;> rfl

/-! ### What a decoder has read -/

/-- A card a reader took has vouches a decoder gives back. -/
theorem vouchesRead_of_parse {c' : Card} (h : parse P (c.sealed P identity values) = .ok c') : c.VouchesRead := by
  unfold parse at h
  obtain ⟨hlen, h⟩ := ite_error_eq_ok.1 h
  obtain ⟨env, hopen, -⟩ := bind_eq_ok.1 h
  obtain ⟨v, hdec, -⟩ := Registrars.open_eq_ok.1 hopen
  have hlen : (c.sealed P identity values).length < 2 ^ 64 := lt_of_le_of_lt (Nat.not_lt.1 hlen) (by decide)
  obtain ⟨henc, hsorted, hdepth⟩ := (decodeCanonical_eq_ok hlen).1 (ofCbor_eq_ok.1 hdec)
  have heq : v = sortKeys (pushEntry "sig" (.bytes (signDomain P identity domain
      (encode (c.unsigned values))).val) (c.unsigned values)) := by
    rw [← sortKeys_of_sortedKeys hsorted]
    exact sortKeys_eq_of_encode_eq (henc ▸ hlen) henc
  have hdistinct := distinctKeys_of_sorted (heq ▸ hsorted)
  rw [heq, depth_sortKeys] at hdepth
  intro x hx
  have hget : (pushEntry "sig" (.bytes (signDomain P identity domain (encode (c.unsigned values))).val)
      (c.unsigned values)).get "vouches" = some (.array c.vouches) := by
    rw [get_pushEntry_of_ne (by decide), (get_unsigned c values).1, if_neg (by
      rw [List.isEmpty_iff]
      exact List.ne_nil_of_mem hx)]
  refine ⟨(distinctKeys_array _).1 (distinctKeys_get hdistinct hget) x hx, ?_⟩
  have hlt := depth_get hdepth hget
  have hx := depth_array_le.1 (Nat.le_of_lt_succ hlt) x hx
  exact Nat.le_of_lt_succ hx

variable {bytes : List UInt8}

theorem sign_eq_ok (h : c.sign P identity values = some (.ok bytes)) :
    P.ed25519Public identity = c.identity ∧ c.checkFields = .ok () ∧ values.length ≤ maxAttestations ∧
      bytes = c.sealed P identity values ∧ (c.sealed P identity values).length ≤ maxBytes := by
  unfold sign at h
  split at h
  next hid =>
    have h := Option.some.inj h
    simp only [bind_eq_ok, ite_throw_eq_ok, pure_eq_ok] at h
    obtain ⟨_, hfields, hcount, hlen, rfl⟩ := h
    exact ⟨hid, hfields, Nat.not_lt.1 hcount, rfl, Nat.not_lt.1 hlen⟩
  next => cases h

/-- What was signed is read as it was meant just where its vouches can be read. -/
theorem parse_sign_iff (hP : P.Correct) (hcarry : List.Forall₂ (c.Carries P) attestations values)
    (h : c.sign P identity values = some (.ok bytes)) :
    (∃ c', parse P bytes = .ok c' ∧ c'.SameAs c attestations) ↔ c.VouchesRead := by
  obtain ⟨hid, hfields, hcount, rfl, hlen⟩ := sign_eq_ok h
  constructor
  · rintro ⟨c', hparse, -⟩
    exact vouchesRead_of_parse hparse
  · intro hv
    exact ⟨_, parse_sealed hP hid hfields hcarry hcount hlen hv, ⟨rfl, rfl, rfl, rfl, rfl, rfl, rfl, rfl⟩⟩

end Card

/-! ## The three signers -/

/-- A card is read as it was meant, its attestations in order, just where its vouches can be read; an
offer and a withdrawal are taken while they are not ahead of the reader's clock. -/
theorem signers_read_back (P : Primitives) (hP : P.Correct) :
    (∀ (c : Card) (identity : Bytes 32) (attestations : List Attestation) (values : List Value)
      (bytes : List UInt8), List.Forall₂ (c.Carries P) attestations values →
      c.sign P identity values = some (.ok bytes) →
      ((∃ c', Card.parse P bytes = .ok c' ∧ c'.SameAs c attestations) ↔ c.VouchesRead)) ∧
    (∀ (o : Offer) (device : DeviceKey) (bytes : List UInt8) (now : UInt64), o.sign P device = .ok bytes →
      o.time.toNat ≤ now.toNat + skew.toNat → Offer.check P bytes now [] = .ok o) ∧
    ∀ (w : Withdrawal) (device : DeviceKey) (bytes : List UInt8) (now : UInt64), w.sign P device = .ok bytes →
      w.time.toNat ≤ now.toNat + skew.toNat → Withdrawal.parse P bytes now = .ok ⟨w⟩ :=
  ⟨fun _ _ _ _ _ hcarry h => Card.parse_sign_iff hP hcarry h, fun _ _ _ _ h hnow => Offer.check_sign hP h hnow,
    fun _ _ _ _ h hnow => Withdrawal.parse_sign hP h hnow⟩

/-- Under the published keys. -/
theorem signers_read_back_published :
    (∀ (c : Card) (identity : Bytes 32) (attestations : List Attestation) (values : List Value)
      (bytes : List UInt8), List.Forall₂ (c.Carries vectors.primitives) attestations values →
      c.sign vectors.primitives identity values = some (.ok bytes) →
      ((∃ c', Card.parse vectors.primitives bytes = .ok c' ∧ c'.SameAs c attestations) ↔ c.VouchesRead)) ∧
    (∀ (o : Offer) (device : DeviceKey) (bytes : List UInt8) (now : UInt64),
      o.sign vectors.primitives device = .ok bytes → o.time.toNat ≤ now.toNat + skew.toNat →
      Offer.check vectors.primitives bytes now [] = .ok o) ∧
    ∀ (w : Withdrawal) (device : DeviceKey) (bytes : List UInt8) (now : UInt64),
      w.sign vectors.primitives device = .ok bytes → w.time.toNat ≤ now.toNat + skew.toNat →
      Withdrawal.parse vectors.primitives bytes now = .ok ⟨w⟩ :=
  signers_read_back vectors.primitives vectors.correct

/-- An array in an array, `n` times. -/
def nested : Nat → Value
  | 0 => .array []
  | n + 1 => .array [nested n]

/-- A card of `seed`'s identity whose one vouch nests `n` deep. -/
def Card.nesting (P : Primitives) (seed : Bytes 32) (n : Nat) : Card :=
  ⟨P.ed25519Public seed, 1000, "Alice", none, none, [], [nested n], [], none⟩

/-- A vouch that nests seven deep is signed, and no reader follows it. -/
theorem nesting_not_read : ¬ ∀ (P : Primitives) (c : Card) (identity : Bytes 32) (attestations : List Attestation)
    (values : List Value) (bytes : List UInt8), P.Correct → List.Forall₂ (c.Carries P) attestations values →
    c.sign P identity values = some (.ok bytes) →
    ∃ c', Card.parse P bytes = .ok c' ∧ c'.SameAs c attestations := by
  intro h
  let seed : Bytes 32 := Bytes.replicate 32 1
  let c := Card.nesting vectors.primitives seed 7
  have hsign : c.sign vectors.primitives seed [] = some (.ok (c.sealed vectors.primitives seed [])) := by
    decide +kernel
  have hparse : Card.parse vectors.primitives (c.sealed vectors.primitives seed []) = .error (.cbor .tooDeep) := by
    decide +kernel
  obtain ⟨c', hread, -⟩ := h vectors.primitives c seed [] [] _ vectors.correct .nil hsign
  rw [hparse] at hread
  cases hread

end HxdNg.Admission
