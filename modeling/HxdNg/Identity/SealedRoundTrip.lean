import HxdNg.Identity.Objects
import HxdNg.Identity.Replay

/-!
# A sealed message opens as what was sealed

* `pad_eq_ok`, `unpad_append` : padding finds a size for every message, and is taken off again;
* `unbox_sealPadded` : a box gives its padded plaintext back, at a length that says its size;
* `seal_open_round_trip` : and `open` ends in `verified`, or `deniable`, with what was sealed.
-/

namespace HxdNg.Identity

open Cbor

/-! ## Padding -/

/-- A map and the zeros that make it `size` bytes long. -/
def padTo (size : Nat) (bytes : List UInt8) : List UInt8 :=
  bytes ++ List.replicate (size - bytes.length) 0

theorem length_padTo {size : Nat} {bytes : List UInt8} (h : bytes.length ≤ size) :
    (padTo size bytes).length = size := by
  unfold padTo
  rw [List.length_append, List.length_replicate]
  omega

/-- A map that fits the largest size is padded to one of the sizes. -/
theorem pad_eq_ok (bytes : List UInt8) (deniable : Bool)
    (h : ∃ size ∈ padSizesFor deniable, bytes.length ≤ size) :
    ∃ size ∈ padSizesFor deniable, bytes.length ≤ size ∧
      pad bytes deniable = .ok (padTo size bytes) := by
  unfold pad
  cases hfind : (padSizesFor deniable).find? fun size => bytes.length ≤ size with
  | none =>
    obtain ⟨size, hmem, hle⟩ := h
    exact absurd (List.find?_eq_none.mp hfind size hmem) (by simpa using hle)
  | some size =>
    exact ⟨size, List.mem_of_find?_eq_some hfind, by simpa using List.find?_some hfind, rfl⟩

theorem itemLen_append {v : Value} (hd : depth v ≤ maxDepth) (hl : (encode v).length < 2 ^ 64)
    (buf : List UInt8) : itemLen (encode v ++ buf) = .ok (encode v).length := by
  unfold itemLen
  rw [Reader.item_encode v (Nat.lt_succ_of_le hd) hl buf, ok_bind, pure_eq_ok, List.length_append]
  omega

theorem unpad_append {v : Value} (hd : depth v ≤ maxDepth) (hl : (encode v).length < 2 ^ 64) {k : Nat}
    {deniable : Bool} (hsize : (encode v).length + k ∈ padSizesFor deniable) :
    unpad (encode v ++ List.replicate k 0) deniable = .ok (encode v) := by
  have hany : ((padSizesFor deniable).any fun size =>
      size = (encode v ++ List.replicate k 0).length) = true := by
    rw [List.any_eq_true]
    exact ⟨_, hsize, by simp⟩
  have hzeros : (List.replicate k (0 : UInt8)).any (fun b => b ≠ 0) = false := by
    rw [List.any_eq_false]
    intro b hb
    simp [List.eq_of_mem_replicate hb]
  unfold unpad
  rw [if_neg (not_not.mpr hany), itemLen_append hd hl]
  simp only [ofCbor, ok_bind, List.drop_left, List.take_left, hzeros]
  rfl

/-! ## Boxes -/

namespace Sealed

theorem split32_append (key : Bytes 32) (rest : List UInt8) :
    split32 (key.val ++ rest) = .ok (key, rest) := by
  unfold split32
  rw [List.take_left' key.property, Bytes.ofList_val, List.drop_left' key.property]

variable {P : Primitives} {H : Hpke}

/-- A box is `overhead` longer than a size, and gives its plaintext back to the device it is for. -/
theorem unbox_sealPadded (hH : H.Correct P) (plaintext : List UInt8) (recipient : DeviceKey)
    (sender : Option DeviceKey) (ikm : Bytes 32) {p : Nat} (hp : p ∈ padSizes)
    (hlen : plaintext.length + (if sender.isSome then deniableKeyBytes else 0) = p) :
    ∃ box form rest, sealPadded P H plaintext (recipient.publicEnc P) sender ikm = .ok box ∧
      box = form :: rest ∧ box.length = p + overhead ∧ checkLen form box.length = .ok () ∧
      unbox P H box recipient = .ok (plaintext, sender.map fun s => s.publicEnc P) := by
  have hcheck : ∀ form, form = signedBox ∨ form = deniableBox →
      checkLen form (p + overhead) = .ok () := by
    intro form hform
    unfold checkLen
    have hany : (padSizes.any fun size => size + overhead = p + overhead) = true :=
      List.any_eq_true.mpr ⟨p, hp, by simp⟩
    rw [if_neg (by rcases hform with rfl | rfl <;> simp), if_neg (not_not.mpr hany)]
  cases sender with
  | none =>
    obtain ⟨enc, ct, hseal, hvalid, hct, hopen⟩ :=
      hH.open_seal none (recipient.encSecret P) signedInfo plaintext [signedBox] ikm
    have hboxlen : (signedBox :: (enc.val ++ ct)).length = p + overhead := by
      simp only [Option.isSome_none, Bool.false_eq_true, if_false] at hlen
      rw [List.length_cons, List.length_append, enc.property, hct]
      unfold overhead
      omega
    refine ⟨_, signedBox, enc.val ++ ct, ?_, rfl, hboxlen, ?_, ?_⟩
    · unfold sealPadded
      rw [if_neg (not_not.mpr (hH.validPublic_publicEnc recipient))]
      change H.singleShotSeal none (recipient.publicEnc P) _ _ _ _ = _ at hseal
      rw [hseal]
    · rw [hboxlen]
      exact hcheck _ (Or.inl rfl)
    · unfold unbox
      simp only [hboxlen]
      rw [hcheck _ (Or.inl rfl), ok_bind, if_pos trivial]
      unfold unboxFrom
      rw [if_neg (by simp), split32_append, ok_bind]
      simp only [hvalid, not_true_eq_false, if_false]
      rw [Option.map_none] at hopen
      rw [hopen]
      rfl
  | some s =>
    obtain ⟨enc, ct, hseal, hvalid, hct, hopen⟩ :=
      hH.open_seal (some (s.encSecret P)) (recipient.encSecret P) deniableInfo plaintext
        [deniableBox] ikm
    have hboxlen : (deniableBox :: ((s.publicEnc P).val ++ enc.val ++ ct)).length = p + overhead := by
      simp only [Option.isSome_some, if_true] at hlen
      rw [List.length_cons, List.length_append, List.length_append, enc.property,
        (s.publicEnc P).property, hct]
      unfold overhead
      unfold deniableKeyBytes at hlen
      omega
    refine ⟨_, deniableBox, (s.publicEnc P).val ++ enc.val ++ ct, ?_, rfl, hboxlen, ?_, ?_⟩
    · unfold sealPadded
      rw [if_neg (not_not.mpr (hH.validPublic_publicEnc recipient))]
      simp only [hH.validPublic_publicEnc s, not_true_eq_false, if_false]
      change H.singleShotSeal (some (s.encSecret P, s.publicEnc P)) (recipient.publicEnc P) _ _ _ _ =
        _ at hseal
      rw [hseal]
    · rw [hboxlen]
      exact hcheck _ (Or.inr rfl)
    · unfold unbox
      simp only [hboxlen]
      rw [hcheck _ (Or.inr rfl), ok_bind, if_neg (by decide), if_pos trivial, List.append_assoc,
        split32_append, ok_bind]
      unfold unboxFrom
      rw [if_neg (by simp [hH.validPublic_publicEnc s]), split32_append, ok_bind]
      simp only [hvalid, not_true_eq_false, if_false]
      rw [Option.map_some] at hopen
      rw [DeviceKey.publicEnc, hopen]
      rfl

/-! ## Reading -/

theorem unpad_of_pad {v : Value} (hd : depth v ≤ maxDepth) (hl : (encode v).length < 2 ^ 64)
    {deniable : Bool} {size : Nat} (hsize : size ∈ padSizesFor deniable)
    (hle : (encode v).length ≤ size) :
    unpad (padTo size (encode v)) deniable = .ok (encode v) :=
  unpad_append hd hl (by rw [Nat.add_sub_cancel' hle]; exact hsize)

theorem readMap_signed {m : PrivateMessage} {cert : DeviceCert} {whole : Value} {received : UInt64}
    (hacc : Signed.Accepted P PrivateMessage.object received ⟨m, cert, whole⟩)
    (hl : (encode whole).length < 2 ^ 64) {size : Nat} (hsize : size ∈ padSizesFor false)
    (hle : (encode whole).length ≤ size) :
    ∃ env, readMap (padTo size (encode whole)) false m.toFp =
        .ok (m, some env) ∧ env.value = whole ∧
      env.verify P cert.device PrivateMessage.object.domain = .ok () := by
  obtain ⟨hmap, hver, ⟨sig, hsig, hverify⟩, hfields, -, -⟩ := Signed.verify_eq_ok.mp hacc.verified
  refine ⟨⟨whole, version, encode (whole.without "sig"), sig⟩, ?_, rfl, hverify⟩
  have henv : Envelope.fromValue whole = .ok ⟨whole, version, encode (whole.without "sig"), sig⟩ :=
    Envelope.fromValue_eq_ok.mpr ⟨hmap, hver, sig, hsig, rfl⟩
  have hfields : PrivateMessage.fromValue whole false = .ok m := hfields
  unfold readMap readSigned
  rw [unpad_of_pad hacc.depth_le hl hsize hle, ok_bind,
    decode_of_sorted hacc.sorted hacc.depth_le hl, ok_bind]
  simp [henv, hfields, pure, Except.pure]

theorem readMap_deniable {m : PrivateMessage}
    (hm : PrivateMessage.fromValue m.unsigned false = .ok m.canonical)
    (hl : (encode m.unsigned).length < 2 ^ 64) {size : Nat} (hsize : size ∈ padSizesFor true)
    (hle : (encode m.unsigned).length ≤ size) :
    readMap (padTo size (encode m.unsigned)) true m.toFp =
      .ok (m.canonical, none) := by
  have hdist := PrivateMessage.distinctKeys_unsigned m
  have hdepth := PrivateMessage.depth_unsigned m
  have hdec : ofCbor (decodeCanonical (encode m.unsigned)) = .ok (sortKeys m.unsigned) :=
    ofCbor_eq_ok.mpr ((decodeCanonical_eq_ok hl).mpr
      ⟨encode_sortKeys _, sortedKeys_sortKeys hdist, (depth_sortKeys _).trans_le hdepth⟩)
  have hread : readDeniable (sortKeys m.unsigned) = .ok m.canonical := by
    unfold readDeniable
    have hmap : isMap (sortKeys m.unsigned) = true := isMap_sortKeys m.unsigned
    have hsig : (sortKeys m.unsigned).get "sig" = none := by
      rw [get_sortKeys hdist, show m.unsigned.get "sig" = none from
        PrivateMessage.lawful.unsigned_sig m]
      rfl
    have hv : uint (sortKeys m.unsigned) "v" = .ok version := by
      rw [uint_eq_ok, get_sortKeys hdist, show m.unsigned.get "v" = some (.uint version) from
        PrivateMessage.lawful.version_unsigned m]
      rfl
    rw [if_neg (not_not.mpr hmap), hsig, if_neg (by simp), hv, ok_bind, if_neg (not_not.mpr rfl)]
    exact PrivateMessage.lawful.fromValue_sortKeys hdist hm
  unfold readMap
  rw [unpad_of_pad hdepth hl hsize hle, ok_bind, hdec, ok_bind]
  simp [hread, PrivateMessage.canonical, pure, Except.pure]

theorem open_eq_shown {M : Type} {R : Replay M} (C : R.Contract) {sealed : List UInt8}
    {reader : DeviceKey} {ctx : Opening} {memory : M} {message : PrivateMessage}
    {env : Option Envelope} {pkS : Option (Bytes 32)} {cert : DeviceCert}
    (hread : read P H sealed reader ctx = .ok ((message, env), pkS))
    (hfresh : fresh message.sent ctx.now (max (C.view memory).top ctx.now) = .ok ())
    (hnew : ∀ s, (C.view memory).held s message.id = none)
    (hverify : verify P message env pkS ctx = .ok cert) (hsender : ctx.sender ≠ .unknown) :
    (Sealed.open P H R sealed reader ctx memory).1 = shown message env cert ctx.received := by
  have hheld : ∀ s, (C.view (R.latest memory ctx.now).2).held s message.id = none := by
    intro s
    rw [Option.eq_none_iff_forall_not_mem]
    intro u hu
    have hin := (C.latest_view memory ctx.now).only s message.id u hu
    rw [show ((C.view memory).shown ctx.now).held s message.id = (C.view memory).held s message.id
      from rfl, hnew s] at hin
    cases hin
  have hclaimed : ((claimed P message).any fun signer =>
      R.accepted (R.latest memory ctx.now).2 signer message.id) = false := by
    cases claimed P message with
    | none => rfl
    | some signer => simp [C.accepted_eq, hheld]
  have hadd : (R.accept (R.latest memory ctx.now).2 (Fingerprint.of P cert.identity) message.id
      (heldUntil message.sent)).1 = true := by
    rw [C.accept_eq, hheld]
    rfl
  rw [← C.latest_eq] at hfresh
  unfold Sealed.open
  rw [hread]
  show (admitUnseen P R (fresh message.sent ctx.now (R.latest memory ctx.now).1) message env pkS ctx
    (R.latest memory ctx.now).2).1 = _
  rw [hfresh]
  unfold admitUnseen
  simp only [hclaimed, Bool.false_eq_true, if_false]
  unfold admitFresh
  simp [hverify, hsender, hadd]

/-! ## The round trip -/

/-- The texts of a message within the bounds a reader has, once canonicalized. -/
structure InBounds (m : PrivateMessage) : Prop where
  text : checkText (canonicalize m.text) "text" 1 8192 = .ok ()
  quote : ∀ q ∈ m.quote, checkText (canonicalize q) "quote" 1 8192 = .ok ()

theorem InBounds.fromValue {m : PrivateMessage} (h : InBounds m) :
    PrivateMessage.fromValue m.unsigned false = .ok m.canonical := by
  refine PrivateMessage.fromValue_eq_ok.mpr ⟨⟨?_, ?_, ?_, ?_⟩, ?_, ?_, ?_, ?_, h.text, ?_, ?_⟩
  case refine_6 => exact PrivateMessage.get_quote_unsigned m
  case refine_7 =>
    unfold PrivateMessage.canonical PrivateMessage.checkQuote
    cases hq : m.quote with
    | none => rfl
    | some q => exact h.quote q hq
  all_goals simp [PrivateMessage.unsigned, get_map_cons, PrivateMessage.canonical, canonicalValue]

/-- The certificate names the sender: its signing key, or the key a deniable box is sealed under. -/
def IsSenders (P : Primitives) (cert : DeviceCert) (sender : DeviceKey) (deniable : Bool) : Prop :=
  if deniable then cert.deviceEnc = sender.publicEnc P else cert.device = sender.publicKey P

/-- What a reader needs to accept the message: a memory that does not hold its id, its own
fingerprint, the sender unnamed or named rightly, and a clock and a receive time in the windows. -/
structure Opens {M : Type} {R : Replay M} (C : R.Contract) (P : Primitives) (m : PrivateMessage)
    (cert : DeviceCert) (ctx : Opening) (memory : M) : Prop where
  unseen : ∀ s, (C.view memory).held s m.id = none
  reader : ctx.reader = m.toFp
  sender : ctx.sender = .certificate ∨ ctx.sender = .named (Fingerprint.of P cert.identity)
  received : checkWindow cert.issued cert.expires ctx.received skew = .ok ()
  now : checkWindow cert.issued cert.expires ctx.now skew = .ok ()
  fresh : fresh m.sent ctx.now (max (C.view memory).top ctx.now) = .ok ()

theorem Opens.verify {M : Type} {R : Replay M} {C : R.Contract} {m : PrivateMessage}
    {cert : DeviceCert} {ctx : Opening} {memory : M} (h : Opens C P m cert ctx memory)
    (hcert : checkCert P m.cert m.sent m.sent = .ok cert) (pkS : Option (Bytes 32))
    (env : Option Envelope) (hpk : ∀ pk ∈ pkS, pk = cert.deviceEnc)
    (henv : ∀ e ∈ env, e.verify P cert.device PrivateMessage.object.domain = .ok ()) :
    Sealed.verify P m.canonical env pkS ctx = .ok cert ∧ ctx.sender ≠ .unknown := by
  obtain ⟨hlen, hparse, hcaps, hsent, -⟩ := checkCert_eq_ok.mp hcert
  have hcheck : checkCert P m.canonical.cert m.canonical.sent ctx.received = .ok cert :=
    checkCert_eq_ok.mpr ⟨hlen, hparse, hcaps, hsent, h.received⟩
  have hsender : shownAsAnother ctx.sender (Fingerprint.of P cert.identity) = false := by
    rcases h.sender with hs | hs <;> rw [hs] <;> simp [shownAsAnother]
  have hpkS : (pkS.any fun pk => pk ≠ cert.deviceEnc) = false := by
    cases pkS with
    | none => rfl
    | some pk => simp [hpk pk rfl]
  refine ⟨?_, by rcases h.sender with hs | hs <;> rw [hs] <;> nofun⟩
  unfold Sealed.verify DeviceCert.checkValid
  rw [hcheck, ok_bind, h.now, ok_bind, hsender, hpkS, if_neg (by simp)]
  cases env with
  | none => rfl
  | some e => simp [henv e rfl, pure, Except.pure]

/-- The largest size of either form holds what is sealed in it. -/
theorem padSizesFor_mem {deniable : Bool} {size : Nat} (h : size ∈ padSizesFor deniable) :
    size + (if deniable then deniableKeyBytes else 0) ∈ padSizes := by
  unfold padSizesFor at h
  obtain ⟨p, hp, rfl⟩ := List.mem_map.mp h
  have hlow : ∀ p ∈ padSizes, deniableKeyBytes ≤ p := by decide
  cases deniable with
  | false => exact hp
  | true =>
    rw [if_pos rfl, Nat.sub_add_cancel (hlow p hp)]
    exact hp

/-- A map that fits is padded and sealed, and the box gives the padded map back. -/
theorem unbox_pad (hH : H.Correct P) {bytes : List UInt8} (recipient : DeviceKey)
    (sender : Option DeviceKey) (ikm : Bytes 32)
    (h : ∃ size ∈ padSizesFor sender.isSome, bytes.length ≤ size) :
    ∃ size box form rest, size ∈ padSizesFor sender.isSome ∧ bytes.length ≤ size ∧
      pad bytes sender.isSome = .ok (padTo size bytes) ∧
      sealPadded P H (padTo size bytes) (recipient.publicEnc P) sender ikm = .ok box ∧
      box = form :: rest ∧ (∃ p ∈ padSizes, box.length = p + overhead) ∧
      checkLen form box.length = .ok () ∧
      unbox P H box recipient = .ok (padTo size bytes, sender.map fun s => s.publicEnc P) := by
  obtain ⟨size, hmem, hle, hpad⟩ := pad_eq_ok bytes sender.isSome h
  have hp := padSizesFor_mem hmem
  obtain ⟨box, form, rest, hseal, hbox, hboxlen, hcheck, hunbox⟩ :=
    unbox_sealPadded hH (padTo size bytes) recipient sender ikm hp (by rw [length_padTo hle])
  exact ⟨size, box, form, rest, hmem, hle, hpad, hseal, hbox, ⟨_, hp, hboxlen⟩, hcheck, hunbox⟩

theorem read_of_unbox {box padded : List UInt8} {pkS : Option (Bytes 32)} {recipient : DeviceKey}
    {ctx : Opening} {x : PrivateMessage × Option Envelope}
    (hunbox : unbox P H box recipient = .ok (padded, pkS))
    (hmap : readMap padded pkS.isSome ctx.reader = .ok x) :
    read P H box recipient ctx = .ok (x, pkS) := by
  unfold read
  rw [hunbox, ok_bind]
  simp only [hmap, ok_bind, pure_eq_ok]

section Forms
variable {m : PrivateMessage} {cert : DeviceCert} {sender : DeviceKey}

theorem seal_open_signed (hP : P.Correct) (hH : H.Correct P) (hbounds : InBounds m)
    (hcert : checkCert P m.cert m.sent m.sent = .ok cert)
    (hsender : cert.device = sender.publicKey P) (recipient : DeviceKey) (ikm : Bytes 32) :
    ∃ box form rest, sealFromIkm P H m sender (recipient.publicEnc P) false ikm = .ok box ∧
      box = form :: rest ∧ (∃ p ∈ padSizes, box.length = p + overhead) ∧
      checkLen form box.length = .ok () ∧
      ∀ {M : Type} (R : Replay M) (C : R.Contract) (ctx : Opening) (memory : M),
        Opens C P m cert ctx memory →
        ∃ whole, (Sealed.open P H R box recipient ctx memory).1 =
          .verified ⟨m.canonical, cert, whole⟩ (absDiff m.sent ctx.received > skew) := by
  have hfields : PrivateMessage.object.fromValue (PrivateMessage.object.unsigned m) false =
    .ok m.canonical := hbounds.fromValue
  obtain ⟨hlen, hparse, hcaps, hsent, -⟩ := checkCert_eq_ok.mp hcert
  obtain ⟨sig, hsigned⟩ : ∃ sig, sig =
    sender.sign P PrivateMessage.object.domain (encode (PrivateMessage.object.unsigned m)) := ⟨_, rfl⟩
  have hsign : PrivateMessage.object.sign P m sender =
      .ok (encode (PrivateMessage.object.signedMap m sig)) :=
    PrivateMessage.lawful.sign_eq_ok.mpr ⟨hfields, ⟨cert, hcert, hsender⟩, by rw [hsigned]⟩
  have hsig : verifyDomain P cert.device PrivateMessage.object.domain
      (encode (PrivateMessage.object.unsigned m)) sig = .ok () := by
    rw [hsender, hsigned]
    exact verifyDomain_signDomain hP _ _ _
  have hmax : (encode (PrivateMessage.object.signedMap m sig)).length ≤ 17103 := by
    rw [Object.signedMap, encode_sortKeys]
    exact PrivateMessage.lawful.length_whole sig hfields hlen
  obtain ⟨size, box, form, rest, hmem, hle, hpad, hseal, hbox, hboxlen, hcheck, hunbox⟩ :=
    unbox_pad hH recipient none ikm ⟨17103, by decide, hmax⟩
  refine ⟨box, form, rest, ?_, hbox, hboxlen, hcheck, fun R C ctx memory hopens => ?_⟩
  · unfold sealFromIkm
    rw [if_pos (by decide), hsign, ok_bind]
    exact (congrArg (· >>= _) hpad).trans hseal
  · have hacc := PrivateMessage.lawful.accepted hfields
      (checkCert_eq_ok.mpr ⟨hlen, hparse, hcaps, hsent, hopens.received⟩) hsig
    obtain ⟨env, hmap, -, hverify⟩ := readMap_signed hacc (hmax.trans_lt (by decide)) hmem hle
    have hread := read_of_unbox hunbox (hopens.reader ▸ hmap)
    obtain ⟨hok, hknown⟩ := hopens.verify hcert (none : Option (Bytes 32)) (some env) (by simp)
      fun e he => (Option.mem_some.mp he) ▸ hverify
    exact ⟨env.value, open_eq_shown C hread hopens.fresh hopens.unseen hok hknown⟩

theorem seal_open_deniable (hH : H.Correct P) (hbounds : InBounds m)
    (hcert : checkCert P m.cert m.sent m.sent = .ok cert)
    (hsender : cert.deviceEnc = sender.publicEnc P) (recipient : DeviceKey) (ikm : Bytes 32) :
    ∃ box form rest, sealFromIkm P H m sender (recipient.publicEnc P) true ikm = .ok box ∧
      box = form :: rest ∧ (∃ p ∈ padSizes, box.length = p + overhead) ∧
      checkLen form box.length = .ok () ∧
      ∀ {M : Type} (R : Replay M) (C : R.Contract) (ctx : Opening) (memory : M),
        Opens C P m cert ctx memory →
        (Sealed.open P H R box recipient ctx memory).1 =
          .deniable m.canonical cert (absDiff m.sent ctx.received > skew) := by
  have hfields := hbounds.fromValue
  have hlen := (checkCert_eq_ok.mp hcert).1
  have hmax := PrivateMessage.length_fields_le (PrivateMessage.fromValue_eq_ok.mp hfields) hlen
  obtain ⟨size, box, form, rest, hmem, hle, hpad, hseal, hbox, hboxlen, hcheck, hunbox⟩ :=
    unbox_pad hH recipient (some sender) ikm ⟨17071, (by decide : 17071 ∈ padSizesFor true), hmax.trans (by decide)⟩
  refine ⟨box, form, rest, ?_, hbox, hboxlen, hcheck, fun R C ctx memory hopens => ?_⟩
  · unfold sealFromIkm
    rw [if_neg (by decide)]
    simp only [hfields, ok_bind, hcert, hsender, ne_eq, not_true_eq_false, if_false]
    exact (congrArg (· >>= _) hpad).trans hseal
  · have hmap := readMap_deniable hfields (hmax.trans_lt (by decide)) hmem hle
    have hread := read_of_unbox hunbox (hopens.reader ▸ hmap)
    obtain ⟨hok, hknown⟩ := hopens.verify hcert (some (sender.publicEnc P)) none
      (fun pk hpk => (Option.mem_some.mp hpk) ▸ hsender.symm) nofun
    exact open_eq_shown C hread hopens.fresh hopens.unseen hok hknown

end Forms

/-- Sealing a message within bounds succeeds in either form, at one of the published lengths, and the
recipient opens it as what was sealed. -/
theorem seal_open_round_trip (P : Primitives) (H : Hpke) (hP : P.Correct) (hH : H.Correct P)
    (m : PrivateMessage) (cert : DeviceCert) (sender recipient : DeviceKey) (deniable : Bool)
    (ikm : Bytes 32) (hbounds : InBounds m) (hcert : checkCert P m.cert m.sent m.sent = .ok cert)
    (hsender : IsSenders P cert sender deniable) :
    ∃ box form rest, sealFromIkm P H m sender (recipient.publicEnc P) deniable ikm = .ok box ∧
      box = form :: rest ∧ (∃ p ∈ padSizes, box.length = p + overhead) ∧
      checkLen form box.length = .ok () ∧
      ∀ {M : Type} (R : Replay M) (C : R.Contract) (ctx : Opening) (memory : M),
        Opens C P m cert ctx memory →
        if deniable then
          (Sealed.open P H R box recipient ctx memory).1 =
            .deniable m.canonical cert (absDiff m.sent ctx.received > skew)
        else ∃ whole, (Sealed.open P H R box recipient ctx memory).1 =
            .verified ⟨m.canonical, cert, whole⟩ (absDiff m.sent ctx.received > skew) := by
  cases deniable with
  | true => exact seal_open_deniable hH hbounds hcert hsender recipient ikm
  | false => exact seal_open_signed hP hH hbounds hcert hsender recipient ikm

/-- The published private message, sealed and opened. -/
theorem seal_open_round_trip_published :
    ∃ box, sealFromIkm vectors.primitives (boxRow.hpke vectors.primitives) Vectors.privateMessage
        Vectors.device (Vectors.otherDevice.publicEnc vectors.primitives) false
        (Bytes.replicate 32 0xe1) = .ok box ∧
      box = Vectors.sealedBox ∧
      ∃ whole, (Sealed.open vectors.primitives (boxRow.hpke vectors.primitives) Memory.replay box
          Vectors.otherDevice Vectors.opening ⟨0, []⟩).1 =
        .verified ⟨Vectors.privateMessage.canonical, Vectors.messageCert, whole⟩ false := by
  obtain ⟨box, form, rest, hseal, -, -, -, hopen⟩ := seal_open_round_trip vectors.primitives
    (boxRow.hpke vectors.primitives) vectors.correct (boxRow.correct vectors.primitives)
    Vectors.privateMessage Vectors.messageCert Vectors.device Vectors.otherDevice false
    (Bytes.replicate 32 0xe1) ⟨by decide +kernel, nofun⟩ (by decide +kernel)
    (show Vectors.messageCert.device = Vectors.device.publicKey vectors.primitives by decide +kernel)
  refine ⟨box, hseal, ?_, ?_⟩
  · have hbox : sealFromIkm vectors.primitives (boxRow.hpke vectors.primitives)
        Vectors.privateMessage Vectors.device (Vectors.otherDevice.publicEnc vectors.primitives) false
        (Bytes.replicate 32 0xe1) = .ok Vectors.sealedBox := by decide +kernel
    exact Except.ok.inj (hseal.symm.trans hbox)
  · have hopens : Opens Memory.contract vectors.primitives Vectors.privateMessage Vectors.messageCert
        Vectors.opening ⟨0, []⟩ :=
      { unseen := fun _ => rfl
        reader := rfl
        sender := Or.inr (show Sender.named Vectors.identityFingerprint =
          .named (Fingerprint.of vectors.primitives Vectors.messageCert.identity) by decide +kernel)
        received := by decide +kernel
        now := by decide +kernel
        fresh := by decide +kernel }
    exact hopen Memory.replay Memory.contract Vectors.opening ⟨0, []⟩ hopens

end Sealed

end HxdNg.Identity
