import HxdNg.Identity.Fields

/-!
# The wire forms of a signed object

A detached form takes the texts out of a signed map, a link form its certificate as well, and a
reader puts them back at the end. `Rearranges w v` is what survives: the same lookups and the same
normal form, so the same bytes under the signature. `Object.Lawful` is what the forms need of an
object type; `Signed.parseDetached_detached`, `Signed.parseLink_link` and
`Signed.linkContentSha256_link` follow from it, for every map a reader accepted.
-/

namespace HxdNg.Identity

open Cbor

/-! ## Line breaks -/

/-- The ways a line break is written. -/
def lineBreaks : List (List Char) := [['\n'], ['\r'], ['\r', '\n']]

/-- A break that does not merge with what follows it into a CR LF pair. -/
def Apart (brk rest : List Char) : Prop := brk = ['\r'] → rest.head? ≠ some '\n'

/-- One text is the other with each line break written another way. -/
inductive Rewritten : List Char → List Char → Prop where
  | nil : Rewritten [] []
  | char {c : Char} {s t : List Char} : c ≠ '\r' → c ≠ '\n' → Rewritten s t →
      Rewritten (c :: s) (c :: t)
  | brk {b b' s t : List Char} : b ∈ lineBreaks → b' ∈ lineBreaks → Apart b s → Apart b' t →
      Rewritten s t → Rewritten (b ++ s) (b' ++ t)

/-- `canonicalize` on the characters. -/
def canonicalChars (s : List Char) : List Char :=
  (replaceCrLf s).map fun c => if c = '\r' then '\n' else c

theorem canonicalize_eq (s : String) : canonicalize s = String.ofList (canonicalChars s.toList) := rfl

theorem replaceCrLf_cons {c : Char} {s : List Char} (h : c = '\r' → s.head? ≠ some '\n') :
    replaceCrLf (c :: s) = c :: replaceCrLf s := by
  rw [replaceCrLf.eq_2]
  rintro t rfl rfl
  exact h rfl rfl

theorem canonicalChars_break {b s : List Char} (hb : b ∈ lineBreaks) (ha : Apart b s) :
    canonicalChars (b ++ s) = '\n' :: canonicalChars s := by
  simp only [lineBreaks, List.mem_cons, List.not_mem_nil, or_false] at hb
  rcases hb with rfl | rfl | rfl
  · rw [List.singleton_append, canonicalChars, replaceCrLf_cons fun h => absurd h (by decide)]
    rfl
  · rw [List.singleton_append, canonicalChars, replaceCrLf_cons fun _ => ha rfl]
    rfl
  · rfl

theorem Rewritten.canonicalChars_eq {s t : List Char} (h : Rewritten s t) :
    canonicalChars s = canonicalChars t := by
  induction h with
  | nil => rfl
  | @char c s t hr _ _ ih =>
    have hc : ∀ u, canonicalChars (c :: u) = c :: canonicalChars u := fun u => by
      rw [canonicalChars, replaceCrLf_cons fun h => absurd h hr, List.map_cons, if_neg hr]
      rfl
    rw [hc, hc, ih]
  | brk hb hb' ha ha' _ ih => rw [canonicalChars_break hb ha, canonicalChars_break hb' ha', ih]

theorem Rewritten.canonicalize_eq {s t : String} (h : Rewritten s.toList t.toList) :
    canonicalize s = canonicalize t := by
  rw [Identity.canonicalize_eq, Identity.canonicalize_eq, h.canonicalChars_eq]

/-! ## Rearranged maps -/

/-- `w` holds what `v` does, in another order. -/
structure Rearranges (w v : Value) : Prop where
  sortKeys_eq : sortKeys w = sortKeys v
  distinct : DistinctKeys w
  get_eq : ∀ key, w.get key = v.get key
  is_map : isMap w = true

theorem Rearranges.refl {v : Value} (hd : DistinctKeys v) (hm : isMap v = true) : Rearranges v v :=
  ⟨rfl, hd, fun _ => rfl, hm⟩

theorem Rearranges.trans {u w v : Value} (h : Rearranges u w) (h' : Rearranges w v) : Rearranges u v :=
  ⟨h.sortKeys_eq.trans h'.sortKeys_eq, h.distinct, fun key => (h.get_eq key).trans (h'.get_eq key), h.is_map⟩

theorem get_pushEntry_self {v x : Value} {key : String} (hm : isMap v = true) (h : v.get key = none) :
    (pushEntry key x v).get key = some x := by
  cases v with
  | map es =>
    rw [get_map, Option.map_eq_none_iff] at h
    simp [pushEntry_map, get_map, List.find?_append, h]
  | _ => cases hm

theorem rearranges_pushEntry_without {v x : Value} {key : String} (h : DistinctKeys v)
    (hx : v.get key = some x) : Rearranges (pushEntry key x (v.without key)) v := by
  have hm : isMap v = true := by cases v <;> first | rfl | cases hx
  obtain ⟨hnorm, hdist⟩ := sortKeys_pushEntry_without h hx
  refine ⟨hnorm, hdist, fun k => ?_, by rw [isMap_pushEntry, isMap_without, hm]⟩
  by_cases hk : key = k
  · subst hk
    rw [get_pushEntry_self (by rw [isMap_without, hm]) (get_without_self v key), hx]
  · rw [get_pushEntry_of_ne hk, get_without_of_ne hk]

theorem Rearranges.encode_eq {w v : Value} (h : Rearranges w v) : encode w = encode v :=
  encode_eq_of_sortKeys_eq h.sortKeys_eq

theorem Rearranges.encode_without {w v : Value} (h : Rearranges w v) (hv : DistinctKeys v)
    (key : String) : encode (w.without key) = encode (v.without key) := by
  apply encode_eq_of_sortKeys_eq
  rw [sortKeys_without h.distinct, sortKeys_without hv, h.sortKeys_eq]

theorem without_comm (v : Value) (a b : String) :
    (v.without a).without b = (v.without b).without a := by
  cases v with
  | map es => simp only [without_map, List.filter_filter, Bool.and_comm]
  | _ => rfl

section Fold
variable (keys : List String)

/-- Take several keys out. -/
abbrev withoutAll (v : Value) : Value := keys.foldl (fun v key => v.without key) v

theorem withoutAll_without (v : Value) (key : String) :
    (withoutAll keys v).without key = withoutAll keys (v.without key) := by
  induction keys generalizing v with
  | nil => rfl
  | cons k keys ih => rw [withoutAll, List.foldl_cons, ih, without_comm]; rfl

theorem withoutAll_pushEntry {v x : Value} {key : String} (h : key ∉ keys) :
    withoutAll keys (pushEntry key x v) = pushEntry key x (withoutAll keys v) := by
  induction keys generalizing v with
  | nil => rfl
  | cons k keys ih =>
    rw [List.mem_cons, not_or] at h
    rw [withoutAll, List.foldl_cons, without_pushEntry_of_ne h.1]
    exact ih h.2

theorem get_withoutAll {v : Value} {key : String} (h : key ∉ keys) :
    (withoutAll keys v).get key = v.get key := by
  induction keys generalizing v with
  | nil => rfl
  | cons k keys ih =>
    rw [List.mem_cons, not_or] at h
    rw [withoutAll, List.foldl_cons]
    exact (ih h.2).trans (get_without_of_ne (Ne.symm h.1))

theorem sortedKeys_withoutAll {v : Value} (h : SortedKeys v) : SortedKeys (withoutAll keys v) := by
  induction keys generalizing v with
  | nil => exact h
  | cons k keys ih => exact ih (sortedKeys_without h k)

theorem depth_withoutAll (v : Value) : depth (withoutAll keys v) ≤ depth v := by
  induction keys generalizing v with
  | nil => exact le_rfl
  | cons k keys ih => exact (ih _).trans (depth_without v k)

theorem isMap_withoutAll (v : Value) : isMap (withoutAll keys v) = isMap v := by
  induction keys generalizing v with
  | nil => rfl
  | cons k keys ih => exact (ih _).trans (isMap_without v k)

end Fold

/-- The texts put back into a map they were taken out of. -/
theorem pushTexts_withoutAll {v : Value} (kts : List (String × String))
    (hnd : (kts.map Prod.fst).Nodup) (hv : DistinctKeys v) (hm : isMap v = true)
    (hget : ∀ kt ∈ kts, v.get kt.1 = some (canonicalValue kt.2)) :
    ∃ w, Signed.pushTexts kts (withoutAll (kts.map Prod.fst) v) = .ok w ∧ Rearranges w v := by
  induction kts generalizing v with
  | nil => exact ⟨v, rfl, .refl hv hm⟩
  | cons kt kts ih =>
    obtain ⟨key, txt⟩ := kt
    rw [List.map_cons, List.nodup_cons] at hnd
    rw [List.map_cons, withoutAll, List.foldl_cons]
    have hback := rearranges_pushEntry_without hv (hget _ List.mem_cons_self)
    have hnone : (withoutAll (kts.map Prod.fst) (v.without key)).get key = none := by
      rw [get_withoutAll _ hnd.1, get_without_self]
    -- pushing the first text here is taking the others out of the map it was put back into
    rw [Signed.pushTexts, hnone, ← withoutAll_pushEntry _ hnd.1]
    obtain ⟨w, hw, hr⟩ := ih hnd.2 hback.distinct hback.is_map fun kt' h' => by
      rw [hback.get_eq]
      exact hget kt' (List.mem_cons_of_mem _ h')
    exact ⟨w, hw, hr.trans hback⟩

theorem foldl_of_pushTexts {kts : List (String × String)} {v w : Value}
    (h : Signed.pushTexts kts v = .ok w) :
    kts.foldl (fun v kt => pushEntry kt.1 (canonicalValue kt.2) v) v = w := by
  induction kts generalizing v with
  | nil => simpa [Signed.pushTexts] using h
  | cons kt kts ih =>
    simp only [Signed.pushTexts, ite_error_eq_ok] at h
    exact ih h.2

/-! ## What the forms need of an object -/

/-- The keys the forms themselves treat. -/
def formKeys : List String := ["v", "sig", "cert", "cert_sha256", "sent"]

/-- An object type whose reader depends on the lookups of a map alone, reads back what its writer
wrote, and bounds what it accepts. `canonical` is an object with its texts canonicalized. -/
structure Object.Lawful {T : Type} (O : Object T) (canonical : T → T) (texts : T → O.Texts) :
    Prop where
  nodup : O.textKeys.Nodup
  apart : ∀ key ∈ O.textKeys, key ∉ formKeys
  cert_canonical : ∀ m, O.cert (canonical m) = O.cert m
  sent_canonical : ∀ m, O.sent (canonical m) = O.sent m
  texts_canonical : ∀ m, (texts (canonical m)).val = (texts m).val.map canonicalize
  fromValue_get : ∀ {v w : Value} {d : Bool} {m : T}, O.fromValue v d = .ok m →
    (∀ key, key ≠ "sig" → w.get key = v.get key) → O.fromValue w d = .ok m
  fromValue_sortKeys : ∀ {v : Value} {d : Bool} {m : T}, DistinctKeys v → O.fromValue v d = .ok m →
    O.fromValue (sortKeys v) d = .ok m
  fromValue_unsigned : ∀ {m m' : T} {d : Bool}, O.fromValue (O.unsigned m) d = .ok m' →
    m' = canonical m
  fromValue_whole : ∀ {v : Value} {m : T}, O.fromValue v true = .ok m → O.fromValue v false = .ok m
  get_cert : ∀ {v : Value} {d : Bool} {m : T}, O.fromValue v d = .ok m →
    v.get "cert" = some (.bytes (O.cert m)) ∧ v.get "cert_sha256" = none
  get_text : ∀ {v : Value} {d : Bool} {m : T}, O.fromValue v d = .ok m →
    ∀ kt ∈ O.textKeys.zip (texts m).val, v.get kt.1 = some (.text kt.2)
  isMap_unsigned : ∀ m, isMap (O.unsigned m) = true
  distinct_unsigned : ∀ m, DistinctKeys (O.unsigned m)
  depth_unsigned : ∀ m, depth (O.unsigned m) ≤ maxDepth
  version_unsigned : ∀ m, (O.unsigned m).get "v" = some (.uint version)
  unsigned_sig : ∀ m, (O.unsigned m).get "sig" = none
  length_whole : ∀ {m m' : T} (sig : Signature), O.fromValue (O.unsigned m) false = .ok m' →
    (O.cert m).length ≤ certMaxBytes →
    (encode (pushEntry "sig" (.bytes sig.val) (O.unsigned m))).length ≤ O.wholeMaxBytes
  wholeMaxBytes_lt : O.wholeMaxBytes < 2 ^ 64

/-! ## Verified maps -/

theorem ofCbor_eq_ok {α : Type} {x : Except CborError α} {a : α} : ofCbor x = .ok a ↔ x = .ok a := by
  cases x <;> simp [ofCbor]

theorem checkCert_eq_ok {P : Primitives} {bytes : List UInt8} {sent received : UInt64}
    {cert : DeviceCert} : checkCert P bytes sent received = .ok cert ↔
      bytes.length ≤ certMaxBytes ∧ DeviceCert.parse P bytes = .ok cert ∧
      cert.require caps.message = .ok () ∧ checkWindow cert.issued cert.expires sent skew = .ok () ∧
      checkWindow cert.issued cert.expires received skew = .ok () := by
  simp only [checkCert, ite_error_eq_ok, bind_eq_ok, pure_eq_ok, Nat.not_lt, gt_iff_lt]
  constructor
  · rintro ⟨hl, c, hp, _, hr, _, hs, _, hrec, rfl⟩
    exact ⟨hl, hp, hr, hs, hrec⟩
  · rintro ⟨hl, hp, hr, hs, hrec⟩
    exact ⟨hl, cert, hp, (), hr, (), hs, (), hrec, rfl⟩

theorem Envelope.fromValue_eq_ok {v : Value} {env : Envelope} :
    Envelope.fromValue v = .ok env ↔ isMap v = true ∧ v.get "v" = some (.uint version) ∧
      ∃ sig : Signature, v.get "sig" = some (.bytes sig.val) ∧
        env = ⟨v, version, encode (v.without "sig"), sig⟩ := by
  have hver : ∀ x : UInt64, ¬ (x = 0 ∨ x > version) ↔ x = version := fun x => by
    simp only [version, gt_iff_lt, UInt64.lt_iff_toNat_lt, ← UInt64.toNat_inj]
    change ¬ (x.toNat = 0 ∨ 1 < x.toNat) ↔ x.toNat = 1
    omega
  simp only [Envelope.fromValue, Envelope.fromValueUpto, ite_error_eq_ok, bind_eq_ok, uint_eq_ok,
    ite_throw_eq_ok, bytes32x2_eq_ok, pure_eq_ok, hver, not_not]
  constructor
  · rintro ⟨hm, x, hx, rfl, sig, hs, rfl⟩
    exact ⟨hm, hx, sig, hs, rfl⟩
  · rintro ⟨hm, hx, sig, hs, rfl⟩
    exact ⟨hm, version, hx, rfl, sig, hs, rfl⟩

section Verified
variable {P : Primitives} {T : Type} {O : Object T}

theorem Signed.verify_eq_ok {v : Value} {d : Bool} {received : UInt64} {s : Signed T} :
    Signed.verify P O v d received = .ok s ↔ isMap v = true ∧ v.get "v" = some (.uint version) ∧
      (∃ sig : Signature, v.get "sig" = some (.bytes sig.val) ∧
        verifyDomain P s.cert.device O.domain (encode (v.without "sig")) sig = .ok ()) ∧
      O.fromValue v d = .ok s.message ∧
      checkCert P (O.cert s.message) (O.sent s.message) received = .ok s.cert ∧ s.whole = v := by
  simp only [Signed.verify, bind_eq_ok, Envelope.fromValue_eq_ok, pure_eq_ok, Envelope.verify]
  constructor
  · rintro ⟨_, ⟨hm, hver, sig, hsig, rfl⟩, m, hfv, cert, hcert, _, hverify, rfl⟩
    exact ⟨hm, hver, ⟨sig, hsig, hverify⟩, hfv, hcert, rfl⟩
  · rintro ⟨hm, hver, ⟨sig, hsig, hverify⟩, hfv, hcert, hw⟩
    exact ⟨_, ⟨hm, hver, sig, hsig, rfl⟩, s.message, hfv, s.cert, hcert, (), hverify, by rw [← hw]⟩

/-- A map that a reader accepted, as `decodeCanonical` leaves it. -/
structure Signed.Accepted (P : Primitives) (O : Object T) (received : UInt64) (s : Signed T) :
    Prop where
  sorted : SortedKeys s.whole
  depth_le : depth s.whole ≤ maxDepth
  verified : Signed.verify P O s.whole false received = .ok s

theorem Signed.parse_eq_ok {w : List UInt8} {received : UInt64} {s : Signed T}
    (hO : O.wholeMaxBytes < 2 ^ 64) : Signed.parse P O w received = .ok s ↔
      w.length ≤ O.wholeMaxBytes ∧ s.wholeBytes = w ∧ s.Accepted P O received := by
  simp only [Signed.parse, ite_error_eq_ok, bind_eq_ok, ofCbor_eq_ok, gt_iff_lt, Nat.not_lt]
  constructor
  · rintro ⟨hl, v, hdec, hver⟩
    obtain ⟨henc, hs, hd⟩ := (decodeCanonical_eq_ok (by omega)).mp hdec
    obtain rfl : s.whole = v := (Signed.verify_eq_ok.mp hver).2.2.2.2.2
    exact ⟨hl, henc, hs, hd, hver⟩
  · rintro ⟨hl, henc, hacc⟩
    exact ⟨hl, s.whole, (decodeCanonical_eq_ok (by omega)).mpr ⟨henc, hacc.sorted, hacc.depth_le⟩,
      hacc.verified⟩

/-- A rearranged map carries the same signature. -/
theorem Signed.verify_of_rearranges {canonical : T → T} {texts : T → O.Texts}
    (hO : O.Lawful canonical texts) {s : Signed T} {received : UInt64} {w : Value}
    (hs : s.Accepted P O received) (hw : Rearranges w s.whole) {d : Bool} {m : T}
    (hd : O.fromValue s.whole d = .ok m) (hm : m = s.message) :
    Signed.verify P O w d received = .ok ⟨s.message, s.cert, w⟩ := by
  obtain ⟨_, hver, ⟨sig, hsig, hverify⟩, _, hcert, _⟩ := Signed.verify_eq_ok.mp hs.verified
  refine Signed.verify_eq_ok.mpr ⟨hw.is_map, by rw [hw.get_eq, hver], ⟨sig, by rw [hw.get_eq, hsig], ?_⟩,
    ?_, hcert, rfl⟩
  · rw [hw.encode_without (distinctKeys_of_sortedKeys hs.sorted)]
    exact hverify
  · exact hO.fromValue_get (hm ▸ hd) fun key _ => hw.get_eq key

end Verified

/-! ## The forms of an accepted map -/

section Forms
variable {P : Primitives} {T : Type} {O : Object T} {canonical : T → T} {texts : T → O.Texts}
variable {s : Signed T} {received : UInt64}

theorem map_fst_zip (ts : O.Texts) : (O.textKeys.zip ts.val).map Prod.fst = O.textKeys :=
  List.map_fst_zip (by rw [ts.property])

/-- Texts that canonicalize to those the map holds. -/
def Object.TextsOf (O : Object T) (texts : T → O.Texts) (m : T) (ts : O.Texts) : Prop :=
  ts.val.map canonicalize = (texts m).val

theorem get_zip (hO : O.Lawful canonical texts) (hs : s.Accepted P O received) {ts : O.Texts}
    (hts : O.TextsOf texts s.message ts) :
    ∀ kt ∈ O.textKeys.zip ts.val, s.whole.get kt.1 = some (canonicalValue kt.2) := by
  intro kt hkt
  refine hO.get_text (Signed.verify_eq_ok.mp hs.verified).2.2.2.1 (kt.1, canonicalize kt.2) ?_
  rw [← hts, List.zip_map_right]
  exact List.mem_map.mpr ⟨kt, hkt, rfl⟩

/-- Putting the texts back into anything that rearranges the map gives it back. -/
theorem pushTexts_rearranges (hO : O.Lawful canonical texts) (hs : s.Accepted P O received)
    {ts : O.Texts} (hts : O.TextsOf texts s.message ts) {v : Value} (hv : Rearranges v s.whole) :
    ∃ w, Signed.pushTexts (O.textKeys.zip ts.val) (withoutAll O.textKeys v) = .ok w ∧
      Rearranges w s.whole := by
  obtain ⟨w, hw, hr⟩ := pushTexts_withoutAll (v := v) (O.textKeys.zip ts.val)
    (by rw [map_fst_zip]; exact hO.nodup) hv.distinct hv.is_map fun kt hkt => by
      rw [hv.get_eq, get_zip hO hs hts kt hkt]
  rw [map_fst_zip] at hw
  exact ⟨w, hw, hr.trans hv⟩

theorem Signed.Accepted.rearranges (hs : s.Accepted P O received) : Rearranges s.whole s.whole :=
  .refl (distinctKeys_of_sortedKeys hs.sorted) (Signed.verify_eq_ok.mp hs.verified).1

theorem Signed.detached_eq_ok {d : List UInt8} : s.detached O = .ok d ↔
    (∃ m, O.fromValue s.whole true = .ok m) ∧ d = encode (s.detachedValue O) ∧
      d.length ≤ detachedMaxBytes := by
  simp only [Signed.detached, bind_eq_ok, ite_throw_eq_ok, pure_eq_ok, gt_iff_lt, Nat.not_lt]
  constructor
  · rintro ⟨m, hm, hl, rfl⟩
    exact ⟨⟨m, hm⟩, rfl, hl⟩
  · rintro ⟨⟨m, hm⟩, rfl, hl⟩
    exact ⟨m, hm, hl, rfl⟩

/-- A map with its keys in order decodes from its encoding to itself. -/
theorem decode_of_sorted {v : Value} (hs : SortedKeys v) (hd : depth v ≤ maxDepth)
    (hl : (encode v).length < 2 ^ 64) : ofCbor (decodeCanonical (encode v)) = .ok v :=
  ofCbor_eq_ok.mpr ((decodeCanonical_eq_ok hl).mpr ⟨rfl, hs, hd⟩)

/-- Reassembly from the map without its texts. -/
theorem Signed.reassemble_withoutAll (hO : O.Lawful canonical texts) (hs : s.Accepted P O received)
    {m : T} (hm : O.fromValue s.whole true = .ok m) {ts : O.Texts}
    (hts : O.TextsOf texts s.message ts) {v : Value} (hv : Rearranges v s.whole) :
    ∃ s', Signed.reassemble P O (withoutAll O.textKeys v) ts received = .ok s' ∧
      s'.message = s.message ∧ Rearranges s'.whole s.whole := by
  obtain ⟨w, hw, hr⟩ := pushTexts_rearranges hO hs hts hv
  have hmsg : m = s.message := by
    have h := hO.fromValue_whole hm
    rw [(Signed.verify_eq_ok.mp hs.verified).2.2.2.1] at h
    exact (Except.ok.inj h).symm
  refine ⟨⟨s.message, s.cert, w⟩, ?_, rfl, hr⟩
  simp only [Signed.reassemble, ite_error_eq_ok, bind_eq_ok, isMap_withoutAll, not_not]
  exact ⟨hv.is_map, w, hw, Signed.verify_of_rearranges hO hs hr hm hmsg⟩

/-- A detached form reads back, beside its texts, as the map it was made from. -/
theorem Signed.parseDetached_detached (hO : O.Lawful canonical texts)
    (hs : s.Accepted P O received) {d : List UInt8} (hd : s.detached O = .ok d) {ts : O.Texts}
    (hts : O.TextsOf texts s.message ts) :
    ∃ s', Signed.parseDetached P O d ts received = .ok s' ∧ s'.message = s.message ∧
      Rearranges s'.whole s.whole := by
  obtain ⟨⟨m, hm⟩, rfl, hl⟩ := Signed.detached_eq_ok.mp hd
  have hdec : ofCbor (decodeCanonical (encode (s.detachedValue O))) = .ok (s.detachedValue O) :=
    decode_of_sorted (sortedKeys_withoutAll _ hs.sorted)
      ((depth_withoutAll _ _).trans hs.depth_le) (by unfold detachedMaxBytes at hl; omega)
  obtain ⟨s', hs', h⟩ := Signed.reassemble_withoutAll hO hs hm hts hs.rearranges
  refine ⟨s', ?_, h⟩
  simp only [Signed.parseDetached, ite_error_eq_ok, bind_eq_ok, hdec, Except.ok.injEq]
  exact ⟨by omega, _, rfl, hs'⟩

/-- The map of a link form, before it is encoded. -/
def Signed.linkMap (P : Primitives) (O : Object T) (s : Signed T) : Value :=
  pushEntry "cert_sha256" (.bytes (P.sha256 (O.cert s.message)).val)
    ((s.detachedValue O).without "cert")

theorem Signed.link_eq_ok {l : List UInt8} : s.link P O = .ok l ↔
    (∃ d, s.detached O = .ok d) ∧ l = encode (s.linkMap P O) ∧ l.length ≤ linkMaxBytes := by
  simp only [Signed.link, bind_eq_ok, ite_throw_eq_ok, pure_eq_ok, gt_iff_lt, Nat.not_lt]
  constructor
  · rintro ⟨d, hd, hl, rfl⟩
    exact ⟨⟨d, hd⟩, rfl, hl⟩
  · rintro ⟨⟨d, hd⟩, rfl, hl⟩
    exact ⟨d, hd, hl, rfl⟩

theorem Object.Lawful.notMem_textKeys (hO : O.Lawful canonical texts) {key : String}
    (h : key ∈ formKeys) : key ∉ O.textKeys :=
  fun hk => hO.apart key hk h

theorem Signed.isMap_detachedValue (hs : s.Accepted P O received) :
    isMap (s.detachedValue O) = true :=
  (isMap_withoutAll _ _).trans hs.rearranges.is_map

section Link
variable (hO : O.Lawful canonical texts) (hs : s.Accepted P O received)
include hO hs

theorem Signed.get_cert : s.whole.get "cert" = some (.bytes (O.cert s.message)) :=
  (hO.get_cert (Signed.verify_eq_ok.mp hs.verified).2.2.2.1).1

theorem Signed.get_cert_sha256 : ((s.detachedValue O).without "cert").get "cert_sha256" = none := by
  rw [get_without_of_ne (by decide)]
  exact (get_withoutAll _ (hO.notMem_textKeys (by decide))).trans
    (hO.get_cert (Signed.verify_eq_ok.mp hs.verified).2.2.2.1).2

/-- A link form decodes to the map it was made from, its keys in order. -/
theorem Signed.linkValue_link {l : List UInt8} (hl : s.link P O = .ok l) :
    Signed.linkValue l = .ok (sortKeys (s.linkMap P O), P.sha256 (O.cert s.message)) ∧
      (sortKeys (s.linkMap P O)).without "cert_sha256" = (s.detachedValue O).without "cert" := by
  obtain ⟨_, rfl, hlen⟩ := Signed.link_eq_ok.mp hl
  have hsorted : SortedKeys ((s.detachedValue O).without "cert") :=
    sortedKeys_without (sortedKeys_withoutAll _ hs.sorted) _
  have hdist : DistinctKeys (s.linkMap P O) :=
    distinctKeys_pushEntry (distinctKeys_of_sortedKeys hsorted) (by decide)
      (Signed.get_cert_sha256 hO hs) trivial
  have hdepth : depth (s.linkMap P O) ≤ maxDepth :=
    depth_pushEntry ((depth_without _ _).trans ((depth_withoutAll _ _).trans hs.depth_le))
      (by rw [show depth (.bytes _) = 0 from rfl]; decide)
  have hmap : isMap ((s.detachedValue O).without "cert") = true := by
    rw [isMap_without, Signed.isMap_detachedValue hs]
  have hdec : ofCbor (decodeCanonical (encode (s.linkMap P O))) = .ok (sortKeys (s.linkMap P O)) :=
    ofCbor_eq_ok.mpr ((decodeCanonical_eq_ok (by unfold linkMaxBytes at hlen; omega)).mpr
      ⟨encode_sortKeys _, sortedKeys_sortKeys hdist, (depth_sortKeys _).trans_le hdepth⟩)
  constructor
  · simp only [Signed.linkValue, ite_error_eq_ok, bind_eq_ok, hdec, Except.ok.injEq, ite_throw_eq_ok,
      bytes32_eq_ok, pure_eq_ok, exists_eq_left']
    refine ⟨by omega, ?_, ?_, P.sha256 (O.cert s.message), ?_, rfl⟩
    · rw [isMap_sortKeys, Signed.linkMap, isMap_pushEntry, hmap]
      exact not_not.mpr rfl
    · rw [get_sortKeys hdist, Signed.linkMap, get_pushEntry_of_ne (by decide), get_without_self]
      exact Bool.false_ne_true
    · rw [get_sortKeys hdist, Signed.linkMap, get_pushEntry_self hmap (Signed.get_cert_sha256 hO hs)]
      rfl
  · rw [← sortKeys_without hdist, Signed.linkMap, without_pushEntry_self (Signed.get_cert_sha256 hO hs),
      sortKeys_of_sortedKeys hsorted]

/-- A link form reads back, beside its texts and its certificate, as the map it was made from. -/
theorem Signed.parseLink_link {l : List UInt8} (hl : s.link P O = .ok l) {ts : O.Texts}
    (hts : O.TextsOf texts s.message ts) :
    ∃ s', Signed.parseLink P O l ts (O.cert s.message) received = .ok s' ∧
      s'.message = s.message ∧ Rearranges s'.whole s.whole := by
  obtain ⟨⟨d, hd⟩, _, _⟩ := Signed.link_eq_ok.mp hl
  obtain ⟨⟨m, hm⟩, _, _⟩ := Signed.detached_eq_ok.mp hd
  obtain ⟨hvalue, hwithout⟩ := Signed.linkValue_link hO hs hl
  have hback := rearranges_pushEntry_without hs.rearranges.distinct (Signed.get_cert hO hs)
  obtain ⟨s', hs', h⟩ := Signed.reassemble_withoutAll hO hs hm hts hback
  refine ⟨s', ?_, h⟩
  rw [Signed.parseLink, hvalue, ok_bind]
  simp only [ne_eq, not_true_eq_false, if_false]
  rw [hwithout, Signed.detachedValue, withoutAll_without,
    ← withoutAll_pushEntry _ (hO.notMem_textKeys (by decide))]
  exact hs'

/-- What a reader keeps of a link form before its certificate is held is what it would keep after. -/
theorem Signed.linkContentSha256_link {l : List UInt8} (hl : s.link P O = .ok l) {ts : O.Texts}
    (hts : O.TextsOf texts s.message ts) :
    Signed.linkContentSha256 P O l ts = .ok (s.contentSha256 P) := by
  obtain ⟨hvalue, hwithout⟩ := Signed.linkValue_link hO hs hl
  have hdist := distinctKeys_of_sortedKeys hs.sorted
  -- the content is the signed map less three keys, none of them a text's
  obtain ⟨w, hw, hr⟩ := pushTexts_withoutAll
    (v := ((s.whole.without "sent").without "cert").without "sig") (O.textKeys.zip ts.val)
    (by rw [map_fst_zip]; exact hO.nodup)
    (distinctKeys_without (distinctKeys_without (distinctKeys_without hdist _) _) _)
    (by rw [isMap_without, isMap_without, isMap_without, hs.rearranges.is_map])
    fun kt hkt => by
      have hkey := hO.apart kt.1 (List.of_mem_zip hkt).1
      simp only [formKeys, List.mem_cons, List.not_mem_nil, or_false, not_or] at hkey
      rw [get_without_of_ne (Ne.symm hkey.2.1), get_without_of_ne (Ne.symm hkey.2.2.1),
        get_without_of_ne (Ne.symm hkey.2.2.2.2), get_zip hO hs hts kt hkt]
  rw [map_fst_zip, ← withoutAll_without, ← withoutAll_without, ← withoutAll_without] at hw
  rw [Signed.linkContentSha256, hvalue, ok_bind]
  simp only [hwithout]
  rw [Signed.detachedValue, without_comm _ "cert" "sent", foldl_of_pushTexts hw, hr.encode_eq]
  rfl

end Link

/-- The map with its signature, as a reader decodes it. -/
def Object.signedMap (O : Object T) (m : T) (sig : Signature) : Value :=
  sortKeys (pushEntry "sig" (.bytes sig.val) (O.unsigned m))

theorem Object.Lawful.distinct_push (hO : O.Lawful canonical texts) (m : T) (sig : Signature) :
    DistinctKeys (pushEntry "sig" (.bytes sig.val) (O.unsigned m)) :=
  distinctKeys_pushEntry (hO.distinct_unsigned m) (by decide) (hO.unsigned_sig m) trivial

/-- A map is accepted when its fields, its certificate and its signature are. The reader decodes the
normal form of what the signer wrote, which its lookups do not tell from it. -/
theorem Object.Lawful.accepted (hO : O.Lawful canonical texts) {m : T} {sig : Signature}
    {cert : DeviceCert} (hm : O.fromValue (O.unsigned m) false = .ok (canonical m))
    (hcert : checkCert P (O.cert m) (O.sent m) received = .ok cert)
    (hsig : verifyDomain P cert.device O.domain (encode (O.unsigned m)) sig = .ok ()) :
    Signed.Accepted P O received ⟨canonical m, cert, O.signedMap m sig⟩ := by
  have hdist := hO.distinct_push m sig
  refine ⟨sortedKeys_sortKeys hdist, ?_, Signed.verify_eq_ok.mpr ⟨?_, ?_, ⟨sig, ?_, ?_⟩, ?_, ?_, rfl⟩⟩
  · rw [Object.signedMap, depth_sortKeys]
    exact depth_pushEntry (hO.depth_unsigned m) (by rw [show depth (.bytes _) = 0 from rfl]; decide)
  · rw [Object.signedMap, isMap_sortKeys, isMap_pushEntry, hO.isMap_unsigned]
  · rw [Object.signedMap, get_sortKeys hdist, get_pushEntry_of_ne (by decide), hO.version_unsigned]
    rfl
  · rw [Object.signedMap, get_sortKeys hdist, get_pushEntry_self (hO.isMap_unsigned m) (hO.unsigned_sig m)]
    rfl
  · rw [Object.signedMap, ← sortKeys_without hdist, encode_sortKeys,
      without_pushEntry_self (hO.unsigned_sig m)]
    exact hsig
  · exact hO.fromValue_sortKeys hdist (hO.fromValue_get hm fun key hk => get_pushEntry_of_ne hk.symm)
  · rw [hO.cert_canonical, hO.sent_canonical]
    exact hcert

/-- What `Object.sign` refuses to sign otherwise. -/
theorem Object.Lawful.sign_eq_ok (hO : O.Lawful canonical texts) {m : T} {device : DeviceKey}
    {w : List UInt8} : O.sign P m device = .ok w ↔
      O.fromValue (O.unsigned m) false = .ok (canonical m) ∧
      (∃ cert, checkCert P (O.cert m) (O.sent m) (O.sent m) = .ok cert ∧
        cert.device = device.publicKey P) ∧
      w = encode (O.signedMap m (device.sign P O.domain (encode (O.unsigned m)))) := by
  simp only [Object.sign, bind_eq_ok, ite_throw_eq_ok, pure_eq_ok, not_not, ne_eq, Envelope.seal,
    Object.signedMap, encode_sortKeys]
  constructor
  · rintro ⟨m', hm, cert, hcert, hdevice, rfl⟩
    obtain rfl := hO.fromValue_unsigned hm
    exact ⟨hm, ⟨cert, hcert, hdevice⟩, rfl⟩
  · rintro ⟨hm, ⟨cert, hcert, hdevice⟩, rfl⟩
    exact ⟨canonical m, hm, cert, hcert, hdevice, rfl⟩

/-- A certificate is in its window at a time, the skew allowed. -/
def CertInWindow (P : Primitives) (bytes : List UInt8) (now : UInt64) : Prop :=
  ∀ cert, DeviceCert.parse P bytes = .ok cert →
    checkWindow cert.issued cert.expires now skew = .ok ()

/-- A signed object reads back whole, with its texts canonicalized. -/
theorem Object.Lawful.parse_sign (hO : O.Lawful canonical texts) (hP : P.Correct) {m : T}
    {device : DeviceKey} {w : List UInt8} (hsign : O.sign P m device = .ok w)
    (hwindow : CertInWindow P (O.cert m) received) :
    ∃ s : Signed T, Signed.parse P O w received = .ok s ∧ s.message = canonical m ∧
      s.wholeBytes = w ∧ s.Accepted P O received := by
  obtain ⟨hm, ⟨cert, hcert, hdevice⟩, rfl⟩ := hO.sign_eq_ok.mp hsign
  obtain ⟨hlen, hparse, hcaps, hsent, -⟩ := checkCert_eq_ok.mp hcert
  have hsig : verifyDomain P cert.device O.domain (encode (O.unsigned m))
      (device.sign P O.domain (encode (O.unsigned m))) = .ok () := by
    rw [hdevice]
    exact verifyDomain_signDomain hP _ _ _
  have hacc := hO.accepted hm (checkCert_eq_ok.mpr ⟨hlen, hparse, hcaps, hsent, hwindow cert hparse⟩)
    hsig
  refine ⟨_, (Signed.parse_eq_ok hO.wholeMaxBytes_lt).mpr ⟨?_, rfl, hacc⟩, rfl, rfl, hacc⟩
  rw [Object.signedMap, encode_sortKeys]
  exact hO.length_whole _ hm hlen

/-- The three forms of what an object's `sign` returns, read back at a time its certificate is in its
window: the whole map; the detached and link forms beside texts whose line breaks were rewritten. -/
def Object.FormsAgree (P : Primitives) (O : Object T) (canonical : T → T) (texts : T → O.Texts) :
    Prop :=
  ∀ (m : T) (device : DeviceKey) (w : List UInt8) (received : UInt64),
    O.sign P m device = .ok w → CertInWindow P (O.cert m) received →
    ∃ s : Signed T, Signed.parse P O w received = .ok s ∧ s.message = canonical m ∧
      s.wholeBytes = w ∧
      ∀ ts : O.Texts,
        List.Forall₂ (fun a b : String => Rewritten a.toList b.toList) (texts m).val ts.val →
        (∀ d, s.detached O = .ok d → ∃ s', Signed.parseDetached P O d ts received = .ok s' ∧
          s'.message = canonical m ∧ s'.wholeBytes = w) ∧
        (∀ l, s.link P O = .ok l → ∃ s', Signed.parseLink P O l ts (O.cert m) received = .ok s' ∧
          s'.message = canonical m ∧ s'.wholeBytes = w ∧
          Signed.linkContentSha256 P O l ts = .ok (s'.contentSha256 P))

theorem Rearranges.contentSha256_eq {s s' : Signed T} (h : Rearranges s'.whole s.whole)
    (hs : DistinctKeys s.whole) : s'.contentSha256 P = s.contentSha256 P := by
  have hd := h.distinct
  have henc : encode (((s'.whole.without "sent").without "cert").without "sig") =
      encode (((s.whole.without "sent").without "cert").without "sig") := by
    apply encode_eq_of_sortKeys_eq
    rw [sortKeys_without (distinctKeys_without (distinctKeys_without hd _) _),
      sortKeys_without (distinctKeys_without hd _), sortKeys_without hd, h.sortKeys_eq, ← sortKeys_without hs,
      ← sortKeys_without (distinctKeys_without hs _),
      ← sortKeys_without (distinctKeys_without (distinctKeys_without hs _) _)]
  rw [Signed.contentSha256, Signed.contentSha256, henc]

theorem map_canonicalize_of_rewritten {xs ys : List String}
    (h : List.Forall₂ (fun a b : String => Rewritten a.toList b.toList) xs ys) :
    ys.map canonicalize = xs.map canonicalize := by
  induction h with
  | nil => rfl
  | cons h _ ih => rw [List.map_cons, List.map_cons, ih, h.canonicalize_eq]

theorem textsOf_of_rewritten (hO : O.Lawful canonical texts) {m : T} {ts : O.Texts}
    (h : List.Forall₂ (fun a b : String => Rewritten a.toList b.toList) (texts m).val ts.val) :
    O.TextsOf texts (canonical m) ts := by
  rw [Object.TextsOf, hO.texts_canonical]
  exact map_canonicalize_of_rewritten h

/-- Every lawful object's forms agree. -/
theorem Object.Lawful.formsAgree (hO : O.Lawful canonical texts) (hP : P.Correct) :
    O.FormsAgree P canonical texts := by
  intro m device w received hsign hwindow
  obtain ⟨s, hparse, hmsg, hbytes, hacc⟩ := hO.parse_sign hP hsign hwindow
  refine ⟨s, hparse, hmsg, hbytes, fun ts hts => ⟨fun d hd => ?_, fun l hl => ?_⟩⟩
  · have hts' := hmsg ▸ textsOf_of_rewritten hO hts
    obtain ⟨s', hs', hm', hr⟩ := Signed.parseDetached_detached hO hacc hd hts'
    exact ⟨s', hs', hm'.trans hmsg, hr.encode_eq.trans hbytes⟩
  · have hts' := hmsg ▸ textsOf_of_rewritten hO hts
    obtain ⟨s', hs', hm', hr⟩ := Signed.parseLink_link hO hacc hl hts'
    rw [hmsg, hO.cert_canonical] at hs'
    refine ⟨s', hs', hm'.trans hmsg, hr.encode_eq.trans hbytes, ?_⟩
    rw [Signed.linkContentSha256_link hO hacc hl hts',
      hr.contentSha256_eq (distinctKeys_of_sortedKeys hacc.sorted)]

end Forms

end HxdNg.Identity
