import HxdNg.Lib.Der

/-!
# The device key of a certificate

The Ed25519 key out of a certificate's `subjectPublicKeyInfo`, found by position.

* `derTlv`, `spkiEd25519` : the parser;
* `derTlv_iff` : what it takes off is one element in its one encoding;
* `Certificate`, `Certificate.encode` : a certificate as far as it is looked into;
* `spkiEd25519_iff` : a key is taken from an encoding of that key, and from nothing else.
-/

namespace HxdNg.Http

namespace tag

def SEQUENCE : UInt8 := 0x30
def INTEGER : UInt8 := 0x02
def BIT_STRING : UInt8 := 0x03
def OID : UInt8 := 0x06
/-- The optional version. -/
def CONTEXT_0 : UInt8 := 0xa0

end tag

/-- 1.3.101.112, without its header. -/
def ED25519_OID : List UInt8 := [0x2b, 0x65, 0x70]

structure Tlv where
  tag : UInt8
  value : List UInt8
  deriving DecidableEq

/-- Split `len` bytes off. -/
def splitOff (len : Nat) (rest : List UInt8) : Option (List UInt8 × List UInt8) :=
  if rest.length < len then none else some (rest.splitAt len)

/-- A length, and what follows it. Definite lengths in their minimal encoding only. -/
def derLen (first : UInt8) (rest : List UInt8) : Option (Nat × List UInt8) :=
  if first < 0x80 then some (first.toNat, rest) else
  let n := (first &&& 0x7f).toNat
  if n = 0 ∨ n > 4 ∨ rest.length < n then none else
  let (bytes, rest) := rest.splitAt n
  if bytes.head? = some 0 then none else
  let len := bytes.foldl (fun acc b => acc <<< 8 ||| b.toNat) 0
  if len < 0x80 then none else some (len, rest)

/-- Split the leading element off `der`, with what follows. -/
def derTlv : List UInt8 → Option (Tlv × List UInt8)
  | [] => none
  | tag :: rest =>
    if tag &&& 0x1f = 0x1f then none else
    match rest with
    | [] => none
    | first :: rest =>
      (derLen first rest).bind fun (len, rest) =>
        (splitOff len rest).map fun (value, rest) => (⟨tag, value⟩, rest)

/-- The content of a leading element of this tag, with what follows. -/
def expect (tag : UInt8) (der : List UInt8) : Option (List UInt8 × List UInt8) :=
  (derTlv der).bind fun (field, after) => if field.tag ≠ tag then none else some (field.value, after)

/-- The key of a `SubjectPublicKeyInfo`: the algorithm is the identifier alone, and a bit string's
first byte counts its unused bits. -/
def spkiKey (spki : List UInt8) : Option (List UInt8) :=
  (expect tag.SEQUENCE spki).bind fun (alg, afterAlg) =>
    (expect tag.OID alg).bind fun (oid, algTail) =>
      if oid ≠ ED25519_OID ∨ algTail ≠ [] then none else
      (expect tag.BIT_STRING afterAlg).bind fun (key, spkiTail) =>
        if spkiTail ≠ [] then none else
        match key with
        | 0 :: bits => if bits.length = 32 then some bits else none
        | _ => none

/-- The fields between the version and the key, skipped by shape. -/
def skipped : List UInt8 := [tag.INTEGER, tag.SEQUENCE, tag.SEQUENCE, tag.SEQUENCE, tag.SEQUENCE]

def skipAll : List UInt8 → List UInt8 → Option (List UInt8)
  | [], rest => some rest
  | tag :: tags, rest => (expect tag rest).bind fun (_, after) => skipAll tags after

/-- The key of a `TBSCertificate`. The version is absent from the first of them. -/
def tbsKey (tbs : List UInt8) : Option (List UInt8) :=
  (derTlv tbs).bind fun (first, afterVersion) =>
    (skipAll skipped (if first.tag = tag.CONTEXT_0 then afterVersion else tbs)).bind fun rest =>
      (expect tag.SEQUENCE rest).bind fun (spki, _) => spkiKey spki

/-- The key of a certificate. -/
def spkiEd25519 (der : List UInt8) : Option (List UInt8) :=
  (expect tag.SEQUENCE der).bind fun (cert, after) =>
    if after ≠ [] then none else
    (expect tag.SEQUENCE cert).bind fun (tbs, _) => tbsKey tbs

/-! ## What is taken off -/

theorem shift_or (b : List UInt8) (acc : Nat) :
    b.foldl (fun acc x => acc <<< 8 ||| x.toNat) acc = b.foldl (fun acc x => acc * 256 + x.toNat) acc := by
  induction b generalizing acc with
  | nil => rfl
  | cons x b ih =>
    have hstep : acc <<< 8 ||| x.toNat = acc * 256 + x.toNat := by
      rw [← Nat.shiftLeft_add_eq_or_of_lt x.toNat_lt, Nat.shiftLeft_eq]
    rw [List.foldl_cons, List.foldl_cons, hstep, ih]

theorem width_le_four {n : Nat} (h : n < 2 ^ 32) : width n ≤ 4 :=
  Nat.succ_le_of_lt (Nat.log_lt_of_lt_pow' (by decide) h)

theorem toNat_long {first : UInt8} (h : ¬first < 0x80) :
    first.toNat = 0x80 + (first &&& 0x7f).toNat := by
  have hmask : (first &&& 0x7f).toNat = first.toNat % 128 := by
    rw [UInt8.toNat_and]
    exact Nat.and_two_pow_sub_one_eq_mod first.toNat 7
  have hge : 128 ≤ first.toNat := Nat.le_of_not_lt fun hlt => h (UInt8.lt_iff_toNat_lt.mpr hlt)
  have hlt := first.toNat_lt
  omega

theorem derLen_iff {first : UInt8} {rest tail : List UInt8} {len : Nat} :
    derLen first rest = some (len, tail) ↔ first :: rest = derLength len ++ tail ∧ len < 2 ^ 32 := by
  constructor
  · intro h
    unfold derLen at h
    split at h
    · rename_i hshort
      cases h
      have hlt : first.toNat < 0x80 := UInt8.lt_iff_toNat_lt.mp hshort
      rw [derLength, if_pos hlt, UInt8.ofNat_toNat]
      exact ⟨rfl, hlt.trans (by decide)⟩
    · rename_i hlong
      have hfirst := toNat_long hlong
      revert hfirst h
      dsimp only
      generalize (first &&& 0x7f).toNat = n
      intro h hfirst
      split at h
      · cases h
      · rename_i hn
        rw [not_or, not_or] at hn
        obtain ⟨hn0, hn4, hnlen⟩ := hn
        rw [List.splitAt_eq] at h
        dsimp only at h
        have hlen : (rest.take n).length = n := List.length_take_of_le (by omega)
        cases hbytes : rest.take n with
        | nil =>
          rw [hbytes] at hlen
          exact absurd hlen.symm hn0
        | cons x b =>
          rw [hbytes] at h hlen
          split at h
          · cases h
          · rename_i hzero
            rw [List.head?_cons, Option.some_inj] at hzero
            rw [shift_or] at h
            change (if ofBe (x :: b) < 0x80 then none else some (ofBe (x :: b), rest.drop n)) = _ at h
            split at h
            · cases h
            · rename_i hbig
              cases h
              have hwidth : width (ofBe (x :: b)) = n := (width_ofBe hzero).trans hlen
              have hbe : beBytes n (ofBe (x :: b)) = x :: b := by
                rw [← hlen]
                exact beBytes_ofBe (x :: b)
              refine ⟨?_, (ofBe_lt (x :: b)).trans_le ?_⟩
              · rw [derLength, if_neg hbig, hwidth, hbe, ← hfirst, UInt8.ofNat_toNat, List.cons_append,
                  ← hbytes, List.take_append_drop]
              · rw [hlen]
                exact (Nat.pow_le_pow_right (by decide) (by omega : n ≤ 4)).trans (by decide)
  · rintro ⟨h, hlt⟩
    unfold derLength at h
    unfold derLen
    split at h
    · rename_i hshort
      obtain ⟨rfl, rfl⟩ := List.cons.inj h
      have hnat : (UInt8.ofNat len).toNat = len := by
        rw [UInt8.toNat_ofNat', Nat.mod_eq_of_lt (by omega)]
      rw [if_pos (UInt8.lt_iff_toNat_lt.mpr (by rw [hnat]; exact hshort)), hnat]
    · rename_i hlong
      obtain ⟨rfl, rfl⟩ := List.cons.inj h
      have hwidth := width_le_four hlt
      have hpos : 1 ≤ width len := Nat.succ_pos _
      have hnat : (UInt8.ofNat (0x80 + width len)).toNat = 0x80 + width len := by
        rw [UInt8.toNat_ofNat', Nat.mod_eq_of_lt (by omega)]
      have hnot : ¬UInt8.ofNat (0x80 + width len) < 0x80 := fun hlt' => by
        have := UInt8.lt_iff_toNat_lt.mp hlt'
        rw [hnat] at this
        exact absurd this (by
          show ¬ _ < 128
          omega)
      have hmask := toNat_long hnot
      rw [hnat] at hmask
      have hmask : (UInt8.ofNat (0x80 + width len) &&& 0x7f).toNat = width len := by omega
      obtain ⟨x, b, hbytes, hx⟩ := head_beBytes_width (show len ≠ 0 by omega)
      have htake : (beBytes (width len) len ++ tail).take (width len) = beBytes (width len) len :=
        List.take_left' (length_beBytes ..)
      have hdrop : (beBytes (width len) len ++ tail).drop (width len) = tail :=
        List.drop_left' (length_beBytes ..)
      rw [if_neg hnot, hmask]
      dsimp only
      rw [List.append_eq, if_neg, List.splitAt_eq, htake, hdrop]
      · dsimp only
        rw [shift_or]
        change (if (beBytes (width len) len).head? = some 0 then none else
          if ofBe (beBytes (width len) len) < 0x80 then none else
          some (ofBe (beBytes (width len) len), tail)) = _
        rw [ofBe_beBytes (lt_pow_width len), if_neg hlong, if_neg]
        rw [hbytes, List.head?_cons, Option.some_inj]
        exact hx
      · rw [List.length_append, length_beBytes]
        omega

theorem splitOff_iff {len : Nat} {rest value tail : List UInt8} :
    splitOff len rest = some (value, tail) ↔ rest = value ++ tail ∧ value.length = len := by
  unfold splitOff
  constructor
  · intro h
    split at h
    · cases h
    · rename_i hlen
      rw [List.splitAt_eq] at h
      cases h
      exact ⟨(List.take_append_drop ..).symm, List.length_take_of_le (by omega)⟩
  · rintro ⟨rfl, rfl⟩
    rw [if_neg (by rw [List.length_append]; omega), List.splitAt_eq, List.take_left, List.drop_left]

/-- What is taken off is an element in its one encoding, shorter than 2^32 bytes. -/
theorem derTlv_iff {der rest : List UInt8} {t : UInt8} {value : List UInt8} :
    derTlv der = some (⟨t, value⟩, rest) ↔
      der = element t value ++ rest ∧ t &&& 0x1f ≠ 0x1f ∧ value.length < 2 ^ 32 := by
  constructor
  · intro h
    unfold derTlv at h
    split at h
    · cases h
    · rename_i tag after
      split at h
      · cases h
      · rename_i htag
        split at h
        · cases h
        · rename_i first after'
          obtain ⟨⟨len, tail⟩, hlen, h⟩ := Option.bind_eq_some_iff.mp h
          obtain ⟨⟨content, left⟩, hsplit, heq⟩ := Option.map_eq_some_iff.mp h
          cases heq
          obtain ⟨hfirst, hlt⟩ := derLen_iff.mp hlen
          obtain ⟨rfl, rfl⟩ := splitOff_iff.mp hsplit
          refine ⟨?_, htag, hlt⟩
          rw [hfirst, element, List.cons_append, List.cons_append, List.append_assoc]
  · rintro ⟨rfl, htag, hlt⟩
    obtain ⟨first, more, hlength⟩ : ∃ first more, derLength value.length = first :: more := by
      unfold derLength
      split
      · exact ⟨_, _, rfl⟩
      · exact ⟨_, _, rfl⟩
    have hlen : derLen first (more ++ (value ++ rest)) = some (value.length, value ++ rest) := by
      rw [derLen_iff, hlength]
      exact ⟨rfl, hlt⟩
    rw [element, List.append_assoc, hlength]
    show (if t &&& 0x1f = 0x1f then none else _) = _
    rw [if_neg htag]
    show (derLen first (more ++ (value ++ rest))).bind _ = _
    rw [hlen, Option.bind_some]
    dsimp only
    rw [splitOff_iff.mpr ⟨rfl, rfl⟩]
    rfl

theorem expect_iff {t : UInt8} {der value rest : List UInt8} (ht : t &&& 0x1f ≠ 0x1f) :
    expect t der = some (value, rest) ↔ der = element t value ++ rest ∧ value.length < 2 ^ 32 := by
  unfold expect
  constructor
  · intro h
    obtain ⟨⟨⟨t', v⟩, after⟩, htlv, h⟩ := Option.bind_eq_some_iff.mp h
    dsimp only at h
    split at h
    · cases h
    · rename_i heq
      cases h
      rw [ne_eq, not_not] at heq
      subst heq
      obtain ⟨hder, -, hlt⟩ := derTlv_iff.mp htlv
      exact ⟨hder, hlt⟩
  · rintro ⟨hder, hlt⟩
    rw [derTlv_iff.mpr ⟨hder, ht, hlt⟩, Option.bind_some]
    exact if_neg (not_not.mpr rfl)

/-! ## Certificates -/

/-- A certificate as far as it is looked into: the contents of the fields by position, and what follows
the key and the `TBSCertificate`. -/
structure Certificate where
  version : Option (List UInt8)
  serialNumber : List UInt8
  algorithm : List UInt8
  issuer : List UInt8
  validity : List UInt8
  subject : List UInt8
  key : List UInt8
  trailing : List UInt8
  signature : List UInt8

/-- A `SubjectPublicKeyInfo` of the bare Ed25519 identifier and a bit string without unused bits. -/
def encodeSpki (key : List UInt8) : List UInt8 :=
  element tag.SEQUENCE (element tag.SEQUENCE (element tag.OID ED25519_OID) ++
    element tag.BIT_STRING (0 :: key))

def encodeFields : List UInt8 → List (List UInt8) → List UInt8
  | tag :: tags, field :: fields => element tag field ++ encodeFields tags fields
  | _, _ => []

namespace Certificate

def fields (c : Certificate) : List (List UInt8) :=
  [c.serialNumber, c.algorithm, c.issuer, c.validity, c.subject]

def afterVersion (c : Certificate) : List UInt8 :=
  encodeFields skipped c.fields ++ (encodeSpki c.key ++ c.trailing)

def tbs (c : Certificate) : List UInt8 :=
  match c.version with
  | some version => element tag.CONTEXT_0 version ++ c.afterVersion
  | none => c.afterVersion

def content (c : Certificate) : List UInt8 := element tag.SEQUENCE c.tbs ++ c.signature

def encode (c : Certificate) : List UInt8 := element tag.SEQUENCE c.content

end Certificate

theorem length_lt_element (t : UInt8) (value : List UInt8) : value.length < (element t value).length := by
  rw [element, List.length_append, List.length_cons]
  omega

theorem spkiKey_iff {spki key : List UInt8} (hlt : spki.length < 2 ^ 32) :
    spkiKey spki = some key ↔ key.length = 32 ∧
      spki = element tag.SEQUENCE (element tag.OID ED25519_OID) ++ element tag.BIT_STRING (0 :: key) := by
  unfold spkiKey
  constructor
  · intro h
    obtain ⟨⟨alg, afterAlg⟩, halg, h⟩ := Option.bind_eq_some_iff.mp h
    obtain ⟨⟨oid, algTail⟩, hoid, h⟩ := Option.bind_eq_some_iff.mp h
    dsimp only at hoid h
    split at h
    · cases h
    · rename_i hbare
      rw [not_or, not_not, not_not] at hbare
      obtain ⟨rfl, rfl⟩ := hbare
      obtain ⟨⟨bits, spkiTail⟩, hbits, h⟩ := Option.bind_eq_some_iff.mp h
      dsimp only at h
      split at h
      · cases h
      · rename_i hend
        obtain rfl := not_not.mp hend
        split at h
        · split at h
          · rename_i hlen
            cases h
            obtain ⟨hspki, -⟩ := (expect_iff (by decide)).mp halg
            obtain ⟨hid, -⟩ := (expect_iff (by decide)).mp hoid
            obtain ⟨hkey, -⟩ := (expect_iff (by decide)).mp hbits
            rw [List.append_nil] at hid hkey
            exact ⟨hlen, by rw [hspki, hid, hkey]⟩
          · cases h
        · cases h
  · rintro ⟨hlen, rfl⟩
    rw [(expect_iff (by decide)).mpr ⟨rfl, by decide⟩, Option.bind_some]
    dsimp only
    have hid : expect tag.OID (element tag.OID ED25519_OID) = some (ED25519_OID, []) := by decide
    have hbits : expect tag.BIT_STRING (element tag.BIT_STRING (0 :: key)) = some (0 :: key, []) := by
      refine (expect_iff (by decide)).mpr ⟨(List.append_nil _).symm, ?_⟩
      rw [List.length_cons, hlen]
      decide
    rw [hid, Option.bind_some]
    dsimp only
    rw [if_neg (by decide), hbits, Option.bind_some]
    dsimp only
    rw [if_neg (by decide)]
    exact if_pos hlen

theorem skipAll_iff {tags rest after : List UInt8} (htags : ∀ t ∈ tags, t &&& 0x1f ≠ 0x1f)
    (hlt : rest.length < 2 ^ 32) : skipAll tags rest = some after ↔
      ∃ fields, fields.length = tags.length ∧ rest = encodeFields tags fields ++ after := by
  induction tags generalizing rest with
  | nil =>
    constructor
    · intro h
      cases h
      exact ⟨[], rfl, rfl⟩
    · rintro ⟨fields, hlen, rfl⟩
      obtain rfl := List.length_eq_zero_iff.mp hlen
      rfl
  | cons t tags ih =>
    have ht := htags t List.mem_cons_self
    have hmore : ∀ t ∈ tags, t &&& 0x1f ≠ 0x1f := fun t h => htags t (List.mem_cons_of_mem _ h)
    unfold skipAll
    constructor
    · intro h
      obtain ⟨⟨field, left⟩, hfield, hleft⟩ := Option.bind_eq_some_iff.mp h
      have hleft : skipAll tags left = some after := hleft
      obtain ⟨rfl, -⟩ := (expect_iff ht).mp hfield
      rw [List.length_append] at hlt
      obtain ⟨fields, hlen, rfl⟩ := (ih hmore (by omega)).mp hleft
      exact ⟨field :: fields, congrArg (· + 1) hlen, (List.append_assoc ..).symm⟩
    · rintro ⟨fields, hlen, rfl⟩
      cases fields with
      | nil => cases hlen
      | cons field fields =>
        have hshort := length_lt_element t field
        rw [encodeFields, List.append_assoc] at hlt ⊢
        rw [List.length_append] at hlt
        rw [(expect_iff ht).mpr ⟨rfl, by omega⟩, Option.bind_some]
        exact (ih hmore (by omega)).mpr ⟨fields, Nat.succ_injective hlen, rfl⟩

theorem tags_skipped : ∀ t ∈ skipped, t &&& 0x1f ≠ 0x1f := by
  have hall : (skipped.all fun t => t &&& 0x1f != 0x1f) = true := by decide
  intro t ht
  exact bne_iff_ne.mp (List.all_eq_true.mp hall t ht)

/-- The rest of a `TBSCertificate`, from its serial number on. -/
theorem afterVersion_iff {rest key : List UInt8} (hlt : rest.length < 2 ^ 32) :
    ((skipAll skipped rest).bind fun rest =>
        (expect tag.SEQUENCE rest).bind fun (spki, _) => spkiKey spki) = some key ↔
      key.length = 32 ∧ ∃ fields trailing, fields.length = 5 ∧
        rest = encodeFields skipped fields ++ (encodeSpki key ++ trailing) := by
  constructor
  · intro h
    obtain ⟨left, hleft, hrest⟩ := Option.bind_eq_some_iff.mp h
    obtain ⟨⟨spki, trailing⟩, hspki, hkey⟩ := Option.bind_eq_some_iff.mp hrest
    have hkey : spkiKey spki = some key := hkey
    obtain ⟨fields, hfields, heq⟩ := (skipAll_iff tags_skipped hlt).mp hleft
    obtain ⟨hfound, hshort⟩ := (expect_iff (by decide)).mp hspki
    obtain ⟨hlen, hcontent⟩ := (spkiKey_iff hshort).mp hkey
    exact ⟨hlen, fields, trailing, hfields, by rw [heq, hfound, hcontent]; rfl⟩
  · rintro ⟨hlen, fields, trailing, hfields, rfl⟩
    rw [(skipAll_iff tags_skipped hlt).mpr ⟨fields, hfields, rfl⟩, Option.bind_some]
    have hshort := length_lt_element tag.SEQUENCE (element tag.SEQUENCE (element tag.OID ED25519_OID) ++
      element tag.BIT_STRING (0 :: key))
    rw [List.length_append, List.length_append] at hlt
    have hspki : (encodeSpki key).length < 2 ^ 32 := by omega
    have hcontent := hshort.trans hspki
    have hfound : expect tag.SEQUENCE (encodeSpki key ++ trailing) = some (_, trailing) :=
      (expect_iff (by decide)).mpr ⟨rfl, hcontent⟩
    rw [hfound, Option.bind_some]
    exact (spkiKey_iff hcontent).mpr ⟨hlen, rfl⟩

theorem exists_five {α : Type} {l : List α} (h : l.length = 5) : ∃ a b c d e, l = [a, b, c, d, e] := by
  match l, h with
  | [a, b, c, d, e], _ => exact ⟨a, b, c, d, e, rfl⟩

theorem tbsKey_iff {tbs key : List UInt8} (hlt : tbs.length < 2 ^ 32) :
    tbsKey tbs = some key ↔ ∃ c : Certificate, c.tbs = tbs ∧ c.key = key ∧ key.length = 32 := by
  unfold tbsKey
  constructor
  · intro h
    obtain ⟨⟨⟨first, version⟩, after⟩, hfirst, h⟩ := Option.bind_eq_some_iff.mp h
    obtain ⟨htbs, -, -⟩ := derTlv_iff.mp hfirst
    dsimp only at h
    by_cases hversion : first = tag.CONTEXT_0
    · rw [if_pos hversion] at h
      rw [htbs, List.length_append] at hlt
      obtain ⟨hlen, fields, trailing, hfields, hafter⟩ := (afterVersion_iff (by omega)).mp h
      obtain ⟨serial, algorithm, issuer, validity, subject, rfl⟩ :
          ∃ a b c d e, fields = [a, b, c, d, e] := exists_five hfields
      refine ⟨⟨some version, serial, algorithm, issuer, validity, subject, key, trailing, []⟩, ?_, rfl, hlen⟩
      rw [htbs, hversion, hafter]
      rfl
    · rw [if_neg hversion] at h
      obtain ⟨hlen, fields, trailing, hfields, hafter⟩ := (afterVersion_iff hlt).mp h
      obtain ⟨serial, algorithm, issuer, validity, subject, rfl⟩ :
          ∃ a b c d e, fields = [a, b, c, d, e] := exists_five hfields
      refine ⟨⟨none, serial, algorithm, issuer, validity, subject, key, trailing, []⟩, ?_, rfl, hlen⟩
      rw [hafter]
      rfl
  · rintro ⟨⟨version, serial, algorithm, issuer, validity, subject, key', trailing, signature⟩, rfl, hkey, hlen⟩
    obtain rfl : key' = key := hkey
    cases version with
    | some version =>
      have hshort := length_lt_element tag.CONTEXT_0 version
      dsimp only [Certificate.tbs] at hlt ⊢
      rw [List.length_append] at hlt
      rw [derTlv_iff.mpr ⟨rfl, by decide, by omega⟩, Option.bind_some]
      dsimp only
      rw [if_pos rfl]
      exact (afterVersion_iff (by omega)).mpr ⟨hlen, _, trailing, rfl, rfl⟩
    | none =>
      have hafter := (afterVersion_iff hlt).mpr
        ⟨hlen, [serial, algorithm, issuer, validity, subject], trailing, rfl, rfl⟩
      dsimp only [Certificate.tbs] at hlt hafter ⊢
      have hshort := length_lt_element tag.INTEGER serial
      have hfirst : derTlv (Certificate.afterVersion
          ⟨none, serial, algorithm, issuer, validity, subject, key', trailing, signature⟩) =
          some (⟨tag.INTEGER, serial⟩, encodeFields (skipped.drop 1)
            [algorithm, issuer, validity, subject] ++ (encodeSpki key' ++ trailing)) := by
        refine derTlv_iff.mpr ⟨List.append_assoc .., by decide, ?_⟩
        have hfields : encodeFields skipped [serial, algorithm, issuer, validity, subject] =
            element tag.INTEGER serial ++ encodeFields (skipped.drop 1)
              [algorithm, issuer, validity, subject] := rfl
        change (encodeFields skipped [serial, algorithm, issuer, validity, subject] ++ _).length < _ at hlt
        rw [hfields, List.length_append, List.length_append] at hlt
        omega
      rw [hfirst, Option.bind_some]
      exact hafter

/-- A key is taken from the encodings of certificates of that key, and from nothing else. -/
theorem spkiEd25519_eq_some {der key : List UInt8} : spkiEd25519 der = some key ↔
    ∃ c : Certificate, c.encode = der ∧ c.key = key ∧ key.length = 32 ∧ c.content.length < 2 ^ 32 := by
  unfold spkiEd25519
  constructor
  · intro h
    obtain ⟨⟨cert, after⟩, hcert, hrest⟩ := Option.bind_eq_some_iff.mp h
    obtain ⟨hder, hlt⟩ := (expect_iff (by decide)).mp hcert
    dsimp only at hrest
    split at hrest
    · cases hrest
    · rename_i hend
      obtain rfl := not_not.mp hend
      obtain ⟨⟨tbs, signature⟩, htbs, hkey⟩ := Option.bind_eq_some_iff.mp hrest
      have hkey : tbsKey tbs = some key := hkey
      obtain ⟨hcontent, hshort⟩ := (expect_iff (by decide)).mp htbs
      obtain ⟨c, hc, hck, hlen⟩ := (tbsKey_iff hshort).mp hkey
      have hwhole : ({ c with signature } : Certificate).content = cert := by
        rw [hcontent, ← hc]
        rfl
      refine ⟨{ c with signature }, ?_, hck, hlen, ?_⟩
      · rw [Certificate.encode, hwhole, hder, List.append_nil]
      · rw [hwhole]
        exact hlt
  · rintro ⟨c, rfl, rfl, hlen, hlt⟩
    have hcert : expect tag.SEQUENCE c.encode = some (c.content, []) :=
      (expect_iff (by decide)).mpr ⟨(List.append_nil _).symm, hlt⟩
    have hshort : c.tbs.length < 2 ^ 32 := by
      have hle := length_lt_element tag.SEQUENCE c.tbs
      rw [Certificate.content, List.length_append] at hlt
      omega
    have htbs : expect tag.SEQUENCE c.content = some (c.tbs, c.signature) :=
      (expect_iff (by decide)).mpr ⟨rfl, hshort⟩
    rw [hcert, Option.bind_some]
    dsimp only
    rw [if_neg (not_not.mpr rfl), htbs, Option.bind_some]
    exact (tbsKey_iff hshort).mpr ⟨c, rfl, rfl, hlen⟩

/-- A key is taken from the encodings of certificates of that key and from nothing else, so certificates
of one key give one answer whatever else is in them. -/
theorem spkiEd25519_exact (der key : List UInt8) :
    (spkiEd25519 der = some key ↔ ∃ c : Certificate,
      c.encode = der ∧ c.key = key ∧ key.length = 32 ∧ c.content.length < 2 ^ 32) ∧
    ∀ c c' : Certificate, c.key = c'.key → c.key.length = 32 → c.content.length < 2 ^ 32 →
      c'.content.length < 2 ^ 32 → spkiEd25519 c.encode = spkiEd25519 c'.encode := by
  refine ⟨spkiEd25519_eq_some, fun c c' hkey hlen hc hc' => ?_⟩
  rw [spkiEd25519_eq_some.mpr ⟨c, rfl, hkey, hkey ▸ hlen, hc⟩,
    spkiEd25519_eq_some.mpr ⟨c', rfl, rfl, hkey ▸ hlen, hc'⟩]

theorem length_derLength_le {n : Nat} (h : n < 2 ^ 32) : (derLength n).length ≤ 5 := by
  unfold derLength
  have hwidth := width_le_four h
  split
  · exact Nat.le_add_left 1 4
  · rw [List.length_cons, length_beBytes]
    omega

/-- A certificate whose trailing fields take 2^32 bytes. -/
def longCertificate : Certificate :=
  ⟨none, [1], [], [], [], [], List.replicate 32 7, List.replicate (2 ^ 32) 0, []⟩

/-- A certificate of the shape, of more bytes than a length of four bytes counts, gives no key. -/
theorem longCertificate_refused :
    longCertificate.key.length = 32 ∧ spkiEd25519 longCertificate.encode = none := by
  refine ⟨List.length_replicate, ?_⟩
  cases hkey : spkiEd25519 longCertificate.encode with
  | none => rfl
  | some key =>
    exfalso
    obtain ⟨c, hc, -, -, hlt⟩ := spkiEd25519_eq_some.mp hkey
    have hlen := congrArg List.length hc
    have hle := length_derLength_le hlt
    have htbs := length_lt_element tag.SEQUENCE longCertificate.tbs
    have hwhole := length_lt_element tag.SEQUENCE longCertificate.content
    have hspki : 40 < (encodeSpki (List.replicate 32 7)).length := by decide
    have htrailing : (encodeSpki (List.replicate 32 7)).length + 2 ^ 32 ≤ longCertificate.tbs.length := by
      show _ ≤ (encodeFields _ _ ++ (encodeSpki (List.replicate 32 7) ++ List.replicate (2 ^ 32) 0)).length
      rw [List.length_append, List.length_append, List.length_replicate]
      exact Nat.le_add_left _ _
    have hcontent : longCertificate.content.length = (element tag.SEQUENCE longCertificate.tbs).length :=
      congrArg List.length (List.append_nil _)
    have hshort : c.encode.length = 1 + (derLength c.content.length).length + c.content.length := by
      rw [Certificate.encode, element, List.length_append, List.length_cons]
      omega
    have hencode : longCertificate.encode.length = (element tag.SEQUENCE longCertificate.content).length := rfl
    omega

end HxdNg.Http
