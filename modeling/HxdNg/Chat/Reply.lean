import HxdNg.Lib.Utf8
import HxdNg.Lib.Machine
import HxdNg.Lib.Der

/-!
# What a message answers

A reply's reference, as the stores keep it: a kind byte and the kind's fields. Where the source slices
or indexes, so does the model, and a result of none on the outside is a panic.

* `MessageGuid` : a guid, its text always the lowercase hyphenated form; `guidBytes`, `guidOf` : the
  bytes it spells, and back;
* `Reply.pack`, `Reply.unpack` : the reference as bytes and back;
* `pack_canonical` : each reads back what the other wrote, and nothing else is read.
-/

namespace HxdNg.Replies

/-! ## Guids -/

def hexChars : List Char := "0123456789abcdef".toList

/-- The two digits of a byte, `{x:02x}`. -/
def hexPair (x : UInt8) : List Char :=
  [hexChars.getD (x.toNat / 16) '0', hexChars.getD (x.toNat % 16) '0']

def hexOf (b : List UInt8) : List Char := b.flatMap hexPair

def isAsciiHexdigit (c : UInt8) : Bool :=
  (48 ≤ c && c ≤ 57) || (65 ≤ c && c ≤ 70) || (97 ≤ c && c ≤ 102)

def hyphenate (h : List Char) : Option (List Char) := do
  let a ← Utf8.slice h 0 8
  let b ← Utf8.slice h 8 12
  let c ← Utf8.slice h 12 16
  let d ← Utf8.slice h 16 20
  let e ← Utf8.slice h 20 32
  return a ++ '-' :: b ++ '-' :: c ++ '-' :: d ++ '-' :: e

/-- A text without its hyphens. -/
def bareOf (s : List Char) : List Char := s.filter (· ≠ '-')

/-- The 32 digits, from either spelling, in lower case. -/
def spelled (s : List Char) : Option (Option (List Char)) :=
  if Utf8.size s = 32 then some (some (s.map Char.toLower))
  else if Utf8.size s = 36 then do
    let b := Utf8.bytes s
    let b8 ← b[8]?
    let b13 ← b[13]?
    let b18 ← b[18]?
    let b23 ← b[23]?
    if b8 ≠ 0x2d ∨ b13 ≠ 0x2d ∨ b18 ≠ 0x2d ∨ b23 ≠ 0x2d then return none
    else return some ((bareOf s).map Char.toLower)
  else some none

/-- The canonical text of a guid, from either of the two shapes a UUID is written in. -/
def canonicalText (s : List Char) : Option (Option (List Char)) := do
  match ← spelled s with
  | none => return none
  | some bare =>
    if Utf8.size bare ≠ 32 ∨ ¬ (Utf8.bytes bare).all isAsciiHexdigit then return none
    else
      let text ← hyphenate bare
      return some text

/-! ### Digits -/

theorem hexPair_spec (x : UInt8) : (∀ c ∈ hexPair x, c ∈ hexChars) ∧ (hexPair x).length = 2 := by
  have hmem : ∀ n < 16, hexChars.getD n '0' ∈ hexChars := by decide
  have hx := x.toNat_lt
  refine ⟨?_, rfl⟩
  intro c hc
  rcases List.mem_cons.1 hc with rfl | hc
  · exact hmem _ (by omega)
  · rw [List.mem_singleton.1 hc]
    exact hmem _ (by omega)

theorem length_hexOf (b : List UInt8) : (hexOf b).length = 2 * b.length := by
  induction b with
  | nil => rfl
  | cons x b ih =>
    rw [hexOf, List.flatMap_cons, List.length_append, (hexPair_spec x).2, List.length_cons]
    rw [hexOf] at ih
    omega

theorem mem_hexOf {b : List UInt8} {c : Char} (h : c ∈ hexOf b) : c ∈ hexChars := by
  obtain ⟨x, -, hx⟩ := List.mem_flatMap.1 h
  exact (hexPair_spec x).1 c hx

theorem exists_hexPair {a b : Char} (ha : a ∈ hexChars) (hb : b ∈ hexChars) : ∃ x, hexPair x = [a, b] := by
  obtain ⟨i, hi, rfl⟩ := List.mem_iff_getElem.1 ha
  obtain ⟨j, hj, rfl⟩ := List.mem_iff_getElem.1 hb
  have hlen : hexChars.length = 16 := rfl
  have hsum : (UInt8.ofNat (i * 16 + j)).toNat = i * 16 + j := UInt8.toNat_ofNat_of_lt' (by
    show i * 16 + j < 256
    omega)
  refine ⟨UInt8.ofNat (i * 16 + j), ?_⟩
  rw [hexPair, hsum, (by omega : (i * 16 + j) / 16 = i), (by omega : (i * 16 + j) % 16 = j),
    List.getD_eq_getElem _ _ hi, List.getD_eq_getElem _ _ hj]

theorem exists_hexOf {n : Nat} {h : List Char} (hlen : h.length = 2 * n) (hall : ∀ c ∈ h, c ∈ hexChars) :
    ∃ b : List UInt8, b.length = n ∧ hexOf b = h := by
  induction n generalizing h with
  | zero => exact ⟨[], rfl, (List.length_eq_zero_iff.1 hlen).symm⟩
  | succ n ih =>
    obtain ⟨a, h, rfl⟩ := List.exists_cons_of_length_pos (by omega : 0 < h.length)
    rw [List.length_cons] at hlen
    obtain ⟨b, h, rfl⟩ := List.exists_cons_of_length_pos (by omega : 0 < h.length)
    rw [List.length_cons] at hlen
    obtain ⟨x, hx⟩ := exists_hexPair (hall a List.mem_cons_self) (hall b (List.mem_cons_of_mem _ List.mem_cons_self))
    obtain ⟨bs, hbs, hh⟩ := ih (by omega : h.length = 2 * n) fun c hc =>
      hall c (List.mem_cons_of_mem _ (List.mem_cons_of_mem _ hc))
    refine ⟨x :: bs, by rw [List.length_cons, hbs], ?_⟩
    rw [hexOf, List.flatMap_cons, hx, ← hh]
    rfl

/-! ### Slices of ASCII texts -/

def Ascii (s : List Char) : Prop := ∀ c ∈ s, c.toNat < 128

theorem ascii_of_hex {s : List Char} (h : ∀ c ∈ s, c ∈ hexChars) : Ascii s := by
  have hall : hexChars.all fun c => c.toNat < 128 := by decide
  intro c hc
  exact of_decide_eq_true (List.all_eq_true.1 hall c (h c hc))

theorem Ascii.bytes {s : List Char} (h : Ascii s) : Utf8.bytes s = s.map fun c => UInt8.ofNat c.toNat := by
  induction s with
  | nil => rfl
  | cons c s ih =>
    rw [Utf8.bytes_cons, Utf8.utf8EncodeChar_of_ascii (h c List.mem_cons_self), List.map_cons,
      ih fun x hx => h x (List.mem_cons_of_mem _ hx)]
    rfl

theorem Ascii.size {s : List Char} (h : Ascii s) : Utf8.size s = s.length := by
  rw [Utf8.size, h.bytes, List.length_map]

theorem Ascii.slice {s : List Char} (h : Ascii s) {a n : Nat} (hle : a + n ≤ s.length) :
    Utf8.slice s a (a + n) = some ((s.drop a).take n) := by
  have hsub : ∀ t : List Char, t ⊆ s → Ascii t := fun t ht c hc => h c (ht hc)
  have hpre : Utf8.size (s.take a) = a := by
    rw [(hsub _ (List.take_subset _ _)).size, List.length_take]
    omega
  have hmid : Utf8.size ((s.drop a).take n) = n := by
    rw [(hsub _ fun c hc => List.mem_of_mem_drop (List.mem_of_mem_take hc)).size, List.length_take, List.length_drop]
    omega
  have hs : s.take a ++ (s.drop a).take n ++ (s.drop a).drop n = s := by
    rw [List.append_assoc, List.take_append_drop, List.take_append_drop]
  have hslice := Utf8.slice_append (s.take a) ((s.drop a).take n) ((s.drop a).drop n)
  rw [hs, hpre, hmid] at hslice
  exact hslice

/-- The five groups of 32 digits. -/
def hyphenated (h : List Char) : List Char :=
  h.take 8 ++ '-' :: (h.drop 8).take 4 ++ '-' :: (h.drop 12).take 4 ++ '-' :: (h.drop 16).take 4 ++
    '-' :: (h.drop 20).take 12

theorem hyphenate_eq {h : List Char} (ha : Ascii h) (hlen : h.length = 32) : hyphenate h = some (hyphenated h) := by
  have hcut : ∀ a n, a + n ≤ 32 → Utf8.slice h a (a + n) = some ((h.drop a).take n) := fun a n hle =>
    ha.slice (hlen ▸ hle)
  unfold hyphenate
  rw [hcut 0 8 (by decide), hcut 8 4 (by decide), hcut 12 4 (by decide), hcut 16 4 (by decide),
    hcut 20 12 (by decide)]
  rfl

theorem hyphenated_append {a b c d e : List Char} (ha : a.length = 8) (hb : b.length = 4) (hc : c.length = 4)
    (hd : d.length = 4) (he : e.length = 12) :
    hyphenated (a ++ (b ++ (c ++ (d ++ e)))) = a ++ '-' :: (b ++ '-' :: (c ++ '-' :: (d ++ '-' :: e))) := by
  have hcut : ∀ x y : List Char, ∀ n, x.length = n → (x ++ y).drop n = y ∧ (x ++ y).take n = x := by
    rintro x y n rfl
    exact ⟨List.drop_left, List.take_left⟩
  have h8 := hcut a (b ++ (c ++ (d ++ e))) 8 ha
  have h12 := hcut b (c ++ (d ++ e)) 4 hb
  have h16 := hcut c (d ++ e) 4 hc
  have h20 := hcut d e 4 hd
  have hdrop : ∀ k n, (a ++ (b ++ (c ++ (d ++ e)))).drop (k + n) = ((a ++ (b ++ (c ++ (d ++ e)))).drop k).drop n :=
    fun k n => List.drop_drop.symm
  unfold hyphenated
  rw [hdrop 16 4, hdrop 12 4, hdrop 8 4, h8.1, h8.2, h12.1, h12.2, h16.1, h16.2, h20.1, h20.2,
    List.take_of_length_le (Nat.le_of_eq he)]
  simp only [List.append_assoc, List.cons_append]

theorem exists_groups {h : List Char} (hlen : h.length = 32) : ∃ a b c d e : List Char,
    h = a ++ (b ++ (c ++ (d ++ e))) ∧
      a.length = 8 ∧ b.length = 4 ∧ c.length = 4 ∧ d.length = 4 ∧ e.length = 12 := by
  refine ⟨h.take 8, (h.drop 8).take 4, (h.drop 12).take 4, (h.drop 16).take 4, h.drop 20, ?_, ?_⟩
  · have hstep : ∀ k n, (h.drop k).take n ++ h.drop (k + n) = h.drop k := fun k n => by
      rw [← List.drop_drop, List.take_append_drop]
    rw [hstep 16 4, hstep 12 4, hstep 8 4, List.take_append_drop]
  · simp only [List.length_take, List.length_drop, hlen]
    decide

theorem bareOf_append (s t : List Char) : bareOf (s ++ t) = bareOf s ++ bareOf t := List.filter_append s t

theorem bareOf_hyphen (s : List Char) : bareOf ('-' :: s) = bareOf s := rfl

theorem bareOf_of_hex {h : List Char} (hall : ∀ c ∈ h, c ∈ hexChars) : bareOf h = h := by
  have hne : hexChars.all fun c => c ≠ '-' := by decide
  exact List.filter_eq_self.2 fun c hc => List.all_eq_true.1 hne c (hall c hc)

/-- The hyphens stand where the reader looks for them, and nothing else is one. -/
theorem hyphenated_spec {h : List Char} (hall : ∀ c ∈ h, c ∈ hexChars) (hlen : h.length = 32) :
    (hyphenated h).length = 36 ∧ Ascii (hyphenated h) ∧ bareOf (hyphenated h) = h ∧
      ∀ i ∈ [8, 13, 18, 23], (hyphenated h)[i]? = some '-' := by
  obtain ⟨a, b, c, d, e, rfl, ha, hb, hc, hd, he⟩ := exists_groups hlen
  have hgroup : ∀ x : List Char, x ⊆ a ++ (b ++ (c ++ (d ++ e))) → bareOf x = x ∧ Ascii x := fun x hx =>
    ⟨bareOf_of_hex fun y hy => hall y (hx hy), ascii_of_hex fun y hy => hall y (hx hy)⟩
  have hA := hgroup a (by simp)
  have hB := hgroup b (by intro x hx; simp [hx])
  have hC := hgroup c (by intro x hx; simp [hx])
  have hD := hgroup d (by intro x hx; simp [hx])
  have hE := hgroup e (by intro x hx; simp [hx])
  rw [hyphenated_append ha hb hc hd he]
  refine ⟨?_, ?_, ?_, ?_⟩
  · simp only [List.length_append, List.length_cons, ha, hb, hc, hd, he]
  · intro x hx
    simp only [List.mem_append, List.mem_cons] at hx
    rcases hx with hx | rfl | hx | rfl | hx | rfl | hx | rfl | hx
    · exact hA.2 x hx
    · decide
    · exact hB.2 x hx
    · decide
    · exact hC.2 x hx
    · decide
    · exact hD.2 x hx
    · decide
    · exact hE.2 x hx
  · simp only [bareOf_append, bareOf_hyphen, hA.1, hB.1, hC.1, hD.1, hE.1]
  · have hat : ∀ x y : List Char, ∀ n, x.length = n → (x ++ '-' :: y)[n]? = some '-' := by
      rintro x y n rfl
      simp
    have h8 := hat a (b ++ '-' :: (c ++ '-' :: (d ++ '-' :: e))) 8 ha
    have h13 := hat (a ++ '-' :: b) (c ++ '-' :: (d ++ '-' :: e)) 13 (by simp [ha, hb])
    have h18 := hat (a ++ '-' :: (b ++ '-' :: c)) (d ++ '-' :: e) 18 (by simp [ha, hb, hc])
    have h23 := hat (a ++ '-' :: (b ++ '-' :: (c ++ '-' :: d))) e 23 (by simp [ha, hb, hc, hd])
    simp only [List.append_assoc, List.cons_append] at h13 h18 h23
    intro i hi
    simp only [List.mem_cons, List.not_mem_nil, or_false] at hi
    rcases hi with rfl | rfl | rfl | rfl
    · exact h8
    · exact h13
    · exact h18
    · exact h23

/-! ### Canonical texts -/

theorem map_toLower_of_hex {h : List Char} (hall : ∀ c ∈ h, c ∈ hexChars) : h.map Char.toLower = h := by
  have hsame : hexChars.all fun c => c.toLower = c := by decide
  rw [List.map_congr_left fun c hc => of_decide_eq_true (List.all_eq_true.1 hsame c (hall c hc)), List.map_id']

theorem toLower_not_upper (c : Char) : ¬ (65 ≤ c.toLower.toNat ∧ c.toLower.toNat ≤ 90) := by
  unfold Char.toLower
  split
  next h =>
    have h₁ : 65 ≤ c.val.toNat := UInt32.le_iff_toNat_le.1 h.1
    have h₂ : c.val.toNat ≤ 90 := UInt32.le_iff_toNat_le.1 h.2
    show ¬ (65 ≤ (c.val + 32).toNat ∧ (c.val + 32).toNat ≤ 90)
    rw [UInt32.toNat_add]
    have h32 : (32 : UInt32).toNat = 32 := rfl
    omega
  next h =>
    rintro ⟨h₁, h₂⟩
    exact h ⟨UInt32.le_iff_toNat_le.2 h₁, UInt32.le_iff_toNat_le.2 h₂⟩

/-- What is in lower case and a hexadecimal digit is one of the sixteen. -/
theorem toLower_mem {c : Char} (h : (String.utf8EncodeChar c.toLower).all isAsciiHexdigit = true) :
    c.toLower ∈ hexChars := by
  have hlow : ∀ n < 128, isAsciiHexdigit (UInt8.ofNat n) = true → ¬ (65 ≤ n ∧ n ≤ 90) → Char.ofNat n ∈ hexChars := by
    decide +kernel
  have hhigh : ∀ n < 256, 128 ≤ n → isAsciiHexdigit (UInt8.ofNat n) = false := by decide +kernel
  by_cases hascii : c.toLower.toNat < 128
  · rw [Utf8.utf8EncodeChar_of_ascii hascii, List.all_cons, List.all_nil, Bool.and_true] at h
    have hmem := hlow _ hascii h (toLower_not_upper c)
    rwa [Char.ofNat_toNat] at hmem
  · obtain ⟨b, hb⟩ := List.exists_mem_of_ne_nil _ (String.utf8EncodeChar_ne_nil (c := c.toLower))
    have hbyte := hhigh b.toNat b.toNat_lt (Utf8.utf8EncodeChar_of_not_ascii hascii b hb)
    rw [UInt8.ofNat_toNat] at hbyte
    rw [List.all_eq_true.1 h b hb] at hbyte
    cases hbyte

theorem mem_of_all_bytes {s : List Char} (h : (Utf8.bytes (s.map Char.toLower)).all isAsciiHexdigit = true) :
    ∀ c ∈ s.map Char.toLower, c ∈ hexChars := by
  rw [Utf8.bytes, List.all_flatMap] at h
  intro c hc
  have hall := List.all_eq_true.1 h c hc
  obtain ⟨x, -, rfl⟩ := List.mem_map.1 hc
  exact toLower_mem hall

theorem isAsciiHexdigit_bytes {h : List Char} (hall : ∀ c ∈ h, c ∈ hexChars) :
    (Utf8.bytes h).all isAsciiHexdigit = true := by
  have hdigit : hexChars.all fun c => isAsciiHexdigit (UInt8.ofNat c.toNat) := by decide
  rw [(ascii_of_hex hall).bytes, List.all_map]
  exact List.all_eq_true.2 fun c hc => List.all_eq_true.1 hdigit c (hall c hc)

/-- The digits looked for are in lower case, whichever spelling they come from; no index is out of range. -/
theorem spelled_spec (s : List Char) : ∃ o, spelled s = some o ∧
    ∀ bare, o = some bare → ∃ r : List Char, bare = r.map Char.toLower := by
  unfold spelled
  split
  · refine ⟨_, rfl, ?_⟩
    rintro bare h
    exact ⟨s, (Option.some.inj h).symm⟩
  · split
    next hsize =>
      have hat : ∀ i < 36, ∃ b, (Utf8.bytes s)[i]? = some b := fun i hi =>
        ⟨_, List.getElem?_eq_getElem (Nat.lt_of_lt_of_eq hi hsize.symm)⟩
      obtain ⟨b8, h8⟩ := hat 8 (by decide)
      obtain ⟨b13, h13⟩ := hat 13 (by decide)
      obtain ⟨b18, h18⟩ := hat 18 (by decide)
      obtain ⟨b23, h23⟩ := hat 23 (by decide)
      dsimp only
      rw [h8, h13, h18, h23]
      simp only [Option.bind_eq_bind, Option.bind_some]
      split
      · exact ⟨none, rfl, by simp⟩
      · refine ⟨_, rfl, ?_⟩
        rintro bare h
        exact ⟨bareOf s, (Option.some.inj h).symm⟩
    · exact ⟨none, rfl, by simp⟩

/-- Reading never slices out of range, and gives what sixteen bytes spell. -/
theorem canonicalText_spec (s : List Char) :
    ∃ o, canonicalText s = some o ∧ ∀ t, o = some t → ∃ b : Bytes 16, t = hyphenated (hexOf b.val) := by
  obtain ⟨o, hspelled, hlower⟩ := spelled_spec s
  unfold canonicalText
  rw [hspelled]
  cases o with
  | none => exact ⟨none, rfl, by simp⟩
  | some bare =>
    obtain ⟨r, rfl⟩ := hlower bare rfl
    simp only [Option.bind_eq_bind, Option.bind_some]
    split
    · exact ⟨none, rfl, by simp⟩
    next hgood =>
      simp only [not_or, not_not] at hgood
      have hall := mem_of_all_bytes hgood.2
      have hlen : (r.map Char.toLower).length = 32 := by
        rw [← (ascii_of_hex hall).size, hgood.1]
      rw [hyphenate_eq (ascii_of_hex hall) hlen]
      obtain ⟨b, hb, hhex⟩ := exists_hexOf (n := 16) hlen hall
      refine ⟨_, rfl, ?_⟩
      rintro t ht
      exact ⟨⟨b, hb⟩, by rw [hhex]; exact (Option.some.inj ht).symm⟩

theorem canonicalText_of_spelled {s : List Char} {b : Bytes 16} (h : spelled s = some (some (hexOf b.val))) :
    canonicalText s = some (some (hyphenated (hexOf b.val))) := by
  have hall : ∀ c ∈ hexOf b.val, c ∈ hexChars := fun c hc => mem_hexOf hc
  have hlen : (hexOf b.val).length = 32 := by rw [length_hexOf, b.property]
  unfold canonicalText
  rw [h]
  simp only [Option.bind_eq_bind, Option.bind_some]
  rw [if_neg, hyphenate_eq (ascii_of_hex hall) hlen]
  · rfl
  · rw [(ascii_of_hex hall).size, isAsciiHexdigit_bytes hall]
    simp [hlen]

theorem spelled_hexOf (b : Bytes 16) : spelled (hexOf b.val) = some (some (hexOf b.val)) := by
  have hall : ∀ c ∈ hexOf b.val, c ∈ hexChars := fun c hc => mem_hexOf hc
  unfold spelled
  rw [if_pos, map_toLower_of_hex hall]
  rw [(ascii_of_hex hall).size, length_hexOf, b.property]

theorem spelled_hyphenated (b : Bytes 16) : spelled (hyphenated (hexOf b.val)) = some (some (hexOf b.val)) := by
  have hall : ∀ c ∈ hexOf b.val, c ∈ hexChars := fun c hc => mem_hexOf hc
  obtain ⟨hlen, hascii, hbare, hhyphens⟩ := hyphenated_spec hall (by rw [length_hexOf, b.property])
  have hat : ∀ i ∈ [8, 13, 18, 23], (Utf8.bytes (hyphenated (hexOf b.val)))[i]? = some 0x2d := by
    intro i hi
    rw [hascii.bytes, List.getElem?_map, hhyphens i hi]
    rfl
  unfold spelled
  rw [if_neg (by rw [hascii.size, hlen]; decide), if_pos (by rw [hascii.size, hlen])]
  dsimp only
  rw [hat 8 (by decide), hat 13 (by decide), hat 18 (by decide), hat 23 (by decide), hbare, map_toLower_of_hex hall]
  rfl
/-! ### The guid -/

/-- A guid: its text is the canonical one of sixteen bytes. -/
structure MessageGuid where
  text : List Char
  spells : ∃ b : Bytes 16, text = hyphenated (hexOf b.val)

theorem MessageGuid.eq_of_text {g g' : MessageGuid} (h : g.text = g'.text) : g = g' := by
  cases g
  cases g'
  cases h
  rfl

theorem spells_of_canonicalText {s t : List Char} (h : canonicalText s = some (some t)) :
    ∃ b : Bytes 16, t = hyphenated (hexOf b.val) := by
  obtain ⟨o, ho, hspells⟩ := canonicalText_spec s
  exact hspells t (Option.some.inj (ho.symm.trans h))

/-- From either shape a UUID is written in; the inner none is a refusal. -/
def MessageGuid.parse (s : List Char) : Option (Option MessageGuid) :=
  match h : canonicalText s with
  | none => none
  | some none => some none
  | some (some text) => some (some ⟨text, spells_of_canonicalText h⟩)

/-- `u8::from_str_radix(_, 16)`: a sign, then at least one digit, without overflow. -/
def fromStrRadix16 (s : List Char) : Option UInt8 :=
  let digits := if 1 < s.length ∧ s.head? = some '+' then s.tail else s
  if digits = [] then none
  else do
    let n ← digits.foldlM (fun acc c => do
      let d ← hexChars.findIdx? (· = c.toLower)
      if acc * 16 + d < 256 then some (acc * 16 + d) else none) 0
    return UInt8.ofNat n

/-- The 16 bytes a guid spells. -/
def guidBytes (g : MessageGuid) : Option (Bytes 16) := do
  let hex := bareOf g.text
  let out ← (List.range 16).mapM fun i => do
    let pair ← Utf8.slice hex (i * 2) (i * 2 + 2)
    fromStrRadix16 pair
  Bytes.ofList 16 out

/-- `guidBytes` back: any 16 bytes are a guid. -/
def guidOf (b : List UInt8) : Option (Option MessageGuid) := MessageGuid.parse (hexOf b)

theorem parse_of_canonicalText {s : List Char} {g : MessageGuid} (h : canonicalText s = some (some g.text)) :
    MessageGuid.parse s = some (some g) := by
  unfold MessageGuid.parse
  split
  next hn => rw [hn] at h; cases h
  next hn => rw [hn] at h; cases h
  next text hn =>
    refine congrArg (fun x => some (some x)) (MessageGuid.eq_of_text ?_)
    exact Option.some.inj (Option.some.inj (hn.symm.trans h))

theorem parse_total (s : List Char) : ∃ o, MessageGuid.parse s = some o := by
  obtain ⟨o, ho, -⟩ := canonicalText_spec s
  unfold MessageGuid.parse
  split
  next hn => rw [hn] at ho; cases ho
  next => exact ⟨_, rfl⟩
  next => exact ⟨_, rfl⟩

/-- A guid's own text is parsed as the guid, so the type holds just what is parsed. -/
theorem parse_text (g : MessageGuid) : MessageGuid.parse g.text = some (some g) := by
  obtain ⟨b, hb⟩ := g.spells
  apply parse_of_canonicalText
  rw [hb]
  exact canonicalText_of_spelled (spelled_hyphenated b)

theorem fromStrRadix16_hexPair (x : UInt8) : fromStrRadix16 (hexPair x) = some x := by
  have hall : ∀ n < 256, fromStrRadix16 (hexPair (UInt8.ofNat n)) = some (UInt8.ofNat n) := by decide +kernel
  have hx := hall x.toNat x.toNat_lt
  rwa [UInt8.ofNat_toNat] at hx

theorem drop_hexOf (b : List UInt8) (i : Nat) : (hexOf b).drop (i * 2) = hexOf (b.drop i) := by
  induction i generalizing b with
  | zero => rw [Nat.zero_mul, List.drop_zero, List.drop_zero]
  | succ i ih =>
    cases b with
    | nil => rw [List.drop_nil]; exact List.drop_nil
    | cons x b =>
      rw [Nat.succ_mul, Nat.add_comm, ← List.drop_drop, List.drop_succ_cons, ← ih b]
      rfl

theorem mapM_eq_some_map {α β : Type} {f : α → Option β} {g : α → β} {l : List α} (h : ∀ a ∈ l, f a = some (g a)) :
    l.mapM f = some (l.map g) := by
  induction l with
  | nil => rfl
  | cons a l ih =>
    rw [List.mapM_cons, h a List.mem_cons_self, ih fun x hx => h x (List.mem_cons_of_mem _ hx)]
    rfl

/-- A guid's digits are sixteen bytes', which is what is read off them. -/
theorem guidBytes_of_text {g : MessageGuid} {b : Bytes 16} (h : g.text = hyphenated (hexOf b.val)) :
    guidBytes g = some b := by
  have hall : ∀ c ∈ hexOf b.val, c ∈ hexChars := fun c hc => mem_hexOf hc
  have hlen : (hexOf b.val).length = 32 := by rw [length_hexOf, b.property]
  have hpair : ∀ i ∈ List.range 16, (do
      let pair ← Utf8.slice (hexOf b.val) (i * 2) (i * 2 + 2)
      fromStrRadix16 pair) = some (b.val.getD i 0) := by
    intro i hi
    have hi : i < b.val.length := by rw [b.property]; exact List.mem_range.1 hi
    have hlt := b.property
    rw [(ascii_of_hex hall).slice (by omega), drop_hexOf, List.drop_eq_getElem_cons hi]
    show fromStrRadix16 ((hexPair b.val[i] ++ hexOf (b.val.drop (i + 1))).take 2) = _
    rw [List.take_left' (hexPair_spec _).2, fromStrRadix16_hexPair, List.getD_eq_getElem _ _ hi]
  have hback : (List.range 16).map (fun i => b.val.getD i 0) = b.val := by
    refine List.ext_getElem (by rw [List.length_map, List.length_range, b.property]) fun i _ hi => ?_
    rw [List.getElem_map, List.getElem_range, List.getD_eq_getElem _ _ hi]
  unfold guidBytes
  rw [h, (hyphenated_spec hall hlen).2.2.1]
  dsimp only
  rw [mapM_eq_some_map hpair, hback]
  exact Bytes.ofList_val b

theorem guidOf_bytes (b : Bytes 16) : ∃ g, guidOf b.val = some (some g) ∧ guidBytes g = some b := by
  refine ⟨⟨_, b, rfl⟩, ?_, guidBytes_of_text rfl⟩
  exact parse_of_canonicalText (canonicalText_of_spelled (spelled_hexOf b))

theorem guidBytes_guidOf (g : MessageGuid) : ∃ b, guidBytes g = some b ∧ guidOf b.val = some (some g) := by
  obtain ⟨b, hb⟩ := g.spells
  refine ⟨b, guidBytes_of_text hb, ?_⟩
  apply parse_of_canonicalText
  rw [hb]
  exact canonicalText_of_spelled (spelled_hexOf b)

/-! ## References -/

/-- What a packed reference may take. -/
def maxPacked : Nat := 128

/-- An instant message target, which `Reply.im` alone makes. -/
structure ImTarget where
  login : String
  guid : MessageGuid
  fits : login ≠ "" ∧ 18 + (utf8 login).length ≤ maxPacked

/-- The message a reply answers. -/
inductive Reply where
  | line (room : UInt32) (id : UInt64)
  | im (target : ImTarget)
  | pm (r : Bytes 16)
  | signed (signer : Bytes 32) (id : Bytes 16) (hash : Bytes 32)

namespace Reply

def LINE : UInt8 := 1
def IM : UInt8 := 2
def SIGNED : UInt8 := 3
def PM : UInt8 := 5

/-- An instant message target, unless its login is empty or too long to keep. -/
def ofIm (login : String) (guid : MessageGuid) : Option Reply :=
  if h : login ≠ "" ∧ 18 + (utf8 login).length ≤ maxPacked then some (.im ⟨login, guid, h⟩) else none

/-- How the stores keep it: a kind byte and the kind's fields. -/
def pack : Reply → Option (List UInt8)
  | .line room id => some (LINE :: beBytes 4 room.toNat ++ beBytes 8 id.toNat)
  | .im t => do
    let guid ← guidBytes t.guid
    return IM :: guid.val ++ UInt8.ofNat (utf8 t.login).length :: utf8 t.login
  | .signed signer id hash => some (SIGNED :: signer.val ++ id.val ++ hash.val)
  | .pm r => some (PM :: r.val)

/-- A slice of bytes, out of range a panic. -/
def cut (b : List UInt8) (i j : Nat) : Option (List UInt8) :=
  if i ≤ j ∧ j ≤ b.length then some ((b.drop i).take (j - i)) else none

/-- `pack`'s bytes back, the inner none for bytes it never wrote. -/
def unpack (b : List UInt8) : Option (Option Reply) :=
  match b with
  | [] => some none
  | kind :: rest =>
    if kind = LINE ∧ rest.length = 12 then do
      let room ← cut rest 0 4
      let id ← cut rest 4 rest.length
      return some (.line (UInt32.ofNat (ofBe room)) (UInt64.ofNat (ofBe id)))
    else if kind = IM ∧ 17 < rest.length then do
      let size ← rest[16]?
      if rest.length = 17 + size.toNat then
        let login ← cut rest 17 rest.length
        match fromUtf8 login with
        | none => return none
        | some login =>
          let spelt ← cut rest 0 16
          match ← guidOf spelt with
          | none => return none
          | some guid => return ofIm login guid
      else return none
    else if kind = SIGNED ∧ rest.length = 80 then do
      let signer ← cut rest 0 32
      let id ← cut rest 32 48
      let hash ← cut rest 48 rest.length
      return (do
        let signer ← Bytes.ofList 32 signer
        let id ← Bytes.ofList 16 id
        let hash ← Bytes.ofList 32 hash
        return .signed signer id hash)
    else if kind = PM ∧ rest.length = 16 then return (Bytes.ofList 16 rest).map .pm
    else some none


/-! ### Each reads back what the other wrote -/

theorem maxPacked_eq : maxPacked = 128 := rfl

theorem cut_append (a b c : List UInt8) : cut (a ++ (b ++ c)) a.length (a.length + b.length) = some b := by
  unfold cut
  rw [if_pos, List.drop_left, Nat.add_sub_cancel_left, List.take_left]
  simp only [List.length_append]
  omega

theorem cut_all (a b : List UInt8) : cut (a ++ b) a.length (a ++ b).length = some b := by
  have h := cut_append a b []
  rwa [List.append_nil, ← List.length_append] at h

theorem cut_start (a b : List UInt8) : cut (a ++ b) 0 a.length = some a := by
  have h := cut_append [] a b
  rwa [List.nil_append, List.length_nil, Nat.zero_add] at h

/-- What is packed is within its bound and reads back. -/
theorem unpack_pack (r : Reply) : ∃ b, r.pack = some b ∧ b.length ≤ maxPacked ∧ unpack b = some (some r) := by
  cases r with
  | line room id =>
    refine ⟨_, rfl, by simp [maxPacked_eq], ?_⟩
    have hlen : (beBytes 4 room.toNat ++ beBytes 8 id.toNat).length = 12 := by simp
    have hroom := cut_start (beBytes 4 room.toNat) (beBytes 8 id.toNat)
    have hid := cut_all (beBytes 4 room.toNat) (beBytes 8 id.toNat)
    rw [length_beBytes] at hroom hid
    unfold unpack
    rw [List.cons_append]
    dsimp only
    rw [if_pos ⟨rfl, hlen⟩, hroom, hid]
    simp only [Option.bind_eq_bind, Option.bind_some]
    rw [ofBe_beBytes (Nat.lt_of_lt_of_eq room.toNat_lt (by decide)),
      ofBe_beBytes (Nat.lt_of_lt_of_eq id.toNat_lt (by decide)), UInt32.ofNat_toNat, UInt64.ofNat_toNat]
    rfl
  | pm r =>
    refine ⟨_, rfl, by rw [List.length_cons, r.property]; decide, ?_⟩
    unfold unpack
    dsimp only
    rw [if_neg fun h => absurd h.1 (by decide), if_neg fun h => absurd h.1 (by decide),
      if_neg fun h => absurd h.1 (by decide), if_pos ⟨rfl, r.property⟩, Bytes.ofList_val]
    rfl
  | signed signer id hash =>
    refine ⟨_, rfl, ?_, ?_⟩
    · simp only [List.length_append, List.length_cons, signer.property, id.property, hash.property]
      decide
    have hlen : (signer.val ++ (id.val ++ hash.val)).length = 80 := by
      simp only [List.length_append, signer.property, id.property, hash.property]
    have hsigner := cut_start signer.val (id.val ++ hash.val)
    have hid := cut_append signer.val id.val hash.val
    have hhash := cut_all (signer.val ++ id.val) hash.val
    rw [signer.property] at hsigner
    rw [signer.property, id.property] at hid
    rw [List.length_append, signer.property, id.property, List.append_assoc] at hhash
    unfold unpack
    rw [List.append_assoc, List.cons_append]
    dsimp only
    rw [if_neg fun h => absurd h.1 (by decide), if_neg fun h => absurd h.1 (by decide), if_pos ⟨rfl, hlen⟩,
      hsigner, hid, hhash]
    simp only [Option.bind_eq_bind, Option.bind_some, Bytes.ofList_val]
    rfl
  | im t =>
    obtain ⟨guid, hguid, hback⟩ := guidBytes_guidOf t.guid
    obtain ⟨hne, hfits⟩ := t.fits
    rw [maxPacked_eq] at hfits
    have hsize : (UInt8.ofNat (utf8 t.login).length).toNat = (utf8 t.login).length :=
      UInt8.toNat_ofNat_of_lt' (by show (utf8 t.login).length < 256; omega)
    have hpos : 0 < (utf8 t.login).length := by
      rw [length_utf8]
      exact Nat.pos_of_ne_zero fun h => hne (String.utf8ByteSize_eq_zero_iff.1 h)
    refine ⟨IM :: guid.val ++ UInt8.ofNat (utf8 t.login).length :: utf8 t.login, ?_, ?_, ?_⟩
    · unfold pack
      dsimp only
      rw [hguid]
      rfl
    · simp only [List.length_append, List.length_cons, guid.property, maxPacked_eq]
      omega
    · have hrest : (guid.val ++ UInt8.ofNat (utf8 t.login).length :: utf8 t.login).length =
          17 + (utf8 t.login).length := by
        rw [List.length_append, List.length_cons, guid.property]
        omega
      have hat : (guid.val ++ UInt8.ofNat (utf8 t.login).length :: utf8 t.login)[16]? =
          some (UInt8.ofNat (utf8 t.login).length) := by
        rw [List.getElem?_append_right (by rw [guid.property]), guid.property]
        rfl
      have hlogin := cut_all (guid.val ++ [UInt8.ofNat (utf8 t.login).length]) (utf8 t.login)
      rw [List.append_assoc, List.singleton_append, List.length_append, guid.property, List.length_singleton] at hlogin
      have hspelt := cut_start guid.val (UInt8.ofNat (utf8 t.login).length :: utf8 t.login)
      rw [guid.property] at hspelt
      unfold unpack
      rw [List.cons_append]
      dsimp only
      rw [if_neg fun h => absurd h.1 (by decide), if_pos ⟨rfl, by rw [hrest]; omega⟩, hat]
      simp only [Option.bind_eq_bind, Option.bind_some]
      rw [if_pos (by rw [hrest, hsize]), hlogin]
      simp only [Option.bind_some, fromUtf8_utf8]
      rw [hspelt]
      simp only [Option.bind_some]
      rw [hback]
      simp only [Option.bind_some]
      rw [ofIm, dif_pos t.fits]
      rfl

theorem beBytes_take {k : Nat} {a : List UInt8} (h : a.length = k) : ofBe a < 256 ^ k ∧ beBytes k (ofBe a) = a := by
  subst h
  exact ⟨ofBe_lt a, beBytes_ofBe a⟩

/-- Any bytes are read, or refused, in range; and what is read packs to them. -/
theorem pack_unpack (b : List UInt8) : ∃ o, unpack b = some o ∧ ∀ r : Reply, o = some r → r.pack = some b := by
  have hrefused : ∀ r : Reply, (none : Option Reply) = some r → r.pack = some b := by
    rintro r h
    cases h
  cases b with
  | nil => exact ⟨none, rfl, hrefused⟩
  | cons kind rest =>
    have hcut : ∀ i n, i + n ≤ rest.length → cut rest i (i + n) = some ((rest.drop i).take n) := fun i n h => by
      have hi : i ≤ i + n := Nat.le_add_right i n
      unfold cut
      rw [if_pos ⟨hi, h⟩, Nat.add_sub_cancel_left]
    have hend : ∀ i, i ≤ rest.length → cut rest i rest.length = some (rest.drop i) := fun i h => by
      unfold cut
      rw [if_pos ⟨h, Nat.le_refl _⟩, List.take_of_length_le (by rw [List.length_drop])]
    have hlen : ∀ i n, i + n ≤ rest.length → ((rest.drop i).take n).length = n := fun i n h => by
      rw [List.length_take, List.length_drop]
      omega
    unfold unpack
    dsimp only
    split
    next h =>
      obtain ⟨rfl, hrest⟩ := h
      obtain ⟨hlt, hroom⟩ := beBytes_take (hlen 0 4 (by omega))
      obtain ⟨hlt', hid⟩ := @beBytes_take 8 (rest.drop 4) (by rw [List.length_drop, hrest])
      rw [hcut 0 4 (by omega), hend 4 (by omega)]
      refine ⟨_, rfl, ?_⟩
      rintro r h
      obtain rfl := Option.some.inj h
      unfold pack
      dsimp only
      rw [UInt32.toNat_ofNat_of_lt' (Nat.lt_of_lt_of_eq hlt (by decide)), hroom,
        UInt64.toNat_ofNat_of_lt' (Nat.lt_of_lt_of_eq hlt' (by decide)), hid, List.cons_append, List.drop_zero,
        List.take_append_drop]
    next =>
    split
    next h =>
      obtain ⟨rfl, hrest⟩ := h
      have hat : rest[16]? = some rest[16] := List.getElem?_eq_getElem (by omega)
      rw [hat]
      simp only [Option.bind_eq_bind, Option.bind_some]
      split
      next hsize =>
        rw [hend 17 (by omega)]
        simp only [Option.bind_some]
        cases hlogin : fromUtf8 (rest.drop 17) with
        | none => exact ⟨none, rfl, hrefused⟩
        | some login =>
          obtain ⟨g, hguid, hbytes⟩ := guidOf_bytes ⟨(rest.drop 0).take 16, hlen 0 16 (by omega)⟩
          rw [hcut 0 16 (by omega)]
          simp only [Option.bind_some]
          rw [hguid]
          refine ⟨_, rfl, ?_⟩
          intro r h
          unfold ofIm at h
          split at h
          next hfits =>
            obtain rfl := Option.some.inj h
            have hutf8 := fromUtf8_eq_some.1 hlogin
            have hword : UInt8.ofNat (utf8 login).length = rest[16] := by
              have hlast : rest.length - 17 = rest[16].toNat := by omega
              rw [hutf8, List.length_drop, hlast, UInt8.ofNat_toNat]
            unfold pack
            dsimp only
            rw [hbytes, hword, hutf8]
            simp only [Option.bind_eq_bind, Option.bind_some, List.drop_zero]
            rw [← List.drop_eq_getElem_cons (by omega : 16 < rest.length), List.cons_append, List.take_append_drop]
            rfl
          next => cases h
      next => exact ⟨none, rfl, hrefused⟩
    next =>
    split
    next h =>
      obtain ⟨rfl, hrest⟩ := h
      have hsigner : Bytes.ofList 32 ((rest.drop 0).take 32) = some ⟨_, hlen 0 32 (by omega)⟩ :=
        dif_pos (hlen 0 32 (by omega))
      have hid : Bytes.ofList 16 ((rest.drop 32).take 16) = some ⟨_, hlen 32 16 (by omega)⟩ :=
        dif_pos (hlen 32 16 (by omega))
      have hlast : (rest.drop 48).length = 32 := by rw [List.length_drop, hrest]
      have hhash : Bytes.ofList 32 (rest.drop 48) = some ⟨_, hlast⟩ := dif_pos hlast
      rw [hcut 0 32 (by omega), hcut 32 16 (by omega), hend 48 (by omega)]
      simp only [Option.bind_eq_bind, Option.bind_some]
      rw [hsigner, hid, hhash]
      refine ⟨_, rfl, ?_⟩
      rintro r h
      obtain rfl := Option.some.inj h
      unfold pack
      dsimp only
      have hmid : (rest.drop 32).take 16 ++ rest.drop 48 = rest.drop 32 := by
        rw [← List.drop_drop (i := 16) (j := 32), List.take_append_drop]
      rw [List.append_assoc, hmid, List.drop_zero, List.cons_append, List.take_append_drop]
    next =>
    split
    next h =>
      obtain ⟨rfl, hrest⟩ := h
      refine ⟨_, rfl, ?_⟩
      intro r h
      rw [Bytes.ofList, dif_pos hrest] at h
      obtain rfl := Option.some.inj h
      rfl
    next => exact ⟨none, rfl, hrefused⟩

/-- A reference is one byte string: what is packed fits and reads back, what is read packs to the same
bytes, without a panic, and so two stored strings name one target exactly where they are equal; and a
guid's bytes are a guid's. -/
theorem pack_canonical :
    (∀ r : Reply, ∃ b, r.pack = some b ∧ b.length ≤ maxPacked ∧ unpack b = some (some r)) ∧
    (∀ b, ∃ o, unpack b = some o ∧ ∀ r : Reply, o = some r → r.pack = some b) ∧
    (∀ b c, (∃ r, unpack b = some (some r) ∧ unpack c = some (some r)) ↔
      (∃ r, unpack b = some (some r)) ∧ b = c) ∧
    (∀ s, ∃ o, MessageGuid.parse s = some o) ∧
    ∀ g : MessageGuid, MessageGuid.parse g.text = some (some g) ∧
      ∃ b, guidBytes g = some b ∧ guidOf b.val = some (some g) := by
  refine ⟨unpack_pack, pack_unpack, ?_, parse_total, fun g => ⟨parse_text g, guidBytes_guidOf g⟩⟩
  intro b c
  constructor
  · rintro ⟨r, hb, hc⟩
    obtain ⟨o, ho, hpack⟩ := pack_unpack b
    obtain ⟨o', ho', hpack'⟩ := pack_unpack c
    have hrb := hpack r (Option.some.inj (ho.symm.trans hb))
    have hrc := hpack' r (Option.some.inj (ho'.symm.trans hc))
    exact ⟨⟨r, hb⟩, Option.some.inj (hrb.symm.trans hrc)⟩
  · rintro ⟨⟨r, hb⟩, rfl⟩
    exact ⟨r, hb, hb⟩

end Reply

end HxdNg.Replies
