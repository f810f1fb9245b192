import HxdNg.Lib.Segments
import HxdNg.Lib.Utf8

/-!
# The news search language

A query is parsed into terms made of nothing but words, and each store renders those however it searches.

* `Unicode` : which characters are letters and digits, and the tables of lowercase; `toLowercase` : a text's;
* `words`, `truncate`, `bounded` : the words of a text, and of a term's;
* `CompiledQuery.parse`, `pushAuthor` : a query read, by the bytes of its text. An index or a slice out of
  range, or off a character boundary, is a `none`, and so is a loop that does not end.
-/

namespace HxdNg.News

open Utf8

/-- Terms past this many are dropped. -/
def maxTerms : Nat := 16

/-- Each term's text is cut to this many bytes, at a character boundary. -/
def maxTermBytes : Nat := 64

/-- Where a term must be found. -/
inductive Field where
  | any
  | subject
  | author
  deriving DecidableEq

/-- One thing a hit must contain, or, negated, must not. -/
structure Term where
  words : List String
  field : Field
  negated : Bool
  isPrefix : Bool
  deriving DecidableEq

structure CompiledQuery where
  terms : List Term
  deriving DecidableEq

/-! ## Words -/

/-- The tables of a version of Unicode. -/
structure Unicode where
  isAlphanumeric : Char → Bool
  toLower : Char → List Char
  caseIgnorable : Char → Bool
  cased : Char → Bool

namespace Unicode
variable (U : Unicode)

def caseIgnorableThenCased (s : List Char) : Bool := (s.dropWhile U.caseIgnorable).head?.any U.cased

/-- Σ is σ, but ς at the end of a word. -/
def mapUppercaseSigma (before after : List Char) : Char :=
  if U.caseIgnorableThenCased before && !U.caseIgnorableThenCased after then 'ς' else 'σ'

/-- The lowercase of a text with what is before it, in reverse. -/
def lowerFrom (before : List Char) : List Char → List Char
  | [] => []
  | c :: after =>
    (if c = 'Σ' then [U.mapUppercaseSigma before after] else U.toLower c) ++ lowerFrom (c :: before) after

def toLowercase (s : List Char) : List Char := U.lowerFrom [] s

/-- The words of a text: runs of letters and digits, lowercased. -/
def words (text : List Char) : List String :=
  (segments U.isAlphanumeric text).map fun w => String.ofList (U.toLowercase w)

end Unicode

def truncate (s : List Char) (max : Nat) : Option (List Char) :=
  if size s ≤ max then some s else slice s 0 (floorBoundary s max)

/-- A term's words, bounded, and whether the last of them is a prefix. A cut that lands inside a word keeps
what it has of that word as a prefix of it. -/
def bounded (U : Unicode) (text : List Char) (typedPrefix : Bool) : Option (List String × Bool) := do
  let cut ← truncate text maxTermBytes
  if size cut = size text then some (U.words text, typedPrefix)
  else
    let rest ← dropBytes text (size cut)
    let insideAWord := cut.getLast?.any U.isAlphanumeric && rest.head?.any U.isAlphanumeric
    some (U.words cut, insideAWord)

/-! ## Parsing -/

def isAsciiWhitespace (b : UInt8) : Bool := b = 0x20 || b = 0x09 || b = 0x0a || b = 0x0c || b = 0x0d

def eqIgnoreAsciiCase (a b : List Char) : Bool := a.map Char.toLower = b.map Char.toLower

def fieldNames : List (List Char × Field) := [("subject:".toList, .subject), ("from:".toList, .author)]

/-- The field named at an offset, and where its term begins. -/
def readField (s : List Char) (i : Nat) : List (List Char × Field) → Field × Nat
  | [] => (.any, i)
  | (name, f) :: rest =>
    let named := (slice s i (i + size name)).any (eqIgnoreAsciiCase · name)
    if named ∧ (bytes s)[i + size name]?.any (fun c => !isAsciiWhitespace c) then (f, i + size name)
    else readField s i rest

/-- The offset of a character. -/
def find (c : Char) (s : List Char) : Option Nat := if c ∈ s then some (size (s.takeWhile (· ≠ c))) else none

/-- A phrase runs to the closing quote, or to the end: its text, whether it is a prefix, and what follows. -/
def readPhrase (s : List Char) (i : Nat) : Option (List Char × Bool × Nat) := do
  let start := i + 1
  let tail ← dropBytes s start
  let stop := (find '"' tail).elim (size s) (start + ·)
  let i := min (stop + 1) (size s)
  let isPrefix : Bool := (bytes s)[i]? = some 0x2a
  let text ← slice s start stop
  some (text, isPrefix, if isPrefix then i + 1 else i)

def trimEndStars (s : List Char) : List Char := (s.reverse.dropWhile (· = '*')).reverse

/-- Text up to the next white space. -/
def readBare (s : List Char) (i : Nat) : Option (List Char × Bool × Nat) := do
  let stop := i + (((bytes s).drop i).takeWhile fun b => !isAsciiWhitespace b).length
  let raw ← slice s i stop
  let bare := trimEndStars raw
  some (bare, size bare < size raw, stop)

/-- The text of the term at an offset, by its first byte. -/
def readText (s : List Char) (b : UInt8) (i : Nat) : Option (List Char × Bool × Nat) :=
  if b = 0x22 then readPhrase s i else readBare s i

/-- The terms of a text from an offset on, after those there are. -/
def parseFrom (U : Unicode) (s : List Char) : Nat → Nat → List Term → Option (List Term)
  | 0, _, _ => none
  | fuel + 1, i, terms =>
    if i < size s ∧ terms.length < maxTerms then do
      let b ← (bytes s)[i]?
      if isAsciiWhitespace b then parseFrom U s fuel (i + 1) terms
      else
        let negated : Bool := b = 0x2d && (bytes s)[i + 1]?.any fun c => !isAsciiWhitespace c
        let i := if negated then i + 1 else i
        let (field, i) := readField s i fieldNames
        let b ← (bytes s)[i]?
        let (text, isPrefix, i) ← readText s b i
        let (words, isPrefix) ← bounded U text isPrefix
        if words = [] then parseFrom U s fuel i terms
        else parseFrom U s fuel i (terms ++ [⟨words, field, negated, isPrefix⟩])
    else some terms

namespace CompiledQuery

/-- Read a query. Every turn of the loop goes on by a byte or more. -/
def parse (U : Unicode) (input : String) : Option CompiledQuery :=
  (parseFrom U input.toList (size input.toList + 1) 0 []).map .mk

/-- Add "by this author"; a query already full gives up its last term for it. -/
def pushAuthor (U : Unicode) (q : CompiledQuery) (who : String) : Option CompiledQuery := do
  let (words, isPrefix) ← bounded U who.toList false
  if words = [] then some q else some ⟨q.terms.take (maxTerms - 1) ++ [⟨words, .author, false, isPrefix⟩]⟩

/-- Exclusions alone match nothing. -/
def matchesNothing (q : CompiledQuery) : Bool := q.terms.all (·.negated)

end CompiledQuery

/-! ## Words, and words again -/

/-- What is documented of the tables: the lowercase of a letter or a digit is one, which is its own
lowercase; but that of İ is two characters, the second a mark. -/
structure Unicode.Lawful (U : Unicode) : Prop where
  lower : ∀ c, U.isAlphanumeric c = true → c ≠ 'İ' →
    ∃ d, U.toLower c = [d] ∧ U.isAlphanumeric d = true ∧ U.toLower d = [d] ∧ d ≠ 'Σ' ∧ d ≠ 'İ'
  dotted : U.isAlphanumeric 'İ' = true ∧ U.toLower 'İ' = ['i', '\u0307'] ∧ U.isAlphanumeric '\u0307' = false
  sigma : ∀ c ∈ ['σ', 'ς'], U.isAlphanumeric c = true ∧ U.toLower c = [c]

section Words
variable {U : Unicode}

theorem lowerFrom_of_fixed (before : List Char) {s : List Char} (h : ∀ c ∈ s, U.toLower c = [c] ∧ c ≠ 'Σ') :
    U.lowerFrom before s = s := by
  induction s generalizing before with
  | nil => rfl
  | cons c s ih =>
    obtain ⟨hfixed, hsigma⟩ := h c List.mem_cons_self
    rw [Unicode.lowerFrom, if_neg hsigma, hfixed, ih _ fun d hd => h d (List.mem_cons_of_mem _ hd)]
    rfl

theorem lowerFrom_ne_nil (hU : U.Lawful) (before : List Char) {s : List Char} (hs : s ≠ [])
    (h : ∀ c ∈ s, U.isAlphanumeric c = true) : U.lowerFrom before s ≠ [] := by
  cases s with
  | nil => exact absurd rfl hs
  | cons c s =>
    rw [Unicode.lowerFrom]
    split
    · simp
    · by_cases hc : c = 'İ'
      · rw [hc, hU.dotted.2.1]
        simp
      · obtain ⟨d, hd, -⟩ := hU.lower c (h c List.mem_cons_self) hc
        rw [hd]
        simp

/-- A run without İ in lowercase: letters and digits, each its own lowercase. -/
theorem mem_lowerFrom (hU : U.Lawful) (before : List Char) {s : List Char}
    (h : ∀ c ∈ s, U.isAlphanumeric c = true) (hdot : 'İ' ∉ s) :
    ∀ d ∈ U.lowerFrom before s, U.isAlphanumeric d = true ∧ U.toLower d = [d] ∧ d ≠ 'Σ' := by
  induction s generalizing before with
  | nil => exact fun d hd => nomatch hd
  | cons c s ih =>
    intro d hd
    rw [Unicode.lowerFrom] at hd
    rcases List.mem_append.mp hd with hd | hd
    · split at hd
      · have hmem : d ∈ ['σ', 'ς'] := by
          rw [List.mem_singleton.mp hd]
          unfold Unicode.mapUppercaseSigma
          split <;> simp
        obtain ⟨halpha, hfixed⟩ := hU.sigma d hmem
        refine ⟨halpha, hfixed, ?_⟩
        rintro rfl
        revert hmem
        decide
      · have hc : c ≠ 'İ' := fun hc => hdot (hc ▸ List.mem_cons_self)
        obtain ⟨e, he, halpha, hfixed, hsigma, -⟩ := hU.lower c (h c List.mem_cons_self) hc
        rw [he, List.mem_singleton] at hd
        rw [hd]
        exact ⟨halpha, hfixed, hsigma⟩
    · exact ih _ (fun e he => h e (List.mem_cons_of_mem _ he)) (fun hdots => hdot (List.mem_cons_of_mem _ hdots)) d hd

theorem mark_mem_lowerFrom (hU : U.Lawful) (before : List Char) {s : List Char} (h : 'İ' ∈ s) :
    '\u0307' ∈ U.lowerFrom before s := by
  induction s generalizing before with
  | nil => cases h
  | cons c s ih =>
    rw [Unicode.lowerFrom, List.mem_append]
    by_cases hc : c = 'İ'
    · left
      rw [if_neg (by rw [hc]; decide), hc, hU.dotted.2.1]
      simp
    · exact .inr (ih _ ((List.mem_cons.mp h).resolve_left (Ne.symm hc)))

/-- A run in lowercase is letters and digits just where it has no İ, and then it is one word again. -/
theorem lowercase_run (hU : U.Lawful) {r : List Char} (hr : r ≠ []) (h : ∀ c ∈ r, U.isAlphanumeric c = true) :
    ((∀ c ∈ U.toLowercase r, U.isAlphanumeric c = true) ↔ 'İ' ∉ r) ∧
      ('İ' ∉ r → U.words (U.toLowercase r) = [String.ofList (U.toLowercase r)]) := by
  refine ⟨⟨fun hall hdot => ?_, fun hdot c hc => (mem_lowerFrom hU [] h hdot c hc).1⟩, fun hdot => ?_⟩
  · have hmark := hall _ (mark_mem_lowerFrom hU [] hdot)
    rw [hU.dotted.2.2] at hmark
    cases hmark
  · have hmem := mem_lowerFrom hU [] h hdot
    unfold Unicode.words Unicode.toLowercase
    rw [segments_of_all (fun c hc => (hmem c hc).1) (lowerFrom_ne_nil hU [] hr h), List.map_singleton]
    exact congrArg (fun w => [String.ofList w]) (lowerFrom_of_fixed [] fun c hc => (hmem c hc).2)

end Words

/-! ## Terms -/

section Bounds
variable {U : Unicode}

/-- What is kept of a text: all of it, or its start. -/
theorem truncate_eq (s : List Char) (max : Nat) :
    ∃ kept rest, truncate s max = some kept ∧ s = kept ++ rest ∧ size kept ≤ max := by
  unfold truncate
  split
  · next h => exact ⟨s, [], rfl, (List.append_nil s).symm, h⟩
  · obtain ⟨kept, rest, hslice, heq, hle⟩ := slice_floorBoundary s max
    exact ⟨kept, rest, hslice, heq, hle⟩

/-- What is kept of a text, and the words of it. -/
structure Kept (U : Unicode) (text : List Char) (typed : Bool) (kept rest : List Char) (words : List String)
    (isPrefix : Bool) : Prop where
  text : text = kept ++ rest
  size : size kept ≤ maxTermBytes
  words : words = U.words kept
  whole : rest = [] → isPrefix = typed
  cut : rest ≠ [] → isPrefix = (kept.getLast?.any U.isAlphanumeric && rest.head?.any U.isAlphanumeric)

theorem bounded_eq (U : Unicode) (text : List Char) (typed : Bool) :
    ∃ words isPrefix kept rest, bounded U text typed = some (words, isPrefix) ∧
      Kept U text typed kept rest words isPrefix := by
  obtain ⟨kept, rest, htruncate, rfl, hsize⟩ := truncate_eq text maxTermBytes
  unfold bounded
  rw [htruncate, Option.bind_eq_bind, Option.bind_some]
  by_cases hrest : rest = []
  · rw [hrest, List.append_nil, if_pos rfl]
    exact ⟨_, typed, kept, [], rfl, ⟨(List.append_nil kept).symm, hsize, rfl, fun _ => rfl, fun h => absurd rfl h⟩⟩
  · have hcut : size kept ≠ size (kept ++ rest) := by
      rw [size_append]
      intro h
      exact hrest (size_eq_zero.mp (by omega))
    rw [if_neg hcut, dropBytes_append]
    exact ⟨_, _, kept, rest, rfl, ⟨rfl, hsize, rfl, fun h => absurd h hrest, fun _ => rfl⟩⟩

/-- The runs kept of a text that was cut: its own, up to a last one that is its start where the cut is inside
it. -/
theorem Kept.runs {text kept rest : List Char} {typed isPrefix : Bool} {words : List String}
    (h : Kept U text typed kept rest words isPrefix) (hcut : rest ≠ []) :
    (isPrefix = true ∧ ∃ before r r' after, r ≠ [] ∧ r' ≠ [] ∧
      segments U.isAlphanumeric kept = before ++ [r] ∧
      segments U.isAlphanumeric text = before ++ (r ++ r') :: after) ∨
    isPrefix = false ∧ segments U.isAlphanumeric text =
      segments U.isAlphanumeric kept ++ segments U.isAlphanumeric rest := by
  rw [h.cut hcut, h.text]
  cases hlast : kept.getLast?.any U.isAlphanumeric with
  | true =>
    cases hhead : rest.head?.any U.isAlphanumeric with
    | true => exact .inl ⟨rfl, segments_across hlast hhead⟩
    | false =>
      refine .inr ⟨rfl, segments_append (.inr ?_)⟩
      cases hr : rest.head? with
      | none => rfl
      | some c =>
        rw [hr] at hhead
        simpa using hhead
  | false =>
    refine .inr ⟨rfl, segments_append (.inl ?_)⟩
    cases hk : kept.getLast? with
    | none => rfl
    | some c =>
      rw [hk] at hlast
      simpa using hlast

end Bounds

/-! ## Offsets between characters -/

section Offsets
variable {s : List Char}

/-- An offset between characters, with the text before it and after it. -/
def At (s : List Char) (i : Nat) : Prop := ∃ before after, s = before ++ after ∧ size before = i

theorem At.zero (s : List Char) : At s 0 := ⟨[], s, rfl, rfl⟩

theorem At.le {i : Nat} (h : At s i) : i ≤ size s := by
  obtain ⟨before, after, rfl, rfl⟩ := h
  rw [size_append]
  exact Nat.le_add_right _ _

theorem At.succ {i : Nat} (h : At s i) {b : UInt8} (hb : (bytes s)[i]? = some b) (hascii : b.toNat < 128) :
    At s (i + 1) := by
  obtain ⟨before, after, rfl, rfl⟩ := h
  obtain ⟨c, after', rfl, -, hone, -⟩ := ascii_at hb hascii
  refine ⟨before ++ [c], after', by simp, ?_⟩
  rw [size_append, size_cons, hone]
  rfl

theorem At.slice {i j : Nat} {t : List Char} (h : Utf8.slice s i j = some t) : At s j := by
  obtain ⟨before, after, rfl, -, hj⟩ := slice_eq_some h
  exact ⟨before ++ t, after, rfl, by rw [size_append, hj]⟩

theorem ascii_of_whitespace {b : UInt8} (h : isAsciiWhitespace b = true) : b.toNat < 128 := by
  simp only [isAsciiWhitespace, Bool.or_eq_true, decide_eq_true_eq] at h
  rcases h with (((rfl | rfl) | rfl) | rfl) | rfl <;> decide

theorem get_of_any {i : Nat} {p : UInt8 → Bool} (h : (bytes s)[i]?.any p = true) :
    ∃ b, (bytes s)[i]? = some b ∧ p b = true := by
  cases hb : (bytes s)[i]? with
  | none =>
    rw [hb] at h
    cases h
  | some b =>
    rw [hb] at h
    exact ⟨b, rfl, h⟩

theorem readField_at {i : Nat} (hi : At s i) {b : UInt8} (hb : (bytes s)[i]? = some b)
    (hwhite : isAsciiWhitespace b = false) (names : List (List Char × Field)) :
    i ≤ (readField s i names).2 ∧ At s (readField s i names).2 ∧
      ∃ b, (bytes s)[(readField s i names).2]? = some b ∧ isAsciiWhitespace b = false := by
  induction names with
  | nil => exact ⟨Nat.le_refl i, hi, b, hb, hwhite⟩
  | cons name names ih =>
    obtain ⟨name, f⟩ := name
    unfold readField
    dsimp only
    split
    · next h =>
      obtain ⟨hnamed, hnext⟩ := h
      obtain ⟨b', hb', hwhite'⟩ := get_of_any hnext
      cases hslice : Utf8.slice s i (i + size name) with
      | none =>
        rw [hslice] at hnamed
        cases hnamed
      | some t => exact ⟨Nat.le_add_right _ _, At.slice hslice, b', hb', by simpa using hwhite'⟩
    · exact ih

/-- A term's text is part of the text, and the next offset is past it. -/
structure Read (s : List Char) (i : Nat) (r : List Char × Bool × Nat) : Prop where
  part : ∃ before after, s = before ++ r.1 ++ after
  next : At s r.2.2
  past : i < r.2.2

theorem readPhrase_at {i : Nat} (hi : At s i) (hb : (bytes s)[i]? = some 0x22) :
    ∃ r, readPhrase s i = some r ∧ Read s i r := by
  have hnext := hi.succ hb (by decide)
  obtain ⟨before, after, hs, hsize⟩ := hnext
  have hdrop : dropBytes s (i + 1) = some after := by rw [hs, ← hsize, dropBytes_append]
  simp only [readPhrase, Option.bind_eq_bind, hdrop, Option.bind_some]
  -- The closing quote, or the end.
  obtain ⟨text, rest, hafter, hstop, hclose⟩ : ∃ text rest, after = text ++ rest ∧
      (find '"' after).elim (size s) (i + 1 + ·) = i + 1 + size text ∧
      At s (min (i + 1 + size text + 1) (size s)) := by
    unfold find
    split
    · next hmem =>
      have hsplit := (List.takeWhile_append_dropWhile (p := fun c => decide (c ≠ '"')) (l := after)).symm
      refine ⟨_, _, hsplit, rfl, ?_⟩
      cases hd : after.dropWhile fun c => decide (c ≠ '"') with
      | nil =>
        have hall := List.dropWhile_eq_nil_iff.mp hd '"' hmem
        simp at hall
      | cons c t =>
        have hc : c = '"' := by
          have hhead := List.head?_dropWhile_not (fun c => decide (c ≠ '"')) after
          rw [hd] at hhead
          simpa using hhead
        have hone : c.utf8Size = 1 := by rw [hc]; decide
        rw [hd] at hsplit
        have hplace : min (i + 1 + size (after.takeWhile fun c => decide (c ≠ '"')) + 1) (size s) =
            i + 1 + size (after.takeWhile fun c => decide (c ≠ '"')) + 1 := by
          have := congrArg size hsplit
          rw [size_append, size_cons] at this
          rw [hs, size_append]
          omega
        rw [hplace]
        refine ⟨before ++ (after.takeWhile fun c => decide (c ≠ '"')) ++ [c], t, ?_, ?_⟩
        · rw [hs]
          nth_rewrite 1 [hsplit]
          simp
        · rw [size_append, size_append, hsize, size_cons, hone]
          rfl
    · refine ⟨after, [], (List.append_nil after).symm, ?_, ?_⟩
      · rw [Option.elim_none, hs, size_append, hsize]
      · have hplace : min (i + 1 + size after + 1) (size s) = size s := by
          rw [hs, size_append]
          omega
        rw [hplace]
        exact ⟨s, [], (List.append_nil s).symm, rfl⟩
  rw [hstop]
  have hslice : slice s (i + 1) (i + 1 + size text) = some text := by
    rw [hs, hafter, ← List.append_assoc, ← hsize, slice_append]
  rw [hslice]
  have hpast : i < min (i + 1 + size text + 1) (size s) := by
    rw [hs, size_append]
    omega
  refine ⟨_, rfl, ⟨⟨before, rest, by rw [hs, hafter, List.append_assoc]⟩, ?_, ?_⟩⟩
  · dsimp only
    split
    · next hstar => exact hclose.succ (of_decide_eq_true hstar) (by decide)
    · exact hclose
  · dsimp only
    split <;> omega

theorem readBare_at {i : Nat} (hi : At s i) {b : UInt8} (hb : (bytes s)[i]? = some b)
    (hwhite : isAsciiWhitespace b = false) : ∃ r, readBare s i = some r ∧ Read s i r := by
  obtain ⟨before, after, rfl, rfl⟩ := hi
  rw [getElem?_bytes_at] at hb
  -- White space is ASCII, so the bytes stop between characters.
  let white (c : Char) : Bool := decide (c.toNat < 128) && isAsciiWhitespace (UInt8.ofNat c.toNat)
  have hlen : (((bytes (before ++ after)).drop (size before)).takeWhile fun b => !isAsciiWhitespace b).length =
      size (after.takeWhile fun c => !white c) := by
    have hdrop : (bytes (before ++ after)).drop (size before) = bytes after := by
      rw [bytes_append]
      exact List.drop_left
    rw [hdrop]
    refine length_takeWhile_bytes (fun b hb => ?_) (fun c hc => ?_) (fun c hc => ?_) after
    · cases hw : isAsciiWhitespace b with
      | false => rfl
      | true => exact absurd (ascii_of_whitespace hw) (Nat.not_lt.mpr hb)
    · simp only [white, hc, decide_true, Bool.true_and]
    · simp only [white, hc, decide_false, Bool.false_and, Bool.not_false]
  have hsplit := (List.takeWhile_append_dropWhile (p := fun c => !white c) (l := after)).symm
  have hpos : 0 < size (after.takeWhile fun c => !white c) := by
    rw [← hlen, bytes_append]
    have hdrop : (bytes before ++ bytes after).drop (size before) = bytes after := List.drop_left
    rw [hdrop]
    cases hbytes : bytes after with
    | nil =>
      rw [hbytes] at hb
      cases hb
    | cons b' bs =>
      rw [hbytes] at hb
      obtain rfl := Option.some.inj hb
      rw [List.takeWhile_cons, if_pos (by simpa using hwhite)]
      exact Nat.succ_pos _
  generalize after.takeWhile (fun c => !white c) = raw at hlen hsplit hpos
  generalize after.dropWhile (fun c => !white c) = rest at hsplit
  subst hsplit
  have hslice : slice (before ++ (raw ++ rest)) (size before) (size before + size raw) = some raw := by
    rw [← List.append_assoc, slice_append]
  unfold readBare
  dsimp only
  rw [hlen, Option.bind_eq_bind, hslice]
  refine ⟨_, rfl, ⟨⟨before, ?_⟩, ⟨before ++ raw, rest, by simp, by rw [size_append]⟩, Nat.lt_add_of_pos_right hpos⟩⟩
  -- The stars that end it are left out.
  have hstars := List.takeWhile_append_dropWhile (p := fun c => decide (c = '*')) (l := raw.reverse)
  refine ⟨(raw.reverse.takeWhile fun c => decide (c = '*')).reverse ++ rest, ?_⟩
  show _ = before ++ trimEndStars raw ++ _
  unfold trimEndStars
  have hraw := congrArg List.reverse hstars
  rw [List.reverse_append, List.reverse_reverse] at hraw
  nth_rewrite 1 [← hraw]
  simp

end Offsets

/-! ## Queries -/

/-- A term of a text: the words kept of a part of it. -/
def TermOf (U : Unicode) (s : List Char) (t : Term) : Prop :=
  t.words ≠ [] ∧ ∃ text typed kept rest, (∃ before after, s = before ++ text ++ after) ∧
    Kept U text typed kept rest t.words t.isPrefix

theorem parseFrom_spec (U : Unicode) {s : List Char} (fuel : Nat) {i : Nat} {terms : List Term} (hi : At s i)
    (hfuel : size s < i + fuel) (hlen : terms.length ≤ maxTerms) (hterms : ∀ t ∈ terms, TermOf U s t) :
    ∃ ts, parseFrom U s fuel i terms = some ts ∧ ts.length ≤ maxTerms ∧ ∀ t ∈ ts, TermOf U s t := by
  induction fuel generalizing i terms with
  | zero =>
    have := hi.le
    omega
  | succ fuel ih =>
    unfold parseFrom
    split
    case isFalse => exact ⟨terms, rfl, hlen, hterms⟩
    case isTrue hgo =>
    obtain ⟨hin, hroom⟩ := hgo
    obtain ⟨b, hb⟩ : ∃ b, (bytes s)[i]? = some b := ⟨_, List.getElem?_eq_getElem hin⟩
    rw [Option.bind_eq_bind, hb, Option.bind_some]
    split
    · next hwhite => exact ih (hi.succ hb (ascii_of_whitespace hwhite)) (by omega) hlen hterms
    next hwhite =>
    -- Past a minus sign is another byte of the term.
    have hminus : ∀ negated : Bool,
        negated = (b = 0x2d && (bytes s)[i + 1]?.any fun c => !isAsciiWhitespace c) →
        i ≤ (if negated then i + 1 else i) ∧ At s (if negated then i + 1 else i) ∧
          ∃ b', (bytes s)[if negated then i + 1 else i]? = some b' ∧ isAsciiWhitespace b' = false := by
      intro negated hnegated
      cases negated with
      | false => exact ⟨Nat.le_refl i, hi, b, hb, by simpa using hwhite⟩
      | true =>
        have hboth := (Bool.and_eq_true _ _).mp hnegated.symm
        obtain ⟨b', hb', hwhite'⟩ := get_of_any hboth.2
        have hdash : b = 0x2d := of_decide_eq_true hboth.1
        exact ⟨Nat.le_succ i, hi.succ hb (by rw [hdash]; decide), b', hb', by simpa using hwhite'⟩
    dsimp only
    generalize hnegated : (decide (b = 0x2d) && (bytes s)[i + 1]?.any fun c => !isAsciiWhitespace c) = negated
    obtain ⟨hle, hat, b', hb', hwhite'⟩ := hminus negated hnegated.symm
    obtain ⟨hle', hat', c, hc, hwhite''⟩ := readField_at hat hb' hwhite' fieldNames
    generalize readField s (if negated then i + 1 else i) fieldNames = named at hle' hat' hc
    obtain ⟨field, j⟩ := named
    dsimp only at hle' hat' hc ⊢
    rw [hc, Option.bind_some]
    obtain ⟨r, hr, hread⟩ : ∃ r, readText s c j = some r ∧ Read s j r := by
      unfold readText
      split
      · next hquote => exact readPhrase_at hat' (hquote ▸ hc)
      · exact readBare_at hat' hc hwhite''
    obtain ⟨text, typed, k⟩ := r
    obtain ⟨words, isPrefix, kept, rest, hbounded, hkept⟩ := bounded_eq U text typed
    have hpast : j < k := hread.past
    rw [hr, Option.bind_eq_bind, Option.bind_some]
    dsimp only
    rw [hbounded, Option.bind_eq_bind, Option.bind_some]
    dsimp only
    split
    · exact ih hread.next (by omega) hlen hterms
    · next hwords =>
      refine ih hread.next (by omega) ?_ fun t ht => ?_
      · rw [List.length_append]
        exact hroom
      · rcases List.mem_append.mp ht with ht | ht
        · exact hterms t ht
        · rw [List.mem_singleton.mp ht]
          exact ⟨hwords, text, typed, kept, rest, hread.part, hkept⟩

/-- The tables of ASCII, of sigma and of İ. -/
def someUnicode : Unicode where
  isAlphanumeric c := c.isAlphanum || c ∈ ['İ', 'Σ', 'σ', 'ς']
  toLower c := if c = 'İ' then ['i', '\u0307'] else if c = 'Σ' then ['σ'] else [c.toLower]
  caseIgnorable c := c ∈ ['\'', '.', ':', '\u0307']
  cased c := c.isAlpha || c ∈ ['İ', 'Σ', 'σ', 'ς']

theorem someUnicode_lawful : someUnicode.Lawful where
  lower c hc hdot := by
    have hascii : ∀ n < 128, (Char.ofNat n).isAlphanum = true → someUnicode.toLower (Char.ofNat n) =
        [(Char.ofNat n).toLower] ∧ someUnicode.isAlphanumeric (Char.ofNat n).toLower = true ∧
        someUnicode.toLower (Char.ofNat n).toLower = [(Char.ofNat n).toLower] ∧ (Char.ofNat n).toLower ≠ 'Σ' ∧
        (Char.ofNat n).toLower ≠ 'İ' := by
      decide +kernel
    rcases (Bool.or_eq_true _ _).mp hc with hc | hc
    · have hsmall : c.toNat < 128 := by
        simp only [Char.isAlphanum, Char.isAlpha, Char.isUpper, Char.isLower, Char.isDigit, Bool.or_eq_true,
          Bool.and_eq_true, decide_eq_true_eq, ge_iff_le, UInt32.le_iff_toNat_le] at hc
        show c.val.toNat < 128
        rcases hc with (⟨-, hc⟩ | ⟨-, hc⟩) | ⟨-, hc⟩ <;> exact Nat.lt_of_le_of_lt hc (by decide)
      have := hascii c.toNat hsmall
      rw [Char.ofNat_toNat] at this
      exact ⟨c.toLower, this hc⟩
    · have hmem : c ∈ ['Σ', 'σ', 'ς'] := by
        have hall := of_decide_eq_true hc
        exact (List.mem_cons.mp hall).resolve_left hdot
      rcases List.mem_cons.mp hmem with rfl | hmem
      · exact ⟨'σ', by decide +kernel⟩
      rcases List.mem_cons.mp hmem with rfl | hmem
      · exact ⟨'σ', by decide +kernel⟩
      rw [List.mem_singleton.mp hmem]
      exact ⟨'ς', by decide +kernel⟩
  dotted := by decide +kernel
  sigma c hc := by
    rcases List.mem_cons.mp hc with rfl | hc
    · decide +kernel
    · rw [List.mem_singleton.mp hc]
      decide +kernel

example : CompiledQuery.parse someUnicode "-from:Alice \"Phase 4\"*" =
    some ⟨[⟨["alice"], .author, true, false⟩, ⟨["phase", "4"], .any, false, true⟩]⟩ := by
  decide +kernel

end HxdNg.News
