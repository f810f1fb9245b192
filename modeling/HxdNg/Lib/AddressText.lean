import Mathlib
import HxdNg.Lib.Regroup

/-!
# The text of numbers and of internet addresses

The display form of an address, and the parser of one: dotted decimal for IPv4; for IPv6 groups of
hexadecimal digits, the longest run of zeros left out, an IPv4 address in the last two.

* `readNumber` : the digits at the head of a text; `readNumber_toDigits` : those of a number's own form;
* `showIpv4`, `readIpv4`, `readIpv4_show` : dotted decimal, read back;
* `showIpv6`, `readIpv6`, `readIpv6_show` : groups, read back.
-/

namespace HxdNg.AddressText

/-! ## Numbers -/

/-- The value of a digit in a base of up to 36. -/
def digitOf (radix : Nat) (c : Char) : Option Nat :=
  (if c.isDigit then some (c.toNat - 48)
  else if 'a' ≤ c ∧ c ≤ 'z' then some (c.toNat - 87)
  else if 'A' ≤ c ∧ c ≤ 'Z' then some (c.toNat - 55)
  else none).filter (· < radix)

/-- The digits a text begins with, and the rest of it. -/
def spanDigits (radix : Nat) : List Char → List Nat × List Char
  | [] => ([], [])
  | c :: s =>
    match digitOf radix c with
    | none => ([], c :: s)
    | some d => (d :: (spanDigits radix s).1, (spanDigits radix s).2)

/-- Read a number of at most `maxDigits` digits and at most `bound`. -/
def readNumber (radix maxDigits : Nat) (allowZeroPrefix : Bool) (bound : Nat) (s : List Char) :
    Option (Nat × List Char) :=
  let (ds, rest) := spanDigits radix s
  if maxDigits < ds.length then none
  else if ds = [] then none
  else if ¬ allowZeroPrefix ∧ ds.head? = some 0 ∧ 1 < ds.length then none
  else if places radix ds ≤ bound then some (places radix ds, rest) else none

theorem digitOf_digitChar : ∀ d < 16, ∀ radix < 17, d < radix → digitOf radix d.digitChar = some d := by
  decide

theorem spanDigits_map {radix : Nat} (hradix : radix ≤ 16) {ds : List Nat} (hds : ∀ d ∈ ds, d < radix)
    {rest : List Char} (hrest : ∀ c ∈ rest.head?, digitOf radix c = none) :
    spanDigits radix (ds.map Nat.digitChar ++ rest) = (ds, rest) := by
  induction ds with
  | nil =>
    cases rest with
    | nil => rfl
    | cons c rest =>
      have hc := hrest c rfl
      simp only [List.map_nil, List.nil_append, spanDigits, hc]
  | cons d ds ih =>
    have hd := hds d List.mem_cons_self
    have hread := digitOf_digitChar d (by omega) radix (by omega) hd
    have htail := ih fun e he => hds e (List.mem_cons_of_mem _ he)
    simp only [List.map_cons, List.cons_append, spanDigits, hread, htail]

/-- The digits of a number's own form: its value, with no zero first unless it is alone. -/
theorem toDigits_spec {radix : Nat} (hradix : 1 < radix) (n : Nat) :
    ∃ ds, Nat.toDigits radix n = ds.map Nat.digitChar ∧ (∀ d ∈ ds, d < radix) ∧ places radix ds = n ∧
      ds ≠ [] ∧ (ds.head? = some 0 → n = 0) := by
  induction n using Nat.strong_induction_on with
  | _ n ih =>
    rw [Nat.toDigits_eq_if hradix]
    split
    · next hlt => exact ⟨[n], rfl, by simpa using hlt, by simp [places], by simp, by simp⟩
    · next hge =>
      have hdiv : n / radix < n := Nat.div_lt_self (by omega) hradix
      obtain ⟨ds, hmap, hlt, hval, hne, hhead⟩ := ih (n / radix) hdiv
      refine ⟨ds ++ [n % radix], by rw [hmap, List.map_append]; rfl, fun d hd => ?_, ?_, by simp, fun h => ?_⟩
      · rcases List.mem_append.mp hd with hd | hd
        · exact hlt d hd
        · rw [List.mem_singleton.mp hd]
          exact Nat.mod_lt _ (by omega)
      · rw [places, List.foldl_append]
        show places radix ds * radix + n % radix = n
        rw [hval]
        exact Nat.div_add_mod' n radix
      · rw [List.head?_append_of_ne_nil _ hne] at h
        have hzero := hhead h
        have hpos : 0 < n / radix := Nat.div_pos (by omega) (by omega)
        omega

theorem readNumber_toDigits {radix maxDigits bound n : Nat} {allowZeroPrefix : Bool} (hradix : 1 < radix)
    (hmax : radix ≤ 16) (hdigits : 0 < maxDigits) (hlen : n < radix ^ maxDigits) (hbound : n ≤ bound)
    {rest : List Char} (hrest : ∀ c ∈ rest.head?, digitOf radix c = none) :
    readNumber radix maxDigits allowZeroPrefix bound (Nat.toDigits radix n ++ rest) = some (n, rest) := by
  obtain ⟨ds, hmap, hlt, hval, hne, hhead⟩ := toDigits_spec hradix n
  have hlength : ds.length ≤ maxDigits := by
    have := (Nat.length_toDigits_le_iff (n := n) hradix hdigits).mpr hlen
    rwa [hmap, List.length_map] at this
  have hlead : ¬ (¬ (allowZeroPrefix = true) ∧ ds.head? = some 0 ∧ 1 < ds.length) := by
    rintro ⟨-, hz, hlong⟩
    have hone : (Nat.toDigits radix n).length = 1 := by
      rw [hhead hz, Nat.toDigits_zero]
      rfl
    rw [hmap, List.length_map] at hone
    omega
  unfold readNumber
  rw [hmap, spanDigits_map hmax hlt hrest]
  dsimp only
  rw [if_neg (Nat.not_lt.mpr hlength), if_neg hne, if_neg hlead, hval, if_pos hbound]

theorem spanDigits_suffix (radix : Nat) (s : List Char) : (spanDigits radix s).2 <:+ s := by
  induction s with
  | nil => exact List.suffix_refl _
  | cons c s ih =>
    unfold spanDigits
    split
    · exact List.suffix_refl _
    · exact ih.trans (List.suffix_cons c s)

theorem readNumber_suffix {radix maxDigits bound n : Nat} {allowZeroPrefix : Bool} {s rest : List Char}
    (h : readNumber radix maxDigits allowZeroPrefix bound s = some (n, rest)) : rest <:+ s := by
  unfold readNumber at h
  dsimp only at h
  split at h
  · cases h
  split at h
  · cases h
  split at h
  · cases h
  split at h
  · rw [← (Prod.mk.inj (Option.some.inj h)).2]
    exact spanDigits_suffix radix s
  · cases h

theorem digit_of_mem_toDigits {radix n : Nat} (hradix : 1 < radix) {c : Char}
    (h : c ∈ Nat.toDigits radix n) : ∃ d < radix, c = Nat.digitChar d := by
  obtain ⟨ds, hmap, hlt, -⟩ := toDigits_spec hradix n
  rw [hmap] at h
  obtain ⟨d, hd, rfl⟩ := List.mem_map.mp h
  exact ⟨d, hlt d hd, rfl⟩

/-! ## Separators -/

/-- The separator that comes before every part but the first. -/
def readSeparator (sep : Char) (i : Nat) (s : List Char) : Option (List Char) :=
  if i = 0 then some s
  else match s with
    | [] => none
    | c :: s => if c = sep then some s else none

/-- Parts with a separator between. -/
def joined (sep : Char) : List (List Char) → List Char
  | [] => []
  | x :: l => x ++ l.flatMap (sep :: ·)

theorem mem_joined {sep c : Char} {l : List (List Char)} (h : c ∈ joined sep l) : c = sep ∨ ∃ x ∈ l, c ∈ x := by
  cases l with
  | nil => cases h
  | cons x l =>
    rcases List.mem_append.mp h with h | h
    · exact .inr ⟨x, List.mem_cons_self, h⟩
    · obtain ⟨y, hy, h⟩ := List.mem_flatMap.mp h
      rcases List.mem_cons.mp h with h | h
      · exact .inl h
      · exact .inr ⟨y, List.mem_cons_of_mem _ hy, h⟩

/-! ## IPv4 -/

/-- `n` parts of dotted decimal from part `i` on. -/
def readOctets (i : Nat) : Nat → List Char → Option (List Nat × List Char)
  | 0, s => some ([], s)
  | n + 1, s =>
    (readSeparator '.' i s).bind fun s =>
      (readNumber 10 3 false 255 s).bind fun (o, s) =>
        (readOctets (i + 1) n s).map fun (os, s) => (o :: os, s)

theorem readOctets_succ (i n : Nat) (s : List Char) :
    readOctets i (n + 1) s =
      (readSeparator '.' i s).bind fun s =>
        (readNumber 10 3 false 255 s).bind fun (o, s) =>
          (readOctets (i + 1) n s).map fun (os, s) => (o :: os, s) := rfl

theorem readSeparator_zero (sep : Char) (s : List Char) : readSeparator sep 0 s = some s := rfl

theorem readSeparator_succ (sep : Char) (i : Nat) (s : List Char) :
    readSeparator sep (i + 1) (sep :: s) = some s := if_pos rfl

def readIpv4 (s : List Char) : Option (List Nat × List Char) := readOctets 0 4 s

def showIpv4 (os : List Nat) : List Char := joined '.' (os.map (Nat.toDigits 10))

theorem readOctets_show (i : Nat) {os : List Nat} (hos : ∀ o ∈ os, o ≤ 255) {rest : List Char}
    (hrest : ∀ c ∈ rest.head?, digitOf 10 c = none) :
    readOctets (i + 1) os.length ((os.map (Nat.toDigits 10)).flatMap ('.' :: ·) ++ rest) = some (os, rest) := by
  induction os generalizing i with
  | nil => rfl
  | cons o os ih =>
    have hnext := ih (i + 1) fun o ho => hos o (List.mem_cons_of_mem _ ho)
    have hnumber : readNumber 10 3 false 255 (Nat.toDigits 10 o ++
        ((os.map (Nat.toDigits 10)).flatMap ('.' :: ·) ++ rest)) =
        some (o, (os.map (Nat.toDigits 10)).flatMap ('.' :: ·) ++ rest) := by
      have ho := hos o List.mem_cons_self
      refine readNumber_toDigits (by decide) (by decide) (by decide) (by omega) ho fun c hc => ?_
      cases os with
      | nil => exact hrest c hc
      | cons o' os =>
        obtain rfl : '.' = c := Option.some.inj hc
        decide
    rw [List.map_cons, List.flatMap_cons, List.append_assoc, List.length_cons, List.cons_append, readOctets_succ,
      readSeparator_succ, Option.bind_some, hnumber, Option.bind_some]
    dsimp only
    rw [hnext]
    rfl

theorem readIpv4_show {os : List Nat} (hlen : os.length = 4) (hos : ∀ o ∈ os, o ≤ 255) {rest : List Char}
    (hrest : ∀ c ∈ rest.head?, digitOf 10 c = none) : readIpv4 (showIpv4 os ++ rest) = some (os, rest) := by
  cases os with
  | nil => cases hlen
  | cons o os =>
    have hthree : os.length = 3 := Nat.succ.inj hlen
    have hnext := readOctets_show 0 (fun o ho => hos o (List.mem_cons_of_mem _ ho)) hrest
    have hnumber : readNumber 10 3 false 255 (Nat.toDigits 10 o ++
        ((os.map (Nat.toDigits 10)).flatMap ('.' :: ·) ++ rest)) =
        some (o, (os.map (Nat.toDigits 10)).flatMap ('.' :: ·) ++ rest) := by
      have ho := hos o List.mem_cons_self
      refine readNumber_toDigits (by decide) (by decide) (by decide) (by omega) ho fun c hc => ?_
      cases os with
      | nil => cases hthree
      | cons o' os =>
        obtain rfl : '.' = c := Option.some.inj hc
        decide
    rw [hthree] at hnext
    unfold readIpv4 showIpv4 joined
    rw [List.map_cons, List.append_assoc, readOctets_succ, readSeparator_zero, Option.bind_some, hnumber,
      Option.bind_some]
    dsimp only
    rw [hnext]
    rfl

theorem readIpv4_none {s : List Char} (h : '.' ∉ s) : readIpv4 s = none := by
  unfold readIpv4
  rw [readOctets_succ, readSeparator_zero, Option.bind_some]
  cases hnumber : readNumber 10 3 false 255 s with
  | none => rfl
  | some r =>
    obtain ⟨o, rest⟩ := r
    have hsuffix := readNumber_suffix hnumber
    have hstop : readSeparator '.' 1 rest = none := by
      cases rest with
      | nil => rfl
      | cons c rest =>
        refine (if_neg fun hc => h ?_ : (if c = '.' then some rest else none) = none)
        rw [← hc]
        exact hsuffix.subset List.mem_cons_self
    rw [Option.bind_some]
    dsimp only
    rw [readOctets_succ, hstop]
    rfl

/-! ## IPv6 -/

/-- The groups a dotted decimal address is. -/
def pairs : List Nat → List Nat
  | a :: b :: os => (a * 256 + b) :: pairs os
  | _ => []

/-- Up to `n` groups from group `i` on, and whether the last two were an IPv4 address. -/
def readGroups (i : Nat) : Nat → List Char → (List Nat × Bool) × List Char
  | 0, s => (([], false), s)
  | n + 1, s =>
    match if 0 < n then (readSeparator ':' i s).bind readIpv4 else none with
    | some (os, rest) => ((pairs os, true), rest)
    | none =>
      match (readSeparator ':' i s).bind (readNumber 16 4 true 0xffff) with
      | none => (([], false), s)
      | some (g, rest) =>
        let ((gs, v4), rest) := readGroups (i + 1) n rest
        ((g :: gs, v4), rest)

/-- The groups before a `::`, and those after it; or all eight. -/
def readIpv6 (s : List Char) : Option (List Nat × List Char) :=
  let ((head, v4), rest) := readGroups 0 8 s
  if head.length = 8 then some (head, rest)
  else if v4 then none
  else match rest with
    | ':' :: ':' :: rest =>
      let ((tail, _), rest) := readGroups 0 (7 - head.length) rest
      some (head ++ List.replicate (8 - head.length - tail.length) 0 ++ tail, rest)
    | _ => none

/-- A run of zero groups. -/
structure Span where
  start : Nat
  len : Nat

/-- The first longest run of zeros among the groups from group `i` on. -/
def zeroes (i : Nat) (longest current : Span) : List Nat → Span
  | [] => longest
  | g :: gs =>
    if g = 0 then
      let current : Span := ⟨if current.len = 0 then i else current.start, current.len + 1⟩
      zeroes (i + 1) (if longest.len < current.len then current else longest) current gs
    else zeroes (i + 1) longest ⟨0, 0⟩ gs

def showGroups (gs : List Nat) : List Char := joined ':' (gs.map (Nat.toDigits 16))

def showIpv6 (gs : List Nat) : List Char :=
  if gs.take 6 = [0, 0, 0, 0, 0, 0xffff] then
    "::ffff:".toList ++ showIpv4 ((gs.drop 6).flatMap fun g => [g / 256, g % 256])
  else
    let z := zeroes 0 ⟨0, 0⟩ ⟨0, 0⟩ gs
    if 1 < z.len then showGroups (gs.take z.start) ++ ':' :: ':' :: showGroups (gs.drop (z.start + z.len))
    else showGroups gs

/-- Where groups stop: at the end, or at a `::`. -/
def Stops (rest : List Char) : Prop := rest = [] ∨ ∃ s, rest = ':' :: ':' :: s

theorem Stops.digitOf {rest : List Char} (h : Stops rest) : ∀ c ∈ rest.head?, digitOf 16 c = none := by
  intro c hc
  rcases h with rfl | ⟨s, rfl⟩
  · cases hc
  · obtain rfl : ':' = c := Option.some.inj hc
    decide

theorem readGroups_none {i n : Nat} {s : List Char} (hv4 : (readSeparator ':' i s).bind readIpv4 = none)
    (hgroup : (readSeparator ':' i s).bind (readNumber 16 4 true 0xffff) = none) :
    readGroups i n s = (([], false), s) := by
  cases n with
  | zero => rfl
  | succ n =>
    unfold readGroups
    rw [hv4, hgroup, ite_self]

theorem readGroups_stops {i n : Nat} {rest : List Char} (hdot : '.' ∉ rest) (h : Stops rest)
    (hi : rest = [] ∨ 0 < i ∨ n = 0) : readGroups i n rest = (([], false), rest) := by
  rcases h with rfl | ⟨s, rfl⟩
  · apply readGroups_none
    · cases i <;> rfl
    · cases i <;> rfl
  · rcases hi with h | hi | rfl
    · cases h
    · obtain ⟨j, rfl⟩ := Nat.exists_eq_succ_of_ne_zero (Nat.ne_of_gt hi)
      apply readGroups_none
      · rw [readSeparator_succ, Option.bind_some]
        exact readIpv4_none fun h => hdot (List.mem_cons_of_mem _ h)
      · rw [readSeparator_succ]
        rfl
    · rfl

theorem readGroups_cons {i n g : Nat} {s rest : List Char} (hs : readSeparator ':' i s = some (Nat.toDigits 16 g ++ rest))
    (hg : g < 65536) (hdot : '.' ∉ Nat.toDigits 16 g ++ rest) (hrest : ∀ c ∈ rest.head?, digitOf 16 c = none) :
    readGroups i (n + 1) s =
      ((g :: (readGroups (i + 1) n rest).1.1, (readGroups (i + 1) n rest).1.2), (readGroups (i + 1) n rest).2) := by
  have hnumber : readNumber 16 4 true 0xffff (Nat.toDigits 16 g ++ rest) = some (g, rest) :=
    readNumber_toDigits (by decide) (by decide) (by decide) hg (by omega) hrest
  rw [readGroups, hs, Option.bind_some, readIpv4_none hdot, ite_self, Option.bind_some, hnumber]

theorem dot_toDigits (g : Nat) : '.' ∉ Nat.toDigits 16 g := by
  intro h
  obtain ⟨d, hd, hc⟩ := digit_of_mem_toDigits (by decide) h
  revert d
  decide

/-- What follows a group is no digit of it, and no dot. -/
theorem groups_rest (gs : List Nat) {rest : List Char} (hdot : '.' ∉ rest) (hrest : Stops rest) :
    '.' ∉ (gs.map (Nat.toDigits 16)).flatMap (':' :: ·) ++ rest ∧
      ∀ c ∈ ((gs.map (Nat.toDigits 16)).flatMap (':' :: ·) ++ rest).head?, digitOf 16 c = none := by
  constructor
  · rw [List.mem_append, not_or]
    refine ⟨fun h => ?_, hdot⟩
    obtain ⟨x, hx, h⟩ := List.mem_flatMap.mp h
    obtain ⟨g, -, rfl⟩ := List.mem_map.mp hx
    rcases List.mem_cons.mp h with h | h
    · cases h
    · exact dot_toDigits g h
  · cases gs with
    | nil => exact hrest.digitOf
    | cons g gs =>
      intro c hc
      obtain rfl : ':' = c := Option.some.inj hc
      decide

/-- Groups after the first read back, up to where they stop. -/
theorem readGroups_flatMap (i : Nat) {n : Nat} {gs : List Nat} (hgs : ∀ g ∈ gs, g < 65536) (hn : gs.length ≤ n)
    {rest : List Char} (hdot : '.' ∉ rest) (hrest : Stops rest) :
    readGroups (i + 1) n ((gs.map (Nat.toDigits 16)).flatMap (':' :: ·) ++ rest) = ((gs, false), rest) := by
  induction gs generalizing i n with
  | nil => exact readGroups_stops hdot hrest (.inr (.inl (Nat.succ_pos i)))
  | cons g gs ih =>
    cases n with
    | zero => cases hn
    | succ n =>
      have hnext := ih (i + 1) (fun g hg => hgs g (List.mem_cons_of_mem _ hg)) (Nat.le_of_succ_le_succ hn)
      obtain ⟨hdots, hhead⟩ := groups_rest gs hdot hrest
      rw [List.map_cons, List.flatMap_cons, List.append_assoc, List.cons_append]
      rw [readGroups_cons (readSeparator_succ _ _ _) (hgs g List.mem_cons_self) ?_ hhead, hnext]
      rw [List.mem_append, not_or]
      exact ⟨dot_toDigits g, hdots⟩

/-- Groups read back, up to where they stop. -/
theorem readGroups_show {n : Nat} {gs : List Nat} (hgs : ∀ g ∈ gs, g < 65536) (hn : gs.length ≤ n)
    {rest : List Char} (hdot : '.' ∉ rest) (hrest : Stops rest) :
    readGroups 0 n (showGroups gs ++ rest) = ((gs, false), rest) := by
  cases gs with
  | nil =>
    rcases hrest with rfl | ⟨s, rfl⟩
    · exact readGroups_stops hdot (.inl rfl) (.inl rfl)
    · apply readGroups_none
      · rw [readSeparator_zero, Option.bind_some]
        exact readIpv4_none hdot
      · rfl
  | cons g gs =>
    cases n with
    | zero => cases hn
    | succ n =>
      have hnext := readGroups_flatMap 0 (fun g hg => hgs g (List.mem_cons_of_mem _ hg))
        (Nat.le_of_succ_le_succ hn) hdot hrest
      obtain ⟨hdots, hhead⟩ := groups_rest gs hdot hrest
      unfold showGroups joined
      rw [List.map_cons, List.append_assoc]
      rw [readGroups_cons (readSeparator_zero _ _) (hgs g List.mem_cons_self) ?_ hhead, hnext]
      rw [List.mem_append, not_or]
      exact ⟨dot_toDigits g, hdots⟩

/-- Every group of the run is zero. -/
def Span.Zero (z : Span) (gs : List Nat) : Prop := ∀ j, z.start ≤ j → j < z.start + z.len → gs[j]? = some 0

theorem zeroes_zero {all : List Nat} (gs : List Nat) {i : Nat} {longest current : Span} (hall : all.drop i = gs)
    (hlongest : longest.Zero all) (hcurrent : current.Zero all)
    (hi : current.len = 0 ∨ current.start + current.len = i) : (zeroes i longest current gs).Zero all := by
  induction gs generalizing i longest current with
  | nil => exact hlongest
  | cons g gs ih =>
    have hget : all[i]? = some g := by
      have := congrArg List.head? hall
      rwa [List.head?_drop] at this
    have hdrop : all.drop (i + 1) = gs := by
      rw [← List.drop_drop, hall]
      rfl
    unfold zeroes
    split
    · next hg =>
      have hnew : Span.Zero ⟨if current.len = 0 then i else current.start, current.len + 1⟩ all := by
        intro j hj hlt
        dsimp only at hj hlt
        by_cases hji : j = i
        · rw [hji, hget, hg]
        · split at hj
          · split at hlt <;> omega
          · rw [if_neg ‹_›] at hlt
            exact hcurrent j hj (by omega)
      refine ih hdrop ?_ hnew (.inr ?_)
      · by_cases hlonger : longest.len < current.len + 1
        · rw [if_pos hlonger]
          exact hnew
        · rw [if_neg hlonger]
          exact hlongest
      · dsimp only
        split <;> omega
    · exact ih hdrop hlongest (fun j hj hlt => absurd hj (Nat.not_le_of_lt hlt)) (.inl rfl)

/-- Around a run of zeros. -/
theorem eq_of_zero {gs : List Nat} {z : Span} (h : z.Zero gs) (hlen : 0 < z.len) :
    gs = gs.take z.start ++ List.replicate z.len 0 ++ gs.drop (z.start + z.len) ∧
      z.start + z.len ≤ gs.length := by
  have hin : z.start + z.len ≤ gs.length := by
    have hlast := h (z.start + z.len - 1) (by omega) (by omega)
    have := (List.getElem?_eq_some_iff.mp hlast).choose
    omega
  refine ⟨List.ext_getElem? fun j => ?_, hin⟩
  have htake : (gs.take z.start).length = z.start := List.length_take_of_le (by omega)
  by_cases hbefore : j < z.start
  · rw [List.append_assoc, List.getElem?_append_left (by omega), List.getElem?_take_of_lt hbefore]
  · rw [List.append_assoc, List.getElem?_append_right (by omega), htake]
    by_cases hzero : j < z.start + z.len
    · rw [List.getElem?_append_left (by rw [List.length_replicate]; omega),
        List.getElem?_replicate_of_lt (by omega), h j (by omega) hzero]
    · rw [List.getElem?_append_right (by rw [List.length_replicate]; omega), List.length_replicate,
        List.getElem?_drop]
      congr 1
      omega

theorem dot_showGroups (gs : List Nat) : '.' ∉ showGroups gs := by
  intro h
  rcases mem_joined h with h | ⟨x, hx, h⟩
  · cases h
  · obtain ⟨g, -, rfl⟩ := List.mem_map.mp hx
    exact dot_toDigits g h

/-- The display form of an address that maps no IPv4 one, without dots and read back. -/
theorem readIpv6_show {gs : List Nat} (hlen : gs.length = 8) (hgs : ∀ g ∈ gs, g < 65536)
    (hmapped : gs.take 6 ≠ [0, 0, 0, 0, 0, 0xffff]) :
    '.' ∉ showIpv6 gs ∧ readIpv6 (showIpv6 gs) = some (gs, []) := by
  unfold showIpv6
  rw [if_neg hmapped]
  dsimp only
  have hz : (zeroes 0 ⟨0, 0⟩ ⟨0, 0⟩ gs).Zero gs :=
    zeroes_zero gs rfl (fun j _ hlt => absurd hlt (by simp)) (fun j _ hlt => absurd hlt (by simp)) (.inl rfl)
  generalize zeroes 0 ⟨0, 0⟩ ⟨0, 0⟩ gs = z at hz
  split
  · next hrun =>
    obtain ⟨heq, hin⟩ := eq_of_zero hz (by omega)
    have htail := dot_showGroups (gs.drop (z.start + z.len))
    have hdots : '.' ∉ ':' :: ':' :: showGroups (gs.drop (z.start + z.len)) := by simpa using htail
    have hhead : (gs.take z.start).length = z.start := List.length_take_of_le (by omega)
    have hdrop : (gs.drop (z.start + z.len)).length = 8 - (z.start + z.len) := by rw [List.length_drop, hlen]
    have hheadLen : (gs.take z.start).length ≤ 8 := by omega
    have htailLen : (gs.drop (z.start + z.len)).length ≤ 7 - z.start := by omega
    have hreadHead := readGroups_show (fun g hg => hgs g (List.mem_of_mem_take hg)) hheadLen hdots (.inr ⟨_, rfl⟩)
    have hreadTail := readGroups_show (fun g hg => hgs g (List.mem_of_mem_drop hg)) htailLen
      List.not_mem_nil (.inl rfl)
    rw [List.append_nil] at hreadTail
    refine ⟨?_, ?_⟩
    · rw [List.mem_append, not_or]
      exact ⟨dot_showGroups _, hdots⟩
    · unfold readIpv6
      rw [hreadHead]
      dsimp only
      rw [hhead, if_neg (by omega), if_neg Bool.false_ne_true]
      show some (gs.take z.start ++ List.replicate (8 - z.start -
        (readGroups 0 (7 - z.start) (showGroups (gs.drop (z.start + z.len)))).1.1.length) 0 ++
          (readGroups 0 (7 - z.start) (showGroups (gs.drop (z.start + z.len)))).1.1,
        (readGroups 0 (7 - z.start) (showGroups (gs.drop (z.start + z.len)))).2) = some (gs, [])
      rw [hreadTail, hdrop, show 8 - z.start - (8 - (z.start + z.len)) = z.len by omega, ← heq]
  · have hread := readGroups_show hgs (Nat.le_of_eq hlen) List.not_mem_nil (.inl rfl)
    rw [List.append_nil] at hread
    refine ⟨dot_showGroups gs, ?_⟩
    unfold readIpv6
    rw [hread]
    exact if_pos hlen

end HxdNg.AddressText
