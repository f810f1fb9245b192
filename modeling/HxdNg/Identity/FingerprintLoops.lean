import HxdNg.Identity.FingerprintText
import HxdNg.Lib.Utf8

/-!
# A fingerprint's digits, bit by bit

The writer and the reader as they run: over a text's bytes, with a 64-bit accumulator whose high bits
are shifted out.

* `Fingerprint.display`, `Fingerprint.parseBytes` : the two loops;
* `display_eq`, `parseBytes_eq` : they are `toText` and `parse`;
* `text_form` : what is written reads back, and what is read is what was written, up to case and the
  confusable letters.
-/

namespace HxdNg.Identity.Fingerprint

/-! ## Writing -/

/-- While five bits are pending, the digit at their top; and how many are left. -/
def emit (acc : UInt64) (nbits : Nat) : List Char × Nat :=
  if 5 ≤ nbits then
    let (rest, left) := emit acc (nbits - 5)
    (digitChar (acc >>> UInt64.ofNat (nbits - 5) &&& 31).toNat :: rest, left)
  else ([], nbits)
termination_by nbits

structure Writing where
  out : List Char
  acc : UInt64
  nbits : Nat

def Writing.byte (w : Writing) (b : UInt8) : Writing :=
  let acc := w.acc <<< 8 ||| b.toUInt64
  let (ds, left) := emit acc (w.nbits + 8)
  ⟨w.out ++ ds, acc, left⟩

/-- The display form. -/
def display (fp : Fingerprint) : String :=
  let w := fp.val.foldl Writing.byte ⟨[], 0, 0⟩
  String.ofList (w.out ++
    if 0 < w.nbits then [digitChar (w.acc <<< UInt64.ofNat (5 - w.nbits) &&& 31).toNat] else [])

/-! ## Reading -/

/-- The digits' bytes, in order. -/
def crockfordBytes : List UInt8 := Utf8.bytes crockford

def toAsciiLowercase (c : UInt8) : UInt8 := if 65 ≤ c ∧ c ≤ 90 then c + 32 else c

/-- Case and the usual confusables. -/
def foldByte (c : UInt8) : UInt8 :=
  let c := toAsciiLowercase c
  if c = 0x6f then 0x30 else if c = 0x69 ∨ c = 0x6c then 0x31 else c

structure Reading where
  out : List UInt8
  acc : UInt64
  nbits : Nat

/-- The value of a byte as a digit. -/
def digitOf (c : UInt8) : Option Nat := crockfordBytes.findIdx? (· = foldByte c)

def Reading.byte (r : Reading) (c : UInt8) : Option Reading := do
  let d ← digitOf c
  let acc := r.acc <<< 5 ||| UInt64.ofNat d
  let nbits := r.nbits + 5
  if 8 ≤ nbits then
    let nbits := nbits - 8
    let out := if r.out.length < 32 then r.out ++ [(acc >>> UInt64.ofNat nbits &&& 0xff).toUInt8]
      else r.out
    return ⟨out, acc, nbits⟩
  else return ⟨r.out, acc, nbits⟩

/-- Read the display form: exactly 52 digits, whose last four bits are zero. -/
def parseBytes (s : String) : Option Fingerprint :=
  let bs := Utf8.bytes s.toList
  if bs.length ≠ 52 then none
  else do
    let r ← bs.foldlM Reading.byte ⟨[], 0, 0⟩
    if r.out.length ≠ 32 ∨ r.acc &&& ((1 <<< UInt64.ofNat r.nbits) - 1) ≠ 0 then none
    else Bytes.ofList 32 r.out


/-! ## The accumulator -/

theorem toNat_shift_or {acc : UInt64} {w d : Nat} (hw : w < 64) (hd : d < 2 ^ w) :
    (acc <<< UInt64.ofNat w ||| UInt64.ofNat d).toNat = (acc.toNat * 2 ^ w + d) % 2 ^ 64 := by
  have hpow : 2 ^ w ≤ 2 ^ 63 := Nat.pow_le_pow_right (by decide) (by omega)
  have hd64 : d % 2 ^ 64 = d := Nat.mod_eq_of_lt (by omega)
  have hw64 : w % 2 ^ 64 % 64 = w := by omega
  have hor : acc.toNat * 2 ^ w ||| d = acc.toNat * 2 ^ w + d := by
    rw [Nat.mul_comm, ← Nat.two_pow_add_eq_or_of_lt hd]
  rw [UInt64.toNat_or, UInt64.toNat_shiftLeft, UInt64.toNat_ofNat', UInt64.toNat_ofNat', hw64, hd64,
    Nat.shiftLeft_eq, ← hor, Nat.or_mod_two_pow, hd64]

theorem toNat_shift_and {acc : UInt64} {n v : Nat} (hn : n < 64) (hv : v < 64) :
    (acc >>> UInt64.ofNat n &&& UInt64.ofNat (2 ^ v - 1)).toNat = acc.toNat / 2 ^ n % 2 ^ v := by
  have hpow : 2 ^ v ≤ 2 ^ 63 := Nat.pow_le_pow_right (by decide) (by omega)
  have hn64 : n % 2 ^ 64 % 64 = n := by omega
  rw [UInt64.toNat_and, UInt64.toNat_shiftRight, UInt64.toNat_ofNat', UInt64.toNat_ofNat', hn64,
    Nat.shiftRight_eq_div_pow, Nat.mod_eq_of_lt (by omega : 2 ^ v - 1 < 2 ^ 64),
    Nat.and_two_pow_sub_one_eq_mod]

theorem drain_of_lt {v n : Nat} (acc : Nat) (h : n < v) : drain v acc n = [] := by
  rw [drain, Nat.div_eq_of_lt h]
  rfl

theorem drain_cons {v n : Nat} (acc : Nat) (hv : 0 < v) (h : v ≤ n) :
    drain v acc n = acc / 2 ^ (n - v) % 2 ^ v :: drain v acc (n - v) := by
  have hdiv : n / v = (n - v) / v + 1 := by
    rw [← Nat.add_div_right _ hv, Nat.sub_add_cancel h]
  rw [drain, hdiv, List.range_succ_eq_map, List.map_cons, List.map_map, Nat.zero_add, Nat.one_mul, drain]
  congr 1
  refine List.map_congr_left fun i _ => ?_
  have hsub : n - (i + 1 + 1) * v = n - v - (i + 1) * v := by
    rw [Nat.add_mul (i + 1), Nat.one_mul]
    omega
  show acc / 2 ^ (n - (i + 1 + 1) * v) % 2 ^ v = _
  rw [hsub]

/-! ## The writer writes the digits -/

theorem emit_eq {acc : UInt64} {n : Nat} (hn : n < 64) :
    emit acc n = ((drain 5 acc.toNat n).map digitChar, n % 5) := by
  induction n using Nat.strongRecOn with
  | ind n ih =>
    unfold emit
    by_cases h : 5 ≤ n
    · have hpart := @toNat_shift_and acc (n - 5) 5 (by omega) (by decide)
      rw [if_pos h, ih (n - 5) (by omega) (by omega), drain_cons _ (by decide) h, List.map_cons, ← hpart,
        Nat.mod_eq_sub_mod h]
      rfl
    · rw [if_neg h, drain_of_lt _ (by omega), Nat.mod_eq_of_lt (by omega)]
      rfl

theorem foldl_byte {bs : List UInt8} {w : Writing} (hn : w.nbits < 5) :
    (bs.foldl Writing.byte w).out =
        w.out ++ (regroup 8 5 w.acc.toNat w.nbits (bs.map (·.toNat))).1.map digitChar ∧
      ((bs.foldl Writing.byte w).acc.toNat, (bs.foldl Writing.byte w).nbits) =
        (regroup 8 5 w.acc.toNat w.nbits (bs.map (·.toNat))).2 := by
  induction bs generalizing w with
  | nil => exact ⟨(List.append_nil _).symm, rfl⟩
  | cons b bs ih =>
    have hb : b.toUInt64 = UInt64.ofNat b.toNat := by
      apply UInt64.toNat_inj.1
      rw [UInt8.toNat_toUInt64, UInt64.toNat_ofNat', Nat.mod_eq_of_lt (by have := b.toNat_lt; omega)]
    have hacc : (w.acc <<< 8 ||| b.toUInt64).toNat = (w.acc.toNat * 2 ^ 8 + b.toNat) % 2 ^ 64 := by
      rw [hb]
      exact toNat_shift_or (by decide) b.toNat_lt
    have hemit := @emit_eq (w.acc <<< 8 ||| b.toUInt64) (w.nbits + 8) (by omega)
    have hstep : w.byte b =
        ⟨w.out ++ (drain 5 (w.acc <<< 8 ||| b.toUInt64).toNat (w.nbits + 8)).map digitChar,
          w.acc <<< 8 ||| b.toUInt64, (w.nbits + 8) % 5⟩ := by
      simp only [Writing.byte, hemit]
    obtain ⟨hout, hlast⟩ := @ih (w.byte b) (by rw [hstep]; exact Nat.mod_lt _ (by decide))
    rw [List.foldl_cons, List.map_cons]
    refine ⟨?_, ?_⟩
    · rw [hout, hstep, hacc, List.append_assoc, ← List.map_append]
      rfl
    · rw [hlast, hstep, hacc]
      rfl

theorem display_eq (fp : Fingerprint) : fp.display = fp.toText := by
  obtain ⟨hout, hlast⟩ := @foldl_byte fp.val ⟨[], 0, 0⟩ (by decide)
  have hacc : (fp.val.foldl Writing.byte ⟨[], 0, 0⟩).acc.toNat = _ := congrArg Prod.fst hlast
  have hn : (fp.val.foldl Writing.byte ⟨[], 0, 0⟩).nbits = _ := congrArg Prod.snd hlast
  obtain ⟨out, last, left, hre, hleft, -, -, -⟩ :=
    @regroup_places 8 5 (by decide) (by decide) 0 0 (by decide) _ (bytes_lt fp)
  have hre' : regroup 8 5 (0 : UInt64).toNat 0 (fp.val.map (·.toNat)) = (out, last, left) := hre
  rw [hre'] at hout hacc hn
  have hlow : ∀ acc : UInt64,
      (acc <<< UInt64.ofNat (5 - left) &&& 31).toNat = acc.toNat * 2 ^ (5 - left) % 2 ^ 5 := by
    intro acc
    have hmask : (31 : UInt64).toNat = 2 ^ 5 - 1 := rfl
    rw [UInt64.toNat_and, hmask, Nat.and_two_pow_sub_one_eq_mod, UInt64.toNat_shiftLeft, UInt64.toNat_ofNat',
      Nat.shiftLeft_eq, Nat.mod_mod_of_dvd _ (by decide), (by omega : (5 - left) % 2 ^ 64 % 64 = 5 - left)]
  unfold display toText digits
  rw [hre]
  dsimp only
  rw [hout, hn, hlow, hacc, List.map_append]
  dsimp only
  congr 2
  split <;> rfl

/-! ## The reader reads them -/

theorem digitOf_lt {c : UInt8} {d : Nat} (h : digitOf c = some d) : d < 32 := by
  obtain ⟨hlt, -⟩ := List.findIdx?_eq_some_iff_getElem.1 h
  have hlen : crockfordBytes.length = 32 := by decide +kernel
  exact hlen ▸ hlt

/-- The loop over a text's bytes is `regroup` of their digits, while the array has room. -/
theorem foldlM_byte {cs : List UInt8} {r : Reading} (hn : r.nbits < 8)
    (hroom : 8 * r.out.length + r.nbits + 5 * cs.length < 264) :
    cs.foldlM Reading.byte r = (cs.mapM digitOf).map fun ds =>
      ⟨r.out ++ (regroup 5 8 r.acc.toNat r.nbits ds).1.map UInt8.ofNat,
        UInt64.ofNat (regroup 5 8 r.acc.toNat r.nbits ds).2.1, (regroup 5 8 r.acc.toNat r.nbits ds).2.2⟩ := by
  induction cs generalizing r with
  | nil =>
    rw [List.mapM_nil]
    show some r = some ⟨r.out ++ [], UInt64.ofNat r.acc.toNat, r.nbits⟩
    rw [List.append_nil, UInt64.ofNat_toNat]
  | cons c cs ih =>
    rw [List.foldlM_cons, List.mapM_cons]
    cases hd : digitOf c with
    | none =>
      unfold Reading.byte
      rw [hd]
      rfl
    | some d =>
      let acc := r.acc <<< 5 ||| UInt64.ofNat d
      have hacc : acc.toNat = (r.acc.toNat * 2 ^ 5 + d) % 2 ^ 64 :=
        toNat_shift_or (by decide) (digitOf_lt hd)
      rw [List.length_cons] at hroom
      have hstep : r.byte c =
          some ⟨r.out ++ (drain 8 acc.toNat (r.nbits + 5)).map UInt8.ofNat, acc, (r.nbits + 5) % 8⟩ := by
        unfold Reading.byte
        rw [hd, Option.bind_eq_bind, Option.bind_some]
        by_cases h : 8 ≤ r.nbits + 5
        · have hbyte := @toNat_shift_and acc (r.nbits + 5 - 8) 8 (by omega) (by decide)
          have hout : r.out.length < 32 := by omega
          have hmod : (r.nbits + 5) % 8 = r.nbits + 5 - 8 := by omega
          rw [if_pos h]
          dsimp only
          rw [if_pos hout, drain_cons _ (by decide) h, drain_of_lt _ (by omega), ← hbyte, hmod]
          rfl
        · rw [if_neg h, drain_of_lt _ (by omega), Nat.mod_eq_of_lt (by omega), List.map_nil, List.append_nil]
          rfl
      have hlen : ((drain 8 acc.toNat (r.nbits + 5)).map UInt8.ofNat).length = (r.nbits + 5) / 8 := by
        rw [List.length_map, length_drain]
      have hrest := @ih ⟨r.out ++ (drain 8 acc.toNat (r.nbits + 5)).map UInt8.ofNat, acc, (r.nbits + 5) % 8⟩
        (Nat.mod_lt _ (by decide)) (by
          rw [List.length_append, hlen]
          dsimp only
          omega)
      rw [hstep, Option.bind_eq_bind, Option.bind_some, hrest]
      show Option.map _ (cs.mapM digitOf) = ((cs.mapM digitOf).bind fun ds => some (d :: ds)).map _
      cases cs.mapM digitOf with
      | none => rfl
      | some ds =>
        simp only [Option.map_some, Option.bind_some, regroup, hacc, List.append_assoc, List.map_append]

theorem and_mask {acc : UInt64} {n : Nat} (hn : n < 64) :
    acc &&& ((1 <<< UInt64.ofNat n) - 1) = 0 ↔ acc.toNat % 2 ^ n = 0 := by
  have hpow : 2 ^ n ≤ 2 ^ 63 := Nat.pow_le_pow_right (by decide) (by omega)
  have hpos := Nat.two_pow_pos n
  have hmask : ((1 <<< UInt64.ofNat n : UInt64) - 1).toNat = 2 ^ n - 1 := by
    have hshift : (1 <<< UInt64.ofNat n : UInt64).toNat = 2 ^ n := by
      rw [UInt64.toNat_shiftLeft, UInt64.toNat_ofNat', (by omega : n % 2 ^ 64 % 64 = n), Nat.shiftLeft_eq]
      show 1 * 2 ^ n % 2 ^ 64 = 2 ^ n
      omega
    rw [UInt64.toNat_sub_of_le, hshift]
    · rfl
    · rw [UInt64.le_iff_toNat_le, hshift]
      exact hpos
  rw [← UInt64.toNat_inj, UInt64.toNat_and, hmask, Nat.and_two_pow_sub_one_eq_mod]
  rfl

/-! ## Bytes and characters -/

theorem digitOf_ascii {c : Char} (h : c.toNat < 128) :
    digitOf (UInt8.ofNat c.toNat) = position (foldDigit c) := by
  have hall : ∀ n < 128, digitOf (UInt8.ofNat n) = position (foldDigit (Char.ofNat n)) := by decide +kernel
  rw [hall c.toNat h, Char.ofNat_toNat]

theorem digitOf_high {b : UInt8} (h : 128 ≤ b.toNat) : digitOf b = none := by
  have hall : ∀ n < 256, 128 ≤ n → digitOf (UInt8.ofNat n) = none := by decide +kernel
  rw [← hall b.toNat b.toNat_lt h, UInt8.ofNat_toNat]

theorem position_not_ascii {c : Char} (h : ¬ c.toNat < 128) : position (foldDigit c) = none := by
  have hlower : c.toLower = c := by
    unfold Char.toLower
    rw [dif_neg]
    intro hc
    have hle : c.val ≤ 90 := hc.2
    rw [UInt32.le_iff_toNat_le] at hle
    exact h (Nat.lt_of_le_of_lt hle (by decide))
  have hfold : foldDigit c = c := by
    have hne : ∀ x : Char, x.toNat < 128 → c ≠ x := by
      rintro x hx rfl
      exact h hx
    unfold foldDigit
    rw [hlower, if_neg (hne 'o' (by decide)), if_neg]
    rintro (hc | hc)
    · exact hne 'i' (by decide) hc
    · exact hne 'l' (by decide) hc
  have hdigit : ∀ d < 32, (digitChar d).toNat < 128 := by decide
  rw [hfold, Option.eq_none_iff_forall_ne_some]
  intro d hd
  obtain ⟨hlt, hc⟩ := position_eq_some.1 hd
  exact h (hc ▸ hdigit d hlt)

/-- A text with a character that is not ASCII has a byte that is no digit. -/
theorem mapM_bytes {s : List Char} :
    (Utf8.bytes s).mapM digitOf = s.mapM fun c => position (foldDigit c) := by
  induction s with
  | nil => rfl
  | cons c s ih =>
    rw [Utf8.bytes_cons, List.mapM_cons]
    by_cases h : c.toNat < 128
    · rw [Utf8.utf8EncodeChar_of_ascii h, List.singleton_append, List.mapM_cons, digitOf_ascii h, ih]
    · cases henc : String.utf8EncodeChar c with
      | nil => exact absurd henc String.utf8EncodeChar_ne_nil
      | cons b bs =>
        have hb := Utf8.utf8EncodeChar_of_not_ascii h b (henc ▸ List.mem_cons_self)
        rw [List.cons_append, List.mapM_cons, digitOf_high hb, position_not_ascii h]
        rfl

theorem ascii_of_mapM {s : List Char} {ds : List Nat}
    (h : s.mapM (fun c => position (foldDigit c)) = some ds) : ∀ c ∈ s, c.toNat < 128 := by
  induction s generalizing ds with
  | nil => simp
  | cons c s ih =>
    rw [List.mapM_cons] at h
    obtain ⟨d, hd, h⟩ := Option.bind_eq_some_iff.1 h
    obtain ⟨es, hes, -⟩ := Option.bind_eq_some_iff.1 h
    intro x hx
    rcases List.mem_cons.1 hx with rfl | hx
    · by_contra hhigh
      rw [position_not_ascii hhigh] at hd
      cases hd
    · exact ih hes x hx

theorem length_bytes_ascii {s : List Char} (h : ∀ c ∈ s, c.toNat < 128) :
    (Utf8.bytes s).length = s.length := by
  induction s with
  | nil => rfl
  | cons c s ih =>
    rw [Utf8.bytes_cons, Utf8.utf8EncodeChar_of_ascii (h c List.mem_cons_self), List.singleton_append,
      List.length_cons, List.length_cons, ih fun x hx => h x (List.mem_cons_of_mem _ hx)]

theorem parseBytes_eq (s : String) : parseBytes s = parse s := by
  unfold parseBytes parse
  dsimp only
  cases hds : s.toList.mapM (fun c => position (foldDigit c)) with
  | none =>
    have hnone : (Utf8.bytes s.toList).mapM digitOf = none := mapM_bytes.trans hds
    by_cases hb : (Utf8.bytes s.toList).length = 52
    · rw [if_neg (not_not_intro hb), foldlM_byte (by decide) (by rw [hb]; decide), hnone]
      split <;> rfl
    · rw [if_pos hb]
      split <;> rfl
  | some ds =>
    have hsome : (Utf8.bytes s.toList).mapM digitOf = some ds := mapM_bytes.trans hds
    rw [length_bytes_ascii (ascii_of_mapM hds)]
    split
    case isTrue => rfl
    case isFalse hlen =>
    rw [not_not] at hlen
    rw [foldlM_byte (by decide) (by rw [length_bytes_ascii (ascii_of_mapM hds), hlen]; decide), hsome]
    obtain ⟨hmap, hlt⟩ := mapM_position.1 hds
    have hdslen : ds.length = 52 := by
      rw [← hlen, ← (List.length_map foldDigit : (s.toList.map foldDigit).length = _), hmap, List.length_map]
    obtain ⟨out, last, left, hout, hleft, hsum, -, -⟩ :=
      @regroup_places 5 8 (by decide) (by decide) 0 0 (by decide) ds hlt
    rw [Option.map_some, Option.bind_eq_bind, Option.bind_some, Option.bind_eq_bind, Option.bind_some]
    have hout32 : (out.map UInt8.ofNat).length = 32 := by
      rw [List.length_map]
      omega
    have hreg : regroup 5 8 (0 : UInt64).toNat 0 ds = (out, last, left) := hout
    have hlast : (UInt64.ofNat last).toNat % 2 ^ left = last % 2 ^ left := by
      rw [UInt64.toNat_ofNat', Nat.mod_mod_of_dvd _ (Nat.pow_dvd_pow 2 (by omega : left ≤ 64))]
    have hcheck : ((out.map UInt8.ofNat).length ≠ 32 ∨
        UInt64.ofNat last &&& ((1 <<< UInt64.ofNat left) - 1) ≠ 0) ↔ ¬ last % 2 ^ left = 0 := by
      rw [Ne, Ne, and_mask (by omega), hlast, hout32]
      simp
    rw [hreg, hout, List.nil_append]
    dsimp only
    by_cases hz : last % 2 ^ left = 0
    · rw [if_neg (fun hc => hcheck.1 hc hz), if_pos ⟨by rwa [List.length_map] at hout32, hz⟩]
    · rw [if_pos (hcheck.2 hz), if_neg (fun hc => hz hc.2)]

/-! ## The text form -/

/-- A text in lower case, with `o` for 0 and `i`, `l` for 1 read as what they stand for. -/
def folded (s : String) : String := String.ofList (s.toList.map foldDigit)

theorem parseBytes_eq_some {s : String} {fp : Fingerprint} :
    parseBytes s = some fp ↔ folded s = fp.display := by
  rw [parseBytes_eq, parse_eq_some_iff, display_eq, folded, ← String.toList_inj, String.toList_ofList]

theorem digitChar_mem {d : Nat} (h : d < 32) : digitChar d ∈ crockford := by
  have hall : ∀ d < 32, digitChar d ∈ crockford := by decide
  exact hall d h

theorem toList_display (fp : Fingerprint) : fp.display.toList = fp.digits.map digitChar := by
  rw [display_eq, toText, String.toList_ofList]

theorem size_display (fp : Fingerprint) : Utf8.size fp.display.toList = 52 := by
  obtain ⟨hlen, hlt, -⟩ := digits_spec fp
  have hascii : ∀ d < 32, (digitChar d).toNat < 128 := by decide
  rw [toList_display, Utf8.size, length_bytes_ascii, List.length_map, hlen]
  intro c hc
  obtain ⟨d, hd, rfl⟩ := List.mem_map.1 hc
  exact hascii d (hlt d hd)

theorem folded_display (fp : Fingerprint) : folded fp.display = fp.display := by
  have hdigit : ∀ d < 32, foldDigit (digitChar d) = digitChar d := by decide
  rw [folded, toList_display, List.map_map, ← String.toList_inj, String.toList_ofList, toList_display]
  exact List.map_congr_left fun d hd => hdigit d ((digits_spec fp).2.1 d hd)

/-- What is written is 52 digits and reads back; a text is read where it is 52 bytes that fold to the
display form, and two that are read name one key where they fold alike. -/
theorem text_form :
    (∀ fp : Fingerprint, Utf8.size fp.display.toList = 52 ∧ fp.display.toList.length = 52 ∧
      (∀ c ∈ fp.display.toList, c ∈ crockford) ∧ parseBytes fp.display = some fp) ∧
    (∀ (s : String) (fp : Fingerprint),
      parseBytes s = some fp ↔ Utf8.size s.toList = 52 ∧ folded s = fp.display) ∧
    ∀ s t : String, (∃ fp, parseBytes s = some fp ∧ parseBytes t = some fp) ↔
      (parseBytes s).isSome ∧ (parseBytes t).isSome ∧ folded s = folded t := by
  refine ⟨fun fp => ⟨size_display fp, ?_, ?_, parseBytes_eq_some.2 (folded_display fp)⟩,
    fun s fp => ?_, fun s t => ?_⟩
  · rw [toList_display, List.length_map, (digits_spec fp).1]
  · intro c hc
    rw [toList_display] at hc
    obtain ⟨d, hd, rfl⟩ := List.mem_map.1 hc
    exact digitChar_mem ((digits_spec fp).2.1 d hd)
  · rw [parseBytes_eq_some]
    refine ⟨fun h => ⟨?_, h⟩, And.right⟩
    by_contra hsize
    have hnone : parseBytes s = none := if_pos hsize
    rw [parseBytes_eq_some.2 h] at hnone
    cases hnone
  · constructor
    · rintro ⟨fp, hs, ht⟩
      rw [hs, ht]
      exact ⟨rfl, rfl, (parseBytes_eq_some.1 hs).trans (parseBytes_eq_some.1 ht).symm⟩
    · rintro ⟨hs, -, hfold⟩
      obtain ⟨fp, hs⟩ := Option.isSome_iff_exists.1 hs
      exact ⟨fp, hs, parseBytes_eq_some.2 (hfold ▸ parseBytes_eq_some.1 hs)⟩

end HxdNg.Identity.Fingerprint
