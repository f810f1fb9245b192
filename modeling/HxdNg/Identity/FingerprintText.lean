import Mathlib
import HxdNg.Identity.Keys
import HxdNg.Lib.Regroup

/-!
# The printed form of a fingerprint

Crockford base32, 52 lowercase digits.

* `Fingerprint.toText`, `Fingerprint.parse` : the display form, and reading it in either case and with
  the confusable letters;
* `parse_eq_some_iff` : a text reads as a fingerprint exactly where, folded, it is its display form.
-/

namespace HxdNg.Identity

/-- The digits, in order. -/
def crockford : List Char := "0123456789abcdefghjkmnpqrstvwxyz".toList

/-- Case and the usual confusables. -/
def foldDigit (c : Char) : Char :=
  if c.toLower = 'o' then '0'
  else if c.toLower = 'i' ∨ c.toLower = 'l' then '1'
  else c.toLower

namespace Fingerprint

/-- The digits of the display form: 51 of five bits, and the one bit left, shifted up. -/
def digits (fp : Fingerprint) : List Nat :=
  let (out, acc, n) := regroup 8 5 0 0 (fp.val.map (·.toNat))
  out ++ if 0 < n then [acc * 2 ^ (5 - n) % 2 ^ 5] else []

def digitChar (d : Nat) : Char := crockford.getD d '0'

/-- The display form. -/
def toText (fp : Fingerprint) : String := String.ofList (fp.digits.map digitChar)

/-- The value of a digit. -/
def position (c : Char) : Option Nat := crockford.findIdx? (· = c)

/-- Read the display form: exactly 52 digits, whose last four bits are zero. -/
def parse (s : String) : Option Fingerprint :=
  if s.toList.length ≠ 52 then none
  else do
    let ds ← s.toList.mapM fun c => position (foldDigit c)
    let (out, acc, n) := regroup 5 8 0 0 ds
    if out.length = 32 ∧ acc % 2 ^ n = 0 then Bytes.ofList 32 (out.map UInt8.ofNat) else none

theorem position_eq_some {c : Char} {d : Nat} : position c = some d ↔ d < 32 ∧ digitChar d = c := by
  have hlen : crockford.length = 32 := by decide
  have hnodup : crockford.Nodup := by decide
  rw [position, List.findIdx?_eq_some_iff_getElem]
  constructor
  · rintro ⟨hlt, hc, -⟩
    refine ⟨hlen ▸ hlt, ?_⟩
    rw [digitChar, List.getD_eq_getElem _ _ hlt]
    exact of_decide_eq_true hc
  · rintro ⟨hlt, hc⟩
    have hlt' : d < crockford.length := hlen.symm ▸ hlt
    rw [digitChar, List.getD_eq_getElem _ _ hlt'] at hc
    refine ⟨hlt', decide_eq_true hc, fun j hj => ?_⟩
    rw [Bool.not_eq_true, decide_eq_false_iff_not]
    intro he
    exact Nat.ne_of_lt hj ((List.Nodup.getElem_inj_iff hnodup).1 (he.trans hc.symm))

theorem mapM_position {cs : List Char} {ds : List Nat} :
    cs.mapM (fun c => position (foldDigit c)) = some ds ↔
      cs.map foldDigit = ds.map digitChar ∧ ∀ d ∈ ds, d < 32 := by
  induction cs generalizing ds with
  | nil => cases ds <;> simp
  | cons c cs ih =>
    rw [List.mapM_cons]
    constructor
    · intro h
      obtain ⟨d, hd, h⟩ := Option.bind_eq_some_iff.1 h
      obtain ⟨es, he, h⟩ := Option.bind_eq_some_iff.1 h
      obtain rfl := Option.some.inj h
      obtain ⟨hlt, hc⟩ := position_eq_some.1 hd
      obtain ⟨hmap, hall⟩ := ih.1 he
      refine ⟨by rw [List.map_cons, List.map_cons, hc, hmap], fun x hx => ?_⟩
      rcases List.mem_cons.1 hx with rfl | hx
      · exact hlt
      · exact hall x hx
    · rintro ⟨hmap, hall⟩
      cases ds with
      | nil => cases hmap
      | cons d ds =>
        obtain ⟨hc, hmap⟩ := List.cons.inj hmap
        have hd : position (foldDigit c) = some d :=
          position_eq_some.2 ⟨hall d List.mem_cons_self, hc.symm⟩
        have hds := ih.2 ⟨hmap, fun x hx => hall x (List.mem_cons_of_mem _ hx)⟩
        rw [hd, hds]
        rfl

theorem bytes_lt (fp : Fingerprint) : ∀ d ∈ fp.val.map (·.toNat), d < 2 ^ 8 := by
  intro d hd
  obtain ⟨b, -, rfl⟩ := List.mem_map.1 hd
  exact b.toNat_lt

/-- The digits are the bytes' bits and four zeros. -/
theorem digits_spec (fp : Fingerprint) : fp.digits.length = 52 ∧ (∀ d ∈ fp.digits, d < 32) ∧
    places 32 fp.digits = places 256 (fp.val.map (·.toNat)) * 16 := by
  obtain ⟨out, last, left, hout, hleft, hlen, hlt, hval⟩ :=
    @regroup_places 8 5 (by decide) (by decide) 0 0 (by decide) _ (bytes_lt fp)
  rw [List.length_map, fp.property] at hlen
  have hone : left = 1 := by omega
  have hfifty : out.length = 51 := by omega
  subst hone
  have hdigits : fp.digits = out ++ [last * 2 ^ 4 % 2 ^ 5] := by
    unfold digits
    rw [hout]
    rfl
  rw [hdigits]
  refine ⟨by rw [List.length_append, hfifty]; rfl, fun d hd => ?_, ?_⟩
  · rcases List.mem_append.1 hd with hd | hd
    · exact hlt d hd
    · rw [List.mem_singleton.1 hd]
      exact Nat.mod_lt _ (by decide)
  · rw [Nat.zero_mod, Nat.zero_mul, Nat.zero_add] at hval
    rw [places_append, places_cons]
    have hp : places 256 (fp.val.map (·.toNat)) = places 32 out * 2 + last % 2 := hval
    rw [hp]
    show places 32 out * 32 ^ 1 + (last * 16 % 32 * 32 ^ 0 + 0) = _
    omega

/-- The bytes digits are regrouped into, where no bit is left over. -/
theorem regroup_digits {ds : List Nat} (hlen : ds.length = 52) (hlt : ∀ d ∈ ds, d < 32)
    {fp : Fingerprint} : (let (out, acc, n) := regroup 5 8 0 0 ds
      if out.length = 32 ∧ acc % 2 ^ n = 0 then Bytes.ofList 32 (out.map UInt8.ofNat) else none) =
      some fp ↔ ds = fp.digits := by
  obtain ⟨out, last, left, hout, hleft, hsum, hbyte, hval⟩ :=
    @regroup_places 5 8 (by decide) (by decide) 0 0 (by decide) ds
      hlt
  rw [hlen] at hsum
  have hfour : left = 4 := by omega
  have hout32 : out.length = 32 := by omega
  subst hfour
  rw [Nat.zero_mod, Nat.zero_mul, Nat.zero_add] at hval
  replace hval : places 32 ds = places 256 out * 16 + last % 16 := hval
  obtain ⟨hdlen, hdlt, hdval⟩ := digits_spec fp
  have hback : (out.map UInt8.ofNat).map (·.toNat) = out := by
    rw [List.map_map]
    conv_rhs => rw [← List.map_id out]
    refine List.map_congr_left fun d hd => ?_
    exact UInt8.toNat_ofNat_of_lt' (hbyte d hd)
  show (let (out, acc, n) := regroup 5 8 0 0 ds
    if out.length = 32 ∧ acc % 2 ^ n = 0 then Bytes.ofList 32 (out.map UInt8.ofNat) else none) = _ ↔ _
  rw [hout]
  show (if out.length = 32 ∧ last % 16 = 0 then _ else _) = some fp ↔ _
  constructor
  · intro h
    split at h
    case isFalse => cases h
    case isTrue hz =>
    have hfp : fp.val = out.map UInt8.ofNat := by
      unfold Bytes.ofList at h
      split at h
      case isTrue => exact (congrArg Subtype.val (Option.some.inj h)).symm
      case isFalse => cases h
    refine eq_of_places hlt hdlt (hlen.trans hdlen.symm) ?_
    rw [hval, hz.2, hdval, hfp, hback, Nat.add_zero]
  · rintro rfl
    have hzero : last % 16 = 0 := by omega
    have hplaces : places 256 out = places 256 (fp.val.map (·.toNat)) := by omega
    have hbytes : out = fp.val.map (·.toNat) :=
      eq_of_places hbyte (bytes_lt fp) (by rw [hout32, List.length_map, fp.property]) hplaces
    rw [if_pos ⟨hout32, hzero⟩, hbytes, List.map_map]
    have hid : fp.val.map (UInt8.ofNat ∘ (·.toNat)) = fp.val := by
      conv_rhs => rw [← List.map_id fp.val]
      exact List.map_congr_left fun b _ => UInt8.ofNat_toNat
    rw [hid]
    exact Bytes.ofList_val fp

/-- A text reads as a fingerprint exactly where, folded, it is its display form. -/
theorem parse_eq_some_iff {s : String} {fp : Fingerprint} :
    parse s = some fp ↔ s.toList.map foldDigit = fp.toText.toList := by
  obtain ⟨hdlen, hdlt, -⟩ := digits_spec fp
  rw [toText, String.toList_ofList]
  unfold parse
  constructor
  · intro h
    split at h
    case isTrue => cases h
    case isFalse hlen =>
    rw [not_not] at hlen
    obtain ⟨ds, hds, h⟩ := Option.bind_eq_some_iff.1 h
    obtain ⟨hmap, hlt⟩ := mapM_position.1 hds
    have hdslen : ds.length = 52 := by
      rw [← hlen, ← (List.length_map foldDigit : (s.toList.map foldDigit).length = _), hmap, List.length_map]
    rw [hmap, (regroup_digits hdslen hlt).1 h]
  · intro h
    have hlen : s.toList.length = 52 := by
      rw [← (List.length_map foldDigit : (s.toList.map foldDigit).length = _), h, List.length_map, hdlen]
    rw [if_neg (not_not_intro hlen), mapM_position.2 ⟨h, hdlt⟩]
    exact (regroup_digits hdlen hdlt).2 rfl

end Fingerprint

end HxdNg.Identity
