import HxdNg.Identity.Cert
import HxdNg.Lib.AddressText
import HxdNg.Moderation.Matcher

/-!
# Targets as they are made, typed, stored and shown

* `RawTarget` : a target whose fields any value may fill; `ofAddress`, `parse`, `toRow`, `fromRow`,
  `describe` : making one, reading and writing it;
* `ofAddress_eq_iff` : two blocks are one target just where they are one set of addresses;
* `parse_describe`, `fromRow_toRow` : a target read back;
* `Filed`, `address_filed` : whom the bans filed refuse, whatever was filed and removed before;
* `bans_match_their_block` : all of it.
-/

namespace HxdNg.Moderation

open Identity (Fingerprint trim)
open AddressText

/-- A target as its fields lie, canonical or not. -/
inductive RawTarget where
  | address (net : Bytes 16) (len : UInt8)
  | login (login : String)
  | identity (fp : Fingerprint)
  | registrar (host : String)
  deriving DecidableEq

/-- Why a text or an address is no target. -/
inductive BadTarget where
  | ipv4Prefix (len : UInt8)
  | ipv6Prefix (len : UInt8)
  | noLogin
  | host (host : String)
  | fingerprint (fp : String)
  | unknown (s : String)
  | prefixLength (s : String)
  deriving DecidableEq

/-! ## Addresses as text -/

def segments (octets : Bytes 16) : List Nat := pairs (octets.val.map (·.toNat))

def ofSegments (gs : List Nat) : Option (Bytes 16) :=
  Bytes.ofList 16 (gs.flatMap fun g => [UInt8.ofNat (g / 256), UInt8.ofNat (g % 256)])

def parseIp (s : List Char) : Option IpAddr :=
  match readIpv4 s with
  | some (os, rest) => if rest = [] then (Bytes.ofList 4 (os.map UInt8.ofNat)).map .v4 else none
  | none =>
    match readIpv6 s with
    | some (gs, []) => (ofSegments gs).map .v6
    | _ => none

def showV4 (v4 : Bytes 4) : List Char := showIpv4 (v4.val.map (·.toNat))

def showV6 (v6 : Bytes 16) : List Char := showIpv6 (segments v6)

/-- A byte in decimal, a sign before it allowed. -/
def parseU8 (s : List Char) : Option UInt8 :=
  let digits := match s with
    | '+' :: s => s
    | s => s
  match readNumber 10 digits.length true 255 digits with
  | some (n, []) => some (UInt8.ofNat n)
  | _ => none

/-! ### Read back -/

theorem length_pairs : ∀ l : List Nat, (pairs l).length = l.length / 2
  | [] => rfl
  | [_] => by simp [pairs]
  | a :: b :: l => by
    have ih := length_pairs l
    simp only [pairs, List.length_cons]
    omega

theorem pairs_take : ∀ (l : List Nat) (k : Nat), (pairs l).take k = pairs (l.take (2 * k))
  | _, 0 => by simp [pairs]
  | [], k + 1 => by simp [pairs]
  | [_], k + 1 => by simp [pairs, Nat.mul_succ]
  | a :: b :: l, k + 1 => by
    have ih := pairs_take l k
    rw [Nat.mul_succ, pairs, List.take_succ_cons, ih, List.take_succ_cons, List.take_succ_cons, pairs]

def bytesOf (gs : List Nat) : List UInt8 := gs.flatMap fun g => [UInt8.ofNat (g / 256), UInt8.ofNat (g % 256)]

theorem bytesOf_pairs : ∀ l : List UInt8, l.length % 2 = 0 → bytesOf (pairs (l.map (·.toNat))) = l
  | [], _ => rfl
  | [_], h => by simp at h
  | a :: b :: l, h => by
    have ih := bytesOf_pairs l (by simp only [List.length_cons] at h; omega)
    have ha := a.toNat_lt
    have hb := b.toNat_lt
    have hhigh : (a.toNat * 256 + b.toNat) / 256 = a.toNat := by omega
    have hlow : (a.toNat * 256 + b.toNat) % 256 = b.toNat := by omega
    simp only [List.map_cons, pairs, bytesOf, List.flatMap_cons, hhigh, hlow, UInt8.ofNat_toNat]
    rw [← bytesOf, ih]
    rfl

theorem pairs_lt : ∀ (l : List UInt8), ∀ g ∈ pairs (l.map (·.toNat)), g < 65536
  | [], _, h => nomatch h
  | [_], _, h => nomatch h
  | a :: b :: l, g, h => by
    rcases List.mem_cons.mp h with rfl | h
    · have ha := a.toNat_lt
      have hb := b.toNat_lt
      show a.toNat * 256 + b.toNat < 65536
      omega
    · exact pairs_lt l g h

theorem segments_mapped {v6 : Bytes 16} (h : (segments v6).take 6 = [0, 0, 0, 0, 0, 0xffff]) :
    v6.val.take 12 = mappedPrefix := by
  unfold segments at h
  rw [pairs_take, ← List.map_take] at h
  have hlen : (v6.val.take 12).length % 2 = 0 := by rw [List.length_take, v6.property]; rfl
  rw [← bytesOf_pairs _ hlen, h]
  rfl

theorem parseIp_showV4 (v4 : Bytes 4) : parseIp (showV4 v4) = some (.v4 v4) := by
  have hread : readIpv4 (showIpv4 (v4.val.map (·.toNat)) ++ []) = some (v4.val.map (·.toNat), []) := by
    refine readIpv4_show (by rw [List.length_map, v4.property]) (fun o ho => ?_) (fun c hc => nomatch hc)
    obtain ⟨b, -, rfl⟩ := List.mem_map.mp ho
    exact Nat.le_of_lt_succ b.toNat_lt
  rw [List.append_nil] at hread
  have hbytes : (v4.val.map (·.toNat)).map UInt8.ofNat = v4.val := by
    rw [List.map_map]
    exact (List.map_congr_left fun b _ => UInt8.ofNat_toNat).trans (List.map_id _)
  unfold parseIp showV4
  rw [hread]
  dsimp only
  rw [if_pos rfl, hbytes, Bytes.ofList_val]
  rfl

theorem parseIp_showV6 {v6 : Bytes 16} (h : v6.val.take 12 ≠ mappedPrefix) :
    parseIp (showV6 v6) = some (.v6 v6) := by
  have hlen : (segments v6).length = 8 := by
    rw [segments, length_pairs, List.length_map, v6.property]
  obtain ⟨hdot, hread⟩ := readIpv6_show hlen (pairs_lt v6.val) fun hm => h (segments_mapped hm)
  have hbytes : bytesOf (segments v6) = v6.val := bytesOf_pairs _ (by rw [v6.property])
  unfold parseIp showV6
  rw [readIpv4_none hdot, hread]
  show (Bytes.ofList 16 (bytesOf (segments v6))).map IpAddr.v6 = _
  rw [hbytes, Bytes.ofList_val]
  rfl

theorem parseU8_toDigits {n : Nat} (h : n ≤ 255) : parseU8 (Nat.toDigits 10 n) = some (UInt8.ofNat n) := by
  have hplus : '+' ∉ Nat.toDigits 10 n := by
    intro hc
    obtain ⟨d, hd, hc⟩ := digit_of_mem_toDigits (by decide) hc
    revert d
    decide
  have hpos : 0 < (Nat.toDigits 10 n).length := Nat.length_toDigits_pos
  have hread : readNumber 10 (Nat.toDigits 10 n).length true 255 (Nat.toDigits 10 n ++ []) = some (n, []) :=
    readNumber_toDigits (by decide) (by decide) hpos
      ((Nat.length_toDigits_le_iff (by decide) hpos).mp (Nat.le_refl _)) h fun c hc => nomatch hc
  rw [List.append_nil] at hread
  unfold parseU8
  split
  · next s heq =>
    rw [heq] at hplus
    exact absurd List.mem_cons_self hplus
  · dsimp only
    rw [hread]

namespace RawTarget

/-! ## Making targets -/

/-- An address and the prefix in its own family's terms. -/
def ofAddress (ip : IpAddr) (len : UInt8) : Except BadTarget RawTarget :=
  match ip.toCanonical with
  | .v4 v4 =>
    if len > 32 then .error (.ipv4Prefix len)
    else .ok (.address (mask (toMapped v4) (len + 96).toNat) (len + 96))
  | .v6 v6 =>
    if len > 128 then .error (.ipv6Prefix len)
    else .ok (.address (mask v6 len.toNat) len)

/-- `lower` is the lowercase of a login. -/
def ofLogin (lower : String → String) (login : List Char) : Except BadTarget RawTarget :=
  let login := lower (String.ofList (trim login))
  if login = "" then .error .noLogin else .ok (.login login)

def ofRegistrar (host : List Char) : Except BadTarget RawTarget :=
  let host := (((trim host).reverse.dropWhile (· = '.')).reverse).map Char.toLower
  if host = [] ∨ ¬ host.all (fun c => decide (c.toNat < 128)) ∨ '@' ∈ host ∨ '/' ∈ host ∨ ' ' ∈ host then
    .error (.host (String.ofList host))
  else .ok (.registrar (String.ofList host))

def stripPrefix (p s : List Char) : Option (List Char) := if p <+: s then some (s.drop p.length) else none

/-- A text before its first `/`, and after it. -/
def splitOnce (s : List Char) : List Char × Option (List Char) :=
  (s.takeWhile (· ≠ '/'), if '/' ∈ s then some ((s.dropWhile (· ≠ '/')).drop 1) else none)

/-- What an operator types. `fingerprint` reads an identity's printed form. -/
def parse (lower : String → String) (fingerprint : String → Option Fingerprint) (s : String) :
    Except BadTarget RawTarget :=
  let s := trim s.toList
  match stripPrefix "login:".toList s with
  | some rest => ofLogin lower rest
  | none =>
    match stripPrefix "identity:".toList s with
    | some fp =>
      match fingerprint (String.ofList (trim fp)) with
      | some fp => .ok (.identity fp)
      | none => .error (.fingerprint (String.ofList fp))
    | none =>
      match (stripPrefix "registrar:".toList s).or (stripPrefix "*@".toList s) with
      | some host => ofRegistrar host
      | none =>
        let (addr, len) := splitOnce s
        match parseIp addr with
        | none => .error (.unknown (String.ofList s))
        | some ip =>
          match len with
          | none => ofAddress ip (if ip.isIpv4 then 32 else 128)
          | some p =>
            match parseU8 p with
            | none => .error (.prefixLength (String.ofList s))
            | some len => ofAddress ip len

/-! ## Storing and showing targets -/

def kindI64 : RawTarget → Int
  | .address _ _ => 1
  | .login _ => 2
  | .identity _ => 3
  | .registrar _ => 4

def toRow : RawTarget → List UInt8 × Option UInt8
  | .address net len => (net.val, some len)
  | .login l => (utf8 l, none)
  | .identity fp => (fp.val, none)
  | .registrar h => (utf8 h, none)

def fromRow (kind : Int) (target : List UInt8) (len : Option UInt8) : Option RawTarget :=
  if kind = 1 then len.bind fun len => (Bytes.ofList 16 target).map (.address · len)
  else if len.isSome then none
  else if kind = 2 then (fromUtf8 target).map .login
  else if kind = 3 then (Bytes.ofList 32 target).map .identity
  else if kind = 4 then (fromUtf8 target).map .registrar
  else none

/-- How a moderator reads it. `fingerprint` is an identity's printed form. -/
def describe (fingerprint : Fingerprint → String) : RawTarget → String
  | .address net len =>
    String.ofList <|
      match (IpAddr.v6 net).toCanonical with
      | .v4 v4 =>
        if len ≥ 96 then
          if len = 128 then showV4 v4 else showV4 v4 ++ '/' :: Nat.toDigits 10 (len - 96).toNat
        else if len = 128 then showV6 net
        else showV6 net ++ '/' :: Nat.toDigits 10 len.toNat
      | .v6 v6 => if len = 128 then showV6 v6 else showV6 v6 ++ '/' :: Nat.toDigits 10 len.toNat
  | .login l => "login " ++ l
  | .identity fp => "identity " ++ fingerprint fp
  | .registrar h => "*@" ++ h

theorem fromRow_toRow (t : RawTarget) : fromRow t.kindI64 t.toRow.1 t.toRow.2 = some t := by
  cases t <;> simp [fromRow, kindI64, toRow]

/-! ### Read back -/

def IsText (c : Char) : Prop := (∃ d < 16, c = Nat.digitChar d) ∨ c = ':' ∨ c = '.'

theorem isText_toDigits {radix n : Nat} (hradix : 1 < radix) (hmax : radix ≤ 16) {c : Char}
    (h : c ∈ Nat.toDigits radix n) : IsText c := by
  obtain ⟨d, hd, hc⟩ := digit_of_mem_toDigits hradix h
  exact .inl ⟨d, by omega, hc⟩

theorem isText_showIpv4 {os : List Nat} {c : Char} (h : c ∈ showIpv4 os) : IsText c := by
  rcases mem_joined h with h | ⟨x, hx, h⟩
  · exact .inr (.inr h)
  · obtain ⟨o, -, rfl⟩ := List.mem_map.mp hx
    exact isText_toDigits (by decide) (by decide) h

theorem isText_showGroups {gs : List Nat} {c : Char} (h : c ∈ showGroups gs) : IsText c := by
  rcases mem_joined h with h | ⟨x, hx, h⟩
  · exact .inr (.inl h)
  · obtain ⟨o, -, rfl⟩ := List.mem_map.mp hx
    exact isText_toDigits (by decide) (by decide) h

theorem isText_showIpv6 {gs : List Nat} {c : Char} (h : c ∈ showIpv6 gs) : IsText c := by
  unfold showIpv6 at h
  split at h
  · rcases List.mem_append.mp h with h | h
    · have hmapped : c = ':' ∨ c = Nat.digitChar 15 := by
        have hc : c ∈ [':', ':', 'f', 'f', 'f', 'f', ':'] := h
        have hcases : c = ':' ∨ c = 'f' ∨ c = ':' := by simpa using hc
        rcases hcases with hc | hc | hc
        · exact .inl hc
        · exact .inr hc
        · exact .inl hc
      exact hmapped.elim (fun h => .inr (.inl h)) fun h => .inl ⟨15, by decide, h⟩
    · exact isText_showIpv4 h
  · dsimp only at h
    split at h
    · rcases List.mem_append.mp h with h | h
      · exact isText_showGroups h
      · rcases List.mem_cons.mp h with h | h
        · exact .inr (.inl h)
        · rcases List.mem_cons.mp h with h | h
          · exact .inr (.inl h)
          · exact isText_showGroups h
    · exact isText_showGroups h

theorem isText_showV4 {v4 : Bytes 4} {c : Char} (h : c ∈ showV4 v4) : IsText c := isText_showIpv4 h

theorem isText_showV6 {v6 : Bytes 16} {c : Char} (h : c ∈ showV6 v6) : IsText c := isText_showIpv6 h

theorem IsText.plain {c : Char} (h : IsText c) :
    Identity.isWhitespace c = false ∧ c ≠ '/' ∧ c ≠ 'l' ∧ c ≠ 'i' ∧ c ≠ 'r' ∧ c ≠ '*' := by
  rcases h with ⟨d, hd, rfl⟩ | rfl | rfl
  · revert d
    decide
  · decide
  · decide

theorem trim_eq_self {s : List Char} (h : ∀ c ∈ s, Identity.isWhitespace c = false) : trim s = s := by
  have hleft : ∀ t : List Char, (∀ c ∈ t, Identity.isWhitespace c = false) → t.dropWhile Identity.isWhitespace = t := by
    intro t ht
    cases t with
    | nil => rfl
    | cons c t => rw [List.dropWhile_cons, if_neg (by rw [ht c List.mem_cons_self]; exact Bool.false_ne_true)]
  unfold Identity.trim
  rw [hleft s h, hleft _ fun c hc => h c (List.mem_reverse.mp hc), List.reverse_reverse]

theorem stripPrefix_none {x : Char} {p s : List Char} (h : x ∉ s) : stripPrefix (x :: p) s = none := by
  refine if_neg fun hp => h ?_
  exact hp.subset List.mem_cons_self

/-- A text of addresses is read as an address, and a prefix after the `/`. -/
theorem parse_text (lower : String → String) (fingerprint : String → Option Fingerprint) {s : List Char}
    (h : ∀ c ∈ s, IsText c ∨ c = '/') {ip : IpAddr} (hip : parseIp (splitOnce s).1 = some ip) :
    parse lower fingerprint (String.ofList s) =
      match (splitOnce s).2 with
      | none => ofAddress ip (if ip.isIpv4 then 32 else 128)
      | some p =>
        match parseU8 p with
        | none => .error (.prefixLength (String.ofList s))
        | some len => ofAddress ip len := by
  have hplain : ∀ c ∈ s, Identity.isWhitespace c = false ∧ c ≠ 'l' ∧ c ≠ 'i' ∧ c ≠ 'r' ∧ c ≠ '*' := by
    intro c hc
    rcases h c hc with h | rfl
    · exact ⟨h.plain.1, h.plain.2.2⟩
    · decide
  have hl : 'l' ∉ s := fun hc => (hplain _ hc).2.1 rfl
  have hi : 'i' ∉ s := fun hc => (hplain _ hc).2.2.1 rfl
  have hr : 'r' ∉ s := fun hc => (hplain _ hc).2.2.2.1 rfl
  have hstar : '*' ∉ s := fun hc => (hplain _ hc).2.2.2.2 rfl
  have hlogin : stripPrefix "login:".toList s = none := stripPrefix_none hl
  have hidentity : stripPrefix "identity:".toList s = none := stripPrefix_none hi
  have hregistrar : stripPrefix "registrar:".toList s = none := stripPrefix_none hr
  have hhandle : stripPrefix "*@".toList s = none := stripPrefix_none hstar
  unfold parse
  rw [String.toList_ofList, trim_eq_self fun c hc => (hplain c hc).1]
  dsimp only
  rw [hlogin]
  dsimp only
  rw [hidentity]
  dsimp only
  rw [hregistrar, hhandle]
  dsimp only [Option.or]
  rw [hip]

theorem splitOnce_alone {s : List Char} (h : '/' ∉ s) : splitOnce s = (s, none) := by
  unfold splitOnce
  rw [if_neg h]
  have htake : (s ++ []).takeWhile (fun c => decide (c ≠ '/')) = s ++ [].takeWhile (fun c => decide (c ≠ '/')) :=
    List.takeWhile_append_of_pos fun c hc => decide_eq_true fun he => h (he ▸ hc)
  rw [List.takeWhile_nil, List.append_nil] at htake
  rw [htake]

theorem splitOnce_block {s : List Char} (h : '/' ∉ s) (p : List Char) : splitOnce (s ++ '/' :: p) = (s, some p) := by
  have hkeep : ∀ c ∈ s, decide (c ≠ '/') = true := fun c hc => decide_eq_true fun he => h (he ▸ hc)
  unfold splitOnce
  rw [if_pos (by simp), List.takeWhile_append_of_pos hkeep, List.dropWhile_append_of_pos hkeep]
  simp

/-- An address shown alone reads as the block of it alone. -/
theorem parse_alone (lower : String → String) (fingerprint : String → Option Fingerprint) {s : List Char}
    (h : ∀ c ∈ s, IsText c) {ip : IpAddr} (hip : parseIp s = some ip) :
    parse lower fingerprint (String.ofList s) = ofAddress ip (if ip.isIpv4 then 32 else 128) := by
  have hsplit := splitOnce_alone fun hc => (h _ hc).plain.2.1 rfl
  rw [parse_text lower fingerprint (fun c hc => .inl (h c hc)) (by rw [hsplit]; exact hip), hsplit]

/-- An address with a prefix reads as their block. -/
theorem parse_block (lower : String → String) (fingerprint : String → Option Fingerprint) {s : List Char}
    (h : ∀ c ∈ s, IsText c) {ip : IpAddr} (hip : parseIp s = some ip) (len : UInt8) :
    parse lower fingerprint (String.ofList (s ++ '/' :: Nat.toDigits 10 len.toNat)) = ofAddress ip len := by
  have hsplit := splitOnce_block (fun hc => (h _ hc).plain.2.1 rfl) (Nat.toDigits 10 len.toNat)
  have htext : ∀ c ∈ s ++ '/' :: Nat.toDigits 10 len.toNat, IsText c ∨ c = '/' := by
    intro c hc
    rcases List.mem_append.mp hc with hc | hc
    · exact .inl (h c hc)
    · rcases List.mem_cons.mp hc with hc | hc
      · exact .inr hc
      · exact .inl (isText_toDigits (by decide) (by decide) hc)
  rw [parse_text lower fingerprint htext (by rw [hsplit]; exact hip), hsplit]
  dsimp only
  rw [parseU8_toDigits (Nat.le_of_lt_succ len.toNat_lt), UInt8.ofNat_toNat]

/-! ## Bits -/

/-- Bit `i` of some bytes, the first the highest of the first byte. -/
def bitOf (octets : List UInt8) (i : Nat) : Bool := (octets.getD (i / 8) 0).toNat.testBit (7 - i % 8)

theorem bit_toMapped (v4 : Bytes 4) (i : Nat) : bit (toMapped v4) (96 + i) = bitOf v4.val i := by
  have hbyte : (96 + i) / 8 = mappedPrefix.length + i / 8 := by
    show (96 + i) / 8 = 12 + i / 8
    omega
  have hplace : (96 + i) % 8 = i % 8 := by omega
  unfold bit bitOf toMapped
  dsimp only
  rw [hbyte, hplace, List.getD_append_right _ _ _ _ (Nat.le_add_right _ _), Nat.add_sub_cancel_left]

theorem bit_toMapped_lt (v4 v4' : Bytes 4) {i : Nat} (h : i < 96) :
    bit (toMapped v4) i = bit (toMapped v4') i := by
  have hlt : i / 8 < mappedPrefix.length := by
    show i / 8 < 12
    omega
  unfold bit toMapped
  dsimp only
  rw [List.getD_append _ _ _ _ hlt, List.getD_append _ _ _ _ hlt]

/-- An address maps an IPv4 one just where its first bits are those of the mapped. -/
theorem mapped_iff (v6 : Bytes 16) (v4 : Bytes 4) :
    v6.val.take 12 = mappedPrefix ↔ ∀ i < 96, bit v6 i = bit (toMapped v4) i := by
  have hprefix : (toMapped v4).val.take 12 = mappedPrefix := List.take_left' rfl
  constructor
  · intro h i hi
    have hget : ∀ o : Bytes 16, o.val.getD (i / 8) 0 = (o.val.take 12).getD (i / 8) 0 := fun o => by
      rw [List.getD_eq_getElem?_getD, List.getD_eq_getElem?_getD, List.getElem?_take_of_lt (by omega)]
    rw [bit, bit, hget, hget, h, hprefix]
  · intro h
    rw [← hprefix]
    refine List.ext_getElem (by simp [v6.property, (toMapped v4).property]) fun n hn hn' => ?_
    have hn12 : n < 12 := by
      rw [List.length_take] at hn
      omega
    rw [List.getElem_take, List.getElem_take]
    refine byte_ext fun j hj => ?_
    have hbit := h (n * 8 + j) (by omega)
    rw [bit, bit, show (n * 8 + j) / 8 = n by omega, show (n * 8 + j) % 8 = j by omega,
      List.getD_eq_getElem _ _ (by rw [v6.property]; omega),
      List.getD_eq_getElem _ _ (by rw [(toMapped v4).property]; omega)] at hbit
    exact hbit

theorem mask_eq_mask_iff (a b : Bytes 16) {len : Nat} (hlen : len ≤ 128) :
    mask a len = mask b len ↔ ∀ i < len, bit a i = bit b i := by
  constructor
  · intro h i hi
    have hi' : i < 128 := Nat.lt_of_lt_of_le hi hlen
    have hbit := congrArg (bit · i) h
    simpa [bit_mask _ _ hi', hi] using hbit
  · intro h
    refine octets_ext fun i hi => ?_
    rw [bit_mask _ _ hi, bit_mask _ _ hi]
    by_cases hlt : i < len
    · rw [h i hlt]
    · rw [decide_eq_false hlt, Bool.false_and, Bool.false_and]

/-! ## Blocks -/

/-- The addresses a block of one is: of its family, those of its first bits. An IPv6 block's are all of 128
bits. -/
def Denotes (ip : IpAddr) (len : UInt8) (x : IpAddr) : Prop :=
  match ip.toCanonical, x with
  | .v4 o, .v4 x => ∀ i < len.toNat, bitOf x.val i = bitOf o.val i
  | .v6 o, .v6 x => ∀ i < len.toNat, bit x i = bit o i
  | _, _ => False

/-- Two targets made of one family's addresses. -/
theorem address_inj {a b : Bytes 16} {la lb : UInt8} (h : RawTarget.address a la = .address b lb) :
    a = b ∧ la = lb := ⟨(RawTarget.address.inj h).1, (RawTarget.address.inj h).2⟩

/-- Some bytes with one bit turned. -/
theorem exists_flip {l : List UInt8} {p : Nat} (hp : p < 8 * l.length) :
    ∃ l', l'.length = l.length ∧ bitOf l' p ≠ bitOf l p ∧ ∀ i < p, bitOf l' i = bitOf l i := by
  have hbits : ∀ k < 8, ∀ j < 8, ((0x80 : UInt8) >>> UInt8.ofNat k).toNat.testBit (7 - j) = decide (j = k) := by
    decide
  have hbyte : p / 8 < l.length := by omega
  have hset : ∀ i, bitOf (l.set (p / 8) (l[p / 8] ^^^ (0x80 >>> UInt8.ofNat (p % 8)))) i =
      (bitOf l i != decide (i = p)) := by
    intro i
    unfold bitOf
    rw [List.getD_eq_getElem?_getD, List.getD_eq_getElem?_getD, List.getElem?_set]
    by_cases hi : p / 8 = i / 8
    · rw [if_pos hi, if_pos hbyte, Option.getD_some, UInt8.toNat_xor, Nat.testBit_xor,
        hbits (p % 8) (by omega) (i % 8) (by omega), ← hi, List.getElem?_eq_getElem hbyte, Option.getD_some]
      have hsame : decide (i % 8 = p % 8) = decide (i = p) := decide_eq_decide.mpr (by omega)
      rw [hsame]
    · rw [if_neg hi, decide_eq_false (by omega), Bool.bne_false]
  refine ⟨l.set (p / 8) (l[p / 8] ^^^ (0x80 >>> UInt8.ofNat (p % 8))), List.length_set, ?_, fun i hi => ?_⟩
  · rw [hset, decide_eq_true rfl]
    cases bitOf l p <;> decide
  · rw [hset, decide_eq_false (Nat.ne_of_lt hi), Bool.bne_false]

/-- Longer, a block leaves an address of a shorter one out. -/
theorem len_le_of_denotes {ip ip' : IpAddr} {len len' : UInt8} (hlen' : match ip'.toCanonical with
    | .v4 _ => len'.toNat ≤ 32
    | .v6 _ => len'.toNat ≤ 128)
    (h : ∀ x, Denotes ip len x ↔ Denotes ip' len' x) : len'.toNat ≤ len.toNat := by
  refine Nat.le_of_not_lt fun hlt => ?_
  unfold Denotes at h
  cases hip' : ip'.toCanonical with
  | v4 o' =>
    rw [hip'] at h hlen'
    obtain ⟨l, hl, hflip, hsame⟩ := exists_flip (l := o'.val) (p := len.toNat) (by rw [o'.property]; omega)
    cases hip : ip.toCanonical with
    | v4 o =>
      rw [hip] at h
      have hself := (h (.v4 o')).mpr fun i _ => rfl
      refine hflip ((h (.v4 ⟨l, hl.trans o'.property⟩)).mp (fun i hi => ?_) len.toNat hlt)
      exact (hsame i hi).trans (hself i hi)
    | v6 o =>
      rw [hip] at h
      exact (h (.v4 o')).mpr fun i _ => rfl
  | v6 o' =>
    rw [hip'] at h hlen'
    obtain ⟨l, hl, hflip, hsame⟩ := exists_flip (l := o'.val) (p := len.toNat) (by rw [o'.property]; omega)
    cases hip : ip.toCanonical with
    | v6 o =>
      rw [hip] at h
      have hself := (h (.v6 o')).mpr fun i _ => rfl
      refine hflip ((h (.v6 ⟨l, hl.trans o'.property⟩)).mp (fun i hi => ?_) len.toNat hlt)
      exact (hsame i hi).trans (hself i hi)
    | v4 o =>
      rw [hip] at h
      exact (h (.v6 o')).mpr fun i _ => rfl

/-- A target made is of an IPv4 address, 96 bits or longer in the mapped form, or of an IPv6 one. -/
theorem ofAddress_cases {ip : IpAddr} {len : UInt8} {t : RawTarget} (h : ofAddress ip len = .ok t) :
    (∃ o, ip.toCanonical = .v4 o ∧ len.toNat ≤ 32 ∧ (len + 96).toNat = len.toNat + 96 ∧
      t = .address (mask (toMapped o) (len.toNat + 96)) (len + 96)) ∨
    ∃ o, ip.toCanonical = .v6 o ∧ o.val.take 12 ≠ mappedPrefix ∧ len.toNat ≤ 128 ∧
      t = .address (mask o len.toNat) len := by
  unfold ofAddress at h
  cases hip : ip.toCanonical with
  | v4 o =>
    rw [hip] at h
    dsimp only at h
    split at h
    · cases h
    next hle =>
    have hle' : len.toNat ≤ 32 := UInt8.le_iff_toNat_le.mp (UInt8.not_lt.mp hle)
    have hsum : (len + 96).toNat = len.toNat + 96 := by
      rw [UInt8.toNat_add]
      exact Nat.mod_eq_of_lt (by show len.toNat + 96 < 256; omega)
    rw [hsum] at h
    exact .inl ⟨o, rfl, hle', hsum, (Except.ok.inj h).symm⟩
  | v6 o =>
    rw [hip] at h
    dsimp only at h
    split at h
    · cases h
    next hle =>
    refine .inr ⟨o, rfl, fun hmapped => ?_, UInt8.le_iff_toNat_le.mp (UInt8.not_lt.mp hle),
      (Except.ok.inj h).symm⟩
    cases ip with
    | v4 o' => cases hip
    | v6 o' =>
      have hcanonical : (if h : o'.val.take 12 = mappedPrefix then
          IpAddr.v4 ⟨o'.val.drop 12, by rw [List.length_drop, o'.property]⟩ else .v6 o') = .v6 o := hip
      split at hcanonical
      · cases hcanonical
      · next hnot =>
        obtain rfl := IpAddr.v6.inj hcanonical
        exact hnot hmapped

/-- The network of an IPv4 block maps an IPv4 address; that of an IPv6 block does not. -/
theorem mask_mapped (o : Bytes 4) {len : Nat} (h : 96 ≤ len) :
    (mask (toMapped o) len).val.take 12 = mappedPrefix := by
  rw [mapped_iff _ o]
  intro i hi
  rw [bit_mask _ _ (by omega), decide_eq_true (by omega), Bool.true_and]

theorem mask_not_mapped {o : Bytes 16} (h : o.val.take 12 ≠ mappedPrefix) (len : Nat) :
    (mask o len).val.take 12 ≠ mappedPrefix := by
  intro hmask
  rw [mapped_iff _ (Bytes.replicate 4 0)] at hmask
  have hlen : 96 ≤ len := by
    -- The last bit of the mapped prefix is one.
    have hlast := hmask 95 (by decide)
    rw [bit_mask _ _ (by decide), show bit (toMapped (Bytes.replicate 4 0)) 95 = true from by decide,
      Bool.and_eq_true, decide_eq_true_eq] at hlast
    omega
  refine h ((mapped_iff _ (Bytes.replicate 4 0)).mpr fun i hi => ?_)
  rw [← hmask i hi, bit_mask _ _ (by omega), decide_eq_true (by omega), Bool.true_and]

/-- Two blocks are one target just where they are one set of addresses. -/
theorem ofAddress_eq_iff {ip ip' : IpAddr} {len len' : UInt8} {t t' : RawTarget} (h : ofAddress ip len = .ok t)
    (h' : ofAddress ip' len' = .ok t') : t = t' ↔ ∀ x, Denotes ip len x ↔ Denotes ip' len' x := by
  have hlens : (∀ x, Denotes ip len x ↔ Denotes ip' len' x) → len = len' := by
    intro hsets
    apply UInt8.toNat_inj.mp
    apply Nat.le_antisymm
    · refine len_le_of_denotes ?_ fun x => (hsets x).symm
      rcases ofAddress_cases h with ⟨o, hip, hle, -⟩ | ⟨o, hip, -, hle, -⟩ <;> rwa [hip]
    · refine len_le_of_denotes ?_ hsets
      rcases ofAddress_cases h' with ⟨o, hip, hle, -⟩ | ⟨o, hip, -, hle, -⟩ <;> rwa [hip]
  rcases ofAddress_cases h with ⟨o, hip, hle, hsum, rfl⟩ | ⟨o, hip, hnot, hle, rfl⟩ <;>
    rcases ofAddress_cases h' with ⟨o', hip', hle', hsum', rfl⟩ | ⟨o', hip', hnot', hle', rfl⟩
  · have hbits : mask (toMapped o) (len.toNat + 96) = mask (toMapped o') (len.toNat + 96) ↔
        ∀ i < len.toNat, bitOf o.val i = bitOf o'.val i := by
      rw [mask_eq_mask_iff _ _ (by omega)]
      constructor
      · intro hb i hi
        have := hb (96 + i) (by omega)
        rwa [bit_toMapped, bit_toMapped] at this
      · intro hb i hi
        by_cases hlt : i < 96
        · exact bit_toMapped_lt o o' hlt
        · have := hb (i - 96) (by omega)
          rw [← bit_toMapped, ← bit_toMapped, show 96 + (i - 96) = i by omega] at this
          exact this
    constructor
    · intro heq x
      obtain ⟨hnet, hlen⟩ := address_inj heq
      have hlen' : len.toNat = len'.toNat := by
        have := congrArg UInt8.toNat hlen
        omega
      rw [← hlen'] at hnet
      have hsame := hbits.mp hnet
      unfold Denotes
      rw [hip, hip', ← hlen']
      cases x with
      | v4 x => exact forall₂_congr fun i hi => by rw [hsame i hi]
      | v6 x => exact Iff.rfl
    · intro hsets
      obtain rfl := hlens hsets
      refine congrArg (RawTarget.address · (len + 96)) (hbits.mpr fun i hi => ?_)
      have hself := (hsets (.v4 o)).mp (by unfold Denotes; rw [hip]; exact fun i _ => rfl)
      unfold Denotes at hself
      rw [hip'] at hself
      exact hself i hi
  · constructor
    · intro heq
      obtain ⟨hnet, -⟩ := address_inj heq
      refine absurd ?_ (mask_not_mapped hnot' len'.toNat)
      rw [← hnet]
      exact mask_mapped o (by omega)
    · intro hsets
      have hself := (hsets (.v4 o)).mp (by unfold Denotes; rw [hip]; exact fun i _ => rfl)
      unfold Denotes at hself
      rw [hip'] at hself
      exact hself.elim
  · constructor
    · intro heq
      obtain ⟨hnet, -⟩ := address_inj heq
      refine absurd ?_ (mask_not_mapped hnot len.toNat)
      rw [hnet]
      exact mask_mapped o' (by omega)
    · intro hsets
      have hself := (hsets (.v6 o)).mp (by unfold Denotes; rw [hip]; exact fun i _ => rfl)
      unfold Denotes at hself
      rw [hip'] at hself
      exact hself.elim
  · constructor
    · intro heq x
      obtain ⟨hnet, rfl⟩ := address_inj heq
      have hsame := (mask_eq_mask_iff _ _ hle).mp hnet
      unfold Denotes
      rw [hip, hip']
      cases x with
      | v4 x => exact Iff.rfl
      | v6 x => exact forall₂_congr fun i hi => by rw [hsame i hi]
    · intro hsets
      obtain rfl := hlens hsets
      refine congrArg (RawTarget.address · len) ((mask_eq_mask_iff _ _ hle).mpr fun i hi => ?_)
      have hself := (hsets (.v6 o)).mp (by unfold Denotes; rw [hip]; exact fun i _ => rfl)
      unfold Denotes at hself
      rw [hip'] at hself
      exact hself i hi

theorem toCanonical_mapped {net : Bytes 16} (h : net.val.take 12 = mappedPrefix) :
    ∃ v4 : Bytes 4, (IpAddr.v6 net).toCanonical = .v4 v4 ∧ toMapped v4 = net := by
  refine ⟨⟨net.val.drop 12, by rw [List.length_drop, net.property]⟩, dif_pos h, Subtype.ext ?_⟩
  show mappedPrefix ++ net.val.drop 12 = net.val
  rw [← h, List.take_append_drop]

theorem toCanonical_v6 {net : Bytes 16} (h : net.val.take 12 ≠ mappedPrefix) :
    (IpAddr.v6 net).toCanonical = .v6 net := dif_neg h

/-- What is shown of an address or a block reads back as it. -/
theorem parse_describe (lower : String → String) (fingerprint : String → Option Fingerprint)
    (printed : Fingerprint → String) {ip : IpAddr} {len : UInt8} {t : RawTarget} (h : ofAddress ip len = .ok t) :
    parse lower fingerprint (t.describe printed) = .ok t := by
  rcases ofAddress_cases h with ⟨o, hip, hle, hsum, rfl⟩ | ⟨o, hip, hnot, hle, rfl⟩
  · obtain ⟨v4, hcanonical, hnet⟩ := toCanonical_mapped (mask_mapped o (Nat.le_add_left 96 len.toNat))
    have hagain : ofAddress (.v4 v4) len = .ok (.address (mask (toMapped o) (len.toNat + 96)) (len + 96)) := by
      have hsmall : ¬ len > 32 := by
        rw [gt_iff_lt, UInt8.lt_iff_toNat_lt]
        exact Nat.not_lt.mpr hle
      show (if len > 32 then _ else _) = _
      rw [if_neg hsmall, hnet, hsum, BanMatcher.mask_mask]
    unfold describe
    dsimp only
    rw [hcanonical]
    dsimp only
    have hlong : len + 96 ≥ 96 := by
      rw [ge_iff_le, UInt8.le_iff_toNat_le, hsum]
      exact Nat.le_add_left _ _
    rw [if_pos hlong]
    split
    · next hfull =>
      have hlen : len = 32 := by
        apply UInt8.toNat_inj.mp
        have : (len + 96).toNat = 128 := by rw [hfull]; rfl
        show len.toNat = 32
        omega
      rw [parse_alone lower fingerprint (fun c hc => isText_showV4 hc) (parseIp_showV4 v4)]
      rw [← hagain, hlen]
      rfl
    · have hback : len + 96 - 96 = len := by
        apply UInt8.toNat_inj.mp
        rw [UInt8.toNat_sub_of_le _ _ hlong, hsum]
        exact Nat.add_sub_cancel _ _
      rw [hback, parse_block lower fingerprint (fun c hc => isText_showV4 hc) (parseIp_showV4 v4), hagain]
  · have hmapped := mask_not_mapped hnot len.toNat
    have hcanonical := toCanonical_v6 hmapped
    have hagain : ofAddress (.v6 (mask o len.toNat)) len = .ok (.address (mask o len.toNat) len) := by
      have hsmall : ¬ len > 128 := by
        rw [gt_iff_lt, UInt8.lt_iff_toNat_lt]
        exact Nat.not_lt.mpr hle
      unfold ofAddress
      rw [hcanonical]
      dsimp only
      rw [if_neg hsmall, BanMatcher.mask_mask]
    unfold describe
    dsimp only
    rw [hcanonical]
    dsimp only
    split
    · next hfull =>
      have hfamily : (IpAddr.v6 (mask o len.toNat)).isIpv4 = false := by
        unfold IpAddr.isIpv4
        rw [hcanonical]
      rw [parse_alone lower fingerprint (fun c hc => isText_showV6 hc) (parseIp_showV6 hmapped), hfamily,
        if_neg Bool.false_ne_true, ← hfull, hagain]
    · rw [parse_block lower fingerprint (fun c hc => isText_showV6 hc) (parseIp_showV6 hmapped), hagain]

end RawTarget

/-! ## Bans filed -/

/-- What is done to the matcher. -/
inductive Filing where
  | insert (ban : Ban)
  | remove (id : BanId)

/-- The matcher after what was done to it, the last first. -/
def filed : List Filing → BanMatcher
  | [] => {}
  | .insert ban :: ops => (filed ops).insert ban
  | .remove id :: ops => (filed ops).remove id

/-- A ban was filed, and neither removed since nor replaced under its id or its target. -/
def Filed (ban : Ban) : List Filing → Prop
  | [] => False
  | .insert b :: ops => ban = b ∨ ban.id ≠ b.id ∧ ban.target ≠ b.target ∧ Filed ban ops
  | .remove id :: ops => ban.id ≠ id ∧ Filed ban ops

theorem filed_wf (ops : List Filing) : (filed ops).Wf := by
  induction ops with
  | nil => exact BanMatcher.wf_empty
  | cons op ops ih =>
    cases op with
    | insert ban => exact BanMatcher.wf_insert ih ban
    | remove id => exact BanMatcher.wf_remove ih id

/-- A target's entry is of the ban filed under it. -/
theorem held_filed (ops : List Filing) (t : BanTarget) (hit : BanHit) :
    Assoc.lookup (filed ops).held t = some hit ↔ ∃ ban, Filed ban ops ∧ ban.target = t ∧ ban.hit = hit := by
  induction ops generalizing hit with
  | nil => exact ⟨nofun, fun ⟨_, h, _⟩ => h.elim⟩
  | cons op ops ih =>
    cases op with
    | insert b =>
      show Assoc.lookup ((filed ops).insert b).held t = some hit ↔ _
      rw [BanMatcher.held_insert (filed_wf ops)]
      split
      · next ht =>
        constructor
        · intro h
          exact ⟨b, .inl rfl, ht.symm, Option.some.inj h⟩
        · rintro ⟨ban, rfl | ⟨-, hne, -⟩, hban, rfl⟩
          · rfl
          · exact absurd (hban.trans ht) hne
      · next ht =>
        rw [Option.filter_eq_some_iff, ih]
        constructor
        · rintro ⟨⟨ban, hfiled, hban, rfl⟩, hid⟩
          exact ⟨ban, .inr ⟨of_decide_eq_true hid, fun h => ht (hban ▸ h), hfiled⟩, hban, rfl⟩
        · rintro ⟨ban, rfl | ⟨hid, -, hfiled⟩, hban, rfl⟩
          · exact absurd hban.symm ht
          · exact ⟨⟨ban, hfiled, hban, rfl⟩, decide_eq_true hid⟩
    | remove id =>
      show Assoc.lookup ((filed ops).remove id).held t = some hit ↔ _
      rw [BanMatcher.held_remove (filed_wf ops), Option.filter_eq_some_iff, ih]
      constructor
      · rintro ⟨⟨ban, hfiled, hban, rfl⟩, hid⟩
        exact ⟨ban, ⟨of_decide_eq_true hid, hfiled⟩, hban, rfl⟩
      · rintro ⟨ban, ⟨hid, hfiled⟩, hban, rfl⟩
        exact ⟨⟨ban, hfiled, hban, rfl⟩, decide_eq_true hid⟩

/-- The family of a block: 96 bits or longer of the mapped form for IPv4. -/
def Block.isIpv4 (b : Block) : Bool := 96 ≤ b.len && b.net.val.take 12 = mappedPrefix

/-- A block covers the addresses of its family with its first bits. -/
theorem coversAddress_iff (t : BanTarget) (ip : IpAddr) :
    t.CoversAddress ip ↔
      ∃ b, t = .address b ∧ b.isIpv4 = ip.isIpv4 ∧ ∀ i < b.len, bit (v6Octets ip) i = bit b.net i := by
  refine exists_congr fun b => and_congr_right fun _ => ?_
  have hocts : ip.isIpv4 = decide ((v6Octets ip).val.take 12 = mappedPrefix) := by
    unfold IpAddr.isIpv4 v6Octets
    cases hip : ip.toCanonical with
    | v4 o =>
      have hprefix : (toMapped o).val.take 12 = mappedPrefix := List.take_left' rfl
      exact (decide_eq_true hprefix).symm
    | v6 o =>
      refine (decide_eq_false fun hmapped => ?_).symm
      cases ip with
      | v4 o' => cases hip
      | v6 o' =>
        obtain ⟨v4, hv4, -⟩ := RawTarget.toCanonical_mapped hmapped
        by_cases hnot : o'.val.take 12 = mappedPrefix
        · obtain ⟨v4', hv4', -⟩ := RawTarget.toCanonical_mapped hnot
          cases hip.symm.trans hv4'
        · obtain rfl := IpAddr.v6.inj ((RawTarget.toCanonical_v6 hnot).symm.trans hip)
          exact hnot hmapped
  -- With 96 bits or more in common, both map an IPv4 address or neither does.
  have hsame : 96 ≤ b.len → (∀ i < b.len, bit (v6Octets ip) i = bit b.net i) →
      ((v6Octets ip).val.take 12 = mappedPrefix ↔ b.net.val.take 12 = mappedPrefix) := by
    intro hlen hbits
    rw [RawTarget.mapped_iff _ (Bytes.replicate 4 0), RawTarget.mapped_iff _ (Bytes.replicate 4 0)]
    exact forall₂_congr fun i hi => by rw [hbits i (by omega)]
  constructor
  · rintro ⟨hfamily, hbits⟩
    refine ⟨?_, hbits⟩
    unfold Block.isIpv4
    by_cases hlen : 96 ≤ b.len
    · rw [hocts, decide_eq_true hlen, Bool.true_and]
      exact decide_eq_decide.mpr (hsame hlen hbits).symm
    · rw [decide_eq_false hlen, Bool.false_and]
      cases hip : ip.isIpv4 with
      | false => rfl
      | true => exact absurd (hfamily hip) hlen
  · rintro ⟨hfamily, hbits⟩
    refine ⟨fun hip => ?_, hbits⟩
    rw [hip] at hfamily
    exact of_decide_eq_true ((Bool.and_eq_true _ _).mp hfamily).1

/-- Of the bans filed, an address is refused just where one is unexpired, and of its family with its first
bits. -/
theorem address_filed (ops : List Filing) (ip : IpAddr) (now : Relationships.SystemTime) :
    ((filed ops).address ip now).isSome = true ↔
      ∃ ban b, Filed ban ops ∧ ban.expiresAt.all (now < ·) = true ∧ ban.target = .address b ∧
        b.isIpv4 = ip.isIpv4 ∧ ∀ i < b.len, bit (v6Octets ip) i = bit b.net i := by
  rw [BanMatcher.address_isSome]
  constructor
  · rintro ⟨t, hit, hheld, hlive, hcovers⟩
    obtain ⟨ban, hfiled, rfl, rfl⟩ := (held_filed ops t hit).mp hheld
    obtain ⟨b, ht, hfamily, hbits⟩ := (coversAddress_iff _ _).mp hcovers
    exact ⟨ban, b, hfiled, hlive, ht, hfamily, hbits⟩
  · rintro ⟨ban, b, hfiled, hlive, ht, hfamily, hbits⟩
    refine ⟨ban.target, ban.hit, (held_filed ops _ _).mpr ⟨ban, hfiled, rfl, rfl⟩, hlive, ?_⟩
    exact (coversAddress_iff _ _).mpr ⟨b, ht, hfamily, hbits⟩

/-- Of bans with distinct ids and distinct targets, all are filed, whatever their order. -/
theorem filed_insert_iff {bans : List Ban} (hids : (bans.map (·.id)).Nodup) (htargets : (bans.map (·.target)).Nodup)
    (ban : Ban) : Filed ban (bans.map .insert) ↔ ban ∈ bans := by
  induction bans with
  | nil => exact ⟨fun h => h.elim, nofun⟩
  | cons b bans ih =>
    rw [List.map_cons, List.nodup_cons] at hids htargets
    show ban = b ∨ ban.id ≠ b.id ∧ ban.target ≠ b.target ∧ Filed ban (bans.map .insert) ↔ _
    rw [ih hids.2 htargets.2, List.mem_cons]
    refine or_congr_right ⟨fun h => h.2.2, fun h => ⟨fun he => hids.1 ?_, fun he => htargets.1 ?_, h⟩⟩
    · exact he ▸ List.mem_map_of_mem h
    · exact he ▸ List.mem_map_of_mem h

/-- Address bans match exactly the block they name: an address is refused just where a ban filed, and
neither removed nor replaced under its id or its target since, is unexpired and covers it; of bans with
distinct ids and targets that is any of them, whatever their order. Two blocks are one target just where
they are one set of addresses of a family; a block shown reads back as it, and so does any target stored. -/
theorem bans_match_their_block :
    (∀ ops ip now, ((filed ops).address ip now).isSome = true ↔
      ∃ ban b, Filed ban ops ∧ ban.expiresAt.all (now < ·) = true ∧ ban.target = .address b ∧
        b.isIpv4 = ip.isIpv4 ∧ ∀ i < b.len, bit (v6Octets ip) i = bit b.net i) ∧
    (∀ bans : List Ban, (bans.map (·.id)).Nodup → (bans.map (·.target)).Nodup →
      ∀ ban, Filed ban (bans.map .insert) ↔ ban ∈ bans) ∧
    (∀ ip len ip' len' t t', RawTarget.ofAddress ip len = .ok t → RawTarget.ofAddress ip' len' = .ok t' →
      (t = t' ↔ ∀ x, RawTarget.Denotes ip len x ↔ RawTarget.Denotes ip' len' x)) ∧
    (∀ lower fingerprint printed ip len t, RawTarget.ofAddress ip len = .ok t →
      RawTarget.parse lower fingerprint (t.describe printed) = .ok t) ∧
    ∀ t : RawTarget, RawTarget.fromRow t.kindI64 t.toRow.1 t.toRow.2 = some t :=
  ⟨address_filed, fun _ hids htargets => filed_insert_iff hids htargets,
    fun _ _ _ _ _ _ => RawTarget.ofAddress_eq_iff,
    fun lower fingerprint printed _ _ _ => RawTarget.parse_describe lower fingerprint printed,
    RawTarget.fromRow_toRow⟩

/-- Two bans of one address, with ids of their own: the first never expires, but is not there any more once
the second is filed, so nothing refuses the address once that expires; the other way round it is refused. -/
theorem ban_displaced :
    let block : Block := ⟨Bytes.replicate 16 1, 128, by decide, by decide⟩
    let ban (id : BanId) (expires : Option Relationships.SystemTime) : Ban :=
      ⟨id, .address block, "spam", none, "op", none, .moderator, 0, expires, none, none, none⟩
    let ip : IpAddr := .v6 (Bytes.replicate 16 1)
    ((BanMatcher.load [ban 1 none, ban 2 (some 10)]).address ip 20) = none ∧
      (∀ i < 128, bit (v6Octets ip) i = bit block.net i) ∧ block.isIpv4 = ip.isIpv4 ∧
      ((BanMatcher.load [ban 2 (some 10), ban 1 none]).address ip 20).isSome = true := by
  decide +kernel

end HxdNg.Moderation
