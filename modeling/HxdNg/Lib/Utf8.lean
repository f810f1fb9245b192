import Mathlib

/-!
# Texts by their bytes

A text is its characters; its offsets count the bytes of their UTF-8.

* `bytes`, `size` : the bytes of a text, and how many;
* `dropBytes`, `takeBytes`, `slice` : a text cut at offsets, which must lie between characters;
* `ascii_at` : below 128, the byte at an offset between characters is a character;
* `floorBoundary` : the last offset between characters up to a limit.
-/

namespace HxdNg.Utf8

def bytes (s : List Char) : List UInt8 := s.flatMap String.utf8EncodeChar

def size (s : List Char) : Nat := (bytes s).length

@[simp] theorem bytes_nil : bytes [] = [] := rfl

theorem bytes_cons (c : Char) (s : List Char) : bytes (c :: s) = String.utf8EncodeChar c ++ bytes s :=
  List.flatMap_cons

theorem bytes_append (s t : List Char) : bytes (s ++ t) = bytes s ++ bytes t := List.flatMap_append

@[simp] theorem size_nil : size [] = 0 := rfl

theorem size_cons (c : Char) (s : List Char) : size (c :: s) = c.utf8Size + size s := by
  rw [size, bytes_cons, List.length_append, String.length_utf8EncodeChar, size]

theorem size_append (s t : List Char) : size (s ++ t) = size s + size t := by
  rw [size, bytes_append, List.length_append, size, size]

theorem size_eq_zero {s : List Char} : size s = 0 ↔ s = [] := by
  cases s with
  | nil => simp
  | cons c s =>
    have hpos := c.utf8Size_pos
    rw [size_cons]
    simp only [reduceCtorEq, iff_false]
    omega

/-! ## Cuts -/

/-- What is left after `n` bytes; none where a character is cut, or the text is over. -/
def dropBytes : List Char → Nat → Option (List Char)
  | s, 0 => some s
  | [], _ + 1 => none
  | c :: s, n + 1 => if c.utf8Size ≤ n + 1 then dropBytes s (n + 1 - c.utf8Size) else none

/-- The first `n` bytes. -/
def takeBytes : List Char → Nat → Option (List Char)
  | _, 0 => some []
  | [], _ + 1 => none
  | c :: s, n + 1 => if c.utf8Size ≤ n + 1 then (takeBytes s (n + 1 - c.utf8Size)).map (c :: ·) else none

def isCharBoundary (s : List Char) (n : Nat) : Bool := (dropBytes s n).isSome

/-- The text between two offsets. -/
def slice (s : List Char) (a b : Nat) : Option (List Char) :=
  if a ≤ b then (dropBytes s a).bind (takeBytes · (b - a)) else none

theorem dropBytes_zero (s : List Char) : dropBytes s 0 = some s := by cases s <;> rfl

theorem takeBytes_zero (s : List Char) : takeBytes s 0 = some [] := by cases s <;> rfl

theorem dropBytes_cons (c : Char) (s : List Char) (n : Nat) : dropBytes (c :: s) (c.utf8Size + n) = dropBytes s n := by
  have hpos := c.utf8Size_pos
  obtain ⟨k, hk⟩ := Nat.exists_eq_succ_of_ne_zero (Nat.ne_of_gt (Nat.add_pos_left hpos n))
  have hstep : dropBytes (c :: s) (k + 1) =
      if c.utf8Size ≤ k + 1 then dropBytes s (k + 1 - c.utf8Size) else none := rfl
  rw [hk, hstep, if_pos (by omega)]
  congr 1
  omega

theorem takeBytes_cons (c : Char) (s : List Char) (n : Nat) :
    takeBytes (c :: s) (c.utf8Size + n) = (takeBytes s n).map (c :: ·) := by
  have hpos := c.utf8Size_pos
  obtain ⟨k, hk⟩ := Nat.exists_eq_succ_of_ne_zero (Nat.ne_of_gt (Nat.add_pos_left hpos n))
  have hstep : takeBytes (c :: s) (k + 1) =
      if c.utf8Size ≤ k + 1 then (takeBytes s (k + 1 - c.utf8Size)).map (c :: ·) else none := rfl
  rw [hk, hstep, if_pos (by omega)]
  congr 2
  omega

theorem dropBytes_append (s t : List Char) : dropBytes (s ++ t) (size s) = some t := by
  induction s with
  | nil => exact dropBytes_zero t
  | cons c s ih => rw [List.cons_append, size_cons, dropBytes_cons, ih]

theorem takeBytes_append (s t : List Char) : takeBytes (s ++ t) (size s) = some s := by
  induction s with
  | nil => exact takeBytes_zero t
  | cons c s ih =>
    rw [List.cons_append, size_cons, takeBytes_cons, ih]
    rfl

theorem dropBytes_eq_some {s t : List Char} {n : Nat} (h : dropBytes s n = some t) :
    ∃ p, s = p ++ t ∧ size p = n := by
  induction s generalizing n with
  | nil =>
    cases n with
    | zero =>
      obtain rfl := Option.some.inj h
      exact ⟨[], rfl, rfl⟩
    | succ n => cases h
  | cons c s ih =>
    cases n with
    | zero =>
      obtain rfl := Option.some.inj h
      exact ⟨[], rfl, rfl⟩
    | succ n =>
      unfold dropBytes at h
      split at h
      · next hle =>
        obtain ⟨p, rfl, hp⟩ := ih h
        refine ⟨c :: p, rfl, ?_⟩
        rw [size_cons, hp]
        omega
      · cases h

theorem takeBytes_eq_some {s t : List Char} {n : Nat} (h : takeBytes s n = some t) :
    ∃ r, s = t ++ r ∧ size t = n := by
  induction s generalizing n t with
  | nil =>
    cases n with
    | zero =>
      obtain rfl := Option.some.inj h
      exact ⟨[], rfl, rfl⟩
    | succ n => cases h
  | cons c s ih =>
    cases n with
    | zero =>
      obtain rfl := Option.some.inj h
      exact ⟨c :: s, rfl, rfl⟩
    | succ n =>
      unfold takeBytes at h
      split at h
      · next hle =>
        obtain ⟨t', ht', rfl⟩ := Option.map_eq_some_iff.mp h
        obtain ⟨r, rfl, ht⟩ := ih ht'
        refine ⟨r, rfl, ?_⟩
        rw [size_cons, ht]
        omega
      · cases h

theorem slice_append (s t r : List Char) : slice (s ++ t ++ r) (size s) (size s + size t) = some t := by
  unfold slice
  rw [if_pos (Nat.le_add_right _ _), List.append_assoc, dropBytes_append, Option.bind_some,
    Nat.add_sub_cancel_left, takeBytes_append]

theorem slice_eq_some {s t : List Char} {a b : Nat} (h : slice s a b = some t) :
    ∃ p r, s = p ++ t ++ r ∧ size p = a ∧ size p + size t = b := by
  unfold slice at h
  split at h
  · next hle =>
    obtain ⟨u, hu, ht⟩ := Option.bind_eq_some_iff.mp h
    obtain ⟨p, rfl, hp⟩ := dropBytes_eq_some hu
    obtain ⟨r, rfl, hsize⟩ := takeBytes_eq_some ht
    exact ⟨p, r, by rw [List.append_assoc], hp, by omega⟩
  · cases h

/-! ## Characters by their first byte -/

theorem utf8EncodeChar_of_ascii {c : Char} (h : c.toNat < 128) :
    String.utf8EncodeChar c = [UInt8.ofNat c.toNat] := by
  have hsize : c.utf8Size = 1 := by
    rw [Char.utf8Size_eq_one_iff, UInt32.le_iff_toNat_le]
    exact Nat.le_of_lt_succ h
  rw [String.utf8EncodeChar_eq_singleton hsize]
  refine congrArg (fun b => [b]) (UInt8.toNat_inj.mp ?_)
  rw [UInt32.toNat_toUInt8, UInt8.toNat_ofNat']
  rfl

/-- The bytes of a character that is not ASCII are not either. -/
theorem utf8EncodeChar_of_not_ascii {c : Char} (h : ¬ c.toNat < 128) : ∀ b ∈ String.utf8EncodeChar c, 128 ≤ b.toNat := by
  have hlarge : ¬ c.val.toNat ≤ 127 := fun hle => h (Nat.lt_succ_of_le hle)
  have hvalid : c.val.toNat < 0x110000 := by
    rcases c.valid with hv | hv <;> omega
  intro b hb
  unfold String.utf8EncodeChar at hb
  dsimp only at hb
  rw [if_neg hlarge] at hb
  split at hb
  · simp only [List.mem_cons, List.not_mem_nil, or_false] at hb
    rcases hb with rfl | rfl <;> rw [UInt8.toNat_ofNat'] <;> omega
  · split at hb
    · simp only [List.mem_cons, List.not_mem_nil, or_false] at hb
      rcases hb with rfl | rfl | rfl <;> rw [UInt8.toNat_ofNat'] <;> omega
    · simp only [List.mem_cons, List.not_mem_nil, or_false] at hb
      rcases hb with rfl | rfl | rfl | rfl <;> rw [UInt8.toNat_ofNat'] <;> omega

theorem getElem?_bytes_append (s t : List Char) (i : Nat) : (bytes (s ++ t))[size s + i]? = (bytes t)[i]? := by
  unfold size
  rw [bytes_append, List.getElem?_append_right (Nat.le_add_right _ _), Nat.add_sub_cancel_left]

theorem getElem?_bytes_at (s t : List Char) : (bytes (s ++ t))[size s]? = (bytes t)[0]? :=
  getElem?_bytes_append s t 0

/-- An ASCII byte at an offset between characters is a character of one byte. -/
theorem ascii_at {s t : List Char} {b : UInt8} (h : (bytes (s ++ t))[size s]? = some b) (hb : b.toNat < 128) :
    ∃ c t', t = c :: t' ∧ c.toNat < 128 ∧ c.utf8Size = 1 ∧ b = UInt8.ofNat c.toNat := by
  rw [getElem?_bytes_at] at h
  cases t with
  | nil => cases h
  | cons c t =>
    rw [bytes_cons] at h
    by_cases hc : c.toNat < 128
    · have hsize : c.utf8Size = 1 := by
        rw [Char.utf8Size_eq_one_iff, UInt32.le_iff_toNat_le]
        exact Nat.le_of_lt_succ hc
      rw [utf8EncodeChar_of_ascii hc] at h
      exact ⟨c, t, rfl, hc, hsize, (Option.some.inj h).symm⟩
    · rw [List.getElem?_append_left (List.length_pos_iff.mpr String.utf8EncodeChar_ne_nil)] at h
      have := utf8EncodeChar_of_not_ascii hc b (List.mem_of_getElem? h)
      omega

/-- A byte test that holds of every byte that is not ASCII takes as far as its character test. -/
theorem length_takeWhile_bytes {p : UInt8 → Bool} {q : Char → Bool} (hhigh : ∀ b : UInt8, 128 ≤ b.toNat → p b = true)
    (hascii : ∀ c : Char, c.toNat < 128 → p (UInt8.ofNat c.toNat) = q c)
    (hother : ∀ c : Char, ¬ c.toNat < 128 → q c = true) (s : List Char) :
    ((bytes s).takeWhile p).length = size (s.takeWhile q) := by
  induction s with
  | nil => rfl
  | cons c s ih =>
    rw [bytes_cons, List.takeWhile_cons]
    by_cases hc : c.toNat < 128
    · rw [utf8EncodeChar_of_ascii hc, List.singleton_append, List.takeWhile_cons, hascii c hc]
      split
      · rw [List.length_cons, ih, size_cons]
        have hone : c.utf8Size = 1 := by
          rw [← String.length_utf8EncodeChar, utf8EncodeChar_of_ascii hc]
          rfl
        omega
      · rfl
    · rw [List.takeWhile_append_of_pos fun b hb => hhigh b (utf8EncodeChar_of_not_ascii hc b hb), hother c hc,
        if_pos rfl, List.length_append, ih, size_cons, String.length_utf8EncodeChar]

/-! ## Limits -/

/-- The last offset between characters up to a limit. -/
def floorBoundary (s : List Char) : Nat → Nat
  | 0 => 0
  | n + 1 => if isCharBoundary s (n + 1) then n + 1 else floorBoundary s n

theorem floorBoundary_le (s : List Char) (n : Nat) : floorBoundary s n ≤ n := by
  induction n with
  | zero => exact Nat.le_refl 0
  | succ n ih =>
    unfold floorBoundary
    split
    · exact Nat.le_refl _
    · omega

theorem slice_floorBoundary (s : List Char) (n : Nat) :
    ∃ t r, slice s 0 (floorBoundary s n) = some t ∧ s = t ++ r ∧ size t ≤ n := by
  have hboundary : isCharBoundary s (floorBoundary s n) = true := by
    induction n with
    | zero => rw [floorBoundary, isCharBoundary, dropBytes_zero]; rfl
    | succ n ih =>
      unfold floorBoundary
      split
      · next h => exact h
      · exact ih
  obtain ⟨r, hr⟩ := Option.isSome_iff_exists.mp hboundary
  obtain ⟨t, rfl, hsize⟩ := dropBytes_eq_some hr
  have hslice := slice_append [] t r
  rw [List.nil_append, size_nil, Nat.zero_add, hsize] at hslice
  exact ⟨t, r, hslice, rfl, hsize ▸ floorBoundary_le _ n⟩

end HxdNg.Utf8
