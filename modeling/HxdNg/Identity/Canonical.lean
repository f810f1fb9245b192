import HxdNg.Identity.Cbor

/-!
# Canonical CBOR

The lenient reader applied to `encode v` returns `sortKeys v`, which is `v` with each map's entries put
in encoded-key order (`item_encode`). A value that re-encodes to the bytes it was read from is
therefore its own normal form, and the check for adjacent equal keys makes its order strict: that
is all of `decodeCanonical_eq_ok`, and no case analysis of what a non-canonical input looks like is
needed.
-/

namespace HxdNg.Identity.Cbor

/-! ## `encode` without its helpers -/

theorem encodeItems_eq (vs : List Value) : encode.encodeItems vs = vs.flatMap encode := by
  induction vs with
  | nil => rfl
  | cons v vs ih => simp [encode.encodeItems, ih]

theorem encodeEntries_eq (es : List (Value × Value)) :
    encode.encodeEntries es = es.map fun e => (encode e.1, encode e.2) := by
  induction es with
  | nil => rfl
  | cons e es ih => simp [encode.encodeEntries, ih]

/-- What a map's entries are sorted by. -/
def entryKey (e : Value × Value) : List UInt8 := encode e.1

/-- One entry as it is written. -/
def encodeEntry (e : Value × Value) : List UInt8 := encode e.1 ++ encode e.2

theorem encode_array (vs : List Value) :
    encode (.array vs) = putHead 4 vs.length ++ vs.flatMap encode := by
  rw [encode, encodeItems_eq]

theorem encode_map (es : List (Value × Value)) :
    encode (.map es) = putHead 5 es.length ++ (sortBy entryKey es).flatMap encodeEntry := by
  have hsort : sortBy Prod.fst (es.map fun e => (encode e.1, encode e.2))
      = (sortBy entryKey es).map fun e => (encode e.1, encode e.2) :=
    (map_sortBy _ es fun _ _ => rfl).symm
  rw [encode, encodeEntries_eq, hsort, List.length_map, length_sortBy, List.flatMap_map]
  rfl

/-! ## Heads -/

/-- The major types that have an argument. -/
def majors : List UInt8 := [0, 2, 3, 4, 5]

theorem head_byte : ∀ m ∈ majors, ∀ k < 28,
    ((m <<< 5 ||| UInt8.ofNat k) >>> 5 = m ∧ (m <<< 5 ||| UInt8.ofNat k) &&& 0x1f = UInt8.ofNat k) ∧
      m <<< 5 ||| UInt8.ofNat k ≠ 0xf4 ∧ m <<< 5 ||| UInt8.ofNat k ≠ 0xf5 := by
  decide +kernel

theorem toNat_ofNat_of_lt {n : Nat} (h : n < 256) : (UInt8.ofNat n).toNat = n := by
  rw [UInt8.toNat_ofNat', Nat.mod_eq_of_lt h]

theorem putHead_eq_cons {m : UInt8} (hm : m ∈ majors) (n : Nat) :
    ∃ first arg, putHead m n = first :: arg ∧ first ≠ 0xf4 ∧ first ≠ 0xf5 := by
  have hb := head_byte m hm
  unfold putHead
  split_ifs with h1 h2 h3 h4
  · exact ⟨_, _, rfl, (hb n (by omega)).2⟩
  · exact ⟨_, _, rfl, (hb 24 (by omega)).2⟩
  · exact ⟨_, _, rfl, (hb 25 (by omega)).2⟩
  · exact ⟨_, _, rfl, (hb 26 (by omega)).2⟩
  · exact ⟨_, _, rfl, (hb 27 (by omega)).2⟩

namespace Reader

theorem take_append {b buf : List UInt8} {n : Nat} (h : b.length = n) :
    take n (b ++ buf) = .ok (b, buf) := by
  subst h
  simp [take]

theorem head_of_byte {b : UInt8} {buf : List UInt8} :
    head (b :: buf) =
      if b &&& 0x1f < 24 then .ok ((b >>> 5, (b &&& 0x1f).toNat), buf)
      else if b &&& 0x1f = 24 then (byte buf).map fun x => ((b >>> 5, x.1.toNat), x.2)
      else if b &&& 0x1f = 25 then (take 2 buf).map fun x => ((b >>> 5, ofBe x.1), x.2)
      else if b &&& 0x1f = 26 then (take 4 buf).map fun x => ((b >>> 5, ofBe x.1), x.2)
      else if b &&& 0x1f = 27 then (take 8 buf).map fun x => ((b >>> 5, ofBe x.1), x.2)
      else .error (.unsupported b) := rfl

theorem head_putHead {m : UInt8} (hm : m ∈ majors) {n : Nat} (hn : n < 2 ^ 64) (buf : List UInt8) :
    head (putHead m n ++ buf) = .ok ((m, n), buf) := by
  have hb := head_byte m hm
  unfold putHead
  split_ifs with h1 h2 h3 h4
  · obtain ⟨⟨hmaj, hai⟩, -⟩ := hb n (by omega)
    have hlt : UInt8.ofNat n < 24 := by
      rw [UInt8.lt_iff_toNat_lt, toNat_ofNat_of_lt (by omega)]
      exact h1
    rw [List.singleton_append, head_of_byte, hmaj, hai, if_pos hlt, toNat_ofNat_of_lt (by omega)]
  · obtain ⟨⟨hmaj, hai⟩, -⟩ := hb 24 (by omega)
    change head ((m <<< 5 ||| UInt8.ofNat 24) :: UInt8.ofNat n :: buf) = _
    rw [head_of_byte, hmaj, hai, if_neg (by decide), if_pos (by decide)]
    simp [byte, Except.map, toNat_ofNat_of_lt (show n < 256 by omega)]
  · obtain ⟨⟨hmaj, hai⟩, -⟩ := hb 25 (by omega)
    change head ((m <<< 5 ||| UInt8.ofNat 25) :: (beBytes 2 n ++ buf)) = _
    rw [head_of_byte, hmaj, hai, if_neg (by decide), if_neg (by decide), if_pos (by decide),
      take_append (length_beBytes 2 n), Except.map, ofBe_beBytes (by omega)]
  · obtain ⟨⟨hmaj, hai⟩, -⟩ := hb 26 (by omega)
    change head ((m <<< 5 ||| UInt8.ofNat 26) :: (beBytes 4 n ++ buf)) = _
    rw [head_of_byte, hmaj, hai, if_neg (by decide), if_neg (by decide), if_neg (by decide),
      if_pos (by decide), take_append (length_beBytes 4 n), Except.map, ofBe_beBytes (by omega)]
  · obtain ⟨⟨hmaj, hai⟩, -⟩ := hb 27 (by omega)
    change head ((m <<< 5 ||| UInt8.ofNat 27) :: (beBytes 8 n ++ buf)) = _
    rw [head_of_byte, hmaj, hai, if_neg (by decide), if_neg (by decide), if_neg (by decide),
      if_neg (by decide), if_pos (by decide), take_append (length_beBytes 8 n), Except.map,
      ofBe_beBytes (by omega)]

theorem item_putHead {m : UInt8} (hm : m ∈ majors) {n : Nat} (hn : n < 2 ^ 64) (room : Nat)
    (buf : List UInt8) :
    ∃ first, item (room + 1) (putHead m n ++ buf) = body (item room) first m n buf := by
  obtain ⟨first, arg, hcons, h4, h5⟩ := putHead_eq_cons hm n
  refine ⟨first, ?_⟩
  have hhead := head_putHead hm hn buf
  rw [hcons, List.cons_append] at hhead ⊢
  rw [item, if_neg h4, if_neg h5, hhead]
  rfl

end Reader

/-! ## Normal forms, nesting and key order -/

/-- The value with each map's entries in encoded-key order, inside keys too. -/
def sortKeys : Value → Value
  | .array items => .array (normItems items)
  | .map entries => .map (sortBy entryKey (normEntries entries))
  | v => v
where
  normItems : List Value → List Value
    | [] => []
    | v :: vs => sortKeys v :: normItems vs
  normEntries : List (Value × Value) → List (Value × Value)
    | [] => []
    | (k, v) :: es => (sortKeys k, sortKeys v) :: normEntries es

/-- The nesting level of the deepest item, the value itself at level 0. -/
def depth : Value → Nat
  | .array items => ofItems items
  | .map entries => ofEntries entries
  | _ => 0
where
  ofItems : List Value → Nat
    | [] => 0
    | v :: vs => max (depth v + 1) (ofItems vs)
  ofEntries : List (Value × Value) → Nat
    | [] => 0
    | (k, v) :: es => max (max (depth k + 1) (depth v + 1)) (ofEntries es)

/-- Every map has its keys strictly increasing by encoded bytes, inside keys too. -/
def SortedKeys : Value → Prop
  | .array items => inItems items
  | .map entries => (entries.Pairwise fun a b => encode a.1 < encode b.1) ∧ inEntries entries
  | _ => True
where
  inItems : List Value → Prop
    | [] => True
    | v :: vs => SortedKeys v ∧ inItems vs
  inEntries : List (Value × Value) → Prop
    | [] => True
    | (k, v) :: es => (SortedKeys k ∧ SortedKeys v) ∧ inEntries es

/-- Every map has pairwise distinct encoded keys, inside keys too. -/
def DistinctKeys : Value → Prop
  | .array items => inItems items
  | .map entries => (entries.map fun e => encode e.1).Nodup ∧ inEntries entries
  | _ => True
where
  inItems : List Value → Prop
    | [] => True
    | v :: vs => DistinctKeys v ∧ inItems vs
  inEntries : List (Value × Value) → Prop
    | [] => True
    | (k, v) :: es => (DistinctKeys k ∧ DistinctKeys v) ∧ inEntries es

def sortEntry (e : Value × Value) : Value × Value := (sortKeys e.1, sortKeys e.2)

@[simp] theorem sortKeys_array (vs : List Value) : sortKeys (.array vs) = .array (vs.map sortKeys) := by
  rw [sortKeys]
  congr 1
  induction vs with
  | nil => rfl
  | cons v vs ih => simp [sortKeys.normItems, ih]

@[simp] theorem sortKeys_map (es : List (Value × Value)) :
    sortKeys (.map es) = .map (sortBy entryKey (es.map sortEntry)) := by
  rw [sortKeys]
  congr 2
  induction es with
  | nil => rfl
  | cons e es ih => simp [sortKeys.normEntries, sortEntry, ih]

theorem depth_array_le {vs : List Value} {n : Nat} :
    depth (.array vs) ≤ n ↔ ∀ v ∈ vs, depth v < n := by
  rw [depth]
  induction vs with
  | nil => simp [depth.ofItems]
  | cons v vs ih => simp [depth.ofItems, ih]

theorem depth_map_le {es : List (Value × Value)} {n : Nat} :
    depth (.map es) ≤ n ↔ ∀ e ∈ es, depth e.1 < n ∧ depth e.2 < n := by
  rw [depth]
  induction es with
  | nil => simp [depth.ofEntries]
  | cons e es ih => simp [depth.ofEntries, ih]

@[simp] theorem sortedKeys_array (vs : List Value) :
    SortedKeys (.array vs) ↔ ∀ v ∈ vs, SortedKeys v := by
  rw [SortedKeys]
  induction vs with
  | nil => simp [SortedKeys.inItems]
  | cons v vs ih => simp [SortedKeys.inItems, ih]

@[simp] theorem sortedKeys_map (es : List (Value × Value)) :
    SortedKeys (.map es) ↔ (es.Pairwise fun a b => entryKey a < entryKey b) ∧
      ∀ e ∈ es, SortedKeys e.1 ∧ SortedKeys e.2 := by
  rw [SortedKeys]
  refine and_congr Iff.rfl ?_
  induction es with
  | nil => simp [SortedKeys.inEntries]
  | cons e es ih => rw [SortedKeys.inEntries, ih, List.forall_mem_cons]

@[simp] theorem distinctKeys_array (vs : List Value) :
    DistinctKeys (.array vs) ↔ ∀ v ∈ vs, DistinctKeys v := by
  rw [DistinctKeys]
  induction vs with
  | nil => simp [DistinctKeys.inItems]
  | cons v vs ih => simp [DistinctKeys.inItems, ih]

@[simp] theorem distinctKeys_map (es : List (Value × Value)) :
    DistinctKeys (.map es) ↔ (es.map entryKey).Nodup ∧
      ∀ e ∈ es, DistinctKeys e.1 ∧ DistinctKeys e.2 := by
  rw [DistinctKeys]
  refine and_congr Iff.rfl ?_
  induction es with
  | nil => simp [DistinctKeys.inEntries]
  | cons e es ih => rw [DistinctKeys.inEntries, ih, List.forall_mem_cons]

theorem hasDuplicateKeys_array (vs : List Value) :
    hasDuplicateKeys (.array vs) = vs.any hasDuplicateKeys := by
  rw [hasDuplicateKeys]
  induction vs with
  | nil => rfl
  | cons v vs ih => simp [hasDuplicateKeys.inItems, ih]

theorem hasDuplicateKeys_map (es : List (Value × Value)) :
    hasDuplicateKeys (.map es) = ((es.zip es.tail).any (fun w => w.1.1 == w.2.1) ||
      es.any fun e => hasDuplicateKeys e.1 || hasDuplicateKeys e.2) := by
  rw [hasDuplicateKeys]
  congr 1
  induction es with
  | nil => rfl
  | cons e es ih => simp [hasDuplicateKeys.inEntries, ih]

/-! ## `sortKeys` keeps the encoding and sorts -/

theorem map_sortEntry_sortBy {es : List (Value × Value)}
    (h : ∀ e ∈ es, encode (sortKeys e.1) = encode e.1) :
    (sortBy entryKey es).map sortEntry = sortBy entryKey (es.map sortEntry) :=
  map_sortBy sortEntry es h

theorem encode_sortKeys (v : Value) : encode (sortKeys v) = encode v := by
  induction v with
  | array vs ih =>
    rw [sortKeys_array, encode_array, encode_array, List.length_map, List.flatMap_map]
    congr 1
    exact List.flatMap_congr ih
  | map es ih =>
    have hkey : ∀ e ∈ es, encode (sortKeys e.1) = encode e.1 := fun e he => (ih e he).1
    rw [sortKeys_map, encode_map, encode_map, length_sortBy, List.length_map,
      sortBy_of_le (pairwise_sortBy _ _), ← map_sortEntry_sortBy hkey, List.flatMap_map]
    congr 1
    refine List.flatMap_congr fun e he => ?_
    obtain ⟨hk, hv⟩ := ih e (mem_sortBy.mp he)
    simp only [encodeEntry, sortEntry, hk, hv]
  | _ => rfl

theorem entryKey_sortEntry (e : Value × Value) : entryKey (sortEntry e) = entryKey e :=
  encode_sortKeys e.1

theorem map_entryKey_sortEntry (es : List (Value × Value)) :
    (es.map sortEntry).map entryKey = es.map entryKey := by
  rw [List.map_map]
  exact List.map_congr_left fun e _ => entryKey_sortEntry e

theorem sortedKeys_sortKeys {v : Value} (h : DistinctKeys v) : SortedKeys (sortKeys v) := by
  induction v with
  | array vs ih =>
    rw [distinctKeys_array] at h
    rw [sortKeys_array, sortedKeys_array]
    intro w hw
    obtain ⟨v, hv, rfl⟩ := List.mem_map.mp hw
    exact ih v hv (h v hv)
  | map es ih =>
    rw [distinctKeys_map] at h
    rw [sortKeys_map, sortedKeys_map]
    refine ⟨pairwise_lt_sortBy (by rw [map_entryKey_sortEntry]; exact h.1), fun f hf => ?_⟩
    obtain ⟨e, he, rfl⟩ := List.mem_map.mp (mem_sortBy.mp hf)
    exact ⟨(ih e he).1 (h.2 e he).1, (ih e he).2 (h.2 e he).2⟩
  | _ => trivial

theorem sortKeys_of_sortedKeys {v : Value} (h : SortedKeys v) : sortKeys v = v := by
  induction v with
  | array vs ih =>
    rw [sortedKeys_array] at h
    rw [sortKeys_array, List.map_congr_left fun v hv => ih v hv (h v hv), List.map_id']
  | map es ih =>
    rw [sortedKeys_map] at h
    have hid : es.map sortEntry = es := by
      refine (List.map_congr_left fun e he => ?_).trans (List.map_id' es)
      exact Prod.ext ((ih e he).1 (h.2 e he).1) ((ih e he).2 (h.2 e he).2)
    rw [sortKeys_map, hid, sortBy_of_strict h.1]
  | _ => rfl

theorem depth_sortKeys (v : Value) : depth (sortKeys v) = depth v := by
  induction v with
  | array vs ih =>
    refine eq_of_forall_ge_iff fun n => ?_
    rw [sortKeys_array, depth_array_le, depth_array_le, List.forall_mem_map]
    exact forall₂_congr fun v hv => by rw [ih v hv]
  | map es ih =>
    refine eq_of_forall_ge_iff fun n => ?_
    rw [sortKeys_map, depth_map_le, depth_map_le]
    simp only [mem_sortBy, List.forall_mem_map]
    exact forall₂_congr fun e he => by rw [sortEntry, (ih e he).1, (ih e he).2]
  | _ => rfl

/-! ## The reader inverts `encode` up to `sortKeys` -/

theorem length_le_flatMap {α : Type} {f : α → List UInt8} {xs : List α} {x : α} (h : x ∈ xs) :
    (f x).length ≤ (xs.flatMap f).length := by
  obtain ⟨s, t, rfl⟩ := List.append_of_mem h
  simp only [List.flatMap_append, List.flatMap_cons, List.length_append]
  omega

theorem putHead_ne_nil (m : UInt8) (n : Nat) : 0 < (putHead m n).length := by
  unfold putHead
  split_ifs <;> simp

theorem length_encode_pos (v : Value) : 0 < (encode v).length := by
  cases v with
  | bool b => exact Nat.one_pos
  | uint n => exact putHead_ne_nil _ _
  | _ =>
    simp only [encode, List.length_append]
    exact Nat.add_pos_left (putHead_ne_nil _ _) _

theorem length_mul_le_flatMap {α : Type} {f : α → List UInt8} {k : Nat} (xs : List α)
    (h : ∀ x ∈ xs, k ≤ (f x).length) : k * xs.length ≤ (xs.flatMap f).length := by
  induction xs with
  | nil => simp
  | cons x xs ih =>
    rw [List.forall_mem_cons] at h
    have := ih h.2
    simp only [List.flatMap_cons, List.length_append, List.length_cons, Nat.mul_add]
    omega

namespace Reader

/-- Reading back items that each read back. -/
theorem items_flatMap {α β : Type} (item : List UInt8 → Except CborError (β × List UInt8))
    {enc : α → List UInt8} (val : α → β) (xs : List α)
    (h : ∀ x ∈ xs, ∀ buf, item (enc x ++ buf) = .ok (val x, buf)) (buf : List UInt8) :
    items item xs.length (xs.flatMap enc ++ buf) = .ok (xs.map val, buf) := by
  induction xs with
  | nil => rfl
  | cons x xs ih =>
    rw [List.forall_mem_cons] at h
    rw [List.length_cons, items, List.flatMap_cons, List.append_assoc, h.1]
    simp only [bind, Except.bind, ih h.2]
    rfl

theorem entry_encodeEntry {item : List UInt8 → Except CborError (Value × List UInt8)}
    {e : Value × Value} (hk : ∀ buf, item (encode e.1 ++ buf) = .ok (sortKeys e.1, buf))
    (hv : ∀ buf, item (encode e.2 ++ buf) = .ok (sortKeys e.2, buf)) (buf : List UInt8) :
    entry item (encodeEntry e ++ buf) = .ok (sortEntry e, buf) := by
  rw [entry, encodeEntry, List.append_assoc, hk]
  simp only [bind, Except.bind, hv]
  rfl

/-- The lenient reader gives the encoding back as its normal form, and stops where it ends. -/
theorem item_encode (v : Value) {room : Nat} (hd : depth v < room)
    (hl : (encode v).length < 2 ^ 64) (buf : List UInt8) :
    item room (encode v ++ buf) = .ok (sortKeys v, buf) := by
  obtain ⟨room, rfl⟩ : ∃ r, room = r + 1 := ⟨room - 1, by omega⟩
  induction v generalizing room buf with
  | uint n =>
    obtain ⟨first, h⟩ := item_putHead (m := 0) (by decide) n.toNat_lt room buf
    rw [encode, h, body, if_pos rfl, UInt64.ofNat_toNat]
    rfl
  | bytes b =>
    rw [encode, List.length_append] at hl
    obtain ⟨first, h⟩ := item_putHead (m := 2) (n := b.length) (by decide) (by omega) room (b ++ buf)
    rw [encode, List.append_assoc, h, body, if_neg (by decide), if_pos rfl, take_append rfl]
    rfl
  | text s =>
    rw [encode, List.length_append] at hl
    obtain ⟨first, h⟩ :=
      item_putHead (m := 3) (n := (utf8 s).length) (by decide) (by omega) room (utf8 s ++ buf)
    rw [encode, List.append_assoc, h, body, if_neg (by decide), if_neg (by decide), if_pos rfl,
      take_append rfl]
    simp only [bind, Except.bind, fromUtf8_utf8]
    rfl
  | bool b => cases b <;> rfl
  | array vs ih =>
    rw [encode_array, List.length_append] at hl
    have hd := depth_array_le.mp (Nat.le_of_lt_succ hd)
    have hcount : vs.length ≤ (vs.flatMap encode).length := by
      simpa using length_mul_le_flatMap (k := 1) vs fun v _ => length_encode_pos v
    obtain ⟨first, h⟩ := item_putHead (m := 4) (n := vs.length) (by decide) (by omega) room
      (vs.flatMap encode ++ buf)
    have hitems := items_flatMap (item room) sortKeys vs (fun v hv buf => by
      obtain ⟨r, rfl⟩ : ∃ r, room = r + 1 := ⟨room - 1, by have := hd v hv; omega⟩
      have := length_le_flatMap (f := encode) hv
      exact ih v hv (by omega) buf r (hd v hv)) buf
    rw [encode_array, List.append_assoc, h, body, if_neg (by decide), if_neg (by decide),
      if_neg (by decide), if_pos rfl, if_neg (by rw [List.length_append]; omega), hitems, sortKeys_array]
    rfl
  | map es ih =>
    rw [encode_map, List.length_append] at hl
    have hd := depth_map_le.mp (Nat.le_of_lt_succ hd)
    have hcount : 2 * es.length ≤ ((sortBy entryKey es).flatMap encodeEntry).length := by
      rw [← length_sortBy entryKey es]
      refine length_mul_le_flatMap _ fun e _ => ?_
      have := length_encode_pos e.1
      have := length_encode_pos e.2
      rw [encodeEntry, List.length_append]
      omega
    obtain ⟨first, h⟩ := item_putHead (m := 5) (n := es.length) (by decide) (by omega) room
      ((sortBy entryKey es).flatMap encodeEntry ++ buf)
    have hitems := items_flatMap (entry (item room)) sortEntry (sortBy entryKey es)
      (fun e he buf => by
        have hmem := mem_sortBy.mp he
        obtain ⟨r, rfl⟩ : ∃ r, room = r + 1 := ⟨room - 1, by have := hd e hmem; omega⟩
        have hle := length_le_flatMap (f := encodeEntry) he
        rw [encodeEntry, List.length_append] at hle
        exact entry_encodeEntry (fun buf => (ih e hmem).1 (by omega) buf r (hd e hmem).1)
          (fun buf => (ih e hmem).2 (by omega) buf r (hd e hmem).2) buf) buf
    rw [length_sortBy] at hitems
    rw [encode_map, List.append_assoc, h, body, if_neg (by decide), if_neg (by decide),
      if_neg (by decide), if_neg (by decide), if_pos rfl,
      if_neg (by rw [List.length_append]; omega), hitems, sortKeys_map,
      ← map_sortEntry_sortBy fun e _ => encode_sortKeys e.1]
    rfl

/-- What holds of every item read one at a time holds of every item of a run of them. -/
theorem items_forall {α : Type} {item : List UInt8 → Except CborError (α × List UInt8)}
    {P : α → Prop} (h : ∀ buf x rest, item buf = .ok (x, rest) → P x) {n : Nat} {buf : List UInt8}
    {xs : List α} {rest : List UInt8} (hr : items item n buf = .ok (xs, rest)) : ∀ x ∈ xs, P x := by
  induction n generalizing buf xs with
  | zero =>
    obtain ⟨rfl, -⟩ : xs = [] ∧ rest = buf := by simpa [items, eq_comm] using hr
    simp
  | succ n ih =>
    simp only [items, bind, Except.bind] at hr
    split at hr
    · cases hr
    · next x hx =>
      split at hr
      · cases hr
      · next ys hys =>
        obtain ⟨rfl, rfl⟩ : x.1 :: ys.1 = xs ∧ ys.2 = rest := by
          simpa [pure, Except.pure] using hr
        exact List.forall_mem_cons.mpr ⟨h _ _ _ hx, ih hys⟩

theorem entry_forall {item : List UInt8 → Except CborError (Value × List UInt8)} {P : Value → Prop}
    (h : ∀ buf x rest, item buf = .ok (x, rest) → P x) {buf rest : List UInt8} {e : Value × Value}
    (hr : entry item buf = .ok (e, rest)) : P e.1 ∧ P e.2 := by
  simp only [entry, bind, Except.bind] at hr
  split at hr
  · cases hr
  · next k hk =>
    split at hr
    · cases hr
    · next v hv =>
      obtain ⟨rfl, -⟩ : (k.1, v.1) = e ∧ v.2 = rest := by simpa [pure, Except.pure] using hr
      exact ⟨h _ _ _ hk, h _ _ _ hv⟩

theorem body_depth {room : Nat} (h : ∀ buf x rest, item room buf = .ok (x, rest) → depth x < room)
    {first major : UInt8} {n : Nat} {buf rest : List UInt8} {v : Value}
    (hr : body (item room) first major n buf = .ok (v, rest)) : depth v ≤ room := by
  unfold body at hr
  simp only [bind, Except.bind, pure, Except.pure, throw, throwThe, MonadExceptOf.throw] at hr
  split_ifs at hr
  · obtain ⟨rfl, -⟩ : Value.uint (UInt64.ofNat n) = v ∧ buf = rest := by simpa using hr
    exact Nat.zero_le _
  · split at hr
    · cases hr
    · next x hx =>
      obtain ⟨rfl, -⟩ : Value.bytes x.1 = v ∧ x.2 = rest := by simpa using hr
      exact Nat.zero_le _
  · split at hr
    · cases hr
    · next x hx =>
      split at hr
      · next s hs =>
        obtain ⟨rfl, -⟩ : Value.text s = v ∧ x.2 = rest := by simpa using hr
        exact Nat.zero_le _
      · cases hr
  · split at hr
    · cases hr
    · next x hx =>
      obtain ⟨rfl, -⟩ : Value.array x.1 = v ∧ x.2 = rest := by simpa using hr
      exact depth_array_le.mpr (items_forall h hx)
  · split at hr
    · cases hr
    · next x hx =>
      obtain ⟨rfl, -⟩ : Value.map x.1 = v ∧ x.2 = rest := by simpa using hr
      exact depth_map_le.mpr (items_forall (fun _ _ _ => entry_forall h) hx)

/-- What is read nests no deeper than the room there was. -/
theorem depth_of_item {room : Nat} {buf rest : List UInt8} {v : Value}
    (hr : item room buf = .ok (v, rest)) : depth v < room := by
  induction room generalizing buf v rest with
  | zero => cases hr
  | succ room ih =>
    rw [Nat.lt_succ_iff]
    cases buf with
    | nil => cases hr
    | cons first tail =>
      simp only [item, bind, Except.bind] at hr
      split_ifs at hr
      · obtain ⟨rfl, -⟩ : Value.bool false = v ∧ tail = rest := by simpa using hr
        exact Nat.zero_le _
      · obtain ⟨rfl, -⟩ : Value.bool true = v ∧ tail = rest := by simpa using hr
        exact Nat.zero_le _
      · split at hr
        · cases hr
        · exact body_depth (fun _ _ _ => ih) hr

end Reader

/-! ## The canonical decoder -/

theorem sortKeys_eq_of_encode_eq {v w : Value} (hl : (encode v).length < 2 ^ 64)
    (h : encode v = encode w) : sortKeys v = sortKeys w := by
  have hdv : depth v < max (depth v) (depth w) + 1 := by omega
  have hdw : depth w < max (depth v) (depth w) + 1 := by omega
  have hv := Reader.item_encode v hdv hl []
  have hw := Reader.item_encode w hdw (h ▸ hl) []
  rw [h, hw] at hv
  simpa using hv.symm

theorem strict_of_adjacent {es : List (Value × Value)}
    (hle : es.Pairwise fun a b => entryKey a ≤ entryKey b)
    (hne : ∀ w ∈ es.zip es.tail, entryKey w.1 ≠ entryKey w.2) :
    es.Pairwise fun a b => entryKey a < entryKey b := by
  have : IsTrans (Value × Value) fun a b => entryKey a < entryKey b := ⟨fun _ _ _ => lt_trans⟩
  rw [← List.isChain_iff_pairwise]
  induction es with
  | nil => exact .nil
  | cons a t ih =>
    cases t with
    | nil => exact .singleton a
    | cons b t =>
      rw [List.pairwise_cons] at hle
      simp only [List.tail_cons, List.zip_cons_cons, List.forall_mem_cons] at hne ih
      exact .cons_cons (lt_of_le_of_ne (hle.1 b (by simp)) hne.1) (ih hle.2 hne.2)

theorem adjacent_of_strict {es : List (Value × Value)}
    (h : es.Pairwise fun a b => entryKey a < entryKey b) :
    ∀ w ∈ es.zip es.tail, w.1.1 ≠ w.2.1 := by
  induction es with
  | nil => simp
  | cons a t ih =>
    rw [List.pairwise_cons] at h
    cases t with
    | nil => simp
    | cons b t =>
      simp only [List.tail_cons, List.zip_cons_cons, List.forall_mem_cons]
      exact ⟨fun he => absurd (congrArg encode he) (h.1 b (by simp)).ne, ih h.2⟩

theorem hasDuplicateKeys_of_sortedKeys {v : Value} (h : SortedKeys v) :
    hasDuplicateKeys v = false := by
  induction v with
  | array vs ih =>
    rw [sortedKeys_array] at h
    rw [hasDuplicateKeys_array, List.any_eq_false]
    intro v hv
    simp [ih v hv (h v hv)]
  | map es ih =>
    rw [sortedKeys_map] at h
    rw [hasDuplicateKeys_map, Bool.or_eq_false_iff, List.any_eq_false, List.any_eq_false]
    refine ⟨fun w hw => by simpa using adjacent_of_strict h.1 w hw, fun e he => ?_⟩
    simp [(ih e he).1 (h.2 e he).1, (ih e he).2 (h.2 e he).2]
  | _ => rfl

/-- A normal form without adjacent equal keys is strictly sorted: equal encodings of normal forms
are encodings of equal values. -/
theorem sortedKeys_of_sortKeys {v : Value} (hl : (encode v).length < 2 ^ 64) (hn : sortKeys v = v)
    (hd : hasDuplicateKeys v = false) : SortedKeys v := by
  induction v with
  | array vs ih =>
    rw [sortKeys_array, Value.array.injEq] at hn
    rw [hasDuplicateKeys_array, List.any_eq_false] at hd
    rw [encode_array, List.length_append] at hl
    rw [sortedKeys_array]
    intro v hv
    have hle := length_le_flatMap (f := encode) hv
    have hself := List.map_inj_left.mp (hn.trans (List.map_id' vs).symm) v hv
    exact ih v hv (by omega) hself (by simpa using hd v hv)
  | map es ih =>
    rw [sortKeys_map, Value.map.injEq] at hn
    rw [hasDuplicateKeys_map, Bool.or_eq_false_iff, List.any_eq_false, List.any_eq_false] at hd
    rw [encode_map, List.length_append] at hl
    have hle : es.Pairwise fun a b => entryKey a ≤ entryKey b := hn ▸ pairwise_sortBy _ _
    -- the entries are in key order already, so the sort in `sortKeys` did nothing
    have hid : es.map sortEntry = es := by
      rw [← hn]
      conv_lhs => rw [hn]
      refine (sortBy_of_le ?_).symm
      rw [List.pairwise_map]
      simpa only [entryKey_sortEntry] using hle
    have hself : ∀ e ∈ es, sortKeys e.1 = e.1 ∧ sortKeys e.2 = e.2 := fun e he =>
      Prod.ext_iff.mp (List.map_inj_left.mp (hid.trans (List.map_id' es).symm) e he)
    have hlen : ∀ e ∈ es, (encode e.1).length < 2 ^ 64 ∧ (encode e.2).length < 2 ^ 64 := by
      intro e he
      have hmem : e ∈ sortBy entryKey es := mem_sortBy.mpr he
      have h := length_le_flatMap (f := encodeEntry) hmem
      rw [encodeEntry, List.length_append] at h
      constructor <;> omega
    rw [sortedKeys_map]
    refine ⟨strict_of_adjacent hle fun w hw heq => ?_, fun e he => ?_⟩
    · have hw1 := (List.of_mem_zip hw).1
      have hw2 := List.mem_of_mem_tail (List.of_mem_zip hw).2
      have h := sortKeys_eq_of_encode_eq (hlen _ hw1).1 heq
      rw [(hself _ hw1).1, (hself _ hw2).1] at h
      exact hd.1 w hw (by simpa using h)
    · have h := hd.2 e he
      simp only [Bool.or_eq_true, not_or, Bool.not_eq_true] at h
      exact ⟨(ih e he).1 (hlen e he).1 (hself e he).1 h.1,
        (ih e he).2 (hlen e he).2 (hself e he).2 h.2⟩
  | _ => trivial

theorem decodeCanonical_eq_ok {b : List UInt8} (hb : b.length < 2 ^ 64) {v : Value} :
    decodeCanonical b = .ok v ↔ encode v = b ∧ SortedKeys v ∧ depth v ≤ maxDepth := by
  simp only [decodeCanonical, bind, Except.bind]
  constructor
  · intro h
    split at h
    · cases h
    · next x hx =>
      obtain ⟨w, rest⟩ := x
      simp only [throw, throwThe, MonadExceptOf.throw, pure, Except.pure, ne_eq, ite_not] at h
      split_ifs at h with hrest henc hdup
      subst hrest
      obtain rfl : w = v := by simpa using h
      have hdepth := Reader.depth_of_item hx
      have hnorm := Reader.item_encode w hdepth (henc ▸ hb) []
      rw [List.append_nil, henc, hx] at hnorm
      have hself : sortKeys w = w := by simpa using hnorm.symm
      exact ⟨henc, sortedKeys_of_sortKeys (henc ▸ hb) hself (by simpa using hdup),
        Nat.le_of_lt_succ hdepth⟩
  · rintro ⟨rfl, hs, hd⟩
    have hitem := Reader.item_encode v (Nat.lt_succ_of_le hd) hb []
    rw [List.append_nil, sortKeys_of_sortedKeys hs] at hitem
    simp [hitem, hasDuplicateKeys_of_sortedKeys hs, pure, Except.pure]

/-- `decode_canonical` accepts exactly the deterministic encodings. Byte strings are as long as a
slice can be; a text of `v` is UTF-8 by the type it has. -/
theorem decode_canonical_iff_encode :
    (∀ (b : List UInt8) (v : Value), b.length < 2 ^ 64 →
      (decodeCanonical b = .ok v ↔ encode v = b ∧ SortedKeys v ∧ depth v ≤ maxDepth)) ∧
    (∀ (b₁ b₂ : List UInt8) (v : Value), b₁.length < 2 ^ 64 → b₂.length < 2 ^ 64 →
      decodeCanonical b₁ = .ok v → decodeCanonical b₂ = .ok v → b₁ = b₂) ∧
    (∀ v : Value, (encode v).length < 2 ^ 64 → DistinctKeys v → depth v ≤ maxDepth →
      decodeCanonical (encode v) = .ok (sortKeys v)) := by
  refine ⟨fun b v hb => decodeCanonical_eq_ok hb, fun b₁ b₂ v h₁ h₂ hv hw => ?_, fun v hl hk hd => ?_⟩
  · rw [← ((decodeCanonical_eq_ok h₁).mp hv).1, ((decodeCanonical_eq_ok h₂).mp hw).1]
  · exact (decodeCanonical_eq_ok hl).mpr
      ⟨encode_sortKeys v, sortedKeys_sortKeys hk, (depth_sortKeys v).trans_le hd⟩

/-- The two-key map of the source's sorting test, written out of order and read back sorted. -/
theorem decode_canonical_iff_encode_sorts :
    decodeCanonical [0xa2, 0x61, 0x7a, 0x02, 0x62, 0x61, 0x61, 0x01] =
        .ok (.map [(.text "z", .uint 2), (.text "aa", .uint 1)]) ∧
      decodeCanonical [0x18, 0x01] ≠ .ok (.uint 1) := by
  constructor
  · exact decode_canonical_iff_encode.2.2 (.map [(.text "aa", .uint 1), (.text "z", .uint 2)])
      (by decide) (by rw [distinctKeys_map]; exact ⟨by decide, by simp [DistinctKeys]⟩) (by decide)
  · intro h
    exact absurd ((decode_canonical_iff_encode.1 [0x18, 0x01] (.uint 1) (by decide)).mp h).1
      (by decide)

end HxdNg.Identity.Cbor
