import HxdNg.Identity.Canonical
import HxdNg.Identity.Signed

/-!
# Maps of text keys under reordering

Two maps with distinct keys that have the same normal form have the same encoding, answer the same
lookups up to `sortKeys`, and stay so when a key is taken out or put in. In particular taking a key out
and putting its value back at the end gives a map of the same normal form
(`sortKeys_pushEntry_without`), which is how every detached form is reassembled.
-/

namespace HxdNg.Identity.Cbor

theorem sortKeys_eq_text {v : Value} {s : String} : sortKeys v = .text s ↔ v = .text s := by
  cases v <;> simp [sortKeys]

@[simp] theorem sortKeys_text (s : String) : sortKeys (.text s) = .text s := rfl

@[simp] theorem sortKeys_bytes (b : List UInt8) : sortKeys (.bytes b) = .bytes b := rfl

@[simp] theorem sortKeys_uint (n : UInt64) : sortKeys (.uint n) = .uint n := rfl

@[simp] theorem sortKeys_bool (b : Bool) : sortKeys (.bool b) = .bool b := rfl

theorem encode_eq_of_sortKeys_eq {v w : Value} (h : sortKeys v = sortKeys w) : encode v = encode w := by
  rw [← encode_sortKeys v, h, encode_sortKeys]

theorem distinctKeys_of_sortedKeys {v : Value} (h : SortedKeys v) : DistinctKeys v := by
  induction v with
  | array vs ih =>
    rw [sortedKeys_array] at h
    rw [distinctKeys_array]
    exact fun v hv => ih v hv (h v hv)
  | map es ih =>
    rw [sortedKeys_map] at h
    rw [distinctKeys_map]
    exact ⟨nodup_map_of_strict h.1, fun e he =>
      ⟨(ih e he).1 (h.2 e he).1, (ih e he).2 (h.2 e he).2⟩⟩
  | _ => trivial

/-! ## Lookups -/

theorem get_map (es : List (Value × Value)) (key : String) :
    (Value.map es).get key = (es.find? fun e => e.1 = .text key).map Prod.snd := rfl

theorem get_eq_some {es : List (Value × Value)} (hnd : (es.map entryKey).Nodup) {key : String}
    {x : Value} : (Value.map es).get key = some x ↔ (.text key, x) ∈ es := by
  rw [get_map]
  constructor
  · intro h
    obtain ⟨e, he, rfl⟩ := Option.map_eq_some_iff.mp h
    have hk : e.1 = .text key := by simpa using List.find?_some he
    rw [← hk]
    exact List.mem_of_find?_eq_some he
  · intro hmem
    cases hf : es.find? fun e => e.1 = .text key with
    | none => simpa using List.find?_eq_none.mp hf _ hmem
    | some e =>
      have hk : e.1 = .text key := by simpa using List.find?_some hf
      have he := List.inj_on_of_nodup_map hnd (List.mem_of_find?_eq_some hf) hmem
        (by rw [entryKey, hk, entryKey])
      rw [he]
      rfl

theorem get_eq_none {es : List (Value × Value)} {key : String} :
    (Value.map es).get key = none ↔ ∀ e ∈ es, e.1 ≠ .text key := by
  simp [get_map, List.find?_eq_none]

theorem get_perm {es fs : List (Value × Value)} (hp : es.Perm fs) (hnd : (es.map entryKey).Nodup)
    (key : String) : (Value.map es).get key = (Value.map fs).get key := by
  refine Option.ext fun x => ?_
  rw [get_eq_some hnd, get_eq_some ((hp.map entryKey).nodup_iff.mp hnd), hp.mem_iff]

theorem get_map_sortEntry (es : List (Value × Value)) (key : String) :
    (Value.map (es.map sortEntry)).get key = ((Value.map es).get key).map sortKeys := by
  rw [get_map, get_map, List.find?_map, Option.map_map, Option.map_map]
  have hp : (fun e : Value × Value => decide (e.1 = .text key)) ∘ sortEntry =
      fun e => decide (e.1 = .text key) := by
    funext e
    simp [sortEntry, sortKeys_eq_text]
  rw [hp]
  rfl

theorem get_sortKeys {v : Value} (h : DistinctKeys v) (key : String) :
    (sortKeys v).get key = (v.get key).map sortKeys := by
  cases v with
  | map es =>
    rw [distinctKeys_map] at h
    rw [sortKeys_map, ← get_map_sortEntry]
    exact get_perm (perm_sortBy _ _)
      (((perm_sortBy entryKey _).map entryKey).nodup_iff.mpr (by rw [map_entryKey_sortEntry]; exact h.1)) key
  | array vs => rw [sortKeys_array]; rfl
  | _ => rfl

theorem isMap_sortKeys (v : Value) : isMap (sortKeys v) = isMap v := by
  cases v <;> simp [sortKeys, isMap]

section Accessors
variable {v : Value} (h : DistinctKeys v) (key : String)
include h

end Accessors

/-! ## Taking keys out -/

theorem without_map (es : List (Value × Value)) (key : String) :
    (Value.map es).without key = .map (es.filter fun e => e.1 ≠ .text key) := rfl

theorem isMap_without (v : Value) (key : String) : isMap (v.without key) = isMap v := by
  cases v <;> rfl

theorem distinctKeys_filter {es : List (Value × Value)} (p : Value × Value → Bool)
    (h : DistinctKeys (.map es)) : DistinctKeys (.map (es.filter p)) := by
  rw [distinctKeys_map] at h ⊢
  exact ⟨h.1.sublist (List.filter_sublist.map entryKey), fun e he => h.2 e (List.mem_of_mem_filter he)⟩

theorem distinctKeys_without {v : Value} (h : DistinctKeys v) (key : String) :
    DistinctKeys (v.without key) := by
  cases v with
  | map es => exact distinctKeys_filter _ h
  | _ => exact h

theorem sortedKeys_without {v : Value} (h : SortedKeys v) (key : String) :
    SortedKeys (v.without key) := by
  cases v with
  | map es =>
    rw [without_map, sortedKeys_map]
    rw [sortedKeys_map] at h
    exact ⟨h.1.filter _, fun e he => h.2 e (List.mem_of_mem_filter he)⟩
  | _ => exact h

theorem depth_without (v : Value) (key : String) : depth (v.without key) ≤ depth v := by
  cases v with
  | map es =>
    rw [without_map, depth_map_le]
    exact fun e he => depth_map_le.mp le_rfl e (List.mem_of_mem_filter he)
  | _ => exact le_rfl

theorem get_without_of_ne {v : Value} {key other : String} (h : key ≠ other) :
    (v.without key).get other = v.get other := by
  cases v with
  | map es =>
    rw [without_map, get_map, get_map, List.find?_filter]
    congr 2
    funext e
    by_cases hk : e.1 = .text other
    · simp [hk, h.symm]
    · simp [hk]
  | _ => rfl

theorem get_without_self (v : Value) (key : String) : (v.without key).get key = none := by
  cases v with
  | map es =>
    rw [without_map, get_eq_none]
    intro e he
    simpa using List.of_mem_filter he
  | _ => rfl

/-! ## Putting keys in -/

theorem pushEntry_map (es : List (Value × Value)) (key : String) (x : Value) :
    pushEntry key x (.map es) = .map (es ++ [(.text key, x)]) := rfl

theorem isMap_pushEntry (key : String) (x v : Value) : isMap (pushEntry key x v) = isMap v := by
  cases v <;> rfl

theorem get_pushEntry_of_ne {v x : Value} {key other : String} (h : key ≠ other) :
    (pushEntry key x v).get other = v.get other := by
  cases v with
  | map es =>
    rw [pushEntry_map, get_map, get_map, List.find?_append]
    simp [h]
  | _ => rfl

theorem without_pushEntry_of_ne {v x : Value} {key other : String} (h : key ≠ other) :
    (pushEntry key x v).without other = pushEntry key x (v.without other) := by
  cases v with
  | map es => simp [pushEntry_map, without_map, List.filter_append, h]
  | _ => rfl

theorem without_pushEntry_self {v x : Value} {key : String} (h : v.get key = none) :
    (pushEntry key x v).without key = v := by
  cases v with
  | map es =>
    rw [get_eq_none] at h
    simpa [pushEntry_map, without_map, List.filter_append] using h
  | _ => rfl

theorem perm_filter_append {es : List (Value × Value)} (hnd : (es.map entryKey).Nodup)
    {key : String} {x : Value} (h : (Value.map es).get key = some x) :
    List.Perm ((es.filter fun e => e.1 ≠ .text key) ++ [(.text key, x)]) es := by
  rw [get_eq_some hnd] at h
  induction es with
  | nil => cases h
  | cons e es ih =>
    rw [List.map_cons, List.nodup_cons] at hnd
    by_cases hk : e.1 = .text key
    · have hrest : ∀ f ∈ es, f.1 ≠ .text key := fun f hf hfk =>
        hnd.1 (List.mem_map.mpr ⟨f, hf, by rw [entryKey, hfk, entryKey, hk]⟩)
      obtain rfl : (.text key, x) = e := (List.mem_cons.mp h).resolve_right fun hm => hrest _ hm rfl
      have hfilter : es.filter (fun e => e.1 ≠ .text key) = es :=
        List.filter_eq_self.mpr fun f hf => by simpa using hrest f hf
      rw [List.filter_cons_of_neg (by simp), hfilter]
      exact List.perm_append_singleton _ _
    · have hmem : (.text key, x) ∈ es := (List.mem_cons.mp h).resolve_left fun he =>
        hk (by rw [← he])
      rw [List.filter_cons_of_pos (by simpa using hk), List.cons_append]
      exact (ih hnd.2 hmem).cons e

theorem sortKeys_map_perm {es fs : List (Value × Value)} (hp : es.Perm fs)
    (hnd : (es.map entryKey).Nodup) : sortKeys (.map es) = sortKeys (.map fs) := by
  rw [sortKeys_map, sortKeys_map]
  congr 1
  exact sortBy_eq_of_perm (hp.map sortEntry) (by rw [map_entryKey_sortEntry]; exact hnd)

theorem distinctKeys_perm {es fs : List (Value × Value)} (hp : es.Perm fs)
    (h : DistinctKeys (.map es)) : DistinctKeys (.map fs) := by
  rw [distinctKeys_map] at h ⊢
  exact ⟨(hp.map entryKey).nodup_iff.mp h.1, fun e he => h.2 e (hp.mem_iff.mpr he)⟩

/-- Taking a key out and putting its value back changes nothing but the order. -/
theorem sortKeys_pushEntry_without {v x : Value} {key : String} (h : DistinctKeys v)
    (hx : v.get key = some x) :
    sortKeys (pushEntry key x (v.without key)) = sortKeys v ∧
      DistinctKeys (pushEntry key x (v.without key)) := by
  cases v with
  | map es =>
    have hnd := ((distinctKeys_map es).mp h).1
    have hp := perm_filter_append hnd hx
    exact ⟨sortKeys_map_perm hp ((hp.map entryKey).nodup_iff.mpr hnd), distinctKeys_perm hp.symm h⟩
  | _ => cases hx

theorem encode_text_inj {v : Value} {key : String} (hk : (encode (.text key)).length < 2 ^ 64)
    (h : encode v = encode (.text key)) : v = .text key :=
  sortKeys_eq_text.mp ((sortKeys_eq_of_encode_eq hk h.symm).symm)

theorem distinctKeys_pushEntry {v x : Value} {key : String} (h : DistinctKeys v)
    (hk : (encode (.text key)).length < 2 ^ 64) (hnone : v.get key = none) (hx : DistinctKeys x) :
    DistinctKeys (pushEntry key x v) := by
  cases v with
  | map es =>
    rw [distinctKeys_map] at h
    rw [get_eq_none] at hnone
    rw [pushEntry_map, distinctKeys_map, List.map_append, List.nodup_append]
    refine ⟨⟨h.1, by simp, ?_⟩, ?_⟩
    · intro a ha b hb
      obtain ⟨e, he, rfl⟩ := List.mem_map.mp ha
      obtain rfl : b = encode (.text key) := by simpa [entryKey] using hb
      exact fun heq => hnone e he (encode_text_inj hk heq)
    · intro e he
      rcases List.mem_append.mp he with he | he
      · exact h.2 e he
      · obtain rfl : e = (.text key, x) := by simpa using he
        exact ⟨trivial, hx⟩
  | _ => exact h

theorem depth_pushEntry {v x : Value} {key : String} {n : Nat} (h : depth v ≤ n) (hx : depth x < n) :
    depth (pushEntry key x v) ≤ n := by
  cases v with
  | map es =>
    rw [depth_map_le] at h
    rw [pushEntry_map, depth_map_le]
    intro e he
    rcases List.mem_append.mp he with he | he
    · exact h e he
    · obtain rfl : e = (.text key, x) := by simpa using he
      exact ⟨Nat.lt_of_le_of_lt (Nat.zero_le _) hx, hx⟩
  | _ => exact h

theorem sortKeys_without {v : Value} (h : DistinctKeys v) (key : String) :
    sortKeys (v.without key) = (sortKeys v).without key := by
  cases v with
  | map es =>
    rw [distinctKeys_map] at h
    have hsorted : (sortBy entryKey (es.map sortEntry)).Pairwise fun a b => entryKey a < entryKey b :=
      pairwise_lt_sortBy (by rw [map_entryKey_sortEntry]; exact h.1)
    have hcomm : (es.filter fun e => e.1 ≠ .text key).map sortEntry =
        (es.map sortEntry).filter fun e => e.1 ≠ .text key := by
      rw [List.filter_map]
      congr 1
      refine List.filter_congr fun e _ => ?_
      simp [sortEntry, sortKeys_eq_text]
    rw [without_map, sortKeys_map, sortKeys_map, without_map, hcomm]
    congr 1
    refine eq_of_perm_of_strict entryKey ?_ (pairwise_lt_sortBy ?_) (hsorted.filter _)
    · exact (perm_sortBy _ _).trans ((perm_sortBy entryKey (es.map sortEntry)).filter _).symm
    · refine List.Nodup.sublist (List.filter_sublist.map entryKey) ?_
      rw [map_entryKey_sortEntry]
      exact h.1
  | array vs => rw [sortKeys_array]; exact sortKeys_array vs
  | _ => rfl

/-! ## Maps built from a list of fields -/

theorem get_map_cons (k key : String) (o : Option Value) (es : List (String × Option Value)) :
    (map ((k, o) :: es)).get key =
      if k = key then o.orElse fun _ => (map es).get key else (map es).get key := by
  cases o with
  | none => simp [map]
  | some v =>
    by_cases h : k = key
    · simp [map, get_map, h]
    · simp [map, get_map, h]

@[simp] theorem get_map_nil (key : String) : (map []).get key = none := rfl

theorem pushEntry_fields (es : List (String × Option Value)) (key : String) (x : Value) :
    pushEntry key x (map es) = map (es ++ [(key, some x)]) := by
  simp [map, pushEntry_map, List.filterMap_append]

/-- The fields of a map have distinct keys, and its values distinct keys of their own. -/
theorem distinctKeys_fields {es : List (String × Option Value)}
    (hk : (es.map fun e => encode (.text e.1)).Nodup)
    (hv : ∀ e ∈ es, ∀ v ∈ e.2, DistinctKeys v) : DistinctKeys (map es) := by
  rw [map, distinctKeys_map]
  constructor
  · refine hk.sublist ?_
    clear hk hv
    induction es with
    | nil => exact List.Sublist.slnil
    | cons e es ih =>
      obtain ⟨k, o⟩ := e
      cases o with
      | none => exact ih.cons _
      | some v => exact ih.cons_cons _
  · intro e he
    obtain ⟨f, hf, hfe⟩ := List.mem_filterMap.mp he
    obtain ⟨v, hfv, rfl⟩ := Option.map_eq_some_iff.mp hfe
    exact ⟨trivial, hv f hf v hfv⟩

theorem depth_fields_le {es : List (String × Option Value)} {n : Nat} (hn : 0 < n)
    (h : ∀ e ∈ es, ∀ v ∈ e.2, depth v < n) : depth (map es) ≤ n := by
  rw [map, depth_map_le]
  intro e he
  obtain ⟨f, hf, hfe⟩ := List.mem_filterMap.mp he
  obtain ⟨v, hfv, rfl⟩ := Option.map_eq_some_iff.mp hfe
  exact ⟨hn, h f hf v hfv⟩

end HxdNg.Identity.Cbor
