import Mathlib

/-!
# Association lists

A finite map kept as a list of entries whose keys are distinct.

* `Assoc.lookup`, `Assoc.alter` : reading an entry; changing, making or dropping it;
* `Assoc.Valid` : the keys are distinct; `valid_alter`, `valid_filter` keep it;
* `lookup_alter`, `lookup_filter` : what each leaves; `countP_alter` : how it changes a count;
* `Map` : one whose keys are known distinct; `get`, `set`, `drop` and what each leaves; `total` : what
  its values add up to.
-/

namespace HxdNg.Assoc

variable {κ ν : Type*} [DecidableEq κ]

def lookup : List (κ × ν) → κ → Option ν
  | [], _ => none
  | (k', v) :: t, k => if k' = k then some v else lookup t k

/-- Change the entry at `k`, make it or drop it. -/
def alter (k : κ) (f : Option ν → Option ν) : List (κ × ν) → List (κ × ν)
  | [] => ((f none).map fun v => (k, v)).toList
  | (k', v) :: t =>
    if k' = k then ((f (some v)).map fun v => (k, v)).toList ++ t else (k', v) :: alter k f t

def insert (k : κ) (v : ν) (t : List (κ × ν)) : List (κ × ν) := alter k (fun _ => some v) t

def erase (k : κ) (t : List (κ × ν)) : List (κ × ν) := alter k (fun _ => none) t

/-- The keys are distinct. -/
def Valid (t : List (κ × ν)) : Prop := (t.map Prod.fst).Nodup

variable {t : List (κ × ν)} {k k' : κ} {v : ν} {f : Option ν → Option ν}

@[simp] theorem lookup_nil : lookup ([] : List (κ × ν)) k = none := rfl

theorem lookup_cons (k' : κ) (v : ν) (t : List (κ × ν)) (k : κ) :
    lookup ((k', v) :: t) k = if k' = k then some v else lookup t k := rfl

theorem mem_of_lookup (h : lookup t k = some v) : (k, v) ∈ t := by
  induction t with
  | nil => cases h
  | cons p t ih =>
    obtain ⟨k', v'⟩ := p
    rw [lookup_cons] at h
    by_cases hk : k' = k
    · rw [if_pos hk] at h
      obtain rfl := Option.some.inj h
      rw [hk]
      exact List.mem_cons_self
    · rw [if_neg hk] at h
      exact List.mem_cons_of_mem _ (ih h)

theorem lookup_eq_none : lookup t k = none ↔ k ∉ t.map Prod.fst := by
  induction t with
  | nil => simp
  | cons p t ih =>
    obtain ⟨k', v'⟩ := p
    rw [lookup_cons, List.map_cons, List.mem_cons, not_or]
    by_cases hk : k' = k
    · simp [hk]
    · simp [hk, ih, Ne.symm hk]

theorem lookup_of_mem (hv : Valid t) (h : (k, v) ∈ t) : lookup t k = some v := by
  induction t with
  | nil => cases h
  | cons p t ih =>
    obtain ⟨k', v'⟩ := p
    obtain ⟨hne, hv⟩ := List.nodup_cons.mp hv
    rw [lookup_cons]
    rcases List.mem_cons.mp h with heq | h
    · obtain ⟨rfl, rfl⟩ := Prod.mk.inj heq
      rw [if_pos rfl]
    · have hk : k' ≠ k := by
        rintro rfl
        exact hne (List.mem_map.mpr ⟨(k', v), h, rfl⟩)
      rw [if_neg hk, ih hv h]

/-- The keys an alteration leaves are those there were, and the one altered. -/
theorem mem_keys_alter (h : k' ∈ (alter k f t).map Prod.fst) :
    k' = k ∨ k' ∈ t.map Prod.fst := by
  induction t with
  | nil =>
    unfold alter at h
    cases hf : f none <;> simp [hf] at h
    exact .inl h
  | cons p t ih =>
    obtain ⟨k₀, v₀⟩ := p
    unfold alter at h
    by_cases hk : k₀ = k
    · rw [if_pos hk] at h
      cases hf : f (some v₀) <;> simp [hf] at h ⊢ <;> tauto
    · rw [if_neg hk, List.map_cons, List.mem_cons] at h
      rcases h with h | h
      · exact .inr (by simp [h])
      · rcases ih h with h | h
        · exact .inl h
        · exact .inr (List.mem_cons_of_mem _ h)

/-- What an insertion holds is what it inserts, and what was held. -/
theorem mem_insert {e : κ × ν} (h : e ∈ insert k v t) : e = (k, v) ∨ e ∈ t := by
  induction t with
  | nil => exact .inl (List.mem_singleton.mp h)
  | cons p t ih =>
    obtain ⟨k₀, v₀⟩ := p
    unfold insert alter at h
    split at h
    · rcases List.mem_append.mp h with h | h
      · exact .inl (List.mem_singleton.mp h)
      · exact .inr (List.mem_cons_of_mem _ h)
    · rcases List.mem_cons.mp h with rfl | h
      · exact .inr List.mem_cons_self
      · exact (ih h).imp_right (List.mem_cons_of_mem _)

theorem valid_alter (hv : Valid t) (k : κ) (f : Option ν → Option ν) : Valid (alter k f t) := by
  induction t with
  | nil =>
    unfold alter Valid
    cases f none <;> simp
  | cons p t ih =>
    obtain ⟨k₀, v₀⟩ := p
    obtain ⟨hne, hv⟩ := List.nodup_cons.mp hv
    unfold alter
    by_cases hk : k₀ = k
    · rw [if_pos hk]
      cases f (some v₀) with
      | none => exact hv
      | some v => exact List.nodup_cons.mpr ⟨hk ▸ hne, hv⟩
    · rw [if_neg hk]
      refine List.nodup_cons.mpr ⟨fun h => ?_, ih hv⟩
      rcases mem_keys_alter h with h | h
      · exact hk h
      · exact hne h

omit [DecidableEq κ] in
theorem valid_filter (hv : Valid t) (p : κ × ν → Bool) : Valid (t.filter p) :=
  hv.sublist (List.filter_sublist.map _)

theorem lookup_alter (hv : Valid t) (k : κ) (f : Option ν → Option ν) (k' : κ) :
    lookup (alter k f t) k' = if k' = k then f (lookup t k) else lookup t k' := by
  induction t with
  | nil =>
    unfold alter
    cases hf : f none with
    | none => simp [hf]
    | some v => simp [hf, lookup, eq_comm]
  | cons p t ih =>
    obtain ⟨k₀, v₀⟩ := p
    obtain ⟨hne, hv⟩ := List.nodup_cons.mp hv
    unfold alter
    by_cases hk : k₀ = k
    · subst hk
      have hmiss := lookup_eq_none.mpr hne
      rw [if_pos rfl]
      by_cases hk' : k' = k₀
      · subst hk'
        cases hf : f (some v₀) with
        | none => simpa [lookup, hf] using hmiss
        | some v => simp [lookup, hf]
      · cases f (some v₀) <;> simp [lookup, hk', Ne.symm hk']
    · rw [if_neg hk, lookup_cons, lookup_cons, lookup_cons, ih hv]
      by_cases hk' : k₀ = k'
      · have : k' ≠ k := hk' ▸ hk
        simp [hk', this]
      · simp [hk', hk]

theorem lookup_insert (hv : Valid t) (k : κ) (v : ν) (k' : κ) :
    lookup (insert k v t) k' = if k' = k then some v else lookup t k' := lookup_alter hv k _ k'

theorem lookup_erase (hv : Valid t) (k k' : κ) :
    lookup (erase k t) k' = if k' = k then none else lookup t k' := lookup_alter hv k _ k'

theorem lookup_filter (hv : Valid t) (p : κ × ν → Bool) (k : κ) :
    lookup (t.filter p) k = (lookup t k).filter fun v => p (k, v) := by
  refine Option.ext fun v => ?_
  rw [Option.filter_eq_some_iff]
  constructor
  · intro h
    obtain ⟨hmem, hp⟩ := List.mem_filter.mp (mem_of_lookup h)
    exact ⟨lookup_of_mem hv hmem, hp⟩
  · rintro ⟨h, hp⟩
    exact lookup_of_mem (valid_filter hv p) (List.mem_filter.mpr ⟨mem_of_lookup h, hp⟩)

/-- What an entry adds to the count of those `p` holds of. -/
def weight (p : κ × ν → Bool) (k : κ) (o : Option ν) : Nat := if o.any fun v => p (k, v) then 1 else 0

theorem countP_alter (p : κ × ν → Bool) (k : κ) (f : Option ν → Option ν) (t : List (κ × ν)) :
    (alter k f t).countP p + weight p k (lookup t k) = t.countP p + weight p k (f (lookup t k)) := by
  induction t with
  | nil =>
    unfold alter
    rw [lookup_nil]
    cases f none <;> simp [weight, List.countP_cons]
  | cons q t ih =>
    obtain ⟨k₀, v₀⟩ := q
    unfold alter
    rw [lookup_cons]
    by_cases hk : k₀ = k
    · subst hk
      rw [if_pos rfl, if_pos rfl]
      cases hf : f (some v₀) <;> simp [weight, List.countP_cons]
      omega
    · rw [if_neg hk, if_neg hk, List.countP_cons, List.countP_cons]
      omega

/-- How an entry changed, made or dropped changes what the entries add up to. -/
theorem sum_alter_by (w : κ → ν → Nat) (k : κ) (f : Option ν → Option ν) (t : List (κ × ν)) :
    ((alter k f t).map fun kv => w kv.1 kv.2).sum + (lookup t k).elim 0 (w k) =
      (t.map fun kv => w kv.1 kv.2).sum + (f (lookup t k)).elim 0 (w k) := by
  induction t with
  | nil =>
    unfold alter
    rw [lookup_nil]
    cases f none <;> simp
  | cons q t ih =>
    obtain ⟨k₀, v₀⟩ := q
    unfold alter
    rw [lookup_cons]
    by_cases hk : k₀ = k
    · subst hk
      rw [if_pos rfl, if_pos rfl]
      cases hf : f (some v₀) <;> simp
      · omega
      · omega
    · rw [if_neg hk, if_neg hk, List.map_cons, List.map_cons, List.sum_cons, List.sum_cons]
      omega

theorem sum_alter (w : ν → Nat) (k : κ) (f : Option ν → Option ν) (t : List (κ × ν)) :
    ((alter k f t).map fun kv => w kv.2).sum + (lookup t k).elim 0 w =
      (t.map fun kv => w kv.2).sum + (f (lookup t k)).elim 0 w := sum_alter_by (fun _ => w) k f t

/-- An association list whose keys are distinct. -/
structure Map (κ ν : Type*) where
  entries : List (κ × ν)
  valid : Valid entries
  deriving DecidableEq

namespace Map

omit [DecidableEq κ] in
theorem valid_nil : Valid ([] : List (κ × ν)) := List.nodup_nil

def empty : Map κ ν := ⟨[], valid_nil⟩

def get (m : Map κ ν) (k : κ) : Option ν := lookup m.entries k

def set (m : Map κ ν) (k : κ) (v : ν) : Map κ ν := ⟨insert k v m.entries, valid_alter m.valid k _⟩

def drop (m : Map κ ν) (k : κ) : Map κ ν := ⟨erase k m.entries, valid_alter m.valid k _⟩

omit [DecidableEq κ] in
def filter (p : κ × ν → Bool) (m : Map κ ν) : Map κ ν := ⟨m.entries.filter p, valid_filter m.valid p⟩

def keys (m : Map κ ν) : List κ := m.entries.map Prod.fst

omit [DecidableEq κ] in
def size (m : Map κ ν) : Nat := m.entries.length

variable {m : Map κ ν}

@[simp] theorem get_empty : (empty : Map κ ν).get k = none := rfl

theorem get_set (k : κ) (v : ν) (k' : κ) :
    (m.set k v).get k' = if k' = k then some v else m.get k' := lookup_insert m.valid k v k'

theorem get_drop (k k' : κ) : (m.drop k).get k' = if k' = k then none else m.get k' :=
  lookup_erase m.valid k k'

theorem get_set_cases {k' : κ} {v' : ν} (h : (m.set k v).get k' = some v') :
    (k' = k ∧ v' = v) ∨ (k' ≠ k ∧ m.get k' = some v') := by
  rw [get_set] at h
  split at h
  next hk => exact .inl ⟨hk, (Option.some.inj h).symm⟩
  next hk => exact .inr ⟨hk, h⟩

theorem get_drop_some {k' : κ} (h : (m.drop k).get k' = some v) : k' ≠ k ∧ m.get k' = some v := by
  rw [get_drop] at h
  split at h
  · cases h
  next hk => exact ⟨hk, h⟩

theorem get_filter (p : κ × ν → Bool) (k : κ) :
    (m.filter p).get k = (m.get k).filter fun v => p (k, v) := lookup_filter m.valid p k

theorem mem_keys (h : m.get k = some v) : k ∈ m.keys :=
  List.mem_map.2 ⟨(k, v), mem_of_lookup h, rfl⟩

theorem mem_keys_iff : k ∈ m.keys ↔ (m.get k).isSome = true := by
  rw [← not_iff_not, Bool.not_eq_true, Option.isSome_eq_false_iff, Option.isNone_iff_eq_none]
  exact lookup_eq_none.symm

theorem mem_entries_iff : (k, v) ∈ m.entries ↔ m.get k = some v :=
  ⟨lookup_of_mem m.valid, mem_of_lookup⟩

def values (m : Map κ ν) : List ν := m.entries.map Prod.snd

theorem mem_values_iff : v ∈ m.values ↔ ∃ k, m.get k = some v := by
  rw [values, List.mem_map]
  constructor
  · rintro ⟨⟨k, v'⟩, h, rfl⟩
    exact ⟨k, mem_entries_iff.1 h⟩
  · rintro ⟨k, h⟩
    exact ⟨(k, v), mem_entries_iff.2 h, rfl⟩

/-- Maps that read alike hold the same values. -/
theorem perm_values_of_get {n : Map κ ν} (h : ∀ k, m.get k = n.get k) : m.values.Perm n.values := by
  have hmem : ∀ kv : κ × ν, kv ∈ m.entries ↔ kv ∈ n.entries := fun kv => by
    rw [mem_entries_iff, mem_entries_iff, h]
  exact ((List.perm_ext_iff_of_nodup (List.Nodup.of_map _ m.valid)
    (List.Nodup.of_map _ n.valid)).2 hmem).map Prod.snd

theorem filterMap_get_keys (q : κ → Bool) (m : Map κ ν) :
    (m.keys.filter q).filterMap m.get = (m.filter fun kv => q kv.1).values := by
  show ((m.entries.map Prod.fst).filter q).filterMap m.get =
    (m.entries.filter fun kv => q kv.1).map Prod.snd
  rw [List.filter_map, List.filterMap_map, ← List.filterMap_eq_map]
  refine List.filterMap_congr fun kv hkv => ?_
  exact mem_entries_iff.1 (List.mem_of_mem_filter hkv)

omit [DecidableEq κ] in
/-- What the values add up to. -/
def total (w : ν → Nat) (m : Map κ ν) : Nat := (m.entries.map fun kv => w kv.2).sum

theorem total_set (w : ν → Nat) (m : Map κ ν) (k : κ) (v : ν) :
    (m.set k v).total w + (m.get k).elim 0 w = m.total w + w v := sum_alter w k _ m.entries

theorem total_drop (w : ν → Nat) (m : Map κ ν) (k : κ) :
    (m.drop k).total w + (m.get k).elim 0 w = m.total w := sum_alter w k _ m.entries

omit [DecidableEq κ] in
/-- What the entries add up to. -/
def sumOf (w : κ → ν → Nat) (m : Map κ ν) : Nat := (m.entries.map fun kv => w kv.1 kv.2).sum

theorem sumOf_set (w : κ → ν → Nat) (m : Map κ ν) (k : κ) (v : ν) :
    (m.set k v).sumOf w + (m.get k).elim 0 (w k) = m.sumOf w + w k v := sum_alter_by w k _ m.entries

theorem sumOf_drop (w : κ → ν → Nat) (m : Map κ ν) (k : κ) :
    (m.drop k).sumOf w + (m.get k).elim 0 (w k) = m.sumOf w := sum_alter_by w k _ m.entries

theorem sumOf_congr {w w' : κ → ν → Nat} (h : ∀ k v, m.get k = some v → w k v = w' k v) :
    m.sumOf w = m.sumOf w' :=
  congrArg List.sum (List.map_congr_left fun kv hkv => h kv.1 kv.2 (mem_entries_iff.1 hkv))

omit [DecidableEq κ] in
theorem countP_values (p : ν → Bool) (m : Map κ ν) :
    m.values.countP p = m.total fun v => if p v then 1 else 0 := by
  unfold values total
  induction m.entries with
  | nil => rfl
  | cons kv t ih =>
    rw [List.map_cons, List.countP_cons, List.map_cons, List.sum_cons, ih]
    exact Nat.add_comm _ _

omit [DecidableEq κ] in
/-- A map cut in two. -/
theorem countP_filter (q : ν → Bool) (p : κ × ν → Bool) (m : Map κ ν) :
    (m.filter p).values.countP q + (m.filter fun kv => !p kv).values.countP q =
      m.values.countP q := by
  show ((m.entries.filter p).map Prod.snd).countP q +
    ((m.entries.filter fun kv => !p kv).map Prod.snd).countP q = _
  unfold values
  induction m.entries with
  | nil => rfl
  | cons kv t ih =>
    rw [List.map_cons, List.countP_cons]
    cases hp : p kv <;> simp only [List.filter_cons, hp, Bool.not_true, Bool.not_false, if_true,
      Bool.false_eq_true, if_false, List.map_cons, List.countP_cons] <;> omega

omit [DecidableEq κ] in
/-- Change every value. -/
def mapVals (f : κ → ν → ν) (m : Map κ ν) : Map κ ν :=
  ⟨m.entries.map fun kv => (kv.1, f kv.1 kv.2), by
    show (List.map _ (List.map _ _)).Nodup
    rw [List.map_map]
    exact m.valid⟩

omit [DecidableEq κ] in
theorem total_mapVals (w : ν → Nat) (f : κ → ν → ν) (m : Map κ ν) (h : ∀ k v, w (f k v) = w v) :
    (m.mapVals f).total w = m.total w := by
  unfold total mapVals
  rw [List.map_map]
  exact congrArg List.sum (List.map_congr_left fun kv _ => h kv.1 kv.2)

omit [DecidableEq κ] in
theorem total_mapVals_le (w : ν → Nat) (f : κ → ν → ν) (m : Map κ ν) (h : ∀ k v, w (f k v) ≤ w v) :
    (m.mapVals f).total w ≤ m.total w := by
  unfold total mapVals
  rw [List.map_map]
  exact List.sum_le_sum fun kv _ => h kv.1 kv.2

omit [DecidableEq κ] in
theorem total_filter_le (w : ν → Nat) (p : κ × ν → Bool) (m : Map κ ν) :
    (m.filter p).total w ≤ m.total w :=
  List.Sublist.sum_le_sum (List.filter_sublist.map _) fun _ _ => Nat.zero_le _

theorem get_mapVals (f : κ → ν → ν) (m : Map κ ν) (k : κ) :
    (m.mapVals f).get k = (m.get k).map (f k) := by
  show lookup (m.entries.map fun kv => (kv.1, f kv.1 kv.2)) k = (lookup m.entries k).map (f k)
  induction m.entries with
  | nil => rfl
  | cons p t ih =>
    rw [List.map_cons, lookup_cons, lookup_cons, ih]
    by_cases hk : p.1 = k
    · rw [if_pos hk, if_pos hk, Option.map_some, hk]
    · rw [if_neg hk, if_neg hk]

omit [DecidableEq κ] in
theorem ext_entries {m n : Map κ ν} (h : m.entries = n.entries) : m = n := by
  cases m
  cases n
  congr

omit [DecidableEq κ] in
omit [DecidableEq κ] in
theorem mapVals_mapVals (f g : κ → ν → ν) (m : Map κ ν) :
    (m.mapVals f).mapVals g = m.mapVals fun k v => g k (f k v) := by
  apply ext_entries
  show List.map _ (List.map _ _) = _
  rw [List.map_map]
  rfl

theorem entries_alter_map (f : ν → ν) (k : κ) (g h : Option ν → Option ν) (t : List (κ × ν))
    (hgh : ∀ o, (g o).map f = h (o.map f)) :
    (alter k g t).map (fun kv => (kv.1, f kv.2)) =
      alter k h (t.map fun kv => (kv.1, f kv.2)) := by
  induction t with
  | nil =>
    have h0 := hgh none
    rw [Option.map_none] at h0
    unfold alter
    rw [List.map_nil, ← h0]
    cases g none <;> rfl
  | cons p t ih =>
    obtain ⟨k', v⟩ := p
    unfold alter
    rw [List.map_cons]
    by_cases hk : k' = k
    · have h1 := hgh (some v)
      rw [Option.map_some] at h1
      simp only [if_pos hk, List.map_append, ← h1]
      cases g (some v) <;> rfl
    · simp only [if_neg hk, List.map_cons, ih]

theorem mapVals_set (f : ν → ν) (m : Map κ ν) (k : κ) (v : ν) :
    (m.set k v).mapVals (fun _ => f) = (m.mapVals fun _ => f).set k (f v) :=
  ext_entries (entries_alter_map f k _ _ m.entries fun _ => rfl)

theorem mapVals_drop (f : ν → ν) (m : Map κ ν) (k : κ) :
    (m.drop k).mapVals (fun _ => f) = (m.mapVals fun _ => f).drop k :=
  ext_entries (entries_alter_map f k _ _ m.entries fun _ => rfl)

theorem set_self (h : m.get k = some v) : m.set k v = m := by
  apply ext_entries
  show alter k (fun _ => some v) m.entries = m.entries
  have hget : lookup m.entries k = some v := h
  revert hget
  induction m.entries with
  | nil => intro hget; cases hget
  | cons p t ih =>
    obtain ⟨k', v'⟩ := p
    intro hget
    rw [lookup_cons] at hget
    unfold alter
    by_cases hk : k' = k
    · rw [if_pos hk] at hget ⊢
      rw [← hk, Option.some.inj hget]
      rfl
    · rw [if_neg hk] at hget ⊢
      rw [ih hget]

/-- Take in every entry of another map. -/
def extend (m n : Map κ ν) : Map κ ν := n.entries.foldl (fun m kv => m.set kv.1 kv.2) m

theorem get_extend (m n : Map κ ν) (k : κ) : (m.extend n).get k = (n.get k).or (m.get k) := by
  have h : ∀ (l : List (κ × ν)) (m : Map κ ν), Valid l →
      (l.foldl (fun m kv => m.set kv.1 kv.2) m).get k = (lookup l k).or (m.get k) := by
    intro l
    induction l with
    | nil => intro m _; rfl
    | cons p t ih =>
      intro m hv
      obtain ⟨hne, hv⟩ := List.nodup_cons.mp hv
      rw [List.foldl_cons, ih _ hv, get_set, lookup_cons]
      by_cases hk : p.1 = k
      · have hmiss : lookup t k = none := lookup_eq_none.2 (hk ▸ hne)
        rw [hmiss, if_pos hk, if_pos hk.symm]
        rfl
      · rw [if_neg hk, if_neg (Ne.symm hk)]
  exact h n.entries m n.valid

theorem length_set (k : κ) (v : ν) :
    (m.set k v).entries.length = m.entries.length + if (m.get k).isSome then 0 else 1 := by
  have h := countP_alter (fun _ => true) k (fun _ => some v) m.entries
  have hall : ∀ t : List (κ × ν), t.countP (fun _ => true) = t.length := fun t =>
    List.countP_eq_length.2 fun _ _ => rfl
  rw [hall, hall] at h
  show (alter k (fun _ => some v) m.entries).length = _
  have hget : m.get k = lookup m.entries k := rfl
  rw [hget]
  cases hl : lookup m.entries k with
  | none =>
    rw [hl] at h
    simpa [Assoc.weight] using h
  | some v₀ =>
    rw [hl] at h
    simpa [Assoc.weight] using h

/-- A map holding no more than another is no larger. -/
theorem size_le_of_get {n : Map κ ν} (h : ∀ k v, n.get k = some v → m.get k = some v) : n.size ≤ m.size := by
  have hsub : n.keys ⊆ m.keys := by
    intro k hk
    obtain ⟨v, hv⟩ := Option.isSome_iff_exists.mp (mem_keys_iff.mp hk)
    exact mem_keys (h k v hv)
  have hle := (List.subperm_of_subset n.valid hsub).length_le
  simpa [keys, size] using hle

theorem size_set_le (k : κ) (v : ν) : (m.set k v).size ≤ m.size + 1 := by
  have h := length_set (m := m) k v
  simp only [size, h]
  split <;> omega

theorem size_set_of_get {v' : ν} (h : m.get k = some v') (v : ν) : (m.set k v).size = m.size := by
  have hlength := length_set (m := m) k v
  rw [h] at hlength
  exact hlength

theorem size_drop_of_get (h : m.get k = some v) : (m.drop k).size + 1 = m.size := by
  have hcount := countP_alter (fun _ => true) k (fun _ => none) m.entries
  have hall : ∀ t : List (κ × ν), t.countP (fun _ => true) = t.length := fun t =>
    List.countP_eq_length.2 fun _ _ => rfl
  have hget : lookup m.entries k = some v := h
  rw [hall, hall, hget] at hcount
  have hone : (alter k (fun _ => none) m.entries).length + 1 = m.entries.length := by
    simpa [Assoc.weight] using hcount
  exact hone

omit [DecidableEq κ] in
theorem size_filter_le (p : κ × ν → Bool) : (m.filter p).size ≤ m.size := List.length_filter_le p m.entries

theorem get_of_filter {p : κ × ν → Bool} (h : (m.filter p).get k = some v) : m.get k = some v :=
  ((Option.filter_eq_some_iff).mp ((get_filter _ _).symm.trans h)).1

theorem length_drop_le (k : κ) : (m.drop k).entries.length ≤ m.entries.length := by
  have h := countP_alter (fun _ => true) k (fun _ => none) m.entries
  have hall : ∀ t : List (κ × ν), t.countP (fun _ => true) = t.length := fun t =>
    List.countP_eq_length.2 fun _ _ => rfl
  rw [hall, hall] at h
  have hnone : Assoc.weight (fun _ : κ × ν => true) k none = 0 := rfl
  rw [hnone] at h
  exact Nat.le_trans (Nat.le_add_right _ _) (Nat.le_of_eq h)

theorem alter_append (k : κ) (v : ν) {t : List (κ × ν)} (h : k ∉ t.map Prod.fst) :
    alter k (fun _ => some v) t = t ++ [(k, v)] := by
  induction t with
  | nil => rfl
  | cons p t ih =>
    obtain ⟨k', v'⟩ := p
    rw [List.map_cons, List.mem_cons, not_or] at h
    unfold alter
    rw [if_neg (Ne.symm h.1), ih h.2, List.cons_append]

/-- An empty map that takes in another becomes it. -/
theorem extend_empty (n : Map κ ν) : (empty : Map κ ν).extend n = n := by
  have h : ∀ (l : List (κ × ν)) (m : Map κ ν), Valid (m.entries ++ l) →
      (l.foldl (fun m kv => m.set kv.1 kv.2) m).entries = m.entries ++ l := by
    intro l
    induction l with
    | nil => intro m _; exact (List.append_nil _).symm
    | cons p l ih =>
      intro m hv
      have hfresh : p.1 ∉ m.entries.map Prod.fst := by
        intro hmem
        rw [Valid, List.map_append, List.map_cons, List.nodup_append] at hv
        exact hv.2.2 _ hmem _ List.mem_cons_self rfl
      have hset : (m.set p.1 p.2).entries = m.entries ++ [p] := alter_append p.1 p.2 hfresh
      rw [List.foldl_cons, ih _ (by rw [hset, List.append_assoc]; exact hv), hset,
        List.append_assoc]
      rfl
  exact ext_entries (h n.entries empty n.valid)

end Map

end HxdNg.Assoc
