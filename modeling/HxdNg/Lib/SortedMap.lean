import Mathlib

/-!
# Maps in the order of their keys

`SortedMap κ ν` keeps its entries in strict order of their keys. `popFirst` takes the least, and
`ofList` collects a list, the last entry of a key standing. `get` looks a key up, and `gather` puts the
entries of a list together by their keys.
-/

namespace HxdNg

structure SortedMap (κ ν : Type*) [LinearOrder κ] where
  entries : List (κ × ν)
  sorted : entries.Pairwise fun a b => a.1 < b.1

namespace SortedMap

variable {κ ν : Type*} [LinearOrder κ]

def empty : SortedMap κ ν := ⟨[], List.Pairwise.nil⟩

def size (m : SortedMap κ ν) : Nat := m.entries.length

/-- Put `v` at `k`, in place of what is there. -/
def insert (k : κ) (v : ν) (m : SortedMap κ ν) : SortedMap κ ν where
  entries := m.entries.filter (fun e => e.1 < k) ++ (k, v) :: m.entries.filter fun e => k < e.1
  sorted := by
    have hbelow : ∀ e ∈ m.entries.filter (fun e => e.1 < k), e.1 < k := fun e he =>
      of_decide_eq_true (List.mem_filter.mp he).2
    have habove : ∀ e ∈ m.entries.filter (fun e => k < e.1), k < e.1 := fun e he =>
      of_decide_eq_true (List.mem_filter.mp he).2
    refine List.pairwise_append.mpr ⟨m.sorted.filter _,
      List.pairwise_cons.mpr ⟨habove, m.sorted.filter _⟩, ?_⟩
    intro a ha b hb
    rcases List.mem_cons.mp hb with rfl | hb
    · exact hbelow a ha
    · exact (hbelow a ha).trans (habove b hb)

/-- The entry of the least key, and the rest. -/
def popFirst (m : SortedMap κ ν) : Option ((κ × ν) × SortedMap κ ν) :=
  match m with
  | ⟨[], _⟩ => none
  | ⟨e :: rest, h⟩ => some (e, ⟨rest, (List.pairwise_cons.mp h).2⟩)

def ofList (l : List (κ × ν)) : SortedMap κ ν := l.foldl (fun m e => m.insert e.1 e.2) empty

variable {m m' : SortedMap κ ν} {e e' : κ × ν} {k : κ} {v : ν} {l : List (κ × ν)}

/-- No two entries have one key. -/
theorem eq_of_key (he : e ∈ m.entries) (he' : e' ∈ m.entries) (h : e.1 = e'.1) : e = e' := by
  have hnodup : (m.entries.map Prod.fst).Nodup :=
    List.pairwise_map.mpr (m.sorted.imp ne_of_lt)
  exact List.inj_on_of_nodup_map hnodup he he' h

theorem mem_insert : e ∈ (m.insert k v).entries ↔ e = (k, v) ∨ (e ∈ m.entries ∧ e.1 ≠ k) := by
  show e ∈ _ ++ _ :: _ ↔ _
  rw [List.mem_append, List.mem_cons, List.mem_filter, List.mem_filter, decide_eq_true_iff,
    decide_eq_true_iff, or_left_comm, ← and_or_left, ← lt_or_lt_iff_ne]

theorem size_insert_le : (m.insert k v).size ≤ m.size + 1 := by
  have hcount : ∀ l : List (κ × ν),
      (l.filter fun e => e.1 < k).length + (l.filter fun e => k < e.1).length ≤ l.length := by
    intro l
    induction l with
    | nil => exact Nat.le_refl 0
    | cons a t ih =>
      rw [List.filter_cons, List.filter_cons, List.length_cons]
      rcases lt_trichotomy a.1 k with h | h | h
      · simp only [h, not_lt_of_gt h, decide_true, decide_false, if_true, List.length_cons]
        simp only [Bool.false_eq_true, if_false]
        omega
      · simp only [h, lt_irrefl, decide_false, Bool.false_eq_true, if_false]
        omega
      · simp only [h, not_lt_of_gt h, decide_true, decide_false, if_true, List.length_cons]
        simp only [Bool.false_eq_true, if_false]
        omega
  show (_ ++ _ :: _).length ≤ m.entries.length + 1
  rw [List.length_append, List.length_cons]
  have := hcount m.entries
  omega

theorem popFirst_none (h : m.popFirst = none) : m.entries = [] := by
  obtain ⟨_ | ⟨a, t⟩, hs⟩ := m
  · rfl
  · cases h

/-- What comes up first is before all that is left. -/
theorem popFirst_some (h : m.popFirst = some (e, m')) :
    m.entries = e :: m'.entries ∧ ∀ e' ∈ m'.entries, e.1 < e'.1 := by
  obtain ⟨_ | ⟨a, t⟩, hs⟩ := m
  · cases h
  · cases h
    exact ⟨rfl, (List.pairwise_cons.mp hs).1⟩

theorem mem_foldl_insert (h : e ∈ (l.foldl (fun m e => m.insert e.1 e.2) m).entries) :
    e ∈ l ∨ e ∈ m.entries := by
  induction l generalizing m with
  | nil => exact .inr h
  | cons a t ih =>
    rcases ih h with h | h
    · exact .inl (List.mem_cons_of_mem _ h)
    · rcases mem_insert.mp h with rfl | ⟨h, -⟩
      · exact .inl List.mem_cons_self
      · exact .inr h

theorem mem_of_mem_ofList (h : e ∈ (ofList l).entries) : e ∈ l :=
  (mem_foldl_insert h).resolve_right List.not_mem_nil

theorem foldl_insert_mem (h : e ∈ l ∨ e ∈ m.entries) (hkey : ∀ e' ∈ l, e'.1 = e.1 → e' = e) :
    e ∈ (l.foldl (fun m e => m.insert e.1 e.2) m).entries := by
  induction l generalizing m with
  | nil => exact h.resolve_left List.not_mem_nil
  | cons a t ih =>
    refine ih ?_ fun e' he' => hkey e' (List.mem_cons_of_mem _ he')
    by_cases ha : a.1 = e.1
    · exact .inr (mem_insert.mpr (.inl (hkey a List.mem_cons_self ha).symm))
    · rcases h with h | h
      · rcases List.mem_cons.mp h with rfl | h
        · exact absurd rfl ha
        · exact .inl h
      · exact .inr (mem_insert.mpr (.inr ⟨h, fun hk => ha hk.symm⟩))

/-- An entry that is the only one of its key is collected. -/
theorem mem_ofList (h : e ∈ l) (hkey : ∀ e' ∈ l, e'.1 = e.1 → e' = e) : e ∈ (ofList l).entries :=
  foldl_insert_mem (.inl h) hkey

theorem size_foldl_insert_le :
    (l.foldl (fun m e => m.insert e.1 e.2) m).size ≤ m.size + l.length := by
  induction l generalizing m with
  | nil => exact Nat.le_refl m.size
  | cons a t ih =>
    have hstep : (m.insert a.1 a.2).size ≤ m.size + 1 := size_insert_le
    have hrest : (t.foldl (fun m e => m.insert e.1 e.2) (m.insert a.1 a.2)).size ≤
        (m.insert a.1 a.2).size + t.length := ih
    rw [List.foldl_cons, List.length_cons]
    omega

theorem size_ofList_le : (ofList l).size ≤ l.length := by
  have h : (l.foldl (fun m e => m.insert e.1 e.2) (empty : SortedMap κ ν)).size ≤
      (empty : SortedMap κ ν).size + l.length := size_foldl_insert_le
  have hempty : (empty : SortedMap κ ν).size = 0 := rfl
  rwa [hempty, Nat.zero_add] at h

/-! ## Lookups -/

def get (m : SortedMap κ ν) (k : κ) : Option ν := (m.entries.find? fun e => e.1 = k).map Prod.snd

def contains (m : SortedMap κ ν) (k : κ) : Bool := (m.get k).isSome

def keys (m : SortedMap κ ν) : List κ := m.entries.map Prod.fst

def mapVals {ν' : Type*} (f : κ → ν → ν') (m : SortedMap κ ν) : SortedMap κ ν' where
  entries := m.entries.map fun e => (e.1, f e.1 e.2)
  sorted := List.pairwise_map.mpr m.sorted

theorem get_eq_some : m.get k = some v ↔ (k, v) ∈ m.entries := by
  unfold get
  rw [Option.map_eq_some_iff]
  constructor
  · rintro ⟨e, hfind, rfl⟩
    have hkey : e.1 = k := by simpa using List.find?_some hfind
    rw [← hkey]
    exact List.mem_of_find?_eq_some hfind
  · intro hmem
    cases hfind : m.entries.find? fun e => e.1 = k with
    | none => exact absurd rfl (of_decide_eq_false (eq_false_of_ne_true (List.find?_eq_none.mp hfind _ hmem)))
    | some e =>
      have hkey : e.1 = k := by simpa using List.find?_some hfind
      have he := eq_of_key (List.mem_of_find?_eq_some hfind) hmem hkey
      exact ⟨e, rfl, congrArg Prod.snd he⟩

theorem get_insert {k' : κ} : (m.insert k v).get k' = if k' = k then some v else m.get k' := by
  apply Option.ext
  intro w
  rw [get_eq_some, mem_insert]
  split
  · rename_i heq
    subst heq
    constructor
    · rintro (h | ⟨-, h⟩)
      · exact congrArg some (Prod.mk.inj h).2.symm
      · exact absurd rfl h
    · intro h
      exact .inl (congrArg (Prod.mk _) (Option.some.inj h).symm)
  · rename_i hne
    rw [get_eq_some]
    constructor
    · rintro (h | ⟨h, -⟩)
      · exact absurd (Prod.mk.inj h).1 hne
      · exact h
    · exact fun h => .inr ⟨h, hne⟩

@[simp] theorem get_empty : (empty : SortedMap κ ν).get k = none := rfl

theorem get_mapVals {ν' : Type*} {f : κ → ν → ν'} : (m.mapVals f).get k = (m.get k).map (f k) := by
  apply Option.ext
  intro w
  rw [get_eq_some, Option.map_eq_some_iff]
  constructor
  · intro h
    obtain ⟨e, he, heq⟩ := List.mem_map.mp h
    obtain ⟨rfl, rfl⟩ := Prod.mk.inj heq
    exact ⟨e.2, get_eq_some.mpr he, rfl⟩
  · rintro ⟨v, hv, rfl⟩
    exact List.mem_map.mpr ⟨(k, v), get_eq_some.mp hv, rfl⟩

theorem mem_keys : k ∈ m.keys ↔ ∃ v, m.get k = some v := by
  constructor
  · intro h
    obtain ⟨e, he, rfl⟩ := List.mem_map.mp h
    exact ⟨e.2, get_eq_some.mpr he⟩
  · rintro ⟨v, hv⟩
    exact List.mem_map.mpr ⟨(k, v), get_eq_some.mp hv, rfl⟩

theorem contains_iff : m.contains k = true ↔ ∃ v, m.get k = some v := Option.isSome_iff_exists

theorem keys_sorted (m : SortedMap κ ν) : m.keys.Pairwise (· < ·) := List.pairwise_map.mpr m.sorted

theorem keys_nodup (m : SortedMap κ ν) : m.keys.Nodup := m.keys_sorted.imp ne_of_lt

/-! ## Gathering -/

section Gather
variable {α : Type*} (key : α → Option κ) (step : α → ν → ν) (start : ν)

/-- The elements of a list worked into what stands at their keys. -/
def gather (l : List α) (m : SortedMap κ ν) : SortedMap κ ν :=
  l.foldl (fun m a => match key a with
    | none => m
    | some k => m.insert k (step a ((m.get k).getD start))) m

variable {key step start}

/-- At a key stands what its elements came to, in order. -/
theorem getD_gather {k : κ} {q : α → Bool} (hq : ∀ a, q a = true ↔ key a = some k) (l' : List α)
    (m : SortedMap κ ν) : ((gather key step start l' m).get k).getD start =
      (l'.filter q).foldl (fun v a => step a v) ((m.get k).getD start) := by
  induction l' generalizing m with
  | nil => rfl
  | cons a t ih =>
    have hstep : gather key step start (a :: t) m = gather key step start t (match key a with
        | none => m
        | some k => m.insert k (step a ((m.get k).getD start))) := rfl
    rw [hstep, ih]
    by_cases ha : key a = some k
    · rw [List.filter_cons, if_pos ((hq a).mpr ha), ha]
      dsimp only
      rw [get_insert, if_pos rfl]
      rfl
    · rw [List.filter_cons, if_neg fun h => ha ((hq a).mp h)]
      cases hkey : key a with
      | none => rfl
      | some j =>
        have hj : k ≠ j := by
          rintro rfl
          exact ha hkey
        dsimp only
        rw [get_insert, if_neg hj]

end Gather

end SortedMap

end HxdNg
