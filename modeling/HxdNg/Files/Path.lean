import Mathlib

/-!
# Paths in a file area

`FilePath` is a list of names that may be in one, the outermost first. `above` is the folders a path is
in, the nearest first, as its parent, that one's parent and so on.
-/

namespace HxdNg.Files

inductive FileError where
  | invalidPath
  | notFound
  | notFolder
  | tooLarge
  | unavailable (reason : String)
  deriving DecidableEq

def isControl (c : Char) : Bool := c.toNat < 0x20 || (0x7f ≤ c.toNat && c.toNat < 0xa0)

/-- What may stand between slashes. -/
def isComponent (part : String) : Bool :=
  !(part.isEmpty || part == "." || part == ".." || part.toList.contains '/' || part.toList.contains '\\' ||
    part.toList.any isControl)

structure FilePath where
  components : List String
  valid : components.all isComponent = true
  deriving DecidableEq

namespace FilePath

theorem ext {p q : FilePath} (h : p.components = q.components) : p = q := by
  obtain ⟨c, hc⟩ := p
  obtain ⟨d, hd⟩ := q
  obtain rfl : c = d := h
  rfl

instance : LinearOrder FilePath := LinearOrder.lift' components fun _ _ => ext

def root : FilePath := ⟨[], rfl⟩

def fromComponents (components : List String) : Except FileError FilePath :=
  if h : components.all isComponent = true then .ok ⟨components, h⟩ else .error .invalidPath

def parse (path : String) : Except FileError FilePath :=
  if path.isEmpty then .ok root
  else if path.toList.head? = some '/' ∨ path.toList.getLast? = some '/' then .error .invalidPath
  else fromComponents ((path.toList.splitOn '/').map String.ofList)

/-- The first components of a path. -/
def first (p : FilePath) (n : Nat) : FilePath :=
  ⟨p.components.take n, List.all_eq_true.mpr fun c hc => List.all_eq_true.mp p.valid c (List.mem_of_mem_take hc)⟩

def parent (p : FilePath) : Option FilePath :=
  if p.components.isEmpty then none else some (p.first (p.components.length - 1))

def name (p : FilePath) : Option String := p.components.getLast?

def isRoot (p : FilePath) : Bool := p.components.isEmpty

def display (p : FilePath) : String := if p.isRoot then "/" else "/".intercalate p.components

/-- Its parent, and the parents of that in turn. -/
def above (p : FilePath) : List FilePath := (List.range p.components.length).reverse.map p.first

theorem mem_above {p f : FilePath} :
    f ∈ p.above ↔ f.components <+: p.components ∧ f.components.length < p.components.length := by
  unfold above
  rw [List.mem_map]
  constructor
  · rintro ⟨n, hn, rfl⟩
    have hn' := List.mem_range.mp (List.mem_reverse.mp hn)
    refine ⟨List.take_prefix .., ?_⟩
    show (p.components.take n).length < _
    rw [List.length_take]
    omega
  · rintro ⟨hpre, hlt⟩
    refine ⟨f.components.length, List.mem_reverse.mpr (List.mem_range.mpr hlt), ext ?_⟩
    exact (List.prefix_iff_eq_take.mp hpre).symm

theorem isRoot_iff {p : FilePath} : p.isRoot = true ↔ p = root :=
  List.isEmpty_iff.trans ⟨fun h => ext h, fun h => congrArg components h⟩

theorem parent_eq_some {p f : FilePath} :
    p.parent = some f ↔ ∃ n, p.components = f.components ++ [n] := by
  unfold parent
  constructor
  · intro h
    split at h
    · cases h
    · rename_i hne
      obtain rfl := Option.some.inj h
      have hne' : p.components ≠ [] := fun hnil => hne (List.isEmpty_iff.mpr hnil)
      refine ⟨p.components.getLast hne', ?_⟩
      show _ = p.components.take _ ++ _
      rw [← List.dropLast_eq_take]
      exact (List.dropLast_append_getLast hne').symm
  · rintro ⟨n, hn⟩
    have hne : ¬p.components.isEmpty = true := by
      rw [hn, List.isEmpty_iff]
      exact List.append_ne_nil_of_right_ne_nil _ (List.cons_ne_nil _ _)
    rw [if_neg hne]
    refine congrArg some (ext ?_)
    show p.components.take _ = _
    rw [hn, List.length_append, List.length_singleton, Nat.add_sub_cancel, List.take_left]

/-- A path is told by its parent and its name. -/
theorem eq_of_parent_name {p q f : FilePath} {n : String} (hp : p.parent = some f) (hq : q.parent = some f)
    (hn : p.name = some n) (hn' : q.name = some n) : p = q := by
  obtain ⟨a, ha⟩ := parent_eq_some.mp hp
  obtain ⟨b, hb⟩ := parent_eq_some.mp hq
  unfold name at hn hn'
  rw [ha, List.getLast?_concat] at hn
  rw [hb, List.getLast?_concat] at hn'
  refine ext ?_
  rw [ha, hb, Option.some.inj (hn.trans hn'.symm)]

theorem name_of_parent {p f : FilePath} (h : p.parent = some f) : ∃ n, p.name = some n := by
  obtain ⟨n, hn⟩ := parent_eq_some.mp h
  exact ⟨n, by rw [name, hn, List.getLast?_concat]⟩

theorem parent_of_not_root {p : FilePath} (h : ¬p.isRoot = true) : ∃ f, p.parent = some f :=
  ⟨_, if_neg h⟩

theorem not_root_of_parent {p f : FilePath} (h : p.parent = some f) : ¬p.isRoot = true := by
  intro hroot
  have hnone : p.parent = none := if_pos hroot
  rw [hnone] at h
  cases h

end FilePath

end HxdNg.Files
