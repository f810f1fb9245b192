import HxdNg.Lib.Walks
import HxdNg.Identity.Friendship

/-!
# The end of a chain of rotations

* `RotatesTo` : every rotation away from a key, and there is one, names one successor;
* `chainEnd_iff` : a chain's end is the key with no rotation away from it that such steps lead to.
-/

namespace HxdNg.Identity

variable (P : Primitives)

/-- A rotation is away from `key`. -/
abbrev Rotation.Away (r : Rotation) (key : Fingerprint) : Prop := Fingerprint.of P r.identity = key

/-- `key` is rotated away from, and every rotation away from it is to the key of `key'`. -/
def RotatesTo (rotations : List Rotation) (key key' : Fingerprint) : Prop :=
  (∃ r ∈ rotations, r.Away P key) ∧
    ∃ successor, (∀ r ∈ rotations, r.Away P key → r.successor = successor) ∧
      key' = Fingerprint.of P successor

/-- One round of the loop: no answer at a fork, no key at the end. -/
def chainNext (rotations : List Rotation) (key : Fingerprint) : Option (Option Fingerprint) :=
  match (rotations.filter fun r => Fingerprint.of P r.identity = key).map Rotation.successor with
  | [] => some none
  | successor :: rest =>
    if rest.all fun s => s = successor then some (some (Fingerprint.of P successor)) else none

variable {P} {rotations : List Rotation} {key key' : Fingerprint}

theorem chainEndFrom_eq (n : Nat) (key : Fingerprint) :
    chainEndFrom P rotations n key = walk (chainNext P rotations) n key := by
  induction n generalizing key with
  | zero => rfl
  | succ n ih =>
    unfold chainEndFrom walk chainNext
    cases (rotations.filter fun r => Fingerprint.of P r.identity = key).map Rotation.successor with
    | nil => rfl
    | cons successor rest =>
      dsimp only
      by_cases h : rest.all fun s => s = successor
      · rw [if_pos h, if_pos h]
        exact ih _
      · rw [if_neg h, if_neg h]

theorem mem_successors {s : PublicKey} :
    s ∈ (rotations.filter fun r => Fingerprint.of P r.identity = key).map Rotation.successor ↔
      ∃ r ∈ rotations, r.Away P key ∧ r.successor = s := by
  constructor
  · intro h
    obtain ⟨r, hr, rfl⟩ := List.mem_map.1 h
    obtain ⟨hmem, haway⟩ := List.mem_filter.1 hr
    exact ⟨r, hmem, of_decide_eq_true haway, rfl⟩
  · rintro ⟨r, hmem, haway, rfl⟩
    exact List.mem_map.2 ⟨r, List.mem_filter.2 ⟨hmem, decide_eq_true haway⟩, rfl⟩

theorem chainNext_end : chainNext P rotations key = some none ↔ ∀ r ∈ rotations, ¬ r.Away P key := by
  unfold chainNext
  cases hs : (rotations.filter fun r => Fingerprint.of P r.identity = key).map Rotation.successor with
  | nil =>
    refine ⟨fun _ r hmem haway => ?_, fun _ => rfl⟩
    have hin := mem_successors.2 ⟨r, hmem, haway, rfl⟩
    rw [hs] at hin
    cases hin
  | cons successor rest =>
    obtain ⟨r, hmem, haway, -⟩ := mem_successors.1 (hs ▸ List.mem_cons_self (a := successor) (l := rest))
    constructor
    · intro h
      dsimp only at h
      split at h <;> cases h
    · intro h
      exact absurd haway (h r hmem)

theorem chainNext_step : chainNext P rotations key = some (some key') ↔ RotatesTo P rotations key key' := by
  unfold chainNext
  cases hs : (rotations.filter fun r => Fingerprint.of P r.identity = key).map Rotation.successor with
  | nil =>
    refine ⟨fun h => (by cases h), ?_⟩
    rintro ⟨⟨r, hmem, haway⟩, -⟩
    have hin := mem_successors.2 ⟨r, hmem, haway, rfl⟩
    rw [hs] at hin
    cases hin
  | cons successor rest =>
    obtain ⟨r, hmem, haway, hsucc⟩ := mem_successors.1 (hs ▸ List.mem_cons_self (a := successor) (l := rest))
    dsimp only
    constructor
    · intro h
      split at h
      next hall =>
        refine ⟨⟨r, hmem, haway⟩, successor, fun q hq haway => ?_, (Option.some.inj (Option.some.inj h)).symm⟩
        have hin := mem_successors.2 ⟨q, hq, haway, rfl⟩
        rw [hs] at hin
        rcases List.mem_cons.1 hin with hin | hin
        · exact hin
        · exact of_decide_eq_true (List.all_eq_true.1 hall _ hin)
      next => cases h
    · rintro ⟨-, s, hall, rfl⟩
      have hfirst : successor = s := hsucc.symm.trans (hall r hmem haway)
      subst hfirst
      rw [if_pos]
      refine List.all_eq_true.2 fun x hx => decide_eq_true ?_
      obtain ⟨q, hq, haway, rfl⟩ := mem_successors.1 (hs ▸ List.mem_cons_of_mem successor hx)
      exact hall q hq haway

theorem mem_of_chainNext (a b : Fingerprint) (h : chainNext P rotations a = some (some b)) :
    a ∈ rotations.map fun r => Fingerprint.of P r.identity := by
  obtain ⟨⟨r, hmem, haway⟩, -⟩ := chainNext_step.1 h
  exact List.mem_map.2 ⟨r, hmem, haway⟩

theorem chainEndFrom_iff {n : Nat} (hn : rotations.length < n) {start k : Fingerprint} :
    chainEndFrom P rotations n start = some k ↔
      Relation.ReflTransGen (RotatesTo P rotations) start k ∧ ∀ r ∈ rotations, ¬ r.Away P k := by
  have hstep : (fun a b => chainNext P rotations a = some (some b)) = RotatesTo P rotations := by
    funext a b
    exact propext chainNext_step
  rw [chainEndFrom_eq, walk_iff mem_of_chainNext (by rwa [List.length_map]), hstep, chainNext_end]

/-- A chain's end is the key with no rotation away from it at the end of the path of rotations that
agree; no end means no such path; and more rounds change nothing. -/
theorem chainEnd_iff (P : Primitives) (start : Fingerprint) (rotations : List Rotation) :
    (∀ k, chainEnd P start rotations = some k ↔
      Relation.ReflTransGen (RotatesTo P rotations) start k ∧
        ∀ r ∈ rotations, Fingerprint.of P r.identity ≠ k) ∧
    ∀ more, chainEndFrom P rotations (rotations.length + 1 + more) start = chainEnd P start rotations := by
  refine ⟨fun k => chainEndFrom_iff (Nat.lt_succ_self _), fun more => ?_⟩
  ext k
  unfold chainEnd
  rw [chainEndFrom_iff (by omega), chainEndFrom_iff (Nat.lt_succ_self _)]

end HxdNg.Identity
