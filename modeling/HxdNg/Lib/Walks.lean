import Mathlib

/-!
# Walks of a step function

At each point a walk ends, gets stuck or goes on to one point.

* `walk` : the point a walk ends at, within a number of steps;
* `WalksTo` : a whole walk, with the points it went on from, which are distinct (`WalksTo.nodup`);
* `walk_iff` : where every point a walk goes on from is in a list, as many steps as the list is long
  reach the end of any walk that has one.
-/

namespace HxdNg

variable {α : Type} (next : α → Option (Option α))

/-- Stuck where there is no answer; at the end where the answer is no point. -/
def walk : Nat → α → Option α
  | 0, _ => none
  | n + 1, a =>
    match next a with
    | none => none
    | some none => some a
    | some (some b) => walk n b

/-- A walk to its end, and the points it went on from. -/
inductive WalksTo : α → List α → α → Prop
  | ends {k : α} : next k = some none → WalksTo k [] k
  | goes {a b k : α} {t : List α} : next a = some (some b) → WalksTo b t k → WalksTo a (a :: t) k

variable {next}

namespace WalksTo

theorem end_next {a k : α} {t : List α} (h : WalksTo next a t k) : next k = some none := by
  induction h with
  | ends hk => exact hk
  | goes _ _ ih => exact ih

/-- There is one walk from a point. -/
theorem unique {a k k' : α} {t t' : List α} (h : WalksTo next a t k) (h' : WalksTo next a t' k') :
    t = t' ∧ k = k' := by
  induction h generalizing t' with
  | ends hk =>
    cases h' with
    | ends => exact ⟨rfl, rfl⟩
    | goes hgo _ =>
      rw [hk] at hgo
      cases hgo
  | goes hgo _ ih =>
    cases h' with
    | ends hk =>
      rw [hgo] at hk
      cases hk
    | goes hgo' hrest =>
      obtain rfl := Option.some.inj (Option.some.inj (hgo.symm.trans hgo'))
      obtain ⟨rfl, rfl⟩ := ih hrest
      exact ⟨rfl, rfl⟩

/-- From a point it went on from, the walk is what was left of it. -/
theorem from_mem {a c k : α} {t : List α} (h : WalksTo next a t k) (hc : c ∈ t) :
    ∃ t', WalksTo next c t' k ∧ t'.length ≤ t.length := by
  induction h with
  | ends => cases hc
  | goes hgo hrest ih =>
    rcases List.mem_cons.1 hc with rfl | hc
    · exact ⟨_, goes hgo hrest, Nat.le_refl _⟩
    · obtain ⟨t', ht', hle⟩ := ih hc
      exact ⟨t', ht', Nat.le_succ_of_le hle⟩

theorem nodup {a k : α} {t : List α} (h : WalksTo next a t k) : t.Nodup := by
  induction h with
  | ends => exact List.nodup_nil
  | @goes a b k t hgo hrest ih =>
    refine List.nodup_cons.2 ⟨fun ha => ?_, ih⟩
    -- A walk that came back would be as long as its own rest.
    obtain ⟨t', ht', hle⟩ := hrest.from_mem ha
    obtain ⟨rfl, -⟩ := ht'.unique (goes hgo hrest)
    rw [List.length_cons] at hle
    omega

theorem goes_on {a c k : α} {t : List α} (h : WalksTo next a t k) (hc : c ∈ t) : ∃ b, next c = some (some b) := by
  induction h with
  | ends => cases hc
  | goes hgo _ ih =>
    rcases List.mem_cons.1 hc with rfl | hc
    · exact ⟨_, hgo⟩
    · exact ih hc

/-- A whole walk is a path to a point where it ends. -/
theorem iff_path {a k : α} : (∃ t, WalksTo next a t k) ↔
    Relation.ReflTransGen (fun a b => next a = some (some b)) a k ∧ next k = some none := by
  constructor
  · rintro ⟨t, h⟩
    refine ⟨?_, h.end_next⟩
    induction h with
    | ends => exact Relation.ReflTransGen.refl
    | goes hgo _ ih => exact Relation.ReflTransGen.head hgo ih
  · rintro ⟨hpath, hk⟩
    induction hpath using Relation.ReflTransGen.head_induction_on with
    | refl => exact ⟨[], ends hk⟩
    | head hgo _ ih =>
      obtain ⟨t, ht⟩ := ih
      exact ⟨_, goes hgo ht⟩

end WalksTo

/-- What a number of steps reach. -/
theorem walk_eq_some {n : Nat} {a k : α} : walk next n a = some k ↔ ∃ t, WalksTo next a t k ∧ t.length < n := by
  induction n generalizing a with
  | zero =>
    constructor
    · intro h
      cases h
    · rintro ⟨t, -, hlt⟩
      exact absurd hlt (Nat.not_lt_zero _)
  | succ n ih =>
    unfold walk
    constructor
    · intro h
      split at h
      next => cases h
      next hend =>
        obtain rfl := Option.some.inj h
        exact ⟨[], .ends hend, Nat.succ_pos n⟩
      next b hgo =>
        obtain ⟨t, ht, hlt⟩ := ih.1 h
        exact ⟨_, .goes hgo ht, Nat.succ_lt_succ hlt⟩
    · rintro ⟨t, ht, hlt⟩
      cases ht with
      | ends hend => rw [hend]
      | goes hgo hrest =>
        rw [hgo]
        exact ih.2 ⟨_, hrest, Nat.lt_of_succ_lt_succ hlt⟩

variable {l : List α}

/-- A walk goes on from each point of a list at most once. -/
theorem WalksTo.length_le (hl : ∀ a b, next a = some (some b) → a ∈ l) {a k : α} {t : List α}
    (h : WalksTo next a t k) : t.length ≤ l.length := by
  refine (h.nodup.subperm fun c hc => ?_).length_le
  obtain ⟨b, hb⟩ := h.goes_on hc
  exact hl c b hb

/-- Past the length of the list, a walk's steps reach its end if it has one. -/
theorem walk_iff (hl : ∀ a b, next a = some (some b) → a ∈ l) {n : Nat} (hn : l.length < n) {a k : α} :
    walk next n a = some k ↔
      Relation.ReflTransGen (fun a b => next a = some (some b)) a k ∧ next k = some none := by
  rw [walk_eq_some, ← WalksTo.iff_path]
  constructor
  · rintro ⟨t, ht, -⟩
    exact ⟨t, ht⟩
  · rintro ⟨t, ht⟩
    exact ⟨t, ht, Nat.lt_of_le_of_lt (ht.length_le hl) hn⟩

end HxdNg
