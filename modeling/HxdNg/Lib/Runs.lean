import Mathlib

/-!
# Runs of a deterministic component

A component in state `σ` answers each input with an output. `runs step s is` are its answers over a
whole run.

* `runs_invariant` : what every step keeps holds in the state a run ends in;
* `runs_once` : if an answer that emits `k` leaves the component blocked for `k`, every step keeps it
  blocked, and a blocked component does not emit `k`, then no run emits `k` twice.
-/

namespace HxdNg

variable {σ ι ο κ : Type*}

/-- The answers to a list of inputs, and the state they leave. -/
def runs (step : σ → ι → ο × σ) : σ → List ι → List ο × σ
  | s, [] => ([], s)
  | s, i :: is =>
    let (o, s') := step s i
    let (os, s'') := runs step s' is
    (o :: os, s'')

variable {step : σ → ι → ο × σ}

@[simp] theorem runs_nil (s : σ) : runs step s [] = ([], s) := rfl

theorem runs_cons (s : σ) (i : ι) (is : List ι) :
    runs step s (i :: is) =
      ((step s i).1 :: (runs step (step s i).2 is).1, (runs step (step s i).2 is).2) := rfl

theorem runs_append (s : σ) (is js : List ι) :
    (runs step s (is ++ js)).2 = (runs step (runs step s is).2 js).2 := by
  induction is generalizing s with
  | nil => rfl
  | cons i is ih => exact ih _

theorem runs_invariant (Inv : σ → Prop) (hstep : ∀ s i, Inv s → Inv (step s i).2) {s : σ}
    (hs : Inv s) (is : List ι) : Inv (runs step s is).2 := by
  induction is generalizing s with
  | nil => exact hs
  | cons i is ih => exact ih (hstep s i hs)

section Once
variable {emits : ο → Option κ} (Blocked : κ → σ → Prop)
variable (hkeep : ∀ s i k, Blocked k s → emits (step s i).1 ≠ some k ∧ Blocked k (step s i).2)
include hkeep

/-- A component blocked for `k` never emits it. -/
theorem runs_blocked {s : σ} {k : κ} (hs : Blocked k s) (is : List ι) :
    ∀ o ∈ (runs step s is).1, emits o ≠ some k := by
  induction is generalizing s with
  | nil => intro o ho; cases ho
  | cons i is ih =>
    intro o ho
    rw [runs_cons, List.mem_cons] at ho
    rcases ho with rfl | ho
    · exact (hkeep s i k hs).1
    · exact ih (hkeep s i k hs).2 o ho

theorem runs_once (hemit : ∀ s i k, emits (step s i).1 = some k → Blocked k (step s i).2)
    (s : σ) (is : List ι) :
    (runs step s is).1.Pairwise fun a b => ∀ k, emits a = some k → emits b ≠ some k := by
  induction is generalizing s with
  | nil => exact List.Pairwise.nil
  | cons i is ih =>
    rw [runs_cons, List.pairwise_cons]
    refine ⟨fun o ho k hk => ?_, ih _⟩
    exact runs_blocked Blocked hkeep (hemit s i k hk) is o ho

end Once

end HxdNg
