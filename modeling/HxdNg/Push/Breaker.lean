import Mathlib

/-!
# The breaker of one origin

* `Breaker.allows`, `Breaker.failed` : whether a send may go, and what an origin's own trouble does;
* `Turn` : what passed between the server and one origin, the newest turn first; `troubles`,
  `lastAnswer`, `letThrough` read it;
* `mayGo` : the rule, on what passed alone; `Reflects` : the breaker holds what passed;
  `Reflects.allows_iff`, `Reflects.asked`, `Reflects.failed`, `reflects_forgotten` : it goes by the rule.
-/

namespace HxdNg.Push

/-- In nanoseconds, as every time here. -/
def maxRetryAfter : Nat := 60 * 60 * 10 ^ 9

/-- `now + d`, on a clock whose last instant is `latest`. -/
def after (latest now d : Nat) : Nat :=
  if now + d ≤ latest then now + d else if now + maxRetryAfter ≤ latest then now + maxRetryAfter else now

structure Breaker where
  consecutive : UInt32
  openUntil : Option Nat
  probing : Bool
  deriving DecidableEq

namespace Breaker

def default : Breaker := ⟨0, none, false⟩

def allows (b : Breaker) (now : Nat) : Bool × Breaker :=
  match b.openUntil with
  | some u => if now < u then (false, b) else if b.probing then (false, b) else (true, { b with probing := true })
  | none => (true, b)

def saturatingSucc (n : UInt32) : UInt32 := if n.toNat + 1 < 2 ^ 32 then n + 1 else n

theorem toNat_saturatingSucc (n : UInt32) :
    (saturatingSucc n).toNat = min (n.toNat + 1) (2 ^ 32 - 1) := by
  have hn := n.toNat_lt
  unfold saturatingSucc
  split
  next h =>
    rw [UInt32.toNat_add]
    show (n.toNat + 1) % 2 ^ 32 = _
    omega
  next => omega

def failed (latest now : Nat) (failures : UInt32) (cooldown : Nat) (b : Breaker) : Bool × Breaker :=
  let consecutive := saturatingSucc b.consecutive
  if b.probing = true ∨ failures ≤ consecutive then
    (true, ⟨consecutive, some (after latest now cooldown), false⟩)
  else (false, { b with consecutive })

end Breaker

/-! ## What passed -/

inductive Turn where
  | asked (now : Nat) (allowed : Bool)
  | answered (now : Nat) (failed : Bool)
  deriving DecidableEq

/-- How many of the origin's own troubles its last answers were, in a row. -/
def troubles : List Turn → Nat
  | [] => 0
  | .asked _ _ :: h => troubles h
  | .answered _ failed :: h => if failed then troubles h + 1 else 0

def lastAnswer : List Turn → Option Nat
  | [] => none
  | .asked _ _ :: h => lastAnswer h
  | .answered now _ :: _ => some now

/-- The sends let through since the last answer. -/
def letThrough : List Turn → Nat
  | [] => 0
  | .asked _ allowed :: h => letThrough h + allowed.toNat
  | .answered _ _ :: _ => 0

theorem lastAnswer_of_troubles {h : List Turn} (hpos : 0 < troubles h) : ∃ t, lastAnswer h = some t := by
  induction h with
  | nil => exact absurd hpos (Nat.lt_irrefl 0)
  | cons turn h ih =>
    cases turn with
    | asked now allowed => exact ih hpos
    | answered now failed => exact ⟨now, rfl⟩

section Rule
variable (latest : Nat) (failures : UInt32) (cooldown : Nat)

/-- How many troubles in a row shut an origin. -/
def tolerance : Nat := max failures.toNat 1

/-- May a send go? Always, to an origin whose troubles are fewer than are tolerated; and otherwise a
cooldown after its last answer, if none was let through since. -/
def mayGo (h : List Turn) (now : Nat) : Prop :=
  troubles h < tolerance failures ∨
    (∀ t, lastAnswer h = some t → after latest t cooldown ≤ now) ∧ letThrough h = 0

/-- The breaker holds what passed. -/
structure Reflects (b : Breaker) (h : List Turn) : Prop where
  counted : b.consecutive.toNat = min (troubles h) (2 ^ 32 - 1)
  shut : b.openUntil =
    if tolerance failures ≤ troubles h then (lastAnswer h).map (after latest · cooldown) else none
  probe : b.probing = true ↔ tolerance failures ≤ troubles h ∧ 0 < letThrough h
  once : tolerance failures ≤ troubles h → letThrough h ≤ 1

variable {latest failures cooldown} {b : Breaker} {h : List Turn}

/-- What a good answer leaves is what there was at first. -/
theorem reflects_forgotten (hh : troubles h = 0) :
    Reflects latest failures cooldown Breaker.default h := by
  have hopen : ¬ tolerance failures ≤ troubles h := by
    unfold tolerance
    omega
  refine ⟨?_, ?_, ?_, fun hle => absurd hle hopen⟩
  · rw [hh]
    decide
  · rw [if_neg hopen]
    rfl
  · simp [Breaker.default, hopen]

namespace Reflects
variable (hb : Reflects latest failures cooldown b h)
include hb

theorem openUntil_of_open (ho : troubles h < tolerance failures) : b.openUntil = none := by
  rw [hb.shut, if_neg (Nat.not_le.2 ho)]

theorem openUntil_of_shut (hs : tolerance failures ≤ troubles h) :
    ∃ t, lastAnswer h = some t ∧ b.openUntil = some (after latest t cooldown) := by
  obtain ⟨t, ht⟩ := lastAnswer_of_troubles (h := h) (Nat.lt_of_lt_of_le (by unfold tolerance; omega) hs)
  exact ⟨t, ht, by rw [hb.shut, if_pos hs, ht, Option.map_some]⟩

theorem allows_iff (now : Nat) : (b.allows now).1 = true ↔ mayGo latest failures cooldown h now := by
  unfold Breaker.allows mayGo
  by_cases hs : tolerance failures ≤ troubles h
  · obtain ⟨t, ht, hu⟩ := hb.openUntil_of_shut hs
    have hprobe : b.probing = true ↔ 0 < letThrough h := hb.probe.trans (and_iff_right hs)
    have hlt : ¬ troubles h < tolerance failures := Nat.not_lt.2 hs
    simp only [hu, ht, hlt, Option.some.injEq, forall_eq', false_or]
    by_cases hnow : now < after latest t cooldown
    · simp [hnow, Nat.not_le.2 hnow]
    · by_cases hp : b.probing = true
      · have := hprobe.1 hp
        simp [hnow, hp]
        omega
      · have : ¬ 0 < letThrough h := fun hpos => hp (hprobe.2 hpos)
        simp [hnow, hp]
        omega
  · rw [hb.openUntil_of_open (Nat.not_le.1 hs)]
    simp [Nat.not_le.1 hs]

theorem asked (now : Nat) : Reflects latest failures cooldown (b.allows now).2
    (.asked now (b.allows now).1 :: h) := by
  unfold Breaker.allows
  by_cases hs : tolerance failures ≤ troubles h
  · obtain ⟨t, ht, hu⟩ := hb.openUntil_of_shut hs
    have hprobe : b.probing = true ↔ 0 < letThrough h := hb.probe.trans (and_iff_right hs)
    simp only [hu]
    split
    · exact ⟨hb.counted, hb.shut, hb.probe, hb.once⟩
    · split
      · exact ⟨hb.counted, hb.shut, hb.probe, hb.once⟩
      next hp =>
        have hnone : letThrough h = 0 := by
          by_contra hne
          exact hp (hprobe.2 (Nat.pos_of_ne_zero hne))
        refine ⟨hb.counted, hu ▸ hb.shut, ?_, fun _ => ?_⟩
        · simp [troubles, letThrough, hs]
        · simp [letThrough, hnone]
  · have hopen : ¬ tolerance failures ≤ troubles (.asked now true :: h) := hs
    rw [hb.openUntil_of_open (Nat.not_le.1 hs)]
    refine ⟨hb.counted, hb.shut, ?_, fun hle => absurd hle hopen⟩
    have hp : ¬ b.probing = true := fun hp => hs (hb.probe.1 hp).1
    simp [hp, hopen]

theorem failed (now : Nat) : Reflects latest failures cooldown
    (b.failed latest now failures cooldown).2 (.answered now true :: h) := by
  have htroubles : troubles (.answered now true :: h) = troubles h + 1 := if_pos rfl
  have hcount : (Breaker.saturatingSucc b.consecutive).toNat =
      min (troubles (.answered now true :: h)) (2 ^ 32 - 1) := by
    rw [Breaker.toNat_saturatingSucc, hb.counted, htroubles]
    omega
  have hopens : (b.probing = true ∨ failures ≤ Breaker.saturatingSucc b.consecutive) ↔
      tolerance failures ≤ troubles (.answered now true :: h) := by
    rw [UInt32.le_iff_toNat_le, hcount, htroubles, hb.probe]
    have := failures.toNat_lt
    unfold tolerance
    omega
  simp only [Breaker.failed]
  split
  next ho =>
    have hle := hopens.1 ho
    refine ⟨hcount, ?_, ?_, fun _ => Nat.zero_le _⟩
    · rw [if_pos hle]
      rfl
    · simp [letThrough]
  next ho =>
    have hgt : ¬ tolerance failures ≤ troubles (.answered now true :: h) := fun hle => ho (hopens.2 hle)
    refine ⟨hcount, ?_, ?_, fun hle => absurd hle hgt⟩
    · rw [if_neg hgt]
      exact hb.openUntil_of_open (by omega)
    · have hp : ¬ b.probing = true := fun hp => ho (.inl hp)
      simp [hp, hgt]

end Reflects
end Rule

end HxdNg.Push
