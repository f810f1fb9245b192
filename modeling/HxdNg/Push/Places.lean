import HxdNg.Push.Gateway

/-!
# The places in flight

* `Held` : every place given out is some task's, and no origin has more than its cap; `Held.step` : no
  step takes a place that is not there, or gives back one that was not taken;
* `places_held` : so it is after every run.
-/

namespace HxdNg.Push
open Assoc World

variable {Origin Endpoint : Type}

namespace Task

def permits (t : Task Origin Endpoint) : Nat := if t.stage.holdsPermit = true then 1 else 0

def slotAt [DecidableEq Origin] (o : Origin) (t : Task Origin Endpoint) : Nat :=
  if t.origin = o ∧ t.stage.holdsSlot = true then 1 else 0

end Task

/-- Every place given out is some task's, and no origin has more than its cap. -/
structure Held [DecidableEq Origin] (cfg : Config) (w : World Origin Endpoint) : Prop where
  permits : w.gateway.inflight + w.tasks.total Task.permits = max cfg.maxInflight 1
  slots : ∀ o, (w.gateway.perOrigin.get o).getD 0 = w.tasks.total (Task.slotAt o)
  entries : ∀ o n, w.gateway.perOrigin.get o = some n → 0 < n ∧ n ≤ max cfg.maxInflightPerOrigin 1

section Places
variable {cfg : Config} {w w' : World Origin Endpoint} {id : Nat} {t : Task Origin Endpoint}

theorem isPaused_places [DecidableEq Endpoint] (g : Gateway Origin Endpoint) (e : Endpoint) (now : Nat) :
    (g.isPaused e now).2.inflight = g.inflight ∧ (g.isPaused e now).2.perOrigin = g.perOrigin := by
  unfold Gateway.isPaused
  split
  · split <;> exact ⟨rfl, rfl⟩
  · exact ⟨rfl, rfl⟩

variable [DecidableEq Origin]

theorem breakerAllows_places (g : Gateway Origin Endpoint) (o : Origin) (now : Nat) :
    (g.breakerAllows o now).2.inflight = g.inflight ∧ (g.breakerAllows o now).2.perOrigin = g.perOrigin := by
  unfold Gateway.breakerAllows
  split <;> exact ⟨rfl, rfl⟩

theorem applyOutcome_places [DecidableEq Endpoint] (cfg : Config) (g : Gateway Origin Endpoint) (o : Origin)
    (e : Endpoint) (out : Outcome) (now : Nat) : (g.applyOutcome cfg o e out now).inflight = g.inflight ∧
      (g.applyOutcome cfg o e out now).perOrigin = g.perOrigin := by
  cases out <;> constructor <;> rfl

/-- One task's places given up for another's, and the gateway's count of them with it. -/
theorem Held.exchange (hw : Held cfg w) (was now : Option (Task Origin Endpoint)) {g : Gateway Origin Endpoint}
    {tasks : Map Nat (Task Origin Endpoint)}
    {log : List (Event Origin Endpoint)}
    (htasks : ∀ f, tasks.total f + was.elim 0 f = w.tasks.total f + now.elim 0 f)
    (hp : g.inflight + now.elim 0 Task.permits = w.gateway.inflight + was.elim 0 Task.permits)
    (hs : ∀ o, (g.perOrigin.get o).getD 0 + was.elim 0 (Task.slotAt o) =
      (w.gateway.perOrigin.get o).getD 0 + now.elim 0 (Task.slotAt o))
    (he : ∀ o n, g.perOrigin.get o = some n → 0 < n ∧ n ≤ max cfg.maxInflightPerOrigin 1) :
    Held cfg ⟨g, tasks, log⟩ := by
  refine ⟨?_, fun o => ?_, he⟩
  · have := htasks Task.permits
    have := hw.permits
    show g.inflight + tasks.total Task.permits = _
    omega
  · have := htasks (Task.slotAt o)
    have := hw.slots o
    have := hs o
    show (g.perOrigin.get o).getD 0 = tasks.total (Task.slotAt o)
    omega

/-- A task that comes to a stage with as many places as it had. -/
theorem Held.move (hw : Held cfg w) (ht : w.tasks.get id = some t) {stage : Stage}
    {g : Gateway Origin Endpoint} {said : List (Event Origin Endpoint)}
    (hg : g.inflight = w.gateway.inflight ∧ g.perOrigin = w.gateway.perOrigin)
    (hp : stage.holdsPermit = t.stage.holdsPermit) (hs : stage.holdsSlot = t.stage.holdsSlot) :
    Held cfg (w.move id t stage g said) := by
  refine hw.exchange (some t) (some { t with stage })
    (fun f => total_move f ht stage g said) ?_ (fun o => ?_) fun o n h => hw.entries o n (hg.2 ▸ h)
  · simp only [hg.1, Option.elim_some, Task.permits, hp]
  · simp only [hg.2, Option.elim_some, Task.slotAt, hs]

theorem Held.place (hw : Held cfg w) (ht : w.tasks.get id = some t) (hs : t.stage = .permitted) :
    Held cfg (w.move id t (if (w.gateway.originSlot cfg t.origin).1 then .placed else .refused)
      (w.gateway.originSlot cfg t.origin).2 []) := by
  have hone : t.permits = 1 := by simp [Task.permits, hs, Stage.holdsPermit]
  by_cases hfull : max cfg.maxInflightPerOrigin 1 ≤ (w.gateway.perOrigin.get t.origin).getD 0
  · have hslot : w.gateway.originSlot cfg t.origin = (false, { w.gateway with
        perOrigin := w.gateway.perOrigin.set t.origin ((w.gateway.perOrigin.get t.origin).getD 0) }) :=
      if_pos hfull
    rw [hslot]
    have hsome : w.gateway.perOrigin.get t.origin =
        some ((w.gateway.perOrigin.get t.origin).getD 0) := by
      cases hget : w.gateway.perOrigin.get t.origin with
      | none =>
        rw [hget, Option.getD_none] at hfull
        omega
      | some n => rfl
    have hsame : ∀ o, (w.gateway.perOrigin.set t.origin ((w.gateway.perOrigin.get t.origin).getD 0)).get o =
        w.gateway.perOrigin.get o := by
      intro o
      rw [Map.get_set]
      split
      next ho => rw [ho, ← hsome]
      · rfl
    refine hw.exchange (some t) (some { t with stage := .refused })
      (fun f => total_move f ht .refused w.gateway []) ?_ (fun o => ?_)
      fun o n h => hw.entries o n ((hsame o).symm.trans h)
    · exact congrArg (w.gateway.inflight + ·) hone.symm
    · rw [hsame]
      simp [Task.slotAt, hs, Stage.holdsSlot]
  · have hslot : w.gateway.originSlot cfg t.origin = (true, { w.gateway with
        perOrigin := w.gateway.perOrigin.set t.origin ((w.gateway.perOrigin.get t.origin).getD 0 + 1) }) :=
      if_neg hfull
    rw [hslot]
    refine hw.exchange (some t) (some { t with stage := .placed })
      (fun f => total_move f ht .placed w.gateway []) ?_ (fun o => ?_) fun o n h => ?_
    · exact congrArg (w.gateway.inflight + ·) hone.symm
    · rw [Map.get_set]
      by_cases ho : o = t.origin
      · simp [ho, hs, Task.slotAt, Stage.holdsSlot]
      · simp [ho, Ne.symm ho, Task.slotAt]
    · rcases Map.get_set_cases h with ⟨rfl, rfl⟩ | ⟨-, hget⟩
      · omega
      · exact hw.entries o n hget

/-- A place taken is there to be given back. -/
theorem Held.dropSlot (hw : Held cfg w) (ht : w.tasks.get id = some t) (hs : t.stage = .unpermitted) :
    ∃ g, w.gateway.dropSlot t.origin = some g ∧
      Held cfg { w with gateway := g, tasks := w.tasks.drop id } := by
  have hgone : ∀ f, (w.tasks.drop id).total f + (some t).elim 0 f = w.tasks.total f := fun f => total_gone f ht
  have hone : t.slotAt t.origin = 1 := by simp [Task.slotAt, hs, Stage.holdsSlot]
  have hother : ∀ o, o ≠ t.origin → t.slotAt o = 0 := fun o ho => by simp [Task.slotAt, Ne.symm ho]
  have hzero : t.permits = 0 := by simp [Task.permits, hs, Stage.holdsPermit]
  unfold Gateway.dropSlot
  cases hget : w.gateway.perOrigin.get t.origin with
  | none =>
    have hn := hw.slots t.origin
    have hle : 1 ≤ w.tasks.total (Task.slotAt t.origin) := by
      rw [← total_gone _ ht, hone]
      exact Nat.le_add_left _ _
    rw [hget, Option.getD_none] at hn
    omega
  | some n =>
    obtain ⟨hpos, hcap⟩ := hw.entries t.origin n hget
    simp only [if_neg (Nat.pos_iff_ne_zero.1 hpos)]
    split
    next hlast =>
      refine ⟨_, rfl, hw.exchange (some t) none hgone ?_ (fun o => ?_)
        fun o m h => hw.entries o m (Map.get_drop_some h).2⟩
      · exact congrArg (w.gateway.inflight + ·) hzero.symm
      · rw [Map.get_drop]
        by_cases ho : o = t.origin
        · simp only [ho, if_pos, Option.elim_some, Option.elim_none, Option.getD_none, Option.getD_some, hget, hone]
          omega
        · simp [ho, hother o ho]
    next hmore =>
      refine ⟨_, rfl, hw.exchange (some t) none hgone ?_ (fun o => ?_) fun o m h => ?_⟩
      · exact congrArg (w.gateway.inflight + ·) hzero.symm
      · rw [Map.get_set]
        by_cases ho : o = t.origin
        · simp only [ho, if_pos, Option.elim_some, Option.elim_none, Option.getD_some, hget, hone]
          omega
        · simp [ho, hother o ho]
      · rcases Map.get_set_cases h with ⟨-, rfl⟩ | ⟨-, hget'⟩
        · omega
        · exact hw.entries o m hget'

theorem Held.dropPermit [DecidableEq Endpoint] (hw : Held cfg w) :
    ∃ w', w.step cfg (.dropPermit id) = some w' ∧ Held cfg w' := by
  simp only [World.step]
  cases ht : w.tasks.get id with
  | none => exact ⟨w, rfl, hw⟩
  | some t =>
    simp only
    split
    next hs =>
      refine ⟨_, rfl, hw.exchange (some t) none (fun f => total_gone f ht) ?_ (fun o => ?_)
        hw.entries⟩
      · simp [Task.permits, hs, Stage.holdsPermit]
      · simp [Task.slotAt, hs, Stage.holdsSlot]
    next =>
      split
      next hs =>
        refine ⟨_, rfl, hw.exchange (some t) (some { t with stage := .unpermitted })
          (fun f => total_move f ht .unpermitted w.gateway []) ?_ (fun o => ?_) hw.entries⟩
        · simp [Task.permits, hs, Stage.holdsPermit]
        · simp [Task.slotAt, hs, Stage.holdsSlot]
      · exact ⟨w, rfl, hw⟩

theorem Held.acquire (hw : Held cfg w) (hfree : w.tasks.get id = none) (hleft : w.gateway.inflight ≠ 0)
    (o : Origin) (e : Endpoint) : Held cfg (w.move id ⟨o, e, .permitted⟩ .permitted
      { w.gateway with inflight := w.gateway.inflight - 1 } []) := by
  refine hw.exchange none (some ⟨o, e, .permitted⟩)
    (fun f => total_new f hfree .permitted w.gateway []) ?_ (fun o' => ?_) hw.entries
  · show w.gateway.inflight - 1 + 1 = w.gateway.inflight + 0
    omega
  · simp [Task.slotAt, Stage.holdsSlot]

theorem Held.onTask {stage : Stage} {k : Task Origin Endpoint → Option (World Origin Endpoint)}
    (hw : Held cfg w)
    (hk : ∀ t, w.tasks.get id = some t → t.stage = stage → ∃ w', k t = some w' ∧ Held cfg w') :
    ∃ w', w.onTask id stage k = some w' ∧ Held cfg w' := by
  unfold World.onTask
  split
  next t ht =>
    split
    next hs => exact hk t ht hs
    · exact ⟨w, rfl, hw⟩
  · exact ⟨w, rfl, hw⟩

theorem Held.step [DecidableEq Endpoint] (hw : Held cfg w) (op : Op Origin Endpoint) :
    ∃ w', w.step cfg op = some w' ∧ Held cfg w' := by
  cases op with
  | acquire id o e =>
    simp only [World.step]
    split
    · exact ⟨w, rfl, hw⟩
    next h =>
      simp only [not_or, Bool.not_eq_true, Option.isSome_eq_false_iff, Option.isNone_iff_eq_none] at h
      exact ⟨_, rfl, hw.acquire h.2 h.1 o e⟩
  | place id => exact hw.onTask fun t ht hs => ⟨_, rfl, hw.place ht hs⟩
  | look id now =>
    refine hw.onTask fun t ht hs => ⟨w.move id t (if (w.gateway.isPaused t.endpoint now).1 then .ended else
      .unpaused) _ _, rfl, hw.move ht (isPaused_places _ _ _) ?_ ?_⟩ <;> rw [hs] <;> split <;> rfl
  | encrypt id ok =>
    refine hw.onTask fun t ht hs => ⟨w.move id t (if ok then .encrypted else .ended) _ _, rfl,
      hw.move ht ⟨rfl, rfl⟩ ?_ ?_⟩ <;> rw [hs] <;> split <;> rfl
  | ask id now =>
    refine hw.onTask fun t ht hs => ⟨w.move id t (if (w.gateway.breakerAllows t.origin now).1 then .posted else
      .ended) _ _, rfl, hw.move ht (breakerAllows_places _ _ _) ?_ ?_⟩ <;> rw [hs] <;> split <;> rfl
  | answer id now outcome =>
    refine hw.onTask fun t ht hs => ⟨_, rfl, hw.move ht (applyOutcome_places _ _ _ _ _ _) ?_ ?_⟩ <;>
      rw [hs] <;> rfl
  | dropPermit id => exact hw.dropPermit
  | dropSlot id =>
    refine hw.onTask fun t ht hs => ?_
    obtain ⟨g, hg, hheld⟩ := hw.dropSlot ht hs
    exact ⟨_, by rw [hg]; rfl, hheld⟩

end Places

theorem held_start [DecidableEq Origin] [DecidableEq Endpoint] (cfg : Config) :
    Held cfg (World.start cfg : World Origin Endpoint) :=
  ⟨rfl, fun _ => rfl, fun _ _ h => by cases h⟩

/-- In whatever order the sends take their steps, no place is given back that was not taken; and every
permit and every place at an origin is held by a send under way, so that neither cap is passed, and
nothing is left of an origin no send is under way to. -/
theorem places_held [DecidableEq Origin] [DecidableEq Endpoint] (cfg : Config) (ops : List (Op Origin Endpoint)) :
    ∃ w, run cfg ops (World.start cfg) = some w ∧ Held cfg w := by
  have hrun : ∀ (ops : List (Op Origin Endpoint)) (w : World Origin Endpoint), Held cfg w →
      ∃ w', run cfg ops w = some w' ∧ Held cfg w' := by
    intro ops
    induction ops with
    | nil => exact fun w hw => ⟨w, rfl, hw⟩
    | cons op ops ih =>
      intro w hw
      obtain ⟨w₁, h₁, hw₁⟩ := hw.step op
      obtain ⟨w', h', hw'⟩ := ih w₁ hw₁
      exact ⟨w', by rw [run, h₁]; exact h', hw'⟩
  exact hrun ops _ (held_start cfg)

end HxdNg.Push
