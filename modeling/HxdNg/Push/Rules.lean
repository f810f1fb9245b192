import HxdNg.Push.Gateway

/-!
# Which sends go

* `turns` : what passed with one origin; `Heard` : every breaker holds it, and a send let through since
  the last answer is still to answer; `Heard.step` : so after every step;
* `asked_by_the_rule` : the gate answers by what passed with that origin alone; `reopens` : an origin with
  nothing under way is asked again;
* `pausedUntil` : until when an endpoint's service last told it to wait; `Waited.step` : the pauses kept
  are those; `looked_by_the_rule`.
-/

namespace HxdNg.Push
open Assoc World

variable {Origin Endpoint : Type}

section Heard
variable [DecidableEq Origin]

/-! ## Breakers -/

def Event.turn (o : Origin) : Event Origin Endpoint → Option Turn
  | .looked _ _ _ => none
  | .asked o' now allowed => if o' = o then some (.asked now allowed) else none
  | .answered o' _ now outcome => if o' = o then some (.answered now outcome.trouble) else none

def turns (o : Origin) (log : List (Event Origin Endpoint)) : List Turn := log.filterMap (Event.turn o)

variable (cfg : Config)

def goes (o : Origin) (now : Nat) (log : List (Event Origin Endpoint)) : Prop :=
  mayGo cfg.latest cfg.breakerFailures cfg.breakerCooldown (turns o log) now

/-- Every answer the gate gave was by what had passed. -/
def ByRule : List (Event Origin Endpoint) → Prop
  | [] => True
  | .asked o now allowed :: log => (allowed = true ↔ goes cfg o now log) ∧ ByRule log
  | .looked _ _ _ :: log | .answered _ _ _ _ :: log => ByRule log

structure Heard (w : World Origin Endpoint) : Prop where
  reflects : ∀ o, Reflects cfg.latest cfg.breakerFailures cfg.breakerCooldown
    ((w.gateway.breakers.get o).getD Breaker.default) (turns o w.log)
  outstanding : ∀ o, letThrough (turns o w.log) ≤ w.tasks.total (Task.postedAt o)
  byRule : ByRule cfg w.log

variable {cfg} {w w' : World Origin Endpoint} {id : Nat} {t : Task Origin Endpoint}

theorem byRule_suffix {log h : List (Event Origin Endpoint)} (hr : ByRule cfg log) {o : Origin} {now : Nat}
    {allowed : Bool} (hsuf : .asked o now allowed :: h <:+ log) : allowed = true ↔ goes cfg o now h := by
  induction log with
  | nil => exact absurd (List.suffix_nil.1 hsuf) (List.cons_ne_nil _ _)
  | cons e log ih =>
    rcases List.suffix_cons_iff.1 hsuf with heq | hlog
    · obtain ⟨rfl, rfl⟩ := List.cons.inj heq
      exact hr.1
    · cases e with
      | asked => exact ih hr.2 hlog
      | looked => exact ih hr hlog
      | answered => exact ih hr hlog

/-- The gate, asked for the origin's breaker or for none. -/
theorem breakerAllows_get (g : Gateway Origin Endpoint) (o : Origin) (now : Nat) :
    (g.breakerAllows o now).1 = (((g.breakers.get o).getD Breaker.default).allows now).1 ∧
      ∀ o', ((g.breakerAllows o now).2.breakers.get o').getD Breaker.default =
        if o' = o then (((g.breakers.get o).getD Breaker.default).allows now).2
        else (g.breakers.get o').getD Breaker.default := by
  cases hget : g.breakers.get o with
  | none =>
    have hall : g.breakerAllows o now = (true, g) := by simp only [Gateway.breakerAllows, hget]
    rw [hall]
    refine ⟨rfl, fun o' => ?_⟩
    by_cases ho : o' = o
    · rw [if_pos ho, ho, hget]
      rfl
    · rw [if_neg ho]
  | some b =>
    have hall : g.breakerAllows o now = ((b.allows now).1, { g with
        breakers := g.breakers.set o (b.allows now).2 }) := by simp only [Gateway.breakerAllows, hget]
    rw [hall]
    refine ⟨rfl, fun o' => ?_⟩
    show ((g.breakers.set o (b.allows now).2).get o').getD _ = _
    rw [Map.get_set]
    split <;> rfl

omit [DecidableEq Origin] in
theorem isPaused_breakers [DecidableEq Endpoint] (g : Gateway Origin Endpoint) (e : Endpoint) (now : Nat) :
    (g.isPaused e now).2.breakers = g.breakers := by
  unfold Gateway.isPaused
  split
  · split <;> rfl
  · rfl

theorem Heard.ask (hw : Heard cfg w) (ht : w.tasks.get id = some t) (hs : t.stage = .encrypted) (now : Nat) :
    Heard cfg (w.move id t (if (w.gateway.breakerAllows t.origin now).1 then .posted else .ended)
      (w.gateway.breakerAllows t.origin now).2
      [.asked t.origin now (w.gateway.breakerAllows t.origin now).1]) := by
  obtain ⟨hans, hkept⟩ := breakerAllows_get w.gateway t.origin now
  have hb := hw.reflects t.origin
  refine ⟨fun o => ?_, fun o => ?_, ?_, hw.byRule⟩
  · show Reflects _ _ _ (((w.gateway.breakerAllows t.origin now).2.breakers.get o).getD _) _
    rw [hkept]
    by_cases ho : o = t.origin
    · subst ho
      rw [if_pos rfl]
      have := hb.asked now
      rw [← hans] at this
      simpa [World.move, turns, Event.turn] using this
    · rw [if_neg ho]
      simpa [World.move, turns, Event.turn, Ne.symm ho] using hw.reflects o
  · have hmove := total_move (Task.postedAt o) ht
      (if (w.gateway.breakerAllows t.origin now).1 then .posted else .ended)
      (w.gateway.breakerAllows t.origin now).2
      [.asked t.origin now (w.gateway.breakerAllows t.origin now).1]
    have h1 : t.postedAt o = 0 := by simp [Task.postedAt, hs]
    have := hw.outstanding o
    show letThrough (turns o (_ :: w.log)) ≤ _
    by_cases ho : t.origin = o
    · have hlet : letThrough (turns o (.asked t.origin now (w.gateway.breakerAllows t.origin now).1 :: w.log)) =
          letThrough (turns o w.log) + (w.gateway.breakerAllows t.origin now).1.toNat := by
        simp [turns, Event.turn, ho, letThrough]
      have hposted : Task.postedAt o { t with
          stage := if (w.gateway.breakerAllows t.origin now).1 then .posted else .ended } =
          (w.gateway.breakerAllows t.origin now).1.toNat := by
        cases (w.gateway.breakerAllows t.origin now).1 <;> simp [Task.postedAt, ho]
      omega
    · have hlet : turns o (.asked t.origin now (w.gateway.breakerAllows t.origin now).1 :: w.log) =
          turns o w.log := by simp [turns, Event.turn, ho]
      rw [hlet]
      omega
  · rw [hans]
    exact hb.allows_iff now

/-- What an answer leaves of the breakers. -/
theorem applyOutcome_get [DecidableEq Endpoint] (g : Gateway Origin Endpoint) (o : Origin) (e : Endpoint)
    (out : Outcome) (now : Nat) (o' : Origin) :
    ((g.applyOutcome cfg o e out now).breakers.get o').getD Breaker.default =
      if o' = o then
        if out.trouble then (((g.breakers.get o).getD Breaker.default).failed cfg.latest now
          cfg.breakerFailures cfg.breakerCooldown).2 else Breaker.default
      else (g.breakers.get o').getD Breaker.default := by
  have hgood : ((g.breakers.drop o).get o').getD Breaker.default =
      if o' = o then Breaker.default else (g.breakers.get o').getD Breaker.default := by
    rw [Map.get_drop]
    split <;> rfl
  have hbad : ∀ b, ((g.breakers.set o b).get o').getD Breaker.default =
      if o' = o then b else (g.breakers.get o').getD Breaker.default := by
    intro b
    rw [Map.get_set]
    split <;> rfl
  cases out with
  | failed => exact hbad _
  | unreachable => exact hbad _
  | accepted => exact hgood
  | gone => exact hgood
  | slow => exact hgood
  | tooBig => exact hgood
  | rejected => exact hgood

theorem Heard.answer [DecidableEq Endpoint] (hw : Heard cfg w) (ht : w.tasks.get id = some t) (now : Nat)
    (out : Outcome) : Heard cfg (w.move id t .ended (w.gateway.applyOutcome cfg t.origin t.endpoint out now)
      [.answered t.origin t.endpoint now out]) := by
  refine ⟨fun o => ?_, fun o => ?_, hw.byRule⟩
  · show Reflects _ _ _ (((w.gateway.applyOutcome cfg t.origin t.endpoint out now).breakers.get o).getD _) _
    rw [applyOutcome_get]
    by_cases ho : o = t.origin
    · subst ho
      rw [if_pos rfl]
      have hturns : turns t.origin (.answered t.origin t.endpoint now out :: w.log) =
          .answered now out.trouble :: turns t.origin w.log := by simp [turns, Event.turn]
      show Reflects _ _ _ _ (turns t.origin (.answered t.origin t.endpoint now out :: w.log))
      rw [hturns]
      cases hout : out.trouble with
      | true => exact (hw.reflects t.origin).failed now
      | false => exact reflects_forgotten rfl
    · rw [if_neg ho]
      simpa [World.move, turns, Event.turn, Ne.symm ho] using hw.reflects o
  · have hmove := total_move (Task.postedAt o) ht .ended
      (w.gateway.applyOutcome cfg t.origin t.endpoint out now) [.answered t.origin t.endpoint now out]
    have := hw.outstanding o
    by_cases ho : t.origin = o
    · have hlet : letThrough (turns o (.answered t.origin t.endpoint now out :: w.log)) = 0 := by
        simp [turns, Event.turn, ho, letThrough]
      show letThrough (turns o (_ :: w.log)) ≤ _
      rw [hlet]
      exact Nat.zero_le _
    · have hlet : turns o (.answered t.origin t.endpoint now out :: w.log) = turns o w.log := by
        simp [turns, Event.turn, ho]
      have h1 : t.postedAt o = 0 := by simp [Task.postedAt, ho]
      show letThrough (turns o (_ :: w.log)) ≤ _
      rw [hlet]
      omega

variable [DecidableEq Endpoint]

theorem Heard.step (hw : Heard cfg w) (op : Op Origin Endpoint) (h : w.step cfg op = some w') :
    Heard cfg w' := by
  cases stepped h with
  | quiet hb hp hl ht =>
    refine ⟨fun o => ?_, fun o => ?_, hl ▸ hw.byRule⟩
    · rw [hb, hl]
      exact hw.reflects o
    · rw [hl]
      exact (hw.outstanding o).trans (ht o)
  | looked ht hs =>
    refine ⟨fun o => ?_, fun o => ?_, hw.byRule⟩
    · show Reflects _ _ _ (((w.gateway.isPaused _ _).2.breakers.get o).getD _) (turns o w.log)
      rw [isPaused_breakers]
      exact hw.reflects o
    · exact (hw.outstanding o).trans (posted_move ht (by simp [hs]) _ _ _ o)
  | asked ht hs => exact hw.ask ht hs _
  | answered ht hs => exact hw.answer ht _ _

theorem heard_run {ops : List (Op Origin Endpoint)} (h : run cfg ops (World.start cfg) = some w) :
    Heard cfg w := by
  have hstart : Heard cfg (World.start cfg : World Origin Endpoint) :=
    ⟨fun o => reflects_forgotten rfl, fun o => Nat.zero_le _, trivial⟩
  exact run_keeps (fun w w' op hw hstep => Heard.step hw op hstep) hstart h

/-- One trouble shuts an origin, and a second send comes to its breaker. -/
def shutting : Config := ⟨1, 60, 64, 8, 10 ^ 30⟩

def shutOrigin : List (Op Nat Nat) :=
  [.acquire 0 7 3, .place 0, .look 0 1, .encrypt 0 true, .ask 0 1, .answer 0 2 (.failed 503), .dropPermit 0,
    .dropSlot 0, .acquire 1 7 4, .place 1, .look 1 61, .encrypt 1 true]

/-- No origin is shut for good: with no send to it unanswered, the next one goes a cooldown after its last
answer. -/
theorem reopens {ops : List (Op Origin Endpoint)} (h : run cfg ops (World.start cfg) = some w)
    (ht : w.tasks.get id = some t) (hs : t.stage = .encrypted)
    (hnone : ∀ id' t', w.tasks.get id' = some t' → t'.origin = t.origin → t'.stage ≠ .posted) (now : Nat)
    (hnow : ∀ last, lastAnswer (turns t.origin w.log) = some last →
      after cfg.latest last cfg.breakerCooldown ≤ now) :
    ∃ w', w.step cfg (.ask id now) = some w' ∧ w'.tasks.get id = some { t with stage := .posted } := by
  have hheard := heard_run h
  have hzero : w.tasks.total (Task.postedAt t.origin) = 0 := by
    refine List.sum_eq_zero fun n hn => ?_
    obtain ⟨⟨id', t'⟩, hmem, rfl⟩ := List.mem_map.1 hn
    refine if_neg ?_
    rintro ⟨ho, hp⟩
    exact hnone id' t' (Map.mem_entries_iff.1 hmem) ho hp
  have hlet : letThrough (turns t.origin w.log) = 0 := by
    have := hheard.outstanding t.origin
    omega
  have hgo : (w.gateway.breakerAllows t.origin now).1 = true := by
    rw [(breakerAllows_get w.gateway t.origin now).1, (hheard.reflects t.origin).allows_iff]
    exact .inr ⟨hnow, hlet⟩
  refine ⟨w.move id t .posted (w.gateway.breakerAllows t.origin now).2 [.asked t.origin now true], ?_, ?_⟩
  · simp only [World.step, World.onTask, ht, hs, if_true, hgo]
  · show (w.tasks.set id { t with stage := .posted }).get id = _
    rw [Map.get_set, if_pos rfl]

theorem reopens_after_cooldown : ∃ w w', run shutting shutOrigin (World.start shutting) = some w ∧
    w.step shutting (.ask 1 62) = some w' ∧ w'.tasks.get 1 = some ⟨7, 4, .posted⟩ := by
  obtain ⟨w', hstep, hposted⟩ := @reopens _ _ _ shutting _ 1 ⟨7, 4, .encrypted⟩ _ shutOrigin
    (rfl : run shutting shutOrigin (World.start shutting) = some _) rfl rfl
    (fun id t h => by
      obtain ⟨-, rfl⟩ := Prod.mk.inj (List.mem_singleton.1 (Map.mem_entries_iff.2 h))
      exact fun _ => by decide) 62
    (fun last h => by
      obtain rfl := Option.some.inj h
      decide)
  exact ⟨_, w', rfl, hstep, hposted⟩

end Heard

/-! ## Pauses -/

section Waited
variable [DecidableEq Endpoint] (cfg : Config)

/-- Until when the endpoint's service last told it to wait. -/
def pausedUntil (e : Endpoint) : List (Event Origin Endpoint) → Option Nat
  | [] => none
  | .looked _ _ _ :: log | .asked _ _ _ :: log => pausedUntil e log
  | .answered _ e' now outcome :: log =>
    match outcome with
    | .slow asked => if e' = e then some (Gateway.waitOf cfg asked now) else pausedUntil e log
    | _ => pausedUntil e log

/-- The clock as the pauses are read and set. -/
def Op.reading : Op Origin Endpoint → Option Nat
  | .look _ now | .answer _ now _ => some now
  | _ => none

def LookedByRule : List (Event Origin Endpoint) → Prop
  | [] => True
  | .looked e now paused :: log =>
    (paused = true ↔ ∃ u, pausedUntil cfg e log = some u ∧ now < u) ∧ LookedByRule log
  | .asked _ _ _ :: log | .answered _ _ _ _ :: log => LookedByRule log

structure Waited (now : Nat) (w : World Origin Endpoint) : Prop where
  asked : ∀ e u, w.gateway.paused.get e = some u → pausedUntil cfg e w.log = some u
  kept : ∀ e u, pausedUntil cfg e w.log = some u → now < u → w.gateway.paused.get e = some u
  byRule : LookedByRule cfg w.log

variable {cfg} {w w' : World Origin Endpoint} {id now : Nat} {t : Task Origin Endpoint}

theorem Waited.later (hw : Waited cfg now w) {now' : Nat} (hle : now ≤ now') : Waited cfg now' w :=
  ⟨hw.asked, fun e u hu hlt => hw.kept e u hu (Nat.lt_of_le_of_lt hle hlt), hw.byRule⟩

theorem lookedByRule_suffix {log h : List (Event Origin Endpoint)} (hr : LookedByRule cfg log) {e : Endpoint}
    {now : Nat} {paused : Bool} (hsuf : .looked e now paused :: h <:+ log) :
    paused = true ↔ ∃ u, pausedUntil cfg e h = some u ∧ now < u := by
  induction log with
  | nil => exact absurd (List.suffix_nil.1 hsuf) (List.cons_ne_nil _ _)
  | cons e log ih =>
    rcases List.suffix_cons_iff.1 hsuf with heq | hlog
    · obtain ⟨rfl, rfl⟩ := List.cons.inj heq
      exact hr.1
    · cases e with
      | looked => exact ih hr.2 hlog
      | asked => exact ih hr hlog
      | answered => exact ih hr hlog

theorem Waited.look (hw : Waited cfg now w) (stage : Stage) : Waited cfg now
    (w.move id t stage (w.gateway.isPaused t.endpoint now).2
      [.looked t.endpoint now (w.gateway.isPaused t.endpoint now).1]) := by
  have hiff : ∀ {b : Bool}, (b = true ↔ ∃ u, w.gateway.paused.get t.endpoint = some u ∧ now < u) →
      (b = true ↔ ∃ u, pausedUntil cfg t.endpoint w.log = some u ∧ now < u) := by
    intro b hb
    rw [hb]
    constructor
    · rintro ⟨u, hu, hlt⟩
      exact ⟨u, hw.asked _ u hu, hlt⟩
    · rintro ⟨u, hu, hlt⟩
      exact ⟨u, hw.kept _ u hu hlt, hlt⟩
  cases hget : w.gateway.paused.get t.endpoint with
  | none =>
    have hp : w.gateway.isPaused t.endpoint now = (false, w.gateway) := by
      simp only [Gateway.isPaused, hget]
    rw [hp]
    exact ⟨hw.asked, hw.kept, hiff (by simp [hget]), hw.byRule⟩
  | some u =>
    by_cases hlt : now < u
    · have hp : w.gateway.isPaused t.endpoint now = (true, w.gateway) := by
        simp only [Gateway.isPaused, hget, if_pos hlt]
      rw [hp]
      exact ⟨hw.asked, hw.kept, hiff (by simp [hget, hlt]), hw.byRule⟩
    · have hp : w.gateway.isPaused t.endpoint now = (false, { w.gateway with
          paused := w.gateway.paused.drop t.endpoint }) := by
        simp only [Gateway.isPaused, hget, if_neg hlt]
      rw [hp]
      refine ⟨fun e v hv => hw.asked e v (Map.get_drop_some hv).2, fun e v hv hnow => ?_,
        hiff (by simp [hget, hlt]), hw.byRule⟩
      have hkept := hw.kept e v hv hnow
      show (w.gateway.paused.drop t.endpoint).get e = some v
      rw [Map.get_drop, if_neg, hkept]
      rintro rfl
      rw [hget] at hkept
      obtain rfl := Option.some.inj hkept
      exact hlt hnow

theorem Waited.pause (hw : Waited cfg now w) (g : Gateway Origin Endpoint) (hg : g.paused = w.gateway.paused)
    (e : Endpoint) (till : Nat) {log : List (Event Origin Endpoint)} (hr : LookedByRule cfg log)
    (hlog : ∀ e', pausedUntil cfg e' log = if e = e' then some till else pausedUntil cfg e' w.log)
    (tasks : Map Nat (Task Origin Endpoint)) : Waited cfg now ⟨g.pause e till now, tasks, log⟩ := by
  have hkept : ∀ e' u, now < u → w.gateway.paused.get e' = some u → (if 1024 ≤ g.paused.size then
      g.paused.filter fun eu => decide (now < eu.2) else g.paused).get e' = some u := by
    intro e' u hlt hu
    rw [hg]
    split
    · rw [Map.get_filter, hu]
      simp [hlt]
    · exact hu
  have hfrom : ∀ e' u, (if 1024 ≤ g.paused.size then g.paused.filter fun eu => decide (now < eu.2)
      else g.paused).get e' = some u → w.gateway.paused.get e' = some u := by
    intro e' u hu
    rw [hg] at hu
    split at hu
    · rw [Map.get_filter] at hu
      exact (Option.filter_eq_some_iff.1 hu).1
    · exact hu
  refine ⟨fun e' u hu => ?_, fun e' u hu hlt => ?_, hr⟩
  · show pausedUntil cfg e' log = some u
    rw [hlog]
    rcases Map.get_set_cases hu with ⟨rfl, rfl⟩ | ⟨hne, hu⟩
    · exact if_pos rfl
    · rw [if_neg (Ne.symm hne)]
      exact hw.asked e' u (hfrom e' u hu)
  · change pausedUntil cfg e' log = some u at hu
    show (Map.set _ e till).get e' = some u
    rw [hlog] at hu
    rw [Map.get_set]
    by_cases he : e = e'
    · rw [if_pos he] at hu
      rwa [if_pos he.symm]
    · rw [if_neg he] at hu
      rw [if_neg (Ne.symm he)]
      exact hkept e' u hlt (hw.kept e' u hu hlt)

theorem Waited.answer [DecidableEq Origin] (hw : Waited cfg now w) (out : Outcome) (stage : Stage) : Waited cfg now
    (w.move id t stage (w.gateway.applyOutcome cfg t.origin t.endpoint out now)
      [.answered t.origin t.endpoint now out]) := by
  cases out with
  | slow asked =>
    have hr : LookedByRule cfg (.answered t.origin t.endpoint now (.slow asked) :: w.log) := hw.byRule
    exact hw.pause (w.gateway.breakerRecord cfg t.origin false now) rfl _ _ hr (fun _ => rfl) _
  | accepted => exact ⟨hw.asked, hw.kept, hw.byRule⟩
  | gone => exact ⟨hw.asked, hw.kept, hw.byRule⟩
  | tooBig => exact ⟨hw.asked, hw.kept, hw.byRule⟩
  | rejected => exact ⟨hw.asked, hw.kept, hw.byRule⟩
  | failed => exact ⟨hw.asked, hw.kept, hw.byRule⟩
  | unreachable => exact ⟨hw.asked, hw.kept, hw.byRule⟩

variable [DecidableEq Origin]

theorem Waited.step (hw : Waited cfg now w) (op : Op Origin Endpoint)
    (hnow : ∀ r, op.reading = some r → r = now) (h : w.step cfg op = some w') : Waited cfg now w' := by
  have hsame : ∀ {g : Gateway Origin Endpoint} {log}, g.paused = w.gateway.paused → LookedByRule cfg log →
      (∀ e, pausedUntil cfg e log = pausedUntil cfg e w.log) → ∀ tasks, Waited cfg now ⟨g, tasks, log⟩ := by
    intro g log hg hr hlog tasks
    refine ⟨fun e u hu => (hlog e).trans (hw.asked e u (hg ▸ hu)), fun e u hu hlt => ?_, hr⟩
    exact hg ▸ hw.kept e u ((hlog e).symm.trans hu) hlt
  cases stepped h with
  | quiet hb hp hl ht => exact hsame hp (hl ▸ hw.byRule) (fun e => by rw [hl]) _
  | looked ht hs =>
    obtain rfl := hnow _ rfl
    exact hw.look _
  | @asked id r t ht hs =>
    have hr : LookedByRule cfg (.asked t.origin r (w.gateway.breakerAllows t.origin r).1 :: w.log) := hw.byRule
    refine hsame ?_ hr (fun _ => rfl) _
    unfold Gateway.breakerAllows
    split <;> rfl
  | answered ht hs =>
    obtain rfl := hnow _ rfl
    exact hw.answer _ _

theorem waited_run {ops : List (Op Origin Endpoint)} (hw : Waited cfg now w)
    (htime : (now :: ops.filterMap Op.reading).Pairwise (· ≤ ·)) (h : run cfg ops w = some w') :
    ∃ now', Waited cfg now' w' := by
  induction ops generalizing w now with
  | nil =>
    obtain rfl := Option.some.inj h
    exact ⟨now, hw⟩
  | cons op ops ih =>
    obtain ⟨w₁, h₁, h⟩ := Option.bind_eq_some_iff.1 h
    cases hr : op.reading with
    | none =>
      rw [List.filterMap_cons_none hr] at htime
      exact ih (hw.step op (fun r hr' => by rw [hr] at hr'; cases hr') h₁) htime h
    | some r =>
      rw [List.filterMap_cons_some hr, List.pairwise_cons] at htime
      have hlater := hw.later (htime.1 r List.mem_cons_self)
      refine ih (hlater.step op (fun r' hr' => ?_) h₁) htime.2 h
      rw [hr] at hr'
      exact (Option.some.inj hr').symm

/-- On a clock that does not go back, a subscription is skipped exactly while its service last asked it to
wait, and for no other subscription's sake; what is pruned of the pauses no longer mattered. -/
theorem looked_by_the_rule {ops : List (Op Origin Endpoint)}
    (htime : (ops.filterMap Op.reading).Pairwise (· ≤ ·)) (h : run cfg ops (World.start cfg) = some w)
    {e : Endpoint} {moment : Nat} {paused : Bool} {past : List (Event Origin Endpoint)}
    (hsuf : .looked e moment paused :: past <:+ w.log) :
    paused = true ↔ ∃ u, pausedUntil cfg e past = some u ∧ moment < u := by
  have hstart : Waited cfg 0 (World.start cfg : World Origin Endpoint) := by
    refine ⟨fun e u hu => ?_, fun e u hu => ?_, trivial⟩
    · cases hu
    · cases hu
  obtain ⟨now, hw⟩ := waited_run hstart (List.pairwise_cons.2 ⟨fun _ _ => Nat.zero_le _, htime⟩) h
  exact lookedByRule_suffix hw.byRule hsuf

def slowed : List (Op Nat Nat) :=
  [.acquire 0 7 3, .place 0, .look 0 1, .encrypt 0 true, .ask 0 1, .answer 0 2 (.slow (some 30)), .acquire 1 7 3,
    .place 1, .look 1 31]

theorem looked_while_slowed : ∃ w, run shutting slowed (World.start shutting) = some w ∧
    ∃ past u, .looked 3 31 true :: past <:+ w.log ∧ pausedUntil shutting 3 past = some u ∧ 31 < u := by
  obtain ⟨u, hu⟩ := (looked_by_the_rule (by decide : (slowed.filterMap Op.reading).Pairwise (· ≤ ·))
    (rfl : run shutting slowed (World.start shutting) = _) (List.suffix_rfl (l := Event.looked 3 31 true :: _))).1 rfl
  exact ⟨_, rfl, _, u, List.suffix_rfl, hu⟩

end Waited
end HxdNg.Push
