import HxdNg.Lib.Assoc
import HxdNg.Push.Breaker

/-!
# The gateway that posts to the push services

* `Gateway` : its breakers, pauses and places in flight; `breakerAllows`, `breakerRecord`, `isPaused`,
  `pause`, `originSlot`, `dropSlot`, `applyOutcome` change it, each under its own lock;
* `Task` : one send, by the stage it has come to; `World` : the gateway, its tasks and what passed;
  `World.step`, `World.run` : the tasks' steps in any order and at any reading of the clock;
* `run_keeps` : what every step keeps holds after every run; `onTask_cases` : what a task's step does;
* `Stepped`, `stepped` : which steps read or change the breakers and the pauses.
-/

namespace HxdNg.Push
open Assoc

structure Config where
  breakerFailures : UInt32
  breakerCooldown : Nat
  maxInflight : Nat
  maxInflightPerOrigin : Nat
  latest : Nat

inductive Outcome where
  | accepted
  | gone
  | slow (asked : Option Nat)
  | tooBig
  | rejected (status : Nat)
  | failed (status : Nat)
  | unreachable (why : String)
  deriving DecidableEq

/-- Is this the origin's own trouble? -/
def Outcome.trouble : Outcome → Bool
  | .failed _ | .unreachable _ => true
  | _ => false

variable {Origin Endpoint : Type}

structure Gateway (Origin Endpoint : Type) where
  breakers : Map Origin Breaker
  paused : Map Endpoint Nat
  inflight : Nat
  perOrigin : Map Origin Nat
  deriving DecidableEq

section Defs
variable [DecidableEq Origin] [DecidableEq Endpoint]

namespace Gateway

def new (cfg : Config) : Gateway Origin Endpoint := ⟨Map.empty, Map.empty, max cfg.maxInflight 1, Map.empty⟩

def breakerAllows (g : Gateway Origin Endpoint) (origin : Origin) (now : Nat) :
    Bool × Gateway Origin Endpoint :=
  match g.breakers.get origin with
  | none => (true, g)
  | some b => ((b.allows now).1, { g with breakers := g.breakers.set origin (b.allows now).2 })

def breakerRecord (cfg : Config) (origin : Origin) (failed : Bool) (now : Nat)
    (g : Gateway Origin Endpoint) : Gateway Origin Endpoint :=
  if failed then
    let b := (g.breakers.get origin).getD Breaker.default
    let (_, b) := b.failed cfg.latest now cfg.breakerFailures cfg.breakerCooldown
    { g with breakers := g.breakers.set origin b }
  else { g with breakers := g.breakers.drop origin }

def isPaused (g : Gateway Origin Endpoint) (endpoint : Endpoint) (now : Nat) :
    Bool × Gateway Origin Endpoint :=
  match g.paused.get endpoint with
  | some u => if now < u then (true, g) else (false, { g with paused := g.paused.drop endpoint })
  | none => (false, g)

def pause (endpoint : Endpoint) (till now : Nat) (g : Gateway Origin Endpoint) : Gateway Origin Endpoint :=
  let kept := if 1024 ≤ g.paused.size then g.paused.filter fun eu => decide (now < eu.2) else g.paused
  { g with paused := kept.set endpoint till }

def originSlot (cfg : Config) (origin : Origin) (g : Gateway Origin Endpoint) :
    Bool × Gateway Origin Endpoint :=
  let n := (g.perOrigin.get origin).getD 0
  if max cfg.maxInflightPerOrigin 1 ≤ n then (false, { g with perOrigin := g.perOrigin.set origin n })
  else (true, { g with perOrigin := g.perOrigin.set origin (n + 1) })

/-- A place given back: `none` where the count would go below nothing. -/
def dropSlot (origin : Origin) (g : Gateway Origin Endpoint) : Option (Gateway Origin Endpoint) :=
  match g.perOrigin.get origin with
  | none => some g
  | some n =>
    if n = 0 then none
    else if n - 1 = 0 then some { g with perOrigin := g.perOrigin.drop origin }
    else some { g with perOrigin := g.perOrigin.set origin (n - 1) }

/-- How long a subscription told to wait does. -/
def waitOf (cfg : Config) (asked : Option Nat) (now : Nat) : Nat :=
  after cfg.latest now (min (asked.getD cfg.breakerCooldown) maxRetryAfter)

def applyOutcome (cfg : Config) (origin : Origin) (endpoint : Endpoint) (outcome : Outcome) (now : Nat)
    (g : Gateway Origin Endpoint) : Gateway Origin Endpoint :=
  match outcome with
  | .accepted | .gone | .tooBig | .rejected _ => g.breakerRecord cfg origin false now
  | .slow asked => (g.breakerRecord cfg origin false now).pause endpoint (waitOf cfg asked now) now
  | .failed _ | .unreachable _ => g.breakerRecord cfg origin true now

end Gateway

/-! ## Sends under way -/

inductive Stage where
  | permitted
  | refused
  | placed
  | unpaused
  | encrypted
  | posted
  | ended
  | unpermitted
  deriving DecidableEq

def Stage.holdsPermit : Stage → Bool
  | .unpermitted => false
  | _ => true

def Stage.holdsSlot : Stage → Bool
  | .permitted | .refused => false
  | _ => true

structure Task (Origin Endpoint : Type) where
  origin : Origin
  endpoint : Endpoint
  stage : Stage
  deriving DecidableEq

inductive Event (Origin Endpoint : Type) where
  | looked (endpoint : Endpoint) (now : Nat) (paused : Bool)
  | asked (origin : Origin) (now : Nat) (allowed : Bool)
  | answered (origin : Origin) (endpoint : Endpoint) (now : Nat) (outcome : Outcome)
  deriving DecidableEq

structure World (Origin Endpoint : Type) where
  gateway : Gateway Origin Endpoint
  tasks : Map Nat (Task Origin Endpoint)
  log : List (Event Origin Endpoint)

inductive Op (Origin Endpoint : Type) where
  | acquire (id : Nat) (origin : Origin) (endpoint : Endpoint)
  | place (id : Nat)
  | look (id : Nat) (now : Nat)
  | encrypt (id : Nat) (ok : Bool)
  | ask (id : Nat) (now : Nat)
  | answer (id : Nat) (now : Nat) (outcome : Outcome)
  | dropPermit (id : Nat)
  | dropSlot (id : Nat)

namespace World

def start (cfg : Config) : World Origin Endpoint := ⟨Gateway.new cfg, Map.empty, []⟩

/-- What a task does that has come to the stage; of any other, nothing. -/
def onTask (w : World Origin Endpoint) (id : Nat) (stage : Stage)
    (k : Task Origin Endpoint → Option (World Origin Endpoint)) : Option (World Origin Endpoint) :=
  match w.tasks.get id with
  | some t => if t.stage = stage then k t else some w
  | none => some w

/-- The task comes to a stage, with the gateway as it leaves it. -/
def move (w : World Origin Endpoint) (id : Nat) (t : Task Origin Endpoint) (stage : Stage)
    (g : Gateway Origin Endpoint) (said : List (Event Origin Endpoint)) : World Origin Endpoint :=
  ⟨g, w.tasks.set id { t with stage }, said ++ w.log⟩

def step (cfg : Config) (w : World Origin Endpoint) : Op Origin Endpoint → Option (World Origin Endpoint)
  | .acquire id origin endpoint =>
    if w.gateway.inflight = 0 ∨ (w.tasks.get id).isSome = true then some w
    else some (w.move id ⟨origin, endpoint, .permitted⟩ .permitted
      { w.gateway with inflight := w.gateway.inflight - 1 } [])
  | .place id => w.onTask id .permitted fun t =>
    let (placed, g) := w.gateway.originSlot cfg t.origin
    some (w.move id t (if placed then .placed else .refused) g [])
  | .look id now => w.onTask id .placed fun t =>
    let (paused, g) := w.gateway.isPaused t.endpoint now
    some (w.move id t (if paused then .ended else .unpaused) g [.looked t.endpoint now paused])
  | .encrypt id ok => w.onTask id .unpaused fun t =>
    some (w.move id t (if ok then .encrypted else .ended) w.gateway [])
  | .ask id now => w.onTask id .encrypted fun t =>
    let (allowed, g) := w.gateway.breakerAllows t.origin now
    some (w.move id t (if allowed then .posted else .ended) g [.asked t.origin now allowed])
  | .answer id now outcome => w.onTask id .posted fun t =>
    some (w.move id t .ended (w.gateway.applyOutcome cfg t.origin t.endpoint outcome now)
      [.answered t.origin t.endpoint now outcome])
  | .dropPermit id =>
    match w.tasks.get id with
    | none => some w
    | some t =>
      let g := { w.gateway with inflight := w.gateway.inflight + 1 }
      if t.stage = .refused then some { w with gateway := g, tasks := w.tasks.drop id }
      else if t.stage = .ended then some (w.move id t .unpermitted g [])
      else some w
  | .dropSlot id => w.onTask id .unpermitted fun t =>
    (w.gateway.dropSlot t.origin).map fun g => { w with gateway := g, tasks := w.tasks.drop id }

def run (cfg : Config) : List (Op Origin Endpoint) → World Origin Endpoint → Option (World Origin Endpoint)
  | [], w => some w
  | op :: ops, w => (w.step cfg op).bind (run cfg ops)

theorem run_keeps {cfg : Config} {Inv : World Origin Endpoint → Prop}
    (hstep : ∀ w w' op, Inv w → step cfg w op = some w' → Inv w') {ops : List (Op Origin Endpoint)}
    {w w' : World Origin Endpoint} (hw : Inv w) (h : run cfg ops w = some w') : Inv w' := by
  induction ops generalizing w with
  | nil =>
    obtain rfl := Option.some.inj h
    exact hw
  | cons op ops ih =>
    obtain ⟨w₁, h₁, h⟩ := Option.bind_eq_some_iff.1 h
    exact ih (hstep w w₁ op hw h₁) h

section OnTask
omit [DecidableEq Origin] [DecidableEq Endpoint]
variable {w w' : World Origin Endpoint} {id : Nat} {stage : Stage}
variable {k : Task Origin Endpoint → Option (World Origin Endpoint)}

theorem onTask_cases (h : w.onTask id stage k = some w') :
    w' = w ∨ ∃ t, w.tasks.get id = some t ∧ t.stage = stage ∧ k t = some w' := by
  unfold onTask at h
  split at h
  next t ht =>
    split at h
    next hs => exact .inr ⟨t, ht, hs, h⟩
    · exact .inl (Option.some.inj h).symm
  · exact .inl (Option.some.inj h).symm

end OnTask

end World
end Defs

section Totals
variable {w : World Origin Endpoint} {id : Nat} {t : Task Origin Endpoint}

theorem total_move (f : Task Origin Endpoint → Nat) (ht : w.tasks.get id = some t) (stage : Stage)
    (g : Gateway Origin Endpoint) (said : List (Event Origin Endpoint)) :
    (w.move id t stage g said).tasks.total f + f t = w.tasks.total f + f { t with stage } := by
  have := Map.total_set f w.tasks id { t with stage }
  rwa [ht] at this

theorem total_new (f : Task Origin Endpoint → Nat) (ht : w.tasks.get id = none) (stage : Stage)
    (g : Gateway Origin Endpoint) (said : List (Event Origin Endpoint)) :
    (w.move id t stage g said).tasks.total f = w.tasks.total f + f { t with stage } := by
  have := Map.total_set f w.tasks id { t with stage }
  rwa [ht] at this

theorem total_gone (f : Task Origin Endpoint → Nat) (ht : w.tasks.get id = some t) :
    (w.tasks.drop id).total f + f t = w.tasks.total f := by
  have := Map.total_drop f w.tasks id
  rwa [ht] at this

end Totals

/-! ## What a step does -/

section Steps
open World
variable [DecidableEq Origin] [DecidableEq Endpoint] {cfg : Config} {w w' : World Origin Endpoint}

/-- A send to the origin that has not answered. -/
def Task.postedAt (o : Origin) (t : Task Origin Endpoint) : Nat :=
  if t.origin = o ∧ t.stage = .posted then 1 else 0

/-- A step looks at a pause, asks a breaker, brings an answer, or leaves all that as it was. -/
inductive Stepped (cfg : Config) (w : World Origin Endpoint) : Op Origin Endpoint → World Origin Endpoint → Prop
  | quiet {op} {w'} (hb : w'.gateway.breakers = w.gateway.breakers) (hp : w'.gateway.paused = w.gateway.paused)
    (hl : w'.log = w.log) (ht : ∀ o, w.tasks.total (Task.postedAt o) ≤ w'.tasks.total (Task.postedAt o)) :
    Stepped cfg w op w'
  | looked {id now t} (ht : w.tasks.get id = some t) (hs : t.stage = .placed) : Stepped cfg w (.look id now)
    (w.move id t (if (w.gateway.isPaused t.endpoint now).1 then .ended else .unpaused)
      (w.gateway.isPaused t.endpoint now).2 [.looked t.endpoint now (w.gateway.isPaused t.endpoint now).1])
  | asked {id now t} (ht : w.tasks.get id = some t) (hs : t.stage = .encrypted) : Stepped cfg w (.ask id now)
    (w.move id t (if (w.gateway.breakerAllows t.origin now).1 then .posted else .ended)
      (w.gateway.breakerAllows t.origin now).2 [.asked t.origin now (w.gateway.breakerAllows t.origin now).1])
  | answered {id now out t} (ht : w.tasks.get id = some t) (hs : t.stage = .posted) :
    Stepped cfg w (.answer id now out)
    (w.move id t .ended (w.gateway.applyOutcome cfg t.origin t.endpoint out now)
      [.answered t.origin t.endpoint now out])

omit [DecidableEq Endpoint] in
theorem posted_move {id : Nat} {t : Task Origin Endpoint} (ht : w.tasks.get id = some t)
    (hs : t.stage ≠ .posted) (stage : Stage) (g : Gateway Origin Endpoint) (said) (o : Origin) :
    w.tasks.total (Task.postedAt o) ≤ (w.move id t stage g said).tasks.total (Task.postedAt o) := by
  have hmove := total_move (Task.postedAt o) ht stage g said
  have hzero : t.postedAt o = 0 := by simp [Task.postedAt, hs]
  omega

omit [DecidableEq Endpoint] in
theorem posted_gone {id : Nat} {t : Task Origin Endpoint} (ht : w.tasks.get id = some t)
    (hs : t.stage ≠ .posted) (o : Origin) :
    w.tasks.total (Task.postedAt o) ≤ (w.tasks.drop id).total (Task.postedAt o) := by
  have hgone := total_gone (Task.postedAt o) ht
  have hzero : t.postedAt o = 0 := by simp [Task.postedAt, hs]
  omega

omit [DecidableEq Endpoint] in
theorem originSlot_frame (cfg : Config) (g : Gateway Origin Endpoint) (o : Origin) :
    (g.originSlot cfg o).2.breakers = g.breakers ∧ (g.originSlot cfg o).2.paused = g.paused := by
  simp only [Gateway.originSlot]
  split <;> exact ⟨rfl, rfl⟩

omit [DecidableEq Endpoint] in
theorem dropSlot_frame {g g' : Gateway Origin Endpoint} {o : Origin} (h : g.dropSlot o = some g') :
    g'.breakers = g.breakers ∧ g'.paused = g.paused := by
  unfold Gateway.dropSlot at h
  split at h
  · obtain rfl := Option.some.inj h
    exact ⟨rfl, rfl⟩
  · split at h
    · cases h
    · split at h <;> obtain rfl := Option.some.inj h <;> exact ⟨rfl, rfl⟩

theorem stepped {op : Op Origin Endpoint} (h : w.step cfg op = some w') : Stepped cfg w op w' := by
  have hidle : w' = w → Stepped cfg w op w' := fun heq => heq ▸ .quiet rfl rfl rfl fun _ => Nat.le_refl _
  cases op with
  | acquire id o e =>
    simp only [World.step] at h
    split at h
    · exact hidle (Option.some.inj h).symm
    next hfree =>
      simp only [not_or, Bool.not_eq_true, Option.isSome_eq_false_iff, Option.isNone_iff_eq_none] at hfree
      obtain rfl := Option.some.inj h
      exact .quiet rfl rfl rfl fun o' => (total_new _ hfree.2 _ _ _).symm ▸ Nat.le_add_right _ _
  | place id =>
    rcases onTask_cases h with rfl | ⟨t, ht, hs, hk⟩
    · exact hidle rfl
    obtain rfl := Option.some.inj hk
    have hframe := originSlot_frame cfg w.gateway t.origin
    exact .quiet hframe.1 hframe.2 rfl (posted_move ht (by simp [hs]) _ _ _)
  | look id now =>
    rcases onTask_cases h with rfl | ⟨t, ht, hs, hk⟩
    · exact hidle rfl
    obtain rfl := Option.some.inj hk
    exact .looked ht hs
  | encrypt id ok =>
    rcases onTask_cases h with rfl | ⟨t, ht, hs, hk⟩
    · exact hidle rfl
    obtain rfl := Option.some.inj hk
    exact .quiet rfl rfl rfl (posted_move ht (by simp [hs]) _ _ _)
  | ask id now =>
    rcases onTask_cases h with rfl | ⟨t, ht, hs, hk⟩
    · exact hidle rfl
    obtain rfl := Option.some.inj hk
    exact .asked ht hs
  | answer id now out =>
    rcases onTask_cases h with rfl | ⟨t, ht, hs, hk⟩
    · exact hidle rfl
    obtain rfl := Option.some.inj hk
    exact .answered ht hs
  | dropPermit id =>
    simp only [World.step] at h
    split at h
    · exact hidle (Option.some.inj h).symm
    next t ht =>
      split at h
      next hs =>
        obtain rfl := Option.some.inj h
        exact .quiet rfl rfl rfl (posted_gone ht (by simp [hs]))
      · split at h
        next hs =>
          obtain rfl := Option.some.inj h
          exact .quiet rfl rfl rfl (posted_move ht (by simp [hs]) _ _ _)
        · exact hidle (Option.some.inj h).symm
  | dropSlot id =>
    rcases onTask_cases h with rfl | ⟨t, ht, hs, hk⟩
    · exact hidle rfl
    obtain ⟨g, hg, rfl⟩ := Option.map_eq_some_iff.1 hk
    have hframe := dropSlot_frame hg
    exact .quiet hframe.1 hframe.2 rfl (posted_gone ht (by simp [hs]))

end Steps

end HxdNg.Push
