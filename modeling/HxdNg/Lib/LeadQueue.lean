import Mathlib

/-!
# A queue whose callers take turns at leading

Callers queue items and sleep on one slot for each. Whoever queues while nobody leads is given the
lead; a leader takes a run off the front of the queue, does it, tells every item of it its result
and hands the lead on through the slot of an item still queued. Items may also be posted, with
nobody asleep on them.

* `Policy` : the longest run, what a run that fails answers, and whom a leader hands on to;
* `World` : the queue, the slots, the callers, and what has happened so far;
* `Policy.step` : one call queues its items, one item is posted, or one caller takes its next step,
  each step being what happens under one lock;
* `World.Linked` : callers and slots agree on who leads;
* `World.Ordered` : runs are consecutive stretches of what was queued, and so is what is told;
* `World.Calls` : a caller collects what was told of its items.
-/

namespace HxdNg.LeadQueue

variable {ρ : Type*}

/-! ## Callers and slots -/

/-- What an item's caller sleeps on. -/
inductive Slot (ρ : Type*) where
  | waiting
  | lead
  | done (r : ρ)

/-- Where a leader is in its work. -/
inductive Stage (ρ : Type*) where
  | take
  | apply (run : List Nat)
  | answer (left : List (Nat × ρ))
  | hand

/-- A leader: the item it leads for, that item's result once there, and where it is. -/
structure Led (ρ : Type*) where
  me : Nat
  mine : Option ρ
  stage : Stage ρ

inductive Caller (ρ : Type*) where
  | absent
  | granted (i : Nat) (rest : List Nat)
  | waits (items : List Nat) (got : List (Nat × ρ)) (raised : Bool)
  | leads (led : Led ρ) (rest : List Nat) (got : List (Nat × ρ)) (raised : Bool)
  | broken (items : List Nat) (got : List (Nat × ρ))

/-- The items a caller has still to collect. -/
def Caller.todo : Caller ρ → List Nat
  | absent => []
  | granted i rest => i :: rest
  | waits items _ _ => items
  | leads led rest _ _ => led.me :: rest
  | broken items _ => items

/-- The results a caller has collected. -/
def Caller.got : Caller ρ → List (Nat × ρ)
  | absent => []
  | granted _ _ => []
  | waits _ got _ => got
  | leads _ _ got _ => got
  | broken _ got => got

/-- The items of a run not done yet. -/
def Stage.inHand : Stage ρ → List Nat
  | apply run => run
  | _ => []

/-- The results of a run not told yet. -/
def Stage.untold : Stage ρ → List (Nat × ρ)
  | answer left => left
  | _ => []

/-- Who has the lead: nobody, a caller that has yet to take it up, the item whose slot says so, or a
caller at work. -/
inductive Holder (ρ : Type*) where
  | nobody
  | granted (c i : Nat)
  | slot (i : Nat)
  | leads (c : Nat) (led : Led ρ)

def Holder.inHand : Holder ρ → List Nat
  | leads _ led => led.stage.inHand
  | _ => []

def Holder.untold : Holder ρ → List (Nat × ρ)
  | leads _ led => led.stage.untold
  | _ => []

/-! ## The world -/

/-- What a leader does when its run is told. -/
inductive Next where
  | lead (i : Nat)
  | rest
  | again

/-- How one queue goes about it. `handOn waited queue mine` is what a leader does next, `mine`
being whether it has its own result. -/
structure Policy (ρ : Type*) where
  max : Nat
  failed : ρ
  raises : Bool
  posts : Bool
  handOn : (Nat → Bool) → List Nat → Bool → Next

/-- Items are numbered as they are queued. The fields from `holder` on record what happened, and no
step reads them. -/
structure World (ρ : Type*) where
  queue : List Nat
  leading : Bool
  next : Nat
  posted : Nat → Bool
  slot : Nat → Slot ρ
  caller : Nat → Caller ρ
  holder : Holder ρ
  owner : Nat → Nat
  asked : Nat → List Nat
  runs : List (List Nat)
  made : List (Nat × ρ)
  answers : List (Nat × ρ)

namespace World

def empty : World ρ where
  queue := []
  leading := false
  next := 0
  posted _ := false
  slot _ := .waiting
  caller _ := .absent
  holder := .nobody
  owner _ := 0
  asked _ := []
  runs := []
  made := []
  answers := []

/-- Somebody sleeps on an item. -/
def waited (w : World ρ) (i : Nat) : Bool := !w.posted i

/-- A call queues `n` items at once, and has the lead if nobody had. -/
def submit (w : World ρ) (c n : Nat) : World ρ :=
  match w.caller c with
  | .absent =>
    match n with
    | 0 => { w with caller := Function.update w.caller c (.waits [] [] false) }
    | n + 1 =>
      { w with
        queue := w.queue ++ List.range' w.next (n + 1)
        leading := true
        next := w.next + (n + 1)
        caller := Function.update w.caller c
          (if w.leading then .waits (List.range' w.next (n + 1)) [] false
            else .granted w.next (List.range' (w.next + 1) n))
        holder := if w.leading then w.holder else .granted c w.next
        owner := fun i => if w.next ≤ i then c else w.owner i
        asked := Function.update w.asked c (List.range' w.next (n + 1)) }
  | _ => w

/-- An item nobody waits for. -/
def post (w : World ρ) : World ρ :=
  { w with
    queue := w.queue ++ [w.next]
    next := w.next + 1
    posted := Function.update w.posted w.next true }

/-- A caller given the lead tells its first item. -/
def grant (w : World ρ) (c i : Nat) (rest : List Nat) : World ρ :=
  { w with
    slot := Function.update w.slot i .lead
    caller := Function.update w.caller c (.waits (i :: rest) [] false)
    holder := .slot i }

/-- A caller takes its item's result out of the slot. -/
def collect (w : World ρ) (c i : Nat) (rest : List Nat) (got : List (Nat × ρ)) (raised : Bool)
    (r : ρ) : World ρ :=
  { w with
    slot := Function.update w.slot i .waiting
    caller := Function.update w.caller c (.waits rest (got ++ [(i, r)]) raised) }

/-- A caller takes the lead out of its item's slot. -/
def takeLead (w : World ρ) (c i : Nat) (rest : List Nat) (got : List (Nat × ρ)) (raised : Bool) :
    World ρ :=
  { w with
    slot := Function.update w.slot i .waiting
    caller := Function.update w.caller c (.leads ⟨i, none, .take⟩ rest got raised)
    holder := .leads c ⟨i, none, .take⟩ }

/-- A run is taken off the front of the queue. -/
def takeRun (w : World ρ) (max : Nat) : World ρ :=
  { w with
    queue := w.queue.drop max
    runs := w.runs ++ [w.queue.take max] }

def record (w : World ρ) (results : List (Nat × ρ)) : World ρ :=
  { w with made := w.made ++ results }

/-- A leader learns the result of its own item. -/
def tellMe (w : World ρ) (i : Nat) (r : ρ) : World ρ :=
  { w with answers := w.answers ++ [(i, r)] }

/-- A leader tells a waiting item its result. -/
def tell (w : World ρ) (i : Nat) (r : ρ) : World ρ :=
  { w with
    slot := Function.update w.slot i (.done r)
    answers := w.answers ++ [(i, r)] }

/-- The lead goes to another item, or with `none` to nobody. -/
def handOn (w : World ρ) (c : Nat) (x : Caller ρ) : Option Nat → World ρ
  | some i =>
    { w with
      slot := Function.update w.slot i .lead
      caller := Function.update w.caller c x
      holder := .slot i }
  | none =>
    { w with
      leading := false
      caller := Function.update w.caller c x
      holder := .nobody }

/-- The leader goes on to `led`. -/
def goOn (w : World ρ) (c : Nat) (led : Led ρ) (rest : List Nat) (got : List (Nat × ρ))
    (raised : Bool) : World ρ :=
  { w with
    caller := Function.update w.caller c (.leads led rest got raised)
    holder := .leads c led }

/-- What a leader is once it has handed the lead on. -/
def finished (led : Led ρ) (rest : List Nat) (got : List (Nat × ρ)) (raised : Bool) : Caller ρ :=
  match led.mine with
  | some r => .waits rest (got ++ [(led.me, r)]) raised
  | none => .broken (led.me :: rest) got

end World

namespace Policy

/-- A leader's next step. `outcome` is what doing the run comes to, `none` where it panics. -/
def leaderStep (P : Policy ρ) (w : World ρ) (c : Nat) (led : Led ρ) (rest : List Nat)
    (got : List (Nat × ρ)) (raised : Bool) (outcome : Option (List ρ)) : World ρ :=
  match led.stage with
  | .take =>
    (w.takeRun P.max).goOn c { led with stage := .apply (w.queue.take P.max) } rest got raised
  | .apply run =>
    let results := match outcome with
      | some rs => run.zip rs
      | none => run.map fun i => (i, P.failed)
    (w.record results).goOn c { led with stage := .answer results } rest got
      (raised || (outcome.isNone && P.raises))
  | .answer [] => w.goOn c { led with stage := .hand } rest got raised
  | .answer ((i, r) :: left) =>
    if i = led.me then
      (w.tellMe i r).goOn c { led with mine := some r, stage := .answer left } rest got raised
    else if w.waited i then
      (w.tell i r).goOn c { led with stage := .answer left } rest got raised
    else w.goOn c { led with stage := .answer left } rest got raised
  | .hand =>
    match P.handOn w.waited w.queue led.mine.isSome with
    | .lead i => w.handOn c (World.finished led rest got raised) (some i)
    | .rest => w.handOn c (World.finished led rest got raised) none
    | .again => w.goOn c { led with stage := .take } rest got raised

/-- A caller's next step, if it is not asleep. -/
def callerStep (P : Policy ρ) (w : World ρ) (c : Nat) (outcome : Option (List ρ)) : World ρ :=
  match w.caller c with
  | .granted i rest => w.grant c i rest
  | .waits (i :: rest) got raised =>
    match w.slot i with
    | .waiting => w
    | .done r => w.collect c i rest got raised r
    | .lead => w.takeLead c i rest got raised
  | .leads led rest got raised => P.leaderStep w c led rest got raised outcome
  | _ => w

end Policy

inductive Act (ρ : Type*) where
  | submit (c n : Nat)
  | post
  | step (c : Nat) (outcome : Option (List ρ))

def Policy.step (P : Policy ρ) (w : World ρ) : Act ρ → World ρ
  | .submit c n => w.submit c n
  | .post => if P.posts then w.post else w
  | .step c outcome => P.callerStep w c outcome

def Policy.after (P : Policy ρ) (w : World ρ) (acts : List (Act ρ)) : World ρ := acts.foldl P.step w

/-- A run that does not panic answers every item it was given. -/
def Act.Fits (w : World ρ) : Act ρ → Prop
  | .step c (some rs) => ∀ led rest got raised run,
      w.caller c = .leads led rest got raised → led.stage = .apply run → rs.length = run.length
  | _ => True

/-- `acts` leads from one world to another. -/
inductive Policy.Runs (P : Policy ρ) : World ρ → List (Act ρ) → World ρ → Prop
  | nil (w) : Runs P w [] w
  | cons {w a as w'} : a.Fits w → Runs P (P.step w a) as w' → Runs P w (a :: as) w'

/-! ## Who leads -/

/-- The lead a caller takes itself to have. -/
def Caller.claim (c : Nat) : Caller ρ → Option (Holder ρ)
  | granted i _ => some (.granted c i)
  | leads led _ _ _ => some (.leads c led)
  | _ => none

def Holder.caller : Holder ρ → Option Nat
  | granted c _ => some c
  | leads c _ => some c
  | _ => none

namespace World

/-- Callers and slots say who leads, and say it of one holder only. -/
structure Linked (w : World ρ) : Prop where
  leading : w.leading = false ↔ w.holder = .nobody
  caller : ∀ c, (w.caller c).claim c = if w.holder.caller = some c then some w.holder else none
  slot : ∀ i, w.slot i = .lead ↔ w.holder = .slot i
  unbroken : ∀ c items got, w.caller c ≠ .broken items got

variable {w : World ρ} {c i : Nat} {rest : List Nat} {got : List (Nat × ρ)} {raised : Bool}
  {led : Led ρ}

namespace Linked

theorem holder_of_claim (h : w.Linked) {x : Holder ρ} (hc : (w.caller c).claim c = some x) :
    w.holder = x ∧ x.caller = some c := by
  rw [h.caller c] at hc
  split at hc
  case isTrue hh =>
    obtain rfl := Option.some.inj hc
    exact ⟨rfl, hh⟩
  case isFalse => cases hc

theorem of_leads (h : w.Linked) (hc : w.caller c = .leads led rest got raised) :
    w.holder = .leads c led :=
  (h.holder_of_claim (c := c) (by rw [hc]; rfl)).1

theorem of_granted (h : w.Linked) (hc : w.caller c = .granted i rest) :
    w.holder = .granted c i :=
  (h.holder_of_claim (c := c) (by rw [hc]; rfl)).1

theorem leads_of (h : w.Linked) (hh : w.holder = .leads c led) :
    ∃ rest got raised, w.caller c = .leads led rest got raised := by
  have hc := h.caller c
  rw [hh, Holder.caller, if_pos rfl] at hc
  cases hcc : w.caller c with
  | leads led' rest got raised =>
    rw [hcc] at hc
    obtain rfl : led' = led := by simpa [Caller.claim] using hc
    exact ⟨rest, got, raised, rfl⟩
  | _ => rw [hcc] at hc; simp [Caller.claim] at hc

theorem granted_of (h : w.Linked) (hh : w.holder = .granted c i) :
    ∃ rest, w.caller c = .granted i rest := by
  have hc := h.caller c
  rw [hh, Holder.caller, if_pos rfl] at hc
  cases hcc : w.caller c with
  | granted i' rest =>
    rw [hcc] at hc
    obtain rfl : i' = i := by simpa [Caller.claim] using hc
    exact ⟨rest, rfl⟩
  | _ => rw [hcc] at hc; simp [Caller.claim] at hc

/-- A caller changes what it claims along with who holds the lead. -/
theorem caller_update (h : w.Linked) {x : Caller ρ} {y : Holder ρ}
    (hold : w.holder.caller = none ∨ w.holder.caller = some c)
    (hnew : y.caller = none ∨ y.caller = some c)
    (hx : x.claim c = if y.caller = some c then some y else none) (d : Nat) :
    (Function.update w.caller c x d).claim d = if y.caller = some d then some y else none := by
  by_cases hd : d = c
  · subst hd
    rw [Function.update_self]
    exact hx
  · rw [Function.update_of_ne hd, h.caller d, if_neg, if_neg]
    · rcases hnew with hn | hn <;> rw [hn]
      · nofun
      · exact fun e => hd (Option.some.inj e).symm
    · rcases hold with hn | hn <;> rw [hn]
      · nofun
      · exact fun e => hd (Option.some.inj e).symm

theorem unbroken_update (h : w.Linked) {x : Caller ρ} (hx : ∀ items got, x ≠ .broken items got)
    (d : Nat) (items : List Nat) (got : List (Nat × ρ)) :
    Function.update w.caller c x d ≠ .broken items got := by
  by_cases hd : d = c
  · subst hd
    rw [Function.update_self]
    exact hx items got
  · rw [Function.update_of_ne hd]
    exact h.unbroken d items got

theorem goOn (h : w.Linked) {led' : Led ρ} (hh : w.holder = .leads c led) :
    (w.goOn c led' rest got raised).Linked where
  leading := by
    show w.leading = false ↔ Holder.leads c led' = .nobody
    rw [h.leading, hh]
    constructor <;> nofun
  caller := h.caller_update (y := .leads c led') (.inr (by rw [hh]; rfl)) (.inr rfl) (if_pos rfl).symm
  slot j := by
    show w.slot j = .lead ↔ Holder.leads c led' = .slot j
    rw [h.slot j, hh]
    constructor <;> nofun
  unbroken := h.unbroken_update nofun

/-- The lead goes into a slot. -/
theorem slot_update (i j : Nat) (hn : ∀ j, w.slot j ≠ .lead) :
    Function.update w.slot i .lead j = .lead ↔ (Holder.slot i : Holder ρ) = .slot j := by
  by_cases hj : j = i
  · subst hj
    rw [Function.update_self]
    exact ⟨fun _ => rfl, fun _ => rfl⟩
  · rw [Function.update_of_ne hj]
    refine ⟨fun e => absurd e (hn j), fun e => absurd (Holder.slot.inj e).symm hj⟩

/-- A change to the slots that neither gives the lead nor takes it. -/
theorem tell (h : w.Linked) {r : ρ} (hh : w.holder = .leads c led) : (w.tell i r).Linked := by
  refine ⟨h.leading, h.caller, fun j => ?_, h.unbroken⟩
  show Function.update w.slot i (.done r) j = .lead ↔ w.holder = .slot j
  by_cases hj : j = i
  · subst hj
    rw [Function.update_self, hh]
    constructor <;> nofun
  · rw [Function.update_of_ne hj]
    exact h.slot j

theorem grant (h : w.Linked) (hc : w.caller c = .granted i rest) : (w.grant c i rest).Linked := by
  have hh := h.of_granted hc
  refine ⟨?_, ?_, fun j => slot_update i j fun k hk => ?_, h.unbroken_update nofun⟩
  · show w.leading = false ↔ (Holder.slot i : Holder ρ) = .nobody
    rw [h.leading, hh]
    constructor <;> nofun
  · exact h.caller_update (y := .slot i) (.inr (by rw [hh]; rfl)) (.inl rfl) rfl
  · rw [h.slot k, hh] at hk
    cases hk

/-- Emptying a slot that does not hold the lead. -/
theorem slot_emptied (h : w.Linked) {r : ρ} (hs : w.slot i = .done r) (j : Nat) :
    Function.update w.slot i .waiting j = .lead ↔ w.holder = .slot j := by
  by_cases hj : j = i
  · subst hj
    rw [Function.update_self, ← h.slot j, hs]
    constructor <;> nofun
  · rw [Function.update_of_ne hj]
    exact h.slot j

theorem collect (h : w.Linked) {r : ρ} (hc : w.caller c = .waits (i :: rest) got raised)
    (hs : w.slot i = .done r) : (w.collect c i rest got raised r).Linked := by
  refine ⟨h.leading, fun d => ?_, h.slot_emptied hs, h.unbroken_update nofun⟩
  have hd := h.caller d
  show (Function.update w.caller c _ d).claim d = _
  by_cases hdc : d = c
  · subst hdc
    rw [hc] at hd
    rw [Function.update_self]
    exact hd
  · rw [Function.update_of_ne hdc]
    exact hd

theorem takeLead (h : w.Linked) (hs : w.slot i = .lead) :
    (w.takeLead c i rest got raised).Linked := by
  have hh := (h.slot i).1 hs
  refine ⟨?_, ?_, fun j => ?_, h.unbroken_update nofun⟩
  · show w.leading = false ↔ Holder.leads c _ = .nobody
    rw [h.leading, hh]
    constructor <;> nofun
  · exact h.caller_update (y := .leads c ⟨i, none, .take⟩) (.inl (by rw [hh]; rfl)) (.inr rfl)
      (if_pos rfl).symm
  · show Function.update w.slot i .waiting j = .lead ↔ Holder.leads c _ = .slot j
    refine ⟨fun e => ?_, nofun⟩
    by_cases hj : j = i
    · subst hj
      rw [Function.update_self] at e
      cases e
    · rw [Function.update_of_ne hj, h.slot j, hh] at e
      exact absurd (Holder.slot.inj e).symm hj

/-- The lead leaves a leader that has its result. -/
theorem handOn (h : w.Linked) (hh : w.holder = .leads c led) {r : ρ} (hr : led.mine = some r)
    (x : Option Nat) : (w.handOn c (finished led rest got raised) x).Linked := by
  have hs : ∀ j, w.slot j ≠ .lead := fun j hj => by
    rw [h.slot j, hh] at hj
    cases hj
  have hf : finished led rest got raised = .waits rest (got ++ [(led.me, r)]) raised := by
    rw [finished, hr]
  have hcaller : w.holder.caller = some c := by rw [hh]; rfl
  rw [hf]
  cases x with
  | some i =>
    refine ⟨?_, ?_, fun j => slot_update i j hs, h.unbroken_update nofun⟩
    · show w.leading = false ↔ (Holder.slot i : Holder ρ) = .nobody
      rw [h.leading, hh]
      constructor <;> nofun
    · exact h.caller_update (y := .slot i) (.inr hcaller) (.inl rfl) rfl
  | none =>
    refine ⟨⟨fun _ => rfl, fun _ => rfl⟩, ?_, fun j => ⟨fun e => absurd e (hs j), nofun⟩,
      h.unbroken_update nofun⟩
    exact h.caller_update (y := .nobody) (.inr hcaller) (.inl rfl) rfl

theorem submit (h : w.Linked) (c n : Nat) : (w.submit c n).Linked := by
  unfold World.submit
  split
  case h_2 => exact h
  case h_1 hc =>
  have hclaim := h.caller c
  rw [hc] at hclaim
  have hne : w.holder.caller ≠ some c := fun e => by
    rw [if_pos e] at hclaim
    cases hclaim
  have hwaits : ∀ (items : List Nat) (d : Nat),
      (Function.update w.caller c (.waits items [] false) d).claim d =
        if w.holder.caller = some d then some w.holder else none := fun items d => by
    by_cases hd : d = c
    · subst hd
      rw [Function.update_self, if_neg hne]
      rfl
    · rw [Function.update_of_ne hd]
      exact h.caller d
  split
  case h_1 => exact ⟨h.leading, hwaits [], h.slot, h.unbroken_update nofun⟩
  case h_2 n =>
  cases hl : w.leading with
  | true =>
    refine ⟨?_, hwaits _, h.slot, h.unbroken_update nofun⟩
    show true = false ↔ w.holder = .nobody
    rw [← h.leading, hl]
  | false =>
    have hh := h.leading.1 hl
    refine ⟨⟨nofun, nofun⟩, ?_, fun j => ?_, h.unbroken_update nofun⟩
    · exact h.caller_update (y := .granted c w.next) (.inl (by rw [hh]; rfl)) (.inr rfl)
        (if_pos rfl).symm
    · show w.slot j = .lead ↔ Holder.granted c w.next = .slot j
      rw [h.slot j, hh]
      constructor <;> nofun

end Linked

/-! ## The order items are taken in -/

/-- Every item queued is in one run or still in the queue, in the order queued; a run's items are
done together, and told in that order. -/
structure Ordered (P : Policy ρ) (w : World ρ) : Prop where
  taken : w.runs.flatten ++ w.queue = List.range w.next
  bounded : ∀ run ∈ w.runs, run.length ≤ P.max
  applied : w.made.map Prod.fst ++ w.holder.inHand = w.runs.flatten
  answered : ∃ told, told ++ w.holder.untold = w.made ∧
    w.answers = told.filter fun a => w.waited a.1
  posted_lt : ∀ i, w.posted i = true → i < w.next
  posts : P.posts = false → ∀ i, w.posted i = false

namespace Ordered

variable {P : Policy ρ}

theorem queue_sorted (h : w.Ordered P) : w.queue.Pairwise (· < ·) := by
  have hp : (w.runs.flatten ++ w.queue).Pairwise (· < ·) := h.taken ▸ List.pairwise_lt_range
  exact (List.pairwise_append.1 hp).2.1

theorem queue_lt (h : w.Ordered P) (hi : i ∈ w.queue) : i < w.next :=
  List.mem_range.1 (h.taken ▸ List.mem_append_right _ hi)

theorem runs_nodup (h : w.Ordered P) : w.runs.flatten.Nodup :=
  (List.nodup_append.1 (h.taken ▸ List.nodup_range : (w.runs.flatten ++ w.queue).Nodup)).1

theorem not_queued (h : w.Ordered P) (hi : i ∈ w.runs.flatten) : i ∉ w.queue := fun hq =>
  (List.nodup_append.1 (h.taken ▸ List.nodup_range : (w.runs.flatten ++ w.queue).Nodup)).2.2
    i hi i hq rfl

theorem made_runs (h : w.Ordered P) {a : Nat × ρ} (ha : a ∈ w.made) : a.1 ∈ w.runs.flatten :=
  h.applied ▸ List.mem_append_left _ (List.mem_map_of_mem ha)

theorem made_nodup (h : w.Ordered P) : (w.made.map Prod.fst).Nodup :=
  (List.nodup_append.1 (h.applied ▸ h.runs_nodup :
    (w.made.map Prod.fst ++ w.holder.inHand).Nodup)).1

theorem in_hand_nodup (h : w.Ordered P) : w.holder.inHand.Nodup :=
  (List.nodup_append.1 (h.applied ▸ h.runs_nodup :
    (w.made.map Prod.fst ++ w.holder.inHand).Nodup)).2.1

theorem untold_nodup (h : w.Ordered P) : (w.holder.untold.map Prod.fst).Nodup := by
  obtain ⟨told, hm, -⟩ := h.answered
  exact h.made_nodup.sublist ((hm ▸ List.sublist_append_right told _).map _)

theorem answers_made (h : w.Ordered P) {a : Nat × ρ} (ha : a ∈ w.answers) :
    a ∈ w.made ∧ w.waited a.1 = true := by
  obtain ⟨told, hm, heq⟩ := h.answered
  rw [heq, List.mem_filter] at ha
  exact ⟨hm ▸ List.mem_append_left _ ha.1, ha.2⟩

theorem answers_nodup (h : w.Ordered P) : (w.answers.map Prod.fst).Nodup := by
  obtain ⟨told, hm, heq⟩ := h.answered
  rw [heq]
  exact h.made_nodup.sublist (((List.filter_sublist).trans
    (hm ▸ List.sublist_append_left _ _)).map _)

theorem made_lt (h : w.Ordered P) {a : Nat × ρ} (ha : a ∈ w.made) : a.1 < w.next :=
  List.mem_range.1 (h.taken ▸ List.mem_append_left _ (h.made_runs ha))

/-- Where an item somebody waits for can be. -/
theorem somewhere (h : w.Ordered P) (hi : i < w.next) (hw : w.waited i = true) :
    i ∈ w.answers.map Prod.fst ∨ i ∈ w.queue ∨ i ∈ w.holder.inHand ∨
      i ∈ w.holder.untold.map Prod.fst := by
  have hm : i ∈ w.runs.flatten ++ w.queue := h.taken ▸ List.mem_range.2 hi
  rcases List.mem_append.1 hm with hm | hm
  · rw [← h.applied] at hm
    rcases List.mem_append.1 hm with hm | hm
    · obtain ⟨a, ha, rfl⟩ := List.mem_map.1 hm
      obtain ⟨told, hmade, heq⟩ := h.answered
      rw [← hmade, List.mem_append] at ha
      rcases ha with ha | ha
      · exact .inl (List.mem_map_of_mem (heq ▸ List.mem_filter.2 ⟨ha, hw⟩))
      · exact .inr (.inr (.inr (List.mem_map_of_mem ha)))
    · exact .inr (.inr (.inl hm))
  · exact .inr (.inl hm)

/-- What is not told yet is told to nobody. -/
theorem untold_not_answered (h : w.Ordered P) (hi : i ∈ w.holder.untold.map Prod.fst) :
    i ∉ w.answers.map Prod.fst := by
  obtain ⟨told, hm, heq⟩ := h.answered
  have hn := h.made_nodup
  rw [← hm, List.map_append, List.nodup_append] at hn
  intro ha
  rw [heq] at ha
  exact hn.2.2 i ((List.filter_sublist.map _).subset ha) i hi rfl

/-- The record stands, and the same things are left to do. -/
theorem congr (h : w.Ordered P) {w' : World ρ} (hq : w'.queue = w.queue) (hn : w'.next = w.next)
    (hp : w'.posted = w.posted) (hr : w'.runs = w.runs) (hm : w'.made = w.made)
    (ha : w'.answers = w.answers) (hi : w'.holder.inHand = w.holder.inHand)
    (hu : w'.holder.untold = w.holder.untold) : w'.Ordered P := by
  have hw : ∀ i, w'.waited i = w.waited i := fun i => by rw [waited, waited, hp]
  refine ⟨?_, ?_, ?_, ?_, ?_, ?_⟩
  · rw [hr, hq, hn, h.taken]
  · rw [hr]
    exact h.bounded
  · rw [hm, hi, hr, h.applied]
  · simp only [hw]
    rw [ha, hu, hm]
    exact h.answered
  · rw [hp, hn]
    exact h.posted_lt
  · rw [hp]
    exact h.posts

theorem submit (h : w.Ordered P) (hl : w.Linked) (c n : Nat) : (w.submit c n).Ordered P := by
  unfold World.submit
  split
  case h_2 => exact h
  split
  case h_1 => exact h.congr rfl rfl rfl rfl rfl rfl rfl rfl
  case h_2 n =>
  have hh : (if w.leading then w.holder else .granted c w.next).inHand = w.holder.inHand ∧
      (if w.leading then w.holder else .granted c w.next).untold = w.holder.untold := by
    cases hw : w.leading with
    | true => exact ⟨rfl, rfl⟩
    | false =>
      rw [hl.leading.1 hw]
      exact ⟨rfl, rfl⟩
  refine ⟨?_, h.bounded, ?_, ?_, fun i hi => ?_, h.posts⟩
  · show w.runs.flatten ++ (w.queue ++ List.range' w.next (n + 1)) = List.range (w.next + (n + 1))
    rw [← List.append_assoc, h.taken, List.range_add, List.range'_eq_map_range]
  · exact (congrArg _ hh.1).trans h.applied
  · obtain ⟨told, hm, heq⟩ := h.answered
    exact ⟨told, (congrArg (told ++ ·) hh.2).trans hm, heq⟩
  · exact Nat.lt_add_right _ (h.posted_lt i hi)

theorem post (h : w.Ordered P) (hp : P.posts = true) : w.post.Ordered P := by
  have hw : ∀ i, i < w.next → w.post.waited i = w.waited i := fun i hi => by
    show (!Function.update w.posted w.next true i) = !w.posted i
    rw [Function.update_of_ne (Nat.ne_of_lt hi)]
  refine ⟨?_, h.bounded, h.applied, ?_, fun i hi => ?_,
    fun hn => absurd (hp.symm.trans hn) nofun⟩
  · show w.runs.flatten ++ (w.queue ++ [w.next]) = List.range (w.next + 1)
    rw [← List.append_assoc, h.taken, List.range_succ]
  · obtain ⟨told, hm, heq⟩ := h.answered
    refine ⟨told, hm, heq.trans (List.filter_congr fun a ha => (hw a.1 ?_).symm)⟩
    exact h.made_lt (hm ▸ List.mem_append_left _ ha)
  · show i < w.next + 1
    by_cases hi' : i = w.next
    · omega
    · have : w.posted i = true := by
        have := hi
        rwa [show w.post.posted i = w.posted i from Function.update_of_ne hi' _ _] at this
      exact Nat.lt_succ_of_lt (h.posted_lt i this)

section Leading
variable {me : Nat} {mine mine' : Option ρ}

theorem takeRun (h : w.Ordered P) (hh : w.holder = .leads c ⟨me, mine, .take⟩) :
    ((w.takeRun P.max).goOn c ⟨me, mine, .apply (w.queue.take P.max)⟩ rest got raised).Ordered
      P := by
  have happ := h.applied
  rw [hh] at happ
  have hflat : (w.runs ++ [w.queue.take P.max]).flatten = w.runs.flatten ++ w.queue.take P.max := by
    rw [List.flatten_append, List.flatten_singleton]
  refine ⟨?_, fun run hr => ?_, ?_, ?_, h.posted_lt, h.posts⟩
  · show (w.runs ++ [w.queue.take P.max]).flatten ++ w.queue.drop P.max = List.range w.next
    rw [hflat, List.append_assoc, List.take_append_drop, h.taken]
  · rcases List.mem_append.1 hr with hr | hr
    · exact h.bounded run hr
    · rw [List.mem_singleton.1 hr]
      exact List.length_take_le _ _
  · show w.made.map Prod.fst ++ w.queue.take P.max = (w.runs ++ [w.queue.take P.max]).flatten
    rw [hflat, ← happ]
    exact congrArg (· ++ _) (List.append_nil _).symm
  · obtain ⟨told, hm, heq⟩ := h.answered
    rw [hh] at hm
    exact ⟨told, hm, heq⟩

theorem record (h : w.Ordered P) {run : List Nat} {results : List (Nat × ρ)}
    (hh : w.holder = .leads c ⟨me, mine, .apply run⟩) (hr : results.map Prod.fst = run) :
    ((w.record results).goOn c ⟨me, mine, .answer results⟩ rest got raised).Ordered P := by
  refine ⟨h.taken, h.bounded, ?_, ?_, h.posted_lt, h.posts⟩
  · show (w.made ++ results).map Prod.fst ++ [] = w.runs.flatten
    rw [List.append_nil, List.map_append, hr, ← h.applied, hh]
    rfl
  · obtain ⟨told, hm, heq⟩ := h.answered
    rw [hh] at hm
    exact ⟨told, congrArg (· ++ results) ((List.append_nil told).symm.trans hm), heq⟩

/-- The next item's result is told to whoever waits for it. -/
theorem told (h : w.Ordered P) {r : ρ} {left : List (Nat × ρ)} {w' : World ρ}
    (hh : w.holder = .leads c ⟨me, mine, .answer ((i, r) :: left)⟩)
    (hq : w'.queue = w.queue) (hn : w'.next = w.next) (hp : w'.posted = w.posted)
    (hr : w'.runs = w.runs) (hm : w'.made = w.made)
    (ha : w'.answers = w.answers ++ if w.waited i then [(i, r)] else [])
    (hh' : w'.holder = .leads c ⟨me, mine', .answer left⟩) : w'.Ordered P := by
  have happ := h.applied
  obtain ⟨told, hmade, heq⟩ := h.answered
  rw [hh] at happ hmade
  refine ⟨by rw [hr, hq, hn, h.taken], by rw [hr]; exact h.bounded, ?_, ?_,
    by rw [hp, hn]; exact h.posted_lt, by rw [hp]; exact h.posts⟩
  · rw [hm, hr, hh']
    exact happ
  · refine ⟨told ++ [(i, r)], ?_, ?_⟩
    · rw [hh', hm, ← hmade, List.append_assoc]
      rfl
    · have hw : w'.waited = w.waited := by
        funext j
        rw [waited, waited, hp]
      rw [ha, heq, hw, List.filter_append]
      congr 1
      cases hi : w.waited i <;> simp [hi]

end Leading

end Ordered

/-! ## What callers are told -/

/-- A caller collects the results of its items in their order, each the one told, and what is told
of an item not collected yet is where its caller will look. -/
structure Calls (w : World ρ) : Prop where
  asked : ∀ c, w.asked c = (w.caller c).got.map Prod.fst ++ (w.caller c).todo
  mem_asked : ∀ c i, i ∈ w.asked c ↔ i < w.next ∧ w.posted i = false ∧ w.owner i = c
  sorted : ∀ c, (w.asked c).Pairwise (· < ·)
  got : ∀ c, ∀ a ∈ (w.caller c).got, a ∈ w.answers
  done : ∀ i r, w.slot i = .done r → (i, r) ∈ w.answers
  told : ∀ c, ∀ i ∈ (w.caller c).todo, ∀ r, (i, r) ∈ w.answers →
    w.slot i = .done r ∨ ∃ led, w.holder = .leads c led ∧ led.me = i ∧ led.mine = some r

namespace Calls

variable {r : ρ}

theorem todo_asked (h : w.Calls) (hi : i ∈ (w.caller c).todo) : i ∈ w.asked c :=
  h.asked c ▸ List.mem_append_right _ hi

theorem owner_todo (h : w.Calls) (hi : i ∈ (w.caller c).todo) : w.owner i = c :=
  ((h.mem_asked c i).1 (h.todo_asked hi)).2.2

theorem todo_sorted (h : w.Calls) (c : Nat) : (w.caller c).todo.Pairwise (· < ·) := by
  have hs := h.sorted c
  rw [h.asked c] at hs
  exact (List.pairwise_append.1 hs).2.1

/-- Changing caller `c` and nothing of what it asked for. -/
theorem asked_update (h : w.Calls) {x : Caller ρ}
    (hx : x.got.map Prod.fst ++ x.todo = (w.caller c).got.map Prod.fst ++ (w.caller c).todo)
    (d : Nat) : w.asked d = (Function.update w.caller c x d).got.map Prod.fst ++
      (Function.update w.caller c x d).todo := by
  by_cases hd : d = c
  · subst hd
    rw [Function.update_self, hx, ← h.asked d]
  · rw [Function.update_of_ne hd]
    exact h.asked d

theorem mem_update {x : Caller ρ} {d j : Nat} (hj : j ∈ (Function.update w.caller c x d).todo) :
    d = c ∧ j ∈ x.todo ∨ d ≠ c ∧ j ∈ (w.caller d).todo := by
  by_cases hd : d = c
  · subst hd
    rw [Function.update_self] at hj
    exact .inl ⟨rfl, hj⟩
  · rw [Function.update_of_ne hd] at hj
    exact .inr ⟨hd, hj⟩

theorem got_update (h : w.Calls) {x : Caller ρ} (hx : ∀ a ∈ x.got, a ∈ w.answers) (d : Nat)
    (a : Nat × ρ) (ha : a ∈ (Function.update w.caller c x d).got) : a ∈ w.answers := by
  by_cases hd : d = c
  · subst hd
    rw [Function.update_self] at ha
    exact hx a ha
  · rw [Function.update_of_ne hd] at ha
    exact h.got d a ha

theorem done_update (h : w.Calls) {x : Slot ρ} (hx : ∀ r, x = .done r → (i, r) ∈ w.answers)
    (j : Nat) (r : ρ) (hj : Function.update w.slot i x j = .done r) : (j, r) ∈ w.answers := by
  by_cases hji : j = i
  · subst hji
    rw [Function.update_self] at hj
    exact hx r hj
  · rw [Function.update_of_ne hji] at hj
    exact h.done j r hj

/-- The lead comes to an item nothing is told of: its slot and its caller change, and what that
caller has still to collect does not. -/
theorem lead_moves (h : w.Calls) {x : Caller ρ} {y : Slot ρ} {holder : Holder ρ}
    (hn : i ∉ w.answers.map Prod.fst) (hy : ∀ r, y ≠ .done r)
    (hgot : x.got = (w.caller c).got) (htodo : x.todo = (w.caller c).todo)
    (hh : ∀ d led, w.holder ≠ .leads d led) :
    Calls { w with
      slot := Function.update w.slot i y
      caller := Function.update w.caller c x
      holder := holder } := by
  refine ⟨h.asked_update (by rw [hgot, htodo]), h.mem_asked, h.sorted,
    h.got_update (hgot ▸ h.got c), h.done_update fun r e => absurd e (hy r), ?_⟩
  intro d j hj r hr
  have hj' : j ∈ (w.caller d).todo := by
    rcases mem_update hj with ⟨rfl, hm⟩ | ⟨-, hm⟩
    · rwa [← htodo]
    · exact hm
  have hji : j ≠ i := fun e => hn (e ▸ List.mem_map_of_mem hr)
  rcases h.told d j hj' r hr with hs | ⟨led, hl, -⟩
  · exact .inl ((Function.update_of_ne hji _ _).trans hs)
  · exact absurd hl (hh d led)

theorem collect (h : w.Calls) (hc : w.caller c = .waits (i :: rest) got raised)
    (hs : w.slot i = .done r) : (w.collect c i rest got raised r).Calls := by
  have htodo : ∀ d, d ≠ c → ∀ j ∈ (w.caller d).todo, j ≠ i := fun d hd j hj e => by
    have hi : i ∈ (w.caller c).todo := by
      rw [hc]
      exact List.mem_cons_self
    exact hd ((h.owner_todo (e ▸ hj)).symm.trans (h.owner_todo hi))
  have hrest : ∀ j ∈ rest, j ≠ i := by
    have hp := h.todo_sorted c
    rw [hc] at hp
    exact fun j hj => (Nat.ne_of_lt ((List.pairwise_cons.1 hp).1 j hj)).symm
  refine ⟨h.asked_update ?_, h.mem_asked, h.sorted, h.got_update ?_, h.done_update nofun, ?_⟩
  · rw [hc]
    show (got ++ [(i, r)]).map Prod.fst ++ rest = got.map Prod.fst ++ i :: rest
    rw [List.map_append, List.append_assoc]
    rfl
  · intro a ha
    rcases List.mem_append.1 ha with ha | ha
    · exact h.got c a (by rw [hc]; exact ha)
    · rw [List.mem_singleton.1 ha]
      exact h.done i r hs
  · intro d j hj r' hr'
    have hmem : j ≠ i ∧ j ∈ (w.caller d).todo := by
      rcases mem_update hj with ⟨rfl, hm⟩ | ⟨hd, hm⟩
      · refine ⟨hrest j hm, ?_⟩
        rw [hc]
        exact List.mem_cons_of_mem _ hm
      · exact ⟨htodo d hd j hm, hm⟩
    rcases h.told d j hmem.2 r' hr' with hs' | hl'
    · exact .inl ((Function.update_of_ne hmem.1 _ _).trans hs')
    · exact .inr hl'

/-- A leader goes on with the same item. -/
theorem goOn (h : w.Calls) {led' : Led ρ} (hh : w.holder = .leads c led)
    (hc : w.caller c = .leads led rest got raised) {raised' : Bool} (hme : led'.me = led.me)
    (hmine : led'.mine = led.mine) : (w.goOn c led' rest got raised').Calls := by
  refine ⟨h.asked_update (by rw [hc, Caller.todo, hme]; rfl), h.mem_asked, h.sorted,
    h.got_update (by have := h.got c; rwa [hc] at this), h.done, ?_⟩
  intro d j hj r hr
  have hj' : j ∈ (w.caller d).todo := by
    rcases mem_update hj with ⟨rfl, hm⟩ | ⟨-, hm⟩
    · rw [hc, Caller.todo, ← hme]
      exact hm
    · exact hm
  rcases h.told d j hj' r hr with hs | ⟨l, hl, hm, hr'⟩
  · exact .inl hs
  · rw [hh] at hl
    obtain ⟨rfl, rfl⟩ := Holder.leads.inj hl
    exact .inr ⟨led', rfl, hme.trans hm, hmine.trans hr'⟩

theorem rest_ne (h : w.Calls) (hc : w.caller c = .leads led rest got raised) {j : Nat}
    (hj : j ∈ rest) : j ≠ led.me := by
  have hp := h.todo_sorted c
  rw [hc] at hp
  exact (Nat.ne_of_lt ((List.pairwise_cons.1 hp).1 j hj)).symm

theorem me_todo (hc : w.caller c = .leads led rest got raised) : led.me ∈ (w.caller c).todo := by
  rw [hc]
  exact List.mem_cons_self

/-- A leader comes to the result of its own item. -/
theorem tellMe (h : w.Calls) (hh : w.holder = .leads c led)
    (hc : w.caller c = .leads led rest got raised) (hn : led.me ∉ w.answers.map Prod.fst)
    {led' : Led ρ} (hme : led'.me = led.me) (hmine : led'.mine = some r) :
    ((w.tellMe led.me r).goOn c led' rest got raised).Calls := by
  refine ⟨h.asked_update (by rw [hc, Caller.todo, hme]; rfl), h.mem_asked, h.sorted,
    fun d a ha => List.mem_append_left _ (h.got_update ?_ d a ha),
    fun j x hj => List.mem_append_left _ (h.done j x hj), ?_⟩
  · have := h.got c
    rwa [hc] at this
  intro d j hj r' hr'
  have hj' : j ∈ (w.caller d).todo := by
    rcases mem_update hj with ⟨rfl, hm⟩ | ⟨-, hm⟩
    · rw [hc, Caller.todo, ← hme]
      exact hm
    · exact hm
  rcases List.mem_append.1 hr' with hr' | hr'
  · have hjme : j ≠ led.me := fun e => hn (e ▸ List.mem_map_of_mem hr')
    rcases h.told d j hj' r' hr' with hs | ⟨l, hl, hm, -⟩
    · exact .inl hs
    · rw [hh] at hl
      obtain ⟨-, rfl⟩ := Holder.leads.inj hl
      exact absurd hm.symm hjme
  · obtain ⟨rfl, rfl⟩ := Prod.mk.inj (List.mem_singleton.1 hr')
    obtain rfl : d = c := (h.owner_todo hj').symm.trans (h.owner_todo (me_todo hc))
    exact .inr ⟨led', rfl, hme, hmine⟩

/-- A leader comes to the result of another item. -/
theorem tell (h : w.Calls) (hh : w.holder = .leads c led)
    (hc : w.caller c = .leads led rest got raised) (hn : i ∉ w.answers.map Prod.fst)
    {led' : Led ρ} (hme : led'.me = led.me) (hmine : led'.mine = led.mine) :
    ((w.tell i r).goOn c led' rest got raised).Calls := by
  refine ⟨h.asked_update (by rw [hc, Caller.todo, hme]; rfl), h.mem_asked, h.sorted,
    fun d a ha => List.mem_append_left _ (h.got_update ?_ d a ha), fun j x hj => ?_, ?_⟩
  · have := h.got c
    rwa [hc] at this
  · show (j, x) ∈ w.answers ++ [(i, r)]
    by_cases hji : j = i
    · subst hji
      replace hj : Function.update w.slot j (.done r) j = .done x := hj
      rw [Function.update_self] at hj
      obtain rfl := Slot.done.inj hj
      exact List.mem_append_right _ (List.mem_singleton_self _)
    · exact List.mem_append_left _ (h.done j x ((Function.update_of_ne hji _ _).symm.trans hj))
  intro d j hj r' hr'
  have hj' : j ∈ (w.caller d).todo := by
    rcases mem_update hj with ⟨rfl, hm⟩ | ⟨-, hm⟩
    · rw [hc, Caller.todo, ← hme]
      exact hm
    · exact hm
  rcases List.mem_append.1 hr' with hr' | hr'
  · have hji : j ≠ i := fun e => hn (e ▸ List.mem_map_of_mem hr')
    rcases h.told d j hj' r' hr' with hs | ⟨l, hl, hm, hl'⟩
    · exact .inl ((Function.update_of_ne hji _ _).trans hs)
    · rw [hh] at hl
      obtain ⟨rfl, rfl⟩ := Holder.leads.inj hl
      exact .inr ⟨led', rfl, hme.trans hm, hmine.trans hl'⟩
  · obtain ⟨rfl, rfl⟩ := Prod.mk.inj (List.mem_singleton.1 hr')
    exact .inl (Function.update_self _ _ _)

/-- A leader with its result leaves, and the lead goes to an item nothing is told of. -/
theorem handOn (h : w.Calls) (hh : w.holder = .leads c led)
    (hc : w.caller c = .leads led rest got raised) (hr : led.mine = some r)
    (hm : (led.me, r) ∈ w.answers) {x : Option Nat} (hx : ∀ i, x = some i → i ∉ w.answers.map Prod.fst) :
    (w.handOn c (finished led rest got raised) x).Calls := by
  have hf : finished led rest got raised = .waits rest (got ++ [(led.me, r)]) raised := by
    rw [finished, hr]
  have hasked : (got ++ [(led.me, r)]).map Prod.fst ++ rest =
      (w.caller c).got.map Prod.fst ++ (w.caller c).todo := by
    rw [hc, List.map_append, List.append_assoc]
    rfl
  have hgot : ∀ a ∈ got ++ [(led.me, r)], a ∈ w.answers := fun a ha => by
    rcases List.mem_append.1 ha with ha | ha
    · exact h.got c a (by rw [hc]; exact ha)
    · rwa [List.mem_singleton.1 ha]
  have htold : ∀ d, ∀ j ∈ (Function.update w.caller c
      (.waits rest (got ++ [(led.me, r)]) raised) d).todo, ∀ r', (j, r') ∈ w.answers →
      w.slot j = .done r' := fun d j hj r' hr' => by
    rcases mem_update hj with ⟨rfl, hm⟩ | ⟨hd, hm⟩
    · rcases h.told d j (by rw [hc]; exact List.mem_cons_of_mem _ hm) r' hr' with
        hs | ⟨l, hl, hme, -⟩
      · exact hs
      · rw [hh] at hl
        obtain ⟨-, rfl⟩ := Holder.leads.inj hl
        exact absurd hme.symm (h.rest_ne hc hm)
    · rcases h.told d j hm r' hr' with hs | ⟨l, hl, -⟩
      · exact hs
      · rw [hh] at hl
        exact absurd (Holder.leads.inj hl).1.symm hd
  rw [hf]
  cases x with
  | none =>
    exact ⟨h.asked_update hasked, h.mem_asked, h.sorted, h.got_update hgot, h.done,
      fun d j hj r' hr' => .inl (htold d j hj r' hr')⟩
  | some i =>
    refine ⟨h.asked_update hasked, h.mem_asked, h.sorted, h.got_update hgot,
      h.done_update nofun, fun d j hj r' hr' => .inl ?_⟩
    have hji : j ≠ i := fun e => hx i rfl (e ▸ List.mem_map_of_mem hr')
    exact (Function.update_of_ne hji _ _).trans (htold d j hj r' hr')

theorem post (h : w.Calls) : w.post.Calls := by
  refine ⟨h.asked, fun c i => ?_, h.sorted, h.got, h.done, h.told⟩
  show i ∈ w.asked c ↔ i < w.next + 1 ∧ Function.update w.posted w.next true i = false ∧ w.owner i = c
  rw [h.mem_asked]
  by_cases hi : i = w.next
  · subst hi
    rw [Function.update_self]
    exact ⟨fun ⟨hlt, _⟩ => absurd hlt (Nat.lt_irrefl _), nofun⟩
  · rw [Function.update_of_ne hi]
    have : i < w.next + 1 ↔ i < w.next := by omega
    rw [this]

theorem submit {P : Policy ρ} (h : w.Calls) (ho : w.Ordered P) (hl : w.Linked) (c n : Nat) :
    (w.submit c n).Calls := by
  unfold World.submit
  split
  case h_2 => exact h
  case h_1 hc =>
  have hnone : w.asked c = [] := by
    rw [h.asked c, hc]
    rfl
  split
  case h_1 =>
    refine ⟨h.asked_update (by rw [hc]; rfl), h.mem_asked, h.sorted, h.got_update nofun, h.done, ?_⟩
    intro d j hj
    rcases mem_update hj with ⟨-, hj⟩ | ⟨-, hj⟩
    · cases hj
    · exact h.told d j hj
  case h_2 n =>
  -- What is queued now is new, so nothing is told of it yet.
  have hlt : ∀ d, ∀ j ∈ w.asked d, j < w.next := fun d j hj => ((h.mem_asked d j).1 hj).1
  have hitems : ∀ x : Caller ρ, x = .waits (List.range' w.next (n + 1)) [] false ∨
      x = .granted w.next (List.range' (w.next + 1) n) →
      x.got = [] ∧ x.todo = List.range' w.next (n + 1) := fun x hx => by
    rcases hx with rfl | rfl
    · exact ⟨rfl, rfl⟩
    · exact ⟨rfl, (List.range'_succ ..).symm⟩
  have hx := hitems (if w.leading then .waits (List.range' w.next (n + 1)) [] false
    else .granted w.next (List.range' (w.next + 1) n)) (by cases w.leading <;> simp)
  refine ⟨fun d => ?_, fun d i => ?_, fun d => ?_, h.got_update ?_, h.done, ?_⟩
  · show Function.update w.asked c _ d = (Function.update w.caller c _ d).got.map Prod.fst ++
      (Function.update w.caller c _ d).todo
    by_cases hd : d = c
    · subst hd
      rw [Function.update_self, Function.update_self, hx.1, hx.2]
      rfl
    · rw [Function.update_of_ne hd, Function.update_of_ne hd, h.asked d]
  · show i ∈ Function.update w.asked c _ d ↔ i < w.next + (n + 1) ∧ w.posted i = false ∧
      (if w.next ≤ i then c else w.owner i) = d
    by_cases hi : w.next ≤ i
    · have hp : w.posted i = false := by
        cases hp : w.posted i with
        | false => rfl
        | true => exact absurd (ho.posted_lt i hp) (Nat.not_lt_of_le hi)
      rw [if_pos hi]
      by_cases hd : d = c
      · subst hd
        rw [Function.update_self, List.mem_range'_1]
        exact ⟨fun hm => ⟨hm.2, hp, rfl⟩, fun hm => ⟨hi, hm.1⟩⟩
      · rw [Function.update_of_ne hd]
        exact ⟨fun hm => absurd (hlt d i hm) (Nat.not_lt_of_le hi), fun hm => absurd hm.2.2.symm hd⟩
    · rw [if_neg hi]
      have hadd : i < w.next + (n + 1) ↔ i < w.next := by omega
      by_cases hd : d = c
      · subst hd
        rw [Function.update_self, List.mem_range'_1, hadd]
        refine ⟨fun hm => absurd hm.1 hi, fun hm => ?_⟩
        have := (h.mem_asked d i).2 hm
        rw [hnone] at this
        cases this
      · rw [Function.update_of_ne hd, h.mem_asked d i, hadd]
  · show (Function.update w.asked c _ d).Pairwise (· < ·)
    by_cases hd : d = c
    · subst hd
      rw [Function.update_self]
      exact List.pairwise_lt_range'
    · rw [Function.update_of_ne hd]
      exact h.sorted d
  · rw [hx.1]
    nofun
  · intro d j hj r hr
    rcases mem_update hj with ⟨-, hm⟩ | ⟨-, hm⟩
    · rw [hx.2, List.mem_range'_1] at hm
      exact absurd (ho.made_lt (ho.answers_made hr).1) (Nat.not_lt_of_le hm.1)
    · rcases h.told d j hm r hr with hs | ⟨led, hh, hr⟩
      · exact .inl hs
      · refine .inr ⟨led, ?_, hr⟩
        cases hw : w.leading with
        | true => exact hh
        | false =>
          rw [hl.leading.1 hw] at hh
          cases hh

end Calls

end World

end HxdNg.LeadQueue
