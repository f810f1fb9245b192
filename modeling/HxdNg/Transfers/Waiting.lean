import HxdNg.Transfers.Honest

/-!
# What becomes of a download that waits

* `Waits`, `Excused` : a reference still in the queue, or let start, ended by its owner, its session
  over, or presented from another address; `Gone` : one that need no longer stand;
* `Right` : an answer its own client may expect; `Unlost` : both of a whole run;
* `inTime`, `timely` : the steps that lose no waiting reference;
* `Kept`, `Grows` : the invariant, and what carries it through a step;
* `waiting_never_lost` : over a run of such steps; `late_presentation_loses` : and over another.
-/

namespace HxdNg.Transfers

open Assoc (Map)
open Limits (IpAddr)

/-- The reference still waits, under the generation it was issued with. -/
def Waits (w : World) (r g : Nat) : Prop :=
  ∃ e, w.state.entries.get r = some e ∧ e.generation = g ∧ e.queued.isSome = true

/-- Let start, ended by its owner, its session over, or presented from an address not its own. -/
def Excused (w : World) (g : Nat) : Prop :=
  g ∈ w.past.started ∨ g ∈ w.past.killed ∨ g ∈ w.past.finished ∨ g ∈ w.past.foreign

/-- Spent by a presentation already answered. -/
def Past.Spent (past : Past) (g : Nat) : Prop :=
  ∃ a ∈ past.answers, a.spent = true ∧ a.presented.entry.generation = g

/-- An entry let start that may be gone by `now`. -/
def Gone (past : Past) (e : Entry) (now : Nat) : Prop :=
  past.Spent e.generation ∨ e.generation ∈ past.killed ∨ e.generation ∈ past.finished ∨ e.expires ≤ now

/-- What a presentation from the reference's own address, in a session that lives, is answered: busy
while it waits, and once it may start and within its lifetime, the transfer as the handshake settles
it, unless it is gone by then. -/
def Right (reg : TransferRegistry) (w : World) (a : Answered) : Prop :=
  a.presented.fromPeer = true → a.session = true →
    (a.presented.entry.queued.isSome = true → a.result = .error .busy) ∧
    (a.presented.entry.queued = none → a.judgedAt < a.presented.entry.expires →
      (a.spent = true ∧
        a.result = resolve reg.digestMatches a.presented.entry.transfer a.presented.preamble) ∨
      (a.spent = false ∧ Gone w.past a.presented.entry a.answeredAt))

/-- No download that was to wait is lost. -/
structure Unlost (reg : TransferRegistry) (w : World) : Prop where
  waits : ∀ r g, (r, g) ∈ w.past.arrived → (Waits w r g ∧ r ∈ w.state.queue) ∨ Excused w g
  answers : ∀ a ∈ w.past.answers, Right reg w a

/-- No waiting reference is judged, from its own address and in a session that lives, past the deadline
it was issued with; and a sweep drops no reference whose number has been issued again. -/
def inTime (w : World) : Op → Bool
  | .judge c =>
    match w.calls.get c with
    | some (.read p) =>
      !(p.entry.queued.isSome && p.fromPeer && w.alive p.entry.transfer.principal) ||
        decide (w.now < p.entry.expires)
    | _ => true
  | .clear c _ =>
    match w.calls.get c with
    | some (.gathered [] gone) =>
      gone.all fun r => (w.state.entries.get r).all fun e => decide (e.generation ∈ w.past.finished)
    | _ => true
  | _ => true

/-- Every step of a run is in time. -/
def timely (reg : TransferRegistry) : World → List Op → Bool
  | _, [] => true
  | w, op :: ops => inTime w op && timely reg (step reg w op) ops

theorem inTime_judge {w : World} {c : Nat} {p : Presented} (h : inTime w (.judge c) = true)
    (hc : w.calls.get c = some (.read p)) (hq : p.entry.queued.isSome = true)
    (hpeer : p.fromPeer = true) (halive : w.alive p.entry.transfer.principal = true) :
    w.now < p.entry.expires := by
  dsimp only [inTime] at h
  rw [hc] at h
  dsimp only at h
  rw [hq, hpeer, halive] at h
  exact of_decide_eq_true h

theorem inTime_clear {w : World} {c began : Nat} {gone : List Nat} {r : Nat} {e : Entry}
    (h : inTime w (.clear c began) = true) (hc : w.calls.get c = some (.gathered [] gone))
    (hr : r ∈ gone) (he : w.state.entries.get r = some e) : e.generation ∈ w.past.finished := by
  dsimp only [inTime] at h
  rw [hc] at h
  have := List.all_eq_true.1 h r hr
  rw [he, Option.all_some] at this
  exact of_decide_eq_true this

/-! ## The invariant -/

structure Kept (reg : TransferRegistry) (w : World) : Prop where
  waits : ∀ r g, (r, g) ∈ w.past.arrived → Waits w r g ∨ Excused w g
  held : ∀ c call p, w.calls.get c = some call → call.presented = some p → p.entry.queued = none →
    w.state.entries.get p.preamble.reference = some p.entry ∨ Gone w.past p.entry w.now
  foreign : ∀ c call p, w.calls.get c = some call → call.presented = some p → p.fromPeer = false →
    p.entry.generation ∈ w.past.foreign
  judged : ∀ c p judgedAt session, w.calls.get c = some (.judged p judgedAt session) →
    (session = false → ∀ r e, w.state.entries.get r = some e →
      e.generation = p.entry.generation → e.generation ∈ w.past.finished) ∧
    (p.entry.queued.isSome = true → p.fromPeer = true → session = false)
  answers : ∀ a ∈ w.past.answers, Right reg w a

/-- Every entry whose session is over has been seen to be. -/
def Marked (w : World) : Prop :=
  ∀ r e, w.state.entries.get r = some e → w.alive e.transfer.principal = false →
    e.generation ∈ w.past.finished

/-- What a step leaves of what waits and of what may start. -/
structure Grows (w w' : World) : Prop where
  now : w.now ≤ w'.now
  started : ∀ g ∈ w.past.started, g ∈ w'.past.started
  killed : ∀ g ∈ w.past.killed, g ∈ w'.past.killed
  finished : ∀ g ∈ w.past.finished, g ∈ w'.past.finished
  foreign : ∀ g ∈ w.past.foreign, g ∈ w'.past.foreign
  spent : ∀ g, w.past.Spent g → w'.past.Spent g
  waiting : ∀ r e, w.state.entries.get r = some e → e.queued.isSome = true →
    Waits w' r e.generation ∨ Excused w' e.generation
  ready : ∀ r e, w.state.entries.get r = some e → e.queued = none →
    w'.state.entries.get r = some e ∨ Gone w'.past e w'.now
  back : ∀ r e', w'.state.entries.get r = some e' →
    (∃ e, w.state.entries.get r = some e ∧ e.generation = e'.generation) ∨
      e'.generation ∉ w.past.drawn

section Grow
variable {reg : TransferRegistry} {w w' : World}

theorem Grows.excused (hg : Grows w w') {g : Nat} (h : Excused w g) : Excused w' g := by
  rcases h with h | h | h | h
  · exact .inl (hg.started g h)
  · exact .inr (.inl (hg.killed g h))
  · exact .inr (.inr (.inl (hg.finished g h)))
  · exact .inr (.inr (.inr (hg.foreign g h)))

theorem Grows.gone (hg : Grows w w') {e : Entry} {now now' : Nat} (hle : now ≤ now')
    (h : Gone w.past e now) : Gone w'.past e now' := by
  rcases h with h | h | h | h
  · exact .inl (hg.spent _ h)
  · exact .inr (.inl (hg.killed _ h))
  · exact .inr (.inr (.inl (hg.finished _ h)))
  · exact .inr (.inr (.inr (h.trans hle)))

theorem Grows.right (hg : Grows w w') {a : Answered} (h : Right reg w a) : Right reg w' a := by
  intro hpeer hsession
  obtain ⟨hbusy, hturn⟩ := h hpeer hsession
  refine ⟨hbusy, fun hq hnow => (hturn hq hnow).imp id fun hs => ⟨hs.1, hg.gone le_rfl hs.2⟩⟩

/-- The invariant goes through a step that keeps what waits, given what it says of the calls, the
arrivals and the answers the step adds. -/
theorem Kept.grow (h : Kept reg w) (hs : Sound reg w) (hg : Grows w w')
    (harrived : ∀ r g, (r, g) ∈ w'.past.arrived → (r, g) ∈ w.past.arrived ∨ Waits w' r g)
    (hcalls : ∀ c call, w'.calls.get c = some call → w.calls.get c = some call ∨
      (∀ p, call.presented = some p →
        (p.entry.queued = none → w'.state.entries.get p.preamble.reference = some p.entry ∨
          Gone w'.past p.entry w'.now) ∧
        (p.fromPeer = false → p.entry.generation ∈ w'.past.foreign)) ∧
      (∀ p judgedAt session, call = .judged p judgedAt session →
        (session = false → ∀ r e, w'.state.entries.get r = some e →
          e.generation = p.entry.generation → e.generation ∈ w'.past.finished) ∧
        (p.entry.queued.isSome = true → p.fromPeer = true → session = false)))
    (hanswers : ∀ a ∈ w'.past.answers, a ∈ w.past.answers ∨ Right reg w' a) : Kept reg w' where
  waits r g hr := by
    rcases harrived r g hr with hold | hnew
    · rcases h.waits r g hold with ⟨e, he, rfl, hq⟩ | hx
      · exact hg.waiting r e he hq
      · exact .inr (hg.excused hx)
    · exact .inl hnew
  held c call p hc hp hq := by
    rcases hcalls c call hc with hold | hnew
    · rcases h.held c call p hold hp hq with he | hx
      · exact hg.ready _ _ he hq
      · exact .inr (hg.gone hg.now hx)
    · exact (hnew.1 p hp).1 hq
  foreign c call p hc hp hpeer := by
    rcases hcalls c call hc with hold | hnew
    · exact hg.foreign _ (h.foreign c call p hold hp hpeer)
    · exact (hnew.1 p hp).2 hpeer
  judged c p judgedAt session hc := by
    rcases hcalls c _ hc with hold | hnew
    · obtain ⟨hover, hwait⟩ := h.judged c p judgedAt session hold
      refine ⟨fun hsession r e' he' hgen => ?_, hwait⟩
      rcases hg.back r e' he' with ⟨e, he, heq⟩ | hfresh
      · rw [← heq]
        exact hg.finished _ (hover hsession r e he (heq.trans hgen))
      · exact absurd (hgen ▸ (hs.calls c _ p hold rfl).1) hfresh
    · exact hnew.2 p judgedAt session rfl
  answers a ha := by
    rcases hanswers a ha with hold | hnew
    · exact hg.right (h.answers a hold)
    · exact hnew

/-- The common case: no call is new, and nothing arrives or is answered. -/
theorem Kept.grow_quiet (h : Kept reg w) (hs : Sound reg w) (hg : Grows w w')
    (harrived : w'.past.arrived = w.past.arrived)
    (hcalls : ∀ c call, w'.calls.get c = some call → w.calls.get c = some call)
    (hanswers : w'.past.answers = w.past.answers) : Kept reg w' :=
  h.grow hs hg (fun _ _ hr => .inl (harrived ▸ hr)) (fun c call hc => .inl (hcalls c call hc))
    fun _ ha => .inl (hanswers ▸ ha)

theorem grows_same (hstate : w'.state.entries = w.state.entries) (hnow : w.now ≤ w'.now)
    (hstarted : w'.past.started = w.past.started) (hkilled : w'.past.killed = w.past.killed)
    (hover : ∀ g ∈ w.past.finished, g ∈ w'.past.finished)
    (hforeign : ∀ g ∈ w.past.foreign, g ∈ w'.past.foreign)
    (hanswers : ∀ a ∈ w.past.answers, a ∈ w'.past.answers) : Grows w w' where
  now := hnow
  started _ hg := hstarted ▸ hg
  killed _ hg := hkilled ▸ hg
  finished := hover
  foreign := hforeign
  spent := fun _ ⟨a, ha, hsp⟩ => ⟨a, hanswers a ha, hsp⟩
  waiting _ e he hq := .inl ⟨e, hstate ▸ he, rfl, hq⟩
  ready _ _ he _ := .inl (hstate ▸ he)
  back _ e he := .inl ⟨e, hstate ▸ he, rfl⟩

/-! ## Promotion keeps what waits -/

theorem grows_promote (now : Nat) (hs : Sound reg w) {s₀ : State} (hf : Fewer s₀ w.state)
    (hstate : w'.state = (promote reg now s₀).1) (hnow : w.now ≤ w'.now)
    (hstarted : w'.past.started =
      startedBy (promote reg now s₀).1 (promote reg now s₀).2 ++ w.past.started)
    (hkilled : ∀ g ∈ w.past.killed, g ∈ w'.past.killed) (hover : w'.past.finished = w.past.finished)
    (hforeign : w'.past.foreign = w.past.foreign) (hanswers : w'.past.answers = w.past.answers)
    (hlost : ∀ r e, w.state.entries.get r = some e → s₀.entries.get r = none →
      e.generation ∈ w'.past.killed ∨ e.generation ∈ w.past.finished ∨
        (e.queued = none ∧ e.expires ≤ w'.now)) : Grows w w' := by
  have hp := hs.promoting now hf
  have hget : w'.state.entries = (s₀.turns reg now).entries := by
    rw [hstate]
    rfl
  exact {
    now := hnow
    started := fun g hg => hstarted ▸ List.mem_append_right _ hg
    killed := hkilled
    finished := fun g hg => hover ▸ hg
    foreign := fun g hg => hforeign ▸ hg
    spent := fun g ⟨a, ha, hsp⟩ => ⟨a, hanswers ▸ ha, hsp⟩
    waiting := fun r e he hq => by
      cases he₀ : s₀.entries.get r with
      | none =>
        rcases hlost r e he he₀ with hk | ho | ⟨hn, _⟩
        · exact .inr (.inr (.inl hk))
        · exact .inr (.inr (.inr (.inl (hover ▸ ho))))
        · rw [hn] at hq
          cases hq
      | some e₀ =>
        obtain rfl := Option.some.inj ((hf.entries r e₀ he₀).symm.trans he)
        have hr : r ∈ s₀.queue := hf.queue ▸ (hs.queue r).2 ⟨e₀, he, hq⟩
        rcases hp.fate r hr e₀ he₀ with ⟨i, _, hgot⟩ | ⟨_, hgot, htold⟩
        · exact .inl ⟨e₀.at_ (min (i + 1) maxPosition), by rw [hget]; exact hgot, rfl, rfl⟩
        · refine .inr (.inl (hstarted ▸ List.mem_append_left _ ?_))
          refine List.mem_filterMap.2 ⟨_, htold, ?_⟩
          show (if 0 = 0 then ((s₀.turns reg now).entries.get r).map Entry.generation else none) = _
          rw [if_pos rfl, hgot]
          rfl
    ready := fun r e he hq => by
      cases he₀ : s₀.entries.get r with
      | none =>
        rcases hlost r e he he₀ with hk | ho | ⟨_, hx⟩
        · exact .inr (.inr (.inl hk))
        · exact .inr (.inr (.inr (.inl (hover ▸ ho))))
        · exact .inr (.inr (.inr (.inr hx)))
      | some e₀ =>
        obtain rfl := Option.some.inj ((hf.entries r e₀ he₀).symm.trans he)
        refine .inl ?_
        rw [hget, hp.untouched r, he₀]
        intro hr
        obtain ⟨e', he', hq'⟩ := (hs.queue r).1 (hf.queue ▸ hr)
        rw [Option.some.inj (he'.symm.trans he), hq] at hq'
        cases hq'
    back := fun r e' he' => by
      obtain ⟨e₀, he₀, hcase⟩ := hs.promoted hf (hget ▸ he')
      refine .inl ⟨e₀, he₀, ?_⟩
      rcases hcase with ⟨rfl, _⟩ | ⟨_, _, n, rfl⟩ | ⟨_, _, rfl⟩ <;> rfl }

/-- What a sweep or an expiry drops neither waits nor has time left. -/
theorem lost_unexpired {now : Nat} {E : Map Nat Entry} {r : Nat} {e : Entry} (he : E.get r = some e)
    (hnone : (unexpired now E).get r = none) : e.queued = none ∧ e.expires ≤ now := by
  rw [unexpired, Map.get_filter, he, Option.filter_some] at hnone
  by_cases hk : (e.queued.isSome || decide (now < e.expires)) = true
  · rw [if_pos hk] at hnone
    cases hnone
  · rw [Bool.or_eq_true, not_or, decide_eq_true_eq, Bool.not_eq_true,
      Option.isSome_eq_false_iff, Option.isNone_iff_eq_none] at hk
    exact ⟨hk.1, Nat.le_of_not_lt hk.2⟩

theorem Kept.expire (h : Kept reg w) (hs : Sound reg w) {now : Nat} (hnow : now ≤ w.now) :
    Kept reg (w.tell (Transfers.expire reg now w.state)) := by
  unfold Transfers.expire
  dsimp only
  split
  · exact { h with }
  · refine h.grow_quiet hs (grows_promote _ hs (fewer_unexpired now w.state) rfl le_rfl rfl
      (fun _ hg => hg) rfl rfl rfl fun r e he hnone => ?_) rfl (fun _ _ hc => hc) rfl
    obtain ⟨hq, hx⟩ := lost_unexpired he hnone
    exact .inr (.inr ⟨hq, hx.trans hnow⟩)

theorem Kept.letGo (h : Kept reg w) (hs : Sound reg w) (r : Nat) : Kept reg (w.letGo reg r) := by
  unfold World.letGo
  split
  · exact h
  · have hfewer : Fewer { w.state with running := w.state.running.drop r } w.state :=
      ⟨fun _ _ he => he, fun _ _ => le_rfl, rfl⟩
    refine h.grow_quiet hs (grows_promote _ hs hfewer rfl le_rfl rfl (fun _ hg => hg) rfl rfl rfl
      fun k e he hnone => ?_) rfl (fun _ _ hc => hc) rfl
    rw [show w.state.entries.get k = none from hnone] at he
    cases he

theorem Kept.kill (h : Kept reg w) (hs : Sound reg w) (principal : FilePrincipal) (r : Nat) :
    Kept reg (w.kill reg principal r) := by
  by_cases hentry : ((w.state.entries.get r).any fun e => e.transfer.principal == principal) = true
  · have hkill : Transfers.kill reg w.now w.state principal r =
        (true, promote reg w.now { w.state with entries := w.state.entries.drop r }) := if_pos hentry
    refine h.grow_quiet hs (grows_promote w.now hs (fewer_drop w.state r) ?_ le_rfl ?_
      (fun g hg => List.mem_append_right _ hg) rfl rfl rfl fun k e he hnone => ?_) rfl
      (fun _ _ hc => hc) rfl
    · show (Transfers.kill reg w.now w.state principal r).2.1 = _
      rw [hkill]
    · show startedBy (Transfers.kill reg w.now w.state principal r).2.1
        (Transfers.kill reg w.now w.state principal r).2.2 ++ w.past.started = _
      rw [hkill]
    · have hnone' : (w.state.entries.drop r).get k = none := hnone
      rw [Map.get_drop] at hnone'
      by_cases hk : k = r
      · refine .inl (List.mem_append_left _ ?_)
        rw [hk] at he
        rw [he] at hentry ⊢
        rw [Option.any_some] at hentry
        rw [Option.filter_some, if_pos hentry]
        exact List.mem_cons_self
      · rw [if_neg hk, he] at hnone'
        cases hnone'
  · have hsame : (Transfers.kill reg w.now w.state principal r).2.1.entries = w.state.entries ∧
        (Transfers.kill reg w.now w.state principal r).2.2 = [] := by
      unfold Transfers.kill
      rw [if_neg hentry]
      split
      · split <;> exact ⟨rfl, rfl⟩
      · exact ⟨rfl, rfl⟩
    have hended : (w.state.entries.get r).filter (fun e => e.transfer.principal == principal) = none := by
      cases he : w.state.entries.get r with
      | none => rfl
      | some e =>
        rw [he, Option.any_some] at hentry
        rw [Option.filter_some, if_neg hentry]
    refine h.grow_quiet hs (grows_same hsame.1 le_rfl ?_ ?_ (fun _ hg => hg) (fun _ hg => hg)
      fun _ ha => ha) rfl (fun _ _ hc => hc) rfl
    · show startedBy _ (Transfers.kill reg w.now w.state principal r).2.2 ++ w.past.started = _
      rw [hsame.2]
      rfl
    · show (Option.map Entry.generation _).toList ++ w.past.killed = _
      rw [hended]
      rfl

theorem get_drops (gone : List Nat) (E : Map Nat Entry) (r : Nat) :
    (gone.foldl Map.drop E).get r = if r ∈ gone then none else E.get r := by
  induction gone generalizing E with
  | nil => rfl
  | cons k gone ih =>
    rw [List.foldl_cons, ih, Map.get_drop]
    by_cases hr : r ∈ gone
    · simp [hr]
    · by_cases hk : r = k <;> simp [hr, hk]

theorem Kept.clear (h : Kept reg w) (hs : Sound reg w) {c began : Nat}
    (hin : inTime w (.clear c began) = true) : Kept reg (w.clear reg c began) := by
  unfold World.clear
  split
  next gone hcall =>
    have hf : Fewer { w.state with
        entries := unexpired (min began w.now) (gone.foldl Map.drop w.state.entries) } w.state :=
      (fewer_unexpired _ { w.state with entries := gone.foldl Map.drop w.state.entries }).trans
        (fewer_drops w.state gone)
    refine h.grow_quiet hs (grows_promote _ hs hf rfl le_rfl rfl (fun _ hg => hg) rfl rfl rfl
      fun r e he hnone => ?_) rfl (fun k call hc => ?_) rfl
    · have hdrops := get_drops gone w.state.entries r
      by_cases hr : r ∈ gone
      · exact .inr (.inl (inTime_clear hin hcall hr he))
      · rw [if_neg hr, he] at hdrops
        obtain ⟨hq, hx⟩ := lost_unexpired hdrops hnone
        exact .inr (.inr ⟨hq, hx.trans (Nat.min_le_right ..)⟩)
    · have hc' : (w.calls.drop c).get k = some call := hc
      rw [Map.get_drop] at hc'
      split at hc'
      · cases hc'
      · exact hc'
  next => exact h

/-! ## The other steps -/

theorem Kept.issueAs (h : Kept reg w) (hs : Sound reg w) (t : PreparedTransfer) (person : String)
    (began : Nat) (draws : List (Option Nat)) (generation : Option Nat)
    (hfresh : ∀ g, generation = some g → g ∉ w.past.drawn) :
    Kept reg (w.issueAs reg t person began draws generation) := by
  have hk := h.expire hs (Nat.min_le_right began w.now)
  have he := hs.expire (min began w.now)
  have hd : (w.tell (Transfers.expire reg (min began w.now) w.state)).past.drawn = w.past.drawn := rfl
  unfold World.issueAs
  dsimp only
  generalize w.tell (Transfers.expire reg (min began w.now) w.state) = w₁ at hk he hd ⊢
  split
  next why s hissue =>
    obtain ⟨issued, rfl⟩ := issueLocked_error hissue
    exact { hk with }
  next r position s hissue =>
    obtain ⟨queued, g, hplace, hr, rfl, rfl, rfl⟩ := issueLocked_ok hissue
    obtain ⟨_, hentry, _⟩ := unused_iff.1 hr
    have hnew : g ∉ w₁.past.drawn := hd ▸ hfresh g rfl
    have hother : ∀ {k e}, w₁.state.entries.get k = some e →
        (w₁.state.entries.set r ⟨g, t, min began w.now + reg.ttl, queued, person⟩).get k = some e := by
      intro k e hget
      have hne : k ≠ r := by
        rintro rfl
        rw [hentry] at hget
        cases hget
      rw [Map.get_set, if_neg hne]
      exact hget
    refine hk.grow he ?_ ?_ (fun _ _ hc => .inl hc) fun _ ha => .inl ha
    · exact {
        now := le_rfl
        started := fun _ hg => hg
        killed := fun _ hg => hg
        finished := fun _ hg => hg
        foreign := fun _ hg => hg
        spent := fun _ hg => hg
        waiting := fun _ e hget hq => .inl ⟨e, hother hget, rfl, hq⟩
        ready := fun _ _ hget _ => .inl (hother hget)
        back := fun k e' hget => by
          have hget' : (w₁.state.entries.set r
            ⟨g, t, min began w.now + reg.ttl, queued, person⟩).get k = some e' := hget
          rw [Map.get_set] at hget'
          split at hget'
          · rw [← Option.some.inj hget']
            exact .inr hnew
          · exact .inl ⟨e', hget', rfl⟩ }
    · intro k g' hmem
      have hmem' : (k, g') ∈ if queued.getD 0 = 0 then w₁.past.arrived
          else w₁.past.arrived ++ [(r, g)] := hmem
      split at hmem'
      · exact .inl hmem'
      next hpos =>
        rcases List.mem_append.1 hmem' with hold | hlast
        · exact .inl hold
        · obtain ⟨rfl, rfl⟩ := Prod.mk.inj (List.mem_singleton.1 hlast)
          refine .inr ⟨⟨g', t, min began w.now + reg.ttl, queued, person⟩, ?_, rfl, ?_⟩
          · show (w₁.state.entries.set k _).get k = _
            rw [Map.get_set, if_pos rfl]
          · show queued.isSome = true
            cases queued with
            | none => exact absurd rfl hpos
            | some n => rfl

theorem Kept.runUpload (h : Kept reg w) (principal : FilePrincipal) (person : String)
    (draws : List (Option Nat)) : Kept reg (w.runUpload reg principal person draws) := by
  unfold World.runUpload Transfers.runUpload
  split
  next => exact h
  next r s hrun =>
    have hentries : s.entries = w.state.entries := by
      split at hrun
      · split at hrun
        · cases (Prod.mk.inj hrun).1
        · rw [← (Prod.mk.inj hrun).2]
      · cases (Prod.mk.inj hrun).1
    exact { h with
      waits := fun r g hr => (h.waits r g hr).imp
        (fun ⟨e, he, hx⟩ => ⟨e, by rw [← hentries] at he; exact he, hx⟩) id
      held := fun c call p hc hp hq => by
        refine (h.held c call p hc hp hq).imp (fun he => ?_) id
        rw [← hentries] at he
        exact he
      judged := fun c p judgedAt session hc => by
        obtain ⟨hover, hwait⟩ := h.judged c p judgedAt session hc
        refine ⟨fun hsession r e he => hover hsession r e ?_, hwait⟩
        rw [← hentries]
        exact he }

theorem Kept.present (h : Kept reg w) (hs : Sound reg w) (c : Nat) (peer : IpAddr)
    (preamble : Preamble) : Kept reg (w.present c peer preamble) := by
  unfold World.present
  split
  next e hnone he =>
    dsimp only
    generalize (e.transfer.peer.all fun expected => expected.toCanonical == peer.toCanonical) = fromPeer
    refine h.grow hs (grows_same rfl le_rfl rfl rfl (fun _ hg => hg) (fun g hg => ?_) fun _ ha => ha)
      (fun _ _ hr => .inl hr) (fun k call hc => ?_) fun _ ha => .inl ha
    · show g ∈ if fromPeer then w.past.foreign else e.generation :: w.past.foreign
      split
      · exact hg
      · exact List.mem_cons_of_mem _ hg
    · have hc' : (w.calls.set c (.read ⟨preamble, e, fromPeer⟩)).get k = some call := hc
      rw [Map.get_set] at hc'
      split at hc'
      · obtain rfl := Option.some.inj hc'
        refine .inr ⟨fun p hp => ?_, fun _ _ _ hj => by cases hj⟩
        obtain rfl := Option.some.inj hp
        refine ⟨fun _ => .inl he, fun hpeer => ?_⟩
        obtain rfl : fromPeer = false := hpeer
        exact List.mem_cons_self
      · exact .inl hc'
  next => exact h

theorem Kept.judge (h : Kept reg w) (hs : Sound reg w) (hm : Marked w) {c : Nat}
    (hin : inTime w (.judge c) = true) : Kept reg (w.judge c) := by
  unfold World.judge
  split
  next p hcall =>
    dsimp only
    split
    next hbusy =>
      have hg : Grows w ({ w with calls := w.calls.drop c }.answer p w.now
          (w.alive p.entry.transfer.principal) (.error .busy) false) :=
        grows_same rfl le_rfl rfl rfl (fun _ hg => hg) (fun _ hg => hg)
          fun _ ha => List.mem_cons_of_mem _ ha
      refine h.grow hs hg (fun _ _ hr => .inl hr) (fun k call hc => ?_) fun a ha => ?_
      · have hc' : (w.calls.drop c).get k = some call := hc
        rw [Map.get_drop] at hc'
        split at hc'
        · cases hc'
        · exact .inl hc'
      · rcases List.mem_cons.1 ha with rfl | ha
        · refine .inr fun _ _ => ⟨fun _ => rfl, fun hq => ?_⟩
          have hq' : p.entry.queued = none := hq
          rw [hq', Option.isSome_none, Bool.and_false] at hbusy
          cases hbusy
        · exact .inl ha
    next hno =>
      refine h.grow hs (grows_same rfl le_rfl rfl rfl (fun _ hg => hg) (fun _ hg => hg) fun _ ha => ha)
        (fun _ _ hr => .inl hr) (fun k call hc => ?_) fun _ ha => .inl ha
      have hc' : (w.calls.set c (.judged p w.now (w.alive p.entry.transfer.principal))).get k =
        some call := hc
      rw [Map.get_set] at hc'
      split at hc'
      · obtain rfl := Option.some.inj hc'
        refine .inr ⟨fun p' hp => ?_, fun p' judgedAt session hj => ?_⟩
        · obtain rfl := Option.some.inj hp
          exact ⟨h.held c _ p hcall rfl, h.foreign c _ p hcall rfl⟩
        · obtain ⟨rfl, rfl, rfl⟩ := Call.judged.inj hj
          refine ⟨fun hover r e he hgen => hm r e he ?_, fun hq hpeer => ?_⟩
          · rw [((hs.calls c _ p hcall rfl).2 r e he hgen).2.1]
            exact hover
          · by_contra halive
            rw [Bool.not_eq_false] at halive
            refine hno ?_
            rw [decide_eq_true (inTime_judge hin hcall hq hpeer halive), halive, hpeer, hq]
            rfl
      · exact .inl hc'
  next => exact h

theorem Kept.spend (h : Kept reg w) (hs : Sound reg w) (c : Nat) : Kept reg (w.spend reg c) := by
  unfold World.spend
  split
  next p judgedAt session hcall =>
    dsimp only
    obtain ⟨hover, hwait⟩ := h.judged c p judgedAt session hcall
    have hcalls : ∀ k call, (w.calls.drop c).get k = some call → w.calls.get k = some call := by
      intro k call hc
      rw [Map.get_drop] at hc
      split at hc
      · cases hc
      · exact hc
    split
    next hstands =>
      rw [Option.any_eq_true] at hstands
      obtain ⟨e, he, hgen⟩ := hstands
      rw [beq_iff_eq] at hgen
      have hsnap := (hs.calls c _ p hcall rfl).2 _ e he hgen
      have hdrop : ∀ {k e'}, k ≠ p.preamble.reference → w.state.entries.get k = some e' →
          (w.state.entries.drop p.preamble.reference).get k = some e' := by
        intro k e' hk hget
        rw [Map.get_drop, if_neg hk]
        exact hget
      refine h.grow hs ?_ (fun _ _ hr => .inl hr) (fun k call hc => .inl (hcalls k call hc))
        fun a ha => ?_
      · exact {
          now := le_rfl
          started := fun _ hg => hg
          killed := fun _ hg => hg
          finished := fun _ hg => hg
          foreign := fun _ hg => hg
          spent := fun _ ⟨a, ha, hsp⟩ => ⟨a, List.mem_cons_of_mem _ ha, hsp⟩
          waiting := fun k e' hget hq => by
            by_cases hk : k = p.preamble.reference
            · subst hk
              obtain rfl := Option.some.inj (he.symm.trans hget)
              refine .inr ?_
              cases hpeer : p.fromPeer with
              | false =>
                refine .inr (.inr (.inr ?_))
                rw [hgen]
                exact h.foreign c _ p hcall rfl hpeer
              | true =>
                have hsession := hwait (hsnap.2.2.2 hq).1 hpeer
                exact .inr (.inr (.inl (hover hsession _ e he hgen)))
            · exact .inl ⟨e', hdrop hk hget, rfl, hq⟩
          ready := fun k e' hget hq => by
            by_cases hk : k = p.preamble.reference
            · subst hk
              obtain rfl := Option.some.inj (he.symm.trans hget)
              exact .inr (.inl ⟨_, List.mem_cons_self, rfl, hgen.symm⟩)
            · exact .inl (hdrop hk hget)
          back := fun k e' hget => by
            have hget' : (w.state.entries.drop p.preamble.reference).get k = some e' := hget
            rw [Map.get_drop] at hget'
            split at hget'
            · cases hget'
            · exact .inl ⟨e', hget', rfl⟩ }
      · rcases List.mem_cons.1 ha with rfl | ha
        · refine .inr fun hpeer hsession => ⟨fun hq => ?_, fun hq hnow => .inl ⟨rfl, ?_⟩⟩
          · have hdead := hwait hq hpeer
            have hlive : session = true := hsession
            rw [hdead] at hlive
            cases hlive
          · show p.outcome reg judgedAt session = _
            have hpeer' : p.fromPeer = true := hpeer
            have hlive : session = true := hsession
            have hnow' : judgedAt < p.entry.expires := hnow
            rw [Presented.outcome, hpeer', hlive, decide_eq_true hnow']
            rfl
        · exact .inl ha
    next hno =>
      have hg : Grows w ({ w with calls := w.calls.drop c }.answer p judgedAt session
          (.error .notFound) false) :=
        grows_same rfl le_rfl rfl rfl (fun _ hg => hg) (fun _ hg => hg)
          fun _ ha => List.mem_cons_of_mem _ ha
      refine h.grow hs hg (fun _ _ hr => .inl hr) (fun k call hc => .inl (hcalls k call hc))
        fun a ha => ?_
      rcases List.mem_cons.1 ha with rfl | ha
      · refine .inr fun hpeer hsession => ⟨fun hq => ?_, fun hq hnow => .inr ⟨rfl, ?_⟩⟩
        · have hdead := hwait hq hpeer
          have hlive : session = true := hsession
          rw [hdead] at hlive
          cases hlive
        · rcases h.held c _ p hcall rfl hq with he | hgone
          · refine absurd ?_ hno
            rw [he, Option.any_some, beq_self_eq_true]
          · exact hg.gone le_rfl hgone
      · exact .inl ha
  next => exact h

theorem Kept.gathered (h : Kept reg w) (c : Nat) (waiting : List (Nat × FilePrincipal))
    (gone : List Nat) : Kept reg { w with calls := w.calls.set c (.gathered waiting gone) } := by
  have hback : ∀ {k call p}, (w.calls.set c (.gathered waiting gone)).get k = some call →
      call.presented = some p → w.calls.get k = some call := by
    intro k call p hc hp
    rw [Map.get_set] at hc
    split at hc
    · obtain rfl := Option.some.inj hc
      cases hp
    · exact hc
  exact { h with
    held := fun k call p hc hp => h.held k call p (hback hc hp) hp
    foreign := fun k call p hc hp => h.foreign k call p (hback hc hp) hp
    judged := fun k p judgedAt session hc => h.judged k p judgedAt session (hback hc rfl) }

theorem Kept.act (h : Kept reg w) (hs : Sound reg w) (hm : Marked w) (op : Op)
    (hfresh : ∀ g, op.generation = some g → g ∉ w.past.drawn) (hin : inTime w op = true) :
    Kept reg (act reg w op) := by
  cases op with
  | wait d =>
    exact h.grow_quiet hs (grows_same rfl (Nat.le_add_right ..) rfl rfl (fun _ hg => hg)
      (fun _ hg => hg) fun _ ha => ha) rfl (fun _ _ hc => hc) rfl
  | login uid serial => exact { h with }
  | logout uid => exact { h with }
  | issueAs t person began draws generation => exact h.issueAs hs t person began draws generation hfresh
  | runUpload principal person draws => exact h.runUpload principal person draws
  | present c peer preamble => exact h.present hs c peer preamble
  | judge c => exact h.judge hs hm hin
  | spend c => exact h.spend hs c
  | letGo r => exact h.letGo hs r
  | kill principal r => exact h.kill hs principal r
  | gather c =>
    show Kept reg (w.gather c)
    unfold World.gather
    split
    · exact h.gathered c _ _
    · exact h
  | lookUp c =>
    show Kept reg (w.lookUp c)
    unfold World.lookUp
    split
    · exact h.gathered c _ _
    · exact h
  | clear c began => exact h.clear hs hin

theorem Kept.mark (h : Kept reg w) (hs : Sound reg w) : Kept reg w.mark :=
  h.grow_quiet hs (grows_same rfl le_rfl rfl rfl (fun _ hg => List.mem_append_right _ hg)
    (fun _ hg => hg) fun _ ha => ha) rfl (fun _ _ hc => hc) rfl

theorem marked_mark (w : World) : Marked w.mark := by
  intro r e he hdead
  refine List.mem_append_left _ (List.mem_map.2 ⟨(r, e), List.mem_filter.2 ⟨?_, ?_⟩, rfl⟩)
  · exact Assoc.mem_of_lookup he
  · have hdead' : w.alive e.transfer.principal = false := hdead
    show (!w.alive e.transfer.principal) = true
    rw [hdead']
    rfl

end Grow

/-! ## Runs -/

theorem timely_append (reg : TransferRegistry) (ops : List Op) (op : Op) (w : World) :
    timely reg w (ops ++ [op]) = (timely reg w ops && inTime (ops.foldl (step reg) w) op) := by
  induction ops generalizing w with
  | nil => exact Bool.and_true _
  | cons o ops ih =>
    show (inTime w o && timely reg _ (ops ++ [op])) = _
    rw [ih, ← Bool.and_assoc]
    rfl

theorem kept_run (reg : TransferRegistry) (ops : List Op) (hdraws : (generations ops).Nodup)
    (htimely : timely reg {} ops = true) :
    Kept reg (run reg ops) ∧ Marked (run reg ops) := by
  induction ops using List.reverseRecOn with
  | nil =>
    refine ⟨⟨fun _ _ h => ?_, fun _ _ _ h => ?_, fun _ _ _ h => ?_, fun _ _ _ _ h => ?_,
      fun _ h => ?_⟩, fun _ _ h => ?_⟩ <;> cases h
  | append_singleton ops op ih =>
    obtain ⟨hbefore, hnew⟩ := generations_of_append hdraws
    rw [timely_append, Bool.and_eq_true] at htimely
    obtain ⟨hk, hm⟩ := ih hbefore htimely.1
    obtain ⟨hs, hdrawn⟩ := sound_run reg ops hbefore
    have hfresh : ∀ g, op.generation = some g → g ∉ (run reg ops).past.drawn :=
      fun g hg hmem => hnew g hg (hdrawn g hmem)
    have hact := hk.act hs hm op hfresh htimely.2
    rw [run_append]
    exact ⟨hact.mark (hs.act op hfresh), marked_mark _⟩

theorem Kept.unlost {reg : TransferRegistry} {w : World} (h : Kept reg w) (hs : Sound reg w) :
    Unlost reg w where
  waits r g hr := (h.waits r g hr).imp
    (fun hw => ⟨hw, (hs.queue r).2 (Exists.imp (fun _ he => ⟨he.1, he.2.2⟩) hw)⟩) id
  answers := h.answers

/-- Over a run whose every step is in time, no waiting download is lost. -/
theorem waiting_never_lost (reg : TransferRegistry) (ops : List Op)
    (hdraws : (generations ops).Nodup) (htimely : timely reg {} ops = true) : Unlost reg (run reg ops) :=
  (kept_run reg ops hdraws htimely).1.unlost (sound_run reg ops hdraws).1

namespace Sample

/-- Bob's client comes back too early, and again once Ann's download has ended. -/
def early : List Op :=
  waits ++ [.wait 59, .present 2 address (preamble 20), .judge 2, .letGo 10,
    .present 3 address (preamble 20), .judge 3, .spend 3]

end Sample

theorem waiting_never_lost_early : Unlost Sample.reg (run Sample.reg Sample.early) :=
  waiting_never_lost Sample.reg Sample.early (by decide) (by decide +kernel)

namespace Sample

/-- Bob's client comes back for its download a minute after it was issued, as it still waits. -/
def late : List Op :=
  waits ++ [.wait 60, .present 2 address (preamble 20), .judge 2, .spend 2]

end Sample

theorem late_presentation_loses : ¬ ∀ reg ops, (generations ops).Nodup → Unlost reg (run reg ops) := by
  intro h
  have hlost := (h Sample.reg Sample.late (by decide)).waits 20 200 (by decide +kernel)
  rcases hlost with ⟨_, hqueue⟩ | hstarted | hkilled | hover | hforeign
  · exact absurd hqueue (by decide +kernel)
  · exact absurd hstarted (by decide +kernel)
  · exact absurd hkilled (by decide +kernel)
  · exact absurd hover (by decide +kernel)
  · exact absurd hforeign (by decide +kernel)

end HxdNg.Transfers
