import Mathlib
import HxdNg.Transfers.Sound

/-!
# The registry's limits and its queue

* `sound_step`, `sound_run` : every step keeps the registry sound;
* `Honest` : what that says of limits, places and what sessions are told;
* `registry_honest` : of every run.
-/

namespace HxdNg.Transfers

open Assoc (Map)
open Limits (IpAddr)

section Step
variable {reg : TransferRegistry} {w : World}

/-! ## What goes -/

theorem Fewer.refl (s : State) : Fewer s s := ⟨fun _ _ h => h, fun _ _ => le_rfl, rfl⟩

theorem Fewer.trans {s₂ s₁ s : State} (h : Fewer s₂ s₁) (h' : Fewer s₁ s) : Fewer s₂ s :=
  ⟨fun r e he => h'.entries r e (h.entries r e he),
    fun dir who => le_trans (h.issued dir who) (h'.issued dir who), h.queue.trans h'.queue⟩

theorem fewer_unexpired (now : Nat) (s : State) :
    Fewer { s with entries := unexpired now s.entries } s where
  entries r e he := by
    have he' : (unexpired now s.entries).get r = some e := he
    rw [unexpired, Map.get_filter, Option.filter_eq_some_iff] at he'
    exact he'.1
  issued _ _ := count_filter_le ..
  queue := rfl

theorem fewer_drop (s : State) (r : Nat) : Fewer { s with entries := s.entries.drop r } s where
  entries k e he := by
    have he' : (s.entries.drop r).get k = some e := he
    rw [Map.get_drop] at he'
    split at he'
    · cases he'
    · exact he'
  issued _ _ := count_drop_le ..
  queue := rfl

theorem fewer_drops (s : State) (gone : List Nat) :
    Fewer { s with entries := gone.foldl Map.drop s.entries } s := by
  induction gone generalizing s with
  | nil => exact Fewer.refl s
  | cons r gone ih => exact (ih { s with entries := s.entries.drop r }).trans (fewer_drop s r)

/-- Entries go and no transfer ends. -/
theorem Sound.promote_entries (h : Sound reg w) {s₀ : State} (hf : Fewer s₀ w.state)
    (hrun : s₀.running = w.state.running) (now : Nat) : Sound reg (w.tell (Transfers.promote reg now s₀)) := by
  refine @Sound.promote reg w s₀ w.guards now h hf ?_ ?_ (fun _ _ hg => hg) fun _ _ => ?_
  · intro r run hr
    exact hrun ▸ hr
  · intro r
    rw [hrun]
    exact h.guards r
  · rw [hrun]

theorem Sound.expire (h : Sound reg w) (now : Nat) : Sound reg (w.tell (Transfers.expire reg now w.state)) := by
  unfold Transfers.expire
  dsimp only
  split
  · exact { h with }
  · exact h.promote_entries (fewer_unexpired now w.state) rfl now

/-! ## The operations -/

/-- A refused request leaves the registry as it was, but for what keys have counted. -/
theorem issueLocked_error {s s' : State} {t : PreparedTransfer} {person : String} {now : Nat}
    {draws : List (Option Nat)} {generation : Option Nat} {why : FileError}
    (h : issueLocked reg s t person now draws generation = (.error why, s')) :
    ∃ issued, s' = { s with issued := issued } := by
  unfold issueLocked at h
  split at h
  · split at h
    · exact ⟨_, (Prod.mk.inj h).2.symm⟩
    · split at h
      · exact ⟨_, (Prod.mk.inj h).2.symm⟩
      · split at h
        · exact ⟨_, (Prod.mk.inj h).2.symm⟩
        · cases (Prod.mk.inj h).1
  · exact ⟨_, (Prod.mk.inj h).2.symm⟩

theorem issueLocked_ok {s s' : State} {t : PreparedTransfer} {person : String} {now r position : Nat}
    {draws : List (Option Nat)} {generation : Option Nat}
    (h : issueLocked reg s t person now draws generation = (.ok (r, position), s')) :
    ∃ queued g, reg.place s t person = .ok queued ∧ s.unused r = true ∧ generation = some g ∧
      position = queued.getD 0 ∧
      s' = s.enter r ⟨g, t, now + reg.ttl, queued, person⟩ := by
  unfold issueLocked at h
  split at h
  · split at h
    · cases (Prod.mk.inj h).1
    next queued hplace =>
      split at h
      · cases (Prod.mk.inj h).1
      next r' hr =>
        split at h
        · cases (Prod.mk.inj h).1
        next g =>
          obtain ⟨hok, hs⟩ := Prod.mk.inj h
          obtain ⟨rfl, rfl⟩ := Prod.mk.inj (Except.ok.inj hok)
          have hfree := allocate_free hr
          rw [Bool.and_eq_true] at hfree
          exact ⟨queued, g, hplace, hfree.1, rfl, rfl, hs.symm⟩
  · cases (Prod.mk.inj h).1

theorem Sound.issueAs (h : Sound reg w) (t : PreparedTransfer) (person : String) (began : Nat)
    (draws : List (Option Nat)) (generation : Option Nat)
    (hfresh : ∀ g, generation = some g → g ∉ w.past.drawn) :
    Sound reg (w.issueAs reg t person began draws generation) := by
  have he := h.expire (min began w.now)
  unfold World.issueAs
  dsimp only
  split
  next why s hissue =>
    obtain ⟨issued, rfl⟩ := issueLocked_error hissue
    exact { he with }
  next r position s hissue =>
    obtain ⟨queued, g, hplace, hr, rfl, rfl, rfl⟩ := issueLocked_ok hissue
    exact @Sound.enter reg _ r ⟨g, t, min began w.now + reg.ttl, queued, person⟩ he hr (hfresh g rfl)
      hplace

theorem Sound.runUpload (h : Sound reg w) (principal : FilePrincipal) (person : String)
    (draws : List (Option Nat)) : Sound reg (w.runUpload reg principal person draws) := by
  unfold World.runUpload Transfers.runUpload
  by_cases hmay : mayStart reg.transfers w.state.entries w.state.running .up person = true
  · rw [if_pos hmay]
    cases hr : allocate w.state.unused draws with
    | none => exact h
    | some r =>
      obtain ⟨hzero, hentry, hrunning⟩ := unused_iff.1 (allocate_free hr)
      dsimp only
      have hne : ∀ {k run}, w.state.running.get k = some run → k ≠ r := by
        rintro k run hk rfl
        rw [hrunning] at hk
        cases hk
      exact { h with
        runningZero := by
          show (w.state.running.set r _).get 0 = none
          rw [Map.get_set, if_neg (Ne.symm hzero)]
          exact h.runningZero
        apart := fun k => by
          show _ ∨ (w.state.running.set r _).get k = none
          rw [Map.get_set]
          by_cases hk : k = r
          · rw [hk]
            exact .inl hentry
          · rw [if_neg hk]
            exact h.apart k
        guards := fun k => by
          show ((w.guards.set r _).get k).isSome = ((w.state.running.set r _).get k).isSome
          rw [Map.get_set, Map.get_set]
          by_cases hk : k = r
          · rw [if_pos hk, if_pos hk]
            rfl
          · rw [if_neg hk, if_neg hk]
            exact h.guards k
        within := fun dir who hlimit => by
          have hold := h.within dir who hlimit
          refine (congrArg (issuedFor w.state.entries dir who + ·)
            (liveFor_set hrunning _ _)).trans_le ?_
          dsimp only
          by_cases hin : Direction.up = dir ∧ covers who person = true ∧ Guard.piece ≠ .failed
          · rw [if_pos hin]
            obtain ⟨rfl, hwho, _⟩ := hin
            have hroom := lt_of_mayStart hmay hwho hlimit
            have := liveFor_le w.state.running w.guards .up who
            unfold used at hroom
            omega
          · rw [if_neg hin]
            exact hold
        settled := fun k hk e he => by
          refine mayStart_mono (fun who => Nat.add_le_add_left ?_ _) (h.settled k hk e he)
          exact le_of_le_of_eq (Nat.le_add_right _ _) (count_set_new hrunning).symm
        placed := fun hquiet => by
          refine h.placed fun k hg => ?_
          have hk : k ≠ r := by
            rintro rfl
            have := h.guards k
            rw [hg, hrunning] at this
            cases this
          refine hquiet k ?_
          show (w.guards.set r _).get k = _
          rw [Map.get_set, if_neg hk]
          exact hg
        hailed := fun k g run hg hrun => by
          have hg' : (w.guards.set r .piece).get k = some (.transfer g) := hg
          have hrun' : (w.state.running.set r ⟨.up, principal, person, false⟩).get k = some run := hrun
          rw [Map.get_set] at hg' hrun'
          by_cases hk : k = r
          · rw [if_pos hk] at hg'
            cases hg'
          · rw [if_neg hk] at hg' hrun'
            exact h.hailed k g run hg' hrun' }
  · rw [if_neg hmay]
    exact h

theorem Sound.letGo (h : Sound reg w) (r : Nat) : Sound reg (w.letGo reg r) := by
  unfold World.letGo
  split
  · exact h
  · refine @Sound.promote reg w { w.state with running := w.state.running.drop r }
      (w.guards.drop r) w.now h ⟨fun _ _ he => he, fun _ _ => le_rfl, rfl⟩ ?_ ?_ ?_
        fun _ _ => liveFor_drop
    · intro k run hrun
      have hrun' : (w.state.running.drop r).get k = some run := hrun
      rw [Map.get_drop] at hrun'
      split at hrun'
      · cases hrun'
      · exact hrun'
    · intro k
      show ((w.guards.drop r).get k).isSome = ((w.state.running.drop r).get k).isSome
      rw [Map.get_drop, Map.get_drop]
      split
      · rfl
      · exact h.guards k
    · intro k g hg
      rw [Map.get_drop] at hg
      split at hg
      · cases hg
      · exact hg

theorem Sound.cancel (h : Sound reg w) {r : Nat} {run : Running}
    (hrun : w.state.running.get r = some run) :
    Sound reg { w with
      state := { w.state with running := w.state.running.set r { run with cancel := true } } } := by
  have hget : ∀ k, (w.state.running.set r { run with cancel := true }).get k =
      (w.state.running.get k).map fun run' => if k = r then { run with cancel := true } else run' := by
    intro k
    rw [Map.get_set]
    by_cases hk : k = r
    · rw [if_pos hk, hk, hrun]
      simp
    · rw [if_neg hk]
      simp [hk]
  exact { h with
    runningZero := by
      refine (hget 0).trans ?_
      rw [h.runningZero]
      rfl
    apart := fun k => (h.apart k).imp id fun hk => (hget k).trans (by rw [hk]; rfl)
    guards := fun k => (h.guards k).trans
      ((congrArg Option.isSome (hget k)).trans (Option.isSome_map ..)).symm
    within := fun dir who hlimit => by
      refine (congrArg (issuedFor w.state.entries dir who + ·) (liveFor_cancel hrun)).trans_le ?_
      exact h.within dir who hlimit
    settled := fun k hk e he => by
      refine mayStart_mono (fun who => Nat.add_le_add_left ?_ _) (h.settled k hk e he)
      have := @count_set _ w.state.running r run { run with cancel := true }
        (fun r => r.direction == (direction e.transfer).getD .down && covers who r.person) hrun
      exact le_of_eq (Nat.add_right_cancel this).symm
    hailed := fun k g run' hg hrun' => by
      have hk := (hget k).symm.trans hrun'
      cases hold : w.state.running.get k with
      | none =>
        rw [hold] at hk
        cases hk
      | some old =>
        rw [hold, Option.map_some] at hk
        obtain rfl := Option.some.inj hk
        have htold := h.hailed k g old hg hold
        by_cases hkr : k = r
        · subst hkr
          rw [hrun] at hold
          obtain rfl := Option.some.inj hold
          rw [if_pos rfl]
          exact htold
        · rw [if_neg hkr]
          exact htold }

theorem Sound.kill (h : Sound reg w) (principal : FilePrincipal) (r : Nat) :
    Sound reg (w.kill reg principal r) := by
  have hk : Sound reg (w.tell (Transfers.kill reg w.now w.state principal r).2) := by
    unfold Transfers.kill
    split
    · exact h.promote_entries (fewer_drop w.state r) rfl w.now
    · split
      next run hrun =>
        split
        · have hc := h.cancel hrun
          exact { hc with }
        · exact { h with }
      · exact { h with }
  exact { hk with }

theorem Sound.clear (h : Sound reg w) (call began : Nat) : Sound reg (w.clear reg call began) := by
  unfold World.clear
  split
  next gone hcall =>
    have hf : Fewer { w.state with
        entries := unexpired (min began w.now) (gone.foldl Map.drop w.state.entries) } w.state :=
      (fewer_unexpired _ { w.state with entries := gone.foldl Map.drop w.state.entries }).trans
        (fewer_drops w.state gone)
    have hp := h.promote_entries hf rfl (min began w.now)
    have hback : ∀ {c call'}, (w.calls.drop call).get c = some call' → w.calls.get c = some call' := by
      intro c call' hc
      rw [Map.get_drop] at hc
      split at hc
      · cases hc
      · exact hc
    exact { hp with
      calls := fun c call' p hc hp' => hp.calls c call' p (hback hc) hp'
      judged := fun c p now session hc => hp.judged c p now session (hback hc) }
  next => exact h

/-- A call moves on, to read or judge a presentation of an entry that stands as it was read. -/
theorem Sound.call (h : Sound reg w) (c : Nat) (call : Call)
    (hcall : ∀ p, call.presented = some p → p.entry.generation ∈ w.past.drawn ∧
      ∀ r e, w.state.entries.get r = some e → Snapshot p r e)
    (hjudged : ∀ p now session, call = .judged p now session →
      now < p.entry.expires → session = true → p.fromPeer = true → p.entry.queued = none) :
    Sound reg { w with calls := w.calls.set c call } := by
  exact { h with
    calls := fun c' call' p hc hp => by
      have hc' : (w.calls.set c call).get c' = some call' := hc
      rw [Map.get_set] at hc'
      split at hc'
      · obtain rfl := Option.some.inj hc'
        exact hcall p hp
      · exact h.calls c' call' p hc' hp
    judged := fun c' p now session hc => by
      have hc' : (w.calls.set c call).get c' = some (.judged p now session) := hc
      rw [Map.get_set] at hc'
      split at hc'
      · exact hjudged p now session (Option.some.inj hc')
      · exact h.judged c' p now session hc' }

theorem Sound.dropCall (h : Sound reg w) (c : Nat) : Sound reg { w with calls := w.calls.drop c } := by
  have hback : ∀ {c' call'}, (w.calls.drop c).get c' = some call' → w.calls.get c' = some call' := by
    intro c' call' hc
    rw [Map.get_drop] at hc
    split at hc
    · cases hc
    · exact hc
  exact { h with
    calls := fun c' call' p hc hp => h.calls c' call' p (hback hc) hp
    judged := fun c' p now session hc => h.judged c' p now session (hback hc) }

theorem Sound.present (h : Sound reg w) (c : Nat) (peer : IpAddr) (preamble : Preamble) :
    Sound reg (w.present c peer preamble) := by
  unfold World.present
  split
  next e hnone he =>
    dsimp only
    generalize (e.transfer.peer.all fun expected => expected.toCanonical == peer.toCanonical) = fromPeer
    have hc := h.call c (.read ⟨preamble, e, fromPeer⟩) (fun p hp => by
      obtain rfl := Option.some.inj hp
      refine ⟨h.drawn _ e he, fun r e' he' hg => ?_⟩
      obtain rfl := h.unique r preamble.reference e' e he' he hg
      obtain rfl := Option.some.inj (he'.symm.trans he)
      exact ⟨rfl, rfl, rfl, fun hq => ⟨hq, rfl⟩⟩) fun p now session hj => by cases hj
    exact { hc with }
  next => exact h

theorem Sound.judge (h : Sound reg w) (c : Nat) : Sound reg (w.judge c) := by
  unfold World.judge
  split
  next p hcall =>
    dsimp only
    split
    · have hd := h.dropCall c
      exact { hd with }
    next hno =>
      refine h.call c _ (fun p' hp => ?_) fun p' now session hj hnow hs hpeer => ?_
      · obtain rfl := Option.some.inj hp
        exact h.calls c _ p hcall rfl
      · obtain ⟨rfl, rfl, rfl⟩ := Call.judged.inj hj
        cases hq : p.entry.queued with
        | none => rfl
        | some n =>
          refine absurd ?_ hno
          rw [hs, hpeer, hq, decide_eq_true hnow]
          rfl
  next => exact h

theorem Sound.spendCall (h : Sound reg w) (c : Nat) : Sound reg (w.spend reg c) := by
  unfold World.spend
  split
  next p judgedAt session hcall =>
    dsimp only
    split
    next hstands =>
      rw [Option.any_eq_true] at hstands
      obtain ⟨e, he, hg⟩ := hstands
      cases hok : p.outcome reg judgedAt session with
      | error e =>
        have hs := h.spend hcall he (beq_iff_eq.1 hg) false fun hfalse => by cases hfalse
        exact { hs with }
      | ok transfer =>
        have hs := h.spend hcall he (beq_iff_eq.1 hg) true fun _ => by
          have hlive : (decide (judgedAt < p.entry.expires) && session && p.fromPeer) = true := by
            by_contra hno
            rw [Presented.outcome, if_neg hno] at hok
            cases hok
          simp only [Bool.and_eq_true, decide_eq_true_eq] at hlive
          exact h.judged c p judgedAt session hcall hlive.1.1 hlive.1.2 hlive.2
        exact { hs with }
    · have hd := h.dropCall c
      exact { hd with }
  next => exact h

theorem Sound.gather (h : Sound reg w) (c : Nat) : Sound reg (w.gather c) := by
  unfold World.gather
  split
  · exact h.call c _ (fun p hp => by cases hp) fun _ _ _ hj => by cases hj
  · exact h

theorem Sound.lookUp (h : Sound reg w) (c : Nat) : Sound reg (w.lookUp c) := by
  unfold World.lookUp
  split
  · exact h.call c _ (fun p hp => by cases hp) fun _ _ _ hj => by cases hj
  · exact h

/-! ## Runs -/

theorem Sound.act (h : Sound reg w) (op : Op)
    (hfresh : ∀ g, op.generation = some g → g ∉ w.past.drawn) : Sound reg (act reg w op) := by
  cases op with
  | wait d => exact { h with }
  | login uid serial => exact { h with }
  | logout uid => exact { h with }
  | issueAs t person began draws generation => exact h.issueAs t person began draws generation hfresh
  | runUpload principal person draws => exact h.runUpload principal person draws
  | present c peer preamble => exact h.present c peer preamble
  | judge c => exact h.judge c
  | spend c => exact h.spendCall c
  | letGo r => exact h.letGo r
  | kill principal r => exact h.kill principal r
  | gather c => exact h.gather c
  | lookUp c => exact h.lookUp c
  | clear c began => exact h.clear c began

theorem sound_step (h : Sound reg w) (op : Op)
    (hfresh : ∀ g, op.generation = some g → g ∉ w.past.drawn) : Sound reg (step reg w op) := by
  have hact := h.act op hfresh
  exact { hact with }

theorem drawn_step (reg : TransferRegistry) (w : World) (op : Op) : (step reg w op).past.drawn = w.past.drawn ∨
    ∃ g, op.generation = some g ∧ (step reg w op).past.drawn = g :: w.past.drawn := by
  show (act reg w op).past.drawn = _ ∨ ∃ g, _ ∧ (act reg w op).past.drawn = _
  cases op with
  | issueAs t person began draws generation =>
    show (w.issueAs reg t person began draws generation).past.drawn = _ ∨
      ∃ g, _ ∧ (w.issueAs reg t person began draws generation).past.drawn = _
    unfold World.issueAs
    dsimp only
    split
    · exact .inl rfl
    next r position s hissue =>
      obtain ⟨_, g, _, _, rfl, _⟩ := issueLocked_ok hissue
      exact .inr ⟨g, rfl, rfl⟩
  | runUpload principal person draws =>
    refine .inl ?_
    show (w.runUpload reg principal person draws).past.drawn = _
    unfold World.runUpload
    split <;> rfl
  | present c peer preamble =>
    refine .inl ?_
    show (w.present c peer preamble).past.drawn = _
    unfold World.present
    split <;> rfl
  | judge c =>
    refine .inl ?_
    show (w.judge c).past.drawn = _
    unfold World.judge
    split
    · dsimp only
      split <;> rfl
    · rfl
  | spend c =>
    refine .inl ?_
    show (w.spend reg c).past.drawn = _
    unfold World.spend
    split
    · dsimp only
      split <;> rfl
    · rfl
  | letGo r =>
    refine .inl ?_
    show (w.letGo reg r).past.drawn = _
    unfold World.letGo
    split <;> rfl
  | gather c =>
    refine .inl ?_
    show (w.gather c).past.drawn = _
    unfold World.gather
    split <;> rfl
  | lookUp c =>
    refine .inl ?_
    show (w.lookUp c).past.drawn = _
    unfold World.lookUp
    split <;> rfl
  | clear c began =>
    refine .inl ?_
    show (w.clear reg c began).past.drawn = _
    unfold World.clear
    split <;> rfl
  | wait _ => exact .inl rfl
  | login _ _ => exact .inl rfl
  | logout _ => exact .inl rfl
  | kill _ _ => exact .inl rfl

end Step

def generations (ops : List Op) : List Nat := ops.filterMap Op.generation

theorem run_append (reg : TransferRegistry) (ops : List Op) (op : Op) :
    run reg (ops ++ [op]) = step reg (run reg ops) op := by
  simp [run]

theorem generations_append (ops : List Op) (op : Op) :
    generations (ops ++ [op]) = generations ops ++ op.generation.toList := by
  unfold generations
  rw [List.filterMap_append]
  cases hop : op.generation <;> simp [hop]

theorem generations_of_append {ops : List Op} {op : Op} (h : (generations (ops ++ [op])).Nodup) :
    (generations ops).Nodup ∧ ∀ g, op.generation = some g → g ∉ generations ops := by
  rw [generations_append] at h
  refine ⟨h.of_append_left, fun g hg hmem => ?_⟩
  exact List.disjoint_of_nodup_append h hmem (by rw [hg]; exact List.mem_cons_self)

theorem sound_run (reg : TransferRegistry) (ops : List Op) (hdraws : (generations ops).Nodup) :
    Sound reg (run reg ops) ∧ ∀ g ∈ (run reg ops).past.drawn, g ∈ generations ops := by
  induction ops using List.reverseRecOn with
  | nil => exact ⟨sound_start reg, fun g hg => absurd hg List.not_mem_nil⟩
  | append_singleton ops op ih =>
    obtain ⟨hbefore, hnew⟩ := generations_of_append hdraws
    obtain ⟨hs, hdrawn⟩ := ih hbefore
    rw [run_append, generations_append]
    refine ⟨sound_step hs op fun g hg hmem => hnew g hg (hdrawn g hmem), fun g hg => ?_⟩
    rw [List.mem_append]
    rcases drawn_step reg (run reg ops) op with heq | ⟨g', hg', heq⟩
    · rw [heq] at hg
      exact .inl (hdrawn g hg)
    · rw [heq] at hg
      rcases List.mem_cons.1 hg with rfl | hg
      · rw [hg']
        exact .inr List.mem_cons_self
      · exact .inl (hdrawn g hg)

/-! ## Limits and places -/

/-- Where a reference stands in the queue, 0 when it does not wait. -/
def State.placeOf (s : State) (r : Nat) : Nat :=
  if r ∈ s.queue then min (s.queue.idxOf r + 1) maxPosition else 0

/-- No claim that has failed still holds a guard. -/
def World.Quiet (w : World) : Prop := ∀ r, w.guards.get r ≠ some .failed

structure Honest (reg : TransferRegistry) (w : World) : Prop where
  apart : ∀ r, w.state.entries.get r = none ∨ w.state.running.get r = none
  nonzero : w.state.entries.get 0 = none ∧ w.state.running.get 0 = none
  nodup : w.state.queue.Nodup
  queue : ∀ r, r ∈ w.state.queue ↔ ∃ e, w.state.entries.get r = some e ∧ e.queued.isSome = true
  claimedOnce : w.past.claimed.Nodup
  within : ∀ dir, (reg.transfers.total dir ≠ 0 → w.countedFor dir none ≤ reg.transfers.total dir) ∧
    ∀ person, reg.transfers.perAccount dir ≠ 0 →
      w.countedFor dir (some person) ≤ reg.transfers.perAccount dir
  needed : ∀ r ∈ w.state.queue, ∀ e, w.state.entries.get r = some e →
    mayStart reg.transfers w.state.entries w.state.running .down e.person = false
  order : (w.state.queue.map fun r => (r, genOf w.state r)).Sublist w.past.arrived
  told : w.Quiet → ∀ r e, w.state.entries.get r = some e →
    lastTold w.past.told e.transfer.principal r = some (w.state.placeOf r)
  toldRunning : ∀ r g run, w.guards.get r = some (.transfer g) → w.state.running.get r = some run →
    lastTold w.past.told run.principal r = some 0

theorem Sound.placeOf {reg : TransferRegistry} {w : World} (h : Sound reg w) (hquiet : w.Quiet) {r : Nat}
    {e : Entry} (he : w.state.entries.get r = some e) : w.state.placeOf r = e.queued.getD 0 := by
  unfold State.placeOf
  by_cases hr : r ∈ w.state.queue
  · obtain ⟨e', he', hpos⟩ := h.placed hquiet _ r (List.getElem?_idxOf hr)
    obtain rfl := Option.some.inj (he'.symm.trans he)
    rw [if_pos hr, hpos]
    rfl
  · rw [if_neg hr]
    cases hq : e.queued with
    | none => rfl
    | some n => exact absurd ((h.queue r).2 ⟨e, he, by rw [hq]; rfl⟩) hr

theorem Sound.honest {reg : TransferRegistry} {w : World} (h : Sound reg w) : Honest reg w where
  apart := h.apart
  nonzero := ⟨h.entryZero, h.runningZero⟩
  nodup := h.nodup
  queue := h.queue
  claimedOnce := h.claimedOnce
  within dir := ⟨h.within dir none, fun person => h.within dir (some person)⟩
  needed r hr e he := by
    obtain ⟨e', he', hq⟩ := (h.queue r).1 hr
    obtain rfl := Option.some.inj (he'.symm.trans he)
    have hmay := h.settled r hr e' he
    rw [Entry.mayStart, h.down r e' he hq] at hmay
    exact hmay
  order := h.order
  told hquiet r e he := by
    rw [h.placeOf hquiet he]
    exact h.heard r e he
  toldRunning := h.hailed

/-- Over any interleaving of its operations, the registry keeps its limits and its queue honest. -/
theorem registry_honest (reg : TransferRegistry) (ops : List Op) (hdraws : (generations ops).Nodup) :
    Honest reg (run reg ops) :=
  (sound_run reg ops hdraws).1.honest

namespace Sample

/-- One download at a time, a minute to claim it. -/
def reg : TransferRegistry where
  limits := ⟨64, 8, 8⟩
  ttl := 60
  transfers := { downloads := 1 }
  digestMatches := (· == ·)

def ann : FilePrincipal := ⟨1, 1⟩
def bob : FilePrincipal := ⟨2, 2⟩

def address : IpAddr := .v4 (Bytes.replicate 4 192)

def file (p : FilePrincipal) (login : String) : PreparedTransfer :=
  ⟨p, login, some address, none, .download false 100⟩

def preamble (r : Nat) : Preamble := ⟨r, 0, 0, {}, none⟩

/-- Ann's download runs, and Bob's waits for it. -/
def waits : List Op :=
  [.login 1 1, .login 2 2,
    .issueAs (file ann "ann") "ann" 0 [some 10] (some 100),
    .present 1 address (preamble 10), .judge 1, .spend 1,
    .issueAs (file bob "bob") "bob" 0 [some 20] (some 200)]

end Sample

theorem registry_honest_waits : Honest Sample.reg (run Sample.reg (Sample.waits ++ [.letGo 10])) :=
  registry_honest Sample.reg _ (by decide)

end HxdNg.Transfers
