import Mathlib
import HxdNg.Lib.LeadQueue

/-!
# Runs of a queue whose callers take turns at leading

* `Policy.Lawful` : what the policy of a queue has to be for its callers not to be stranded;
* `World.Ready` : whom the lead is with;
* `World.Sound` : the invariant, kept by every step (`Sound.step`) and so by every run (`Sound.run`).
-/

namespace HxdNg.LeadQueue

variable {ρ : Type*}

/-- The lead goes to the first item somebody waits for, and is put down only where there is none; a
leader that has not come to its own item goes on leading, unless no item is ever posted, so that its
own is at the front of its first run. -/
structure Policy.Lawful (P : Policy ρ) : Prop where
  max_pos : 0 < P.max
  lead : ∀ p q mine i, (P.posts = false → ∀ j, p j = true) → P.handOn p q mine = .lead i →
    q.find? p = some i
  rest : ∀ p q mine, (P.posts = false → ∀ j, p j = true) → P.handOn p q mine = .rest →
    q.find? p = none
  patient : P.posts = false ∨ ∀ p q, P.handOn p q false = .again

namespace World

/-- The lead is with the first item somebody waits for, or with a caller at work that has its result
or will come to it. -/
def Ready (P : Policy ρ) (w : World ρ) : Holder ρ → Prop
  | .nobody => w.queue.find? w.waited = none
  | .granted _ i => w.queue.find? w.waited = some i
  | .slot i => w.queue.find? w.waited = some i
  | .leads _ led => match led.mine with
    | some r => (led.me, r) ∈ w.answers
    | none => led.me ∈ led.stage.inHand ∨ led.me ∈ led.stage.untold.map Prod.fst ∨
      (w.queue.find? w.waited = some led.me ∧
        (led.stage = .take ∨ ∀ p q, P.handOn p q false = .again))

structure Sound (P : Policy ρ) (w : World ρ) : Prop where
  linked : w.Linked
  ordered : w.Ordered P
  calls : w.Calls
  ready : w.Ready P w.holder

variable {P : Policy ρ} {w : World ρ} {c i : Nat} {rest : List Nat} {got : List (Nat × ρ)}
  {raised : Bool} {led : Led ρ} {me : Nat} {mine : Option ρ}

theorem sound_empty : (empty : World ρ).Sound P where
  linked := ⟨⟨fun _ => rfl, fun _ => rfl⟩, fun _ => rfl, fun _ => ⟨nofun, nofun⟩, nofun⟩
  ordered := ⟨rfl, nofun, rfl, ⟨[], rfl, rfl⟩, nofun, fun _ _ => rfl⟩
  calls := ⟨fun _ => rfl, fun _ _ => ⟨nofun, nofun⟩, fun _ => List.Pairwise.nil, nofun, nofun, nofun⟩
  ready := rfl

/-- Queueing more changes neither who is first nor what is told. -/
theorem ready_queue {w' : World ρ} {holder : Holder ρ} (h : w.Ready P holder)
    (hne : holder ≠ .nobody)
    (hq : ∀ i, w.queue.find? w.waited = some i → w'.queue.find? w'.waited = some i)
    (ha : w'.answers = w.answers) : w'.Ready P holder := by
  cases holder with
  | nobody => exact absurd rfl hne
  | granted d i => exact hq i h
  | slot i => exact hq i h
  | leads d led =>
    obtain ⟨me, mine, stage⟩ := led
    cases mine with
    | some r => exact (congrArg ((me, r) ∈ ·) ha).mpr h
    | none =>
      rcases h with h | h | ⟨h, h'⟩
      · exact .inl h
      · exact .inr (.inl h)
      · exact .inr (.inr ⟨hq me h, h'⟩)

namespace Sound

theorem waited_of (h : w.Sound P) (hp : P.posts = false) (j : Nat) : w.waited j = true := by
  rw [waited, h.ordered.posts hp j]
  rfl

/-- The first item waited for is not told of. -/
theorem first_untold (h : w.Sound P) (hi : w.queue.find? w.waited = some i) :
    i ∉ w.answers.map Prod.fst := by
  intro hm
  obtain ⟨a, ha, rfl⟩ := List.mem_map.1 hm
  exact h.ordered.not_queued (h.ordered.made_runs (h.ordered.answers_made ha).1)
    (List.mem_of_find?_eq_some hi)

theorem submit (h : w.Sound P) (c n : Nat) : (w.submit c n).Sound P := by
  refine ⟨h.linked.submit c n, h.ordered.submit h.linked c n, h.calls.submit h.ordered h.linked c n, ?_⟩
  have hr := h.ready
  unfold World.submit
  split
  case h_2 => exact hr
  split
  case h_1 => exact hr
  case h_2 n =>
  cases hw : w.leading with
  | true =>
    refine ready_queue hr (fun e => ?_) (fun i hi => ?_) rfl
    · rw [h.linked.leading.2 e] at hw
      cases hw
    · show (w.queue ++ List.range' w.next (n + 1)).find? w.waited = some i
      rw [List.find?_append, hi]
      rfl
  | false =>
    rw [h.linked.leading.1 hw] at hr
    show (w.queue ++ List.range' w.next (n + 1)).find? w.waited = some w.next
    have hn : w.waited w.next = true := by
      cases hp : w.posted w.next with
      | false => rw [waited, hp]; rfl
      | true => exact absurd (h.ordered.posted_lt _ hp) (Nat.lt_irrefl _)
    rw [List.find?_append, show w.queue.find? w.waited = none from hr, List.range'_succ,
      List.find?_cons_of_pos hn]
    rfl

theorem post (h : w.Sound P) (hp : P.posts = true) : w.post.Sound P := by
  refine ⟨⟨h.linked.leading, h.linked.caller, h.linked.slot, h.linked.unbroken⟩, h.ordered.post hp,
    h.calls.post, ?_⟩
  -- The posted item is not waited for, and the others are as before.
  have hfind : w.post.queue.find? w.post.waited = w.queue.find? w.waited := by
    show (w.queue ++ [w.next]).find? w.post.waited = _
    have hnext : w.post.waited w.next = false := by
      show (!Function.update w.posted w.next true w.next) = false
      rw [Function.update_self]
      rfl
    have hold : w.queue.find? w.post.waited = w.queue.find? w.waited :=
      List.find?_congr fun j hj => by
        show (!Function.update w.posted w.next true j) = !w.posted j
        rw [Function.update_of_ne (Nat.ne_of_lt (h.ordered.queue_lt hj))]
    rw [List.find?_append, hold, List.find?_cons_of_neg (by rw [hnext]; nofun), List.find?_nil,
      Option.or_none]
  by_cases hh : w.holder = .nobody
  · have hr := h.ready
    show w.post.Ready P w.holder
    rw [hh] at hr ⊢
    exact hfind.trans hr
  · exact ready_queue h.ready hh (fun i hi => hfind.trans hi) rfl

theorem grant (h : w.Sound P) (hc : w.caller c = .granted i rest) : (w.grant c i rest).Sound P := by
  have hh := h.linked.of_granted hc
  have hr := h.ready
  rw [hh] at hr
  refine ⟨h.linked.grant hc, ?_, ?_, hr⟩
  · refine h.ordered.congr rfl rfl rfl rfl rfl rfl ?_ ?_ <;> rw [hh] <;> rfl
  · refine h.calls.lead_moves (h.first_untold hr) nofun ?_ ?_ fun d l e => ?_
    · rw [hc]
      rfl
    · rw [hc]
      rfl
    · rw [hh] at e
      cases e

theorem collect (h : w.Sound P) {r : ρ} (hc : w.caller c = .waits (i :: rest) got raised)
    (hs : w.slot i = .done r) : (w.collect c i rest got raised r).Sound P := by
  refine ⟨h.linked.collect hc hs, h.ordered.congr rfl rfl rfl rfl rfl rfl rfl rfl,
    h.calls.collect hc hs, ?_⟩
  have hr := h.ready
  show Ready P (w.collect c i rest got raised r) w.holder
  cases hh : w.holder with
  | _ => rw [hh] at hr; exact hr

theorem takeLead (h : w.Sound P) (hc : w.caller c = .waits (i :: rest) got raised)
    (hs : w.slot i = .lead) : (w.takeLead c i rest got raised).Sound P := by
  have hh := (h.linked.slot i).1 hs
  have hr := h.ready
  rw [hh] at hr
  refine ⟨h.linked.takeLead hs, ?_, ?_, .inr (.inr ⟨hr, .inl rfl⟩)⟩
  · refine h.ordered.congr rfl rfl rfl rfl rfl rfl ?_ ?_ <;> rw [hh] <;> rfl
  · refine h.calls.lead_moves (h.first_untold hr) nofun ?_ ?_ fun d l e => ?_
    · rw [hc]
      rfl
    · rw [hc]
      rfl
    · rw [hh] at e
      cases e

section Leading
variable {outcome : Option (List ρ)} {run left : List Nat}

theorem takeRun (h : w.Sound P) (hP : P.Lawful)
    (hc : w.caller c = .leads ⟨me, mine, .take⟩ rest got raised) :
    ((w.takeRun P.max).goOn c ⟨me, mine, .apply (w.queue.take P.max)⟩ rest got raised).Sound P := by
  have hh := h.linked.of_leads hc
  have hr := h.ready
  rw [hh] at hr
  refine ⟨?_, h.ordered.takeRun hh, ?_, ?_⟩
  · exact Linked.goOn (w := w.takeRun P.max)
      ⟨h.linked.leading, h.linked.caller, h.linked.slot, h.linked.unbroken⟩ hh
  · exact Calls.goOn (w := w.takeRun P.max)
      ⟨h.calls.asked, h.calls.mem_asked, h.calls.sorted, h.calls.got, h.calls.done, h.calls.told⟩
      hh hc rfl rfl
  · cases mine with
    | some r => exact hr
    | none =>
      rcases hr with hr | hr | ⟨hr, -⟩
      · cases hr
      · cases hr
      · by_cases hme : me ∈ w.queue.take P.max
        · exact .inl hme
        · have hsplit := hr
          rw [← List.take_append_drop P.max w.queue, List.find?_append] at hsplit
          have hnone : (w.queue.take P.max).find? w.waited = none := by
            cases hf : (w.queue.take P.max).find? w.waited with
            | none => rfl
            | some j =>
              rw [hf] at hsplit
              obtain rfl := Option.some.inj hsplit
              exact absurd (List.mem_of_find?_eq_some hf) hme
          rw [hnone] at hsplit
          refine .inr (.inr ⟨hsplit, .inr ?_⟩)
          -- With nothing posted the first item waited for heads the queue, so it is in the run.
          refine hP.patient.resolve_left fun hp => hme ?_
          cases hq : w.queue with
          | nil => rw [hq] at hr; cases hr
          | cons j q =>
            rw [hq, List.find?_cons_of_pos (h.waited_of hp j)] at hr
            obtain rfl := Option.some.inj hr
            cases hm : P.max with
            | zero => exact absurd hP.max_pos (by omega)
            | succ m => exact List.mem_cons_self

theorem record (h : w.Sound P) {run : List Nat} {results : List (Nat × ρ)} {raised' : Bool}
    (hc : w.caller c = .leads ⟨me, mine, .apply run⟩ rest got raised)
    (hrun : results.map Prod.fst = run) :
    ((w.record results).goOn c ⟨me, mine, .answer results⟩ rest got raised').Sound P := by
  have hh := h.linked.of_leads hc
  have hr := h.ready
  rw [hh] at hr
  refine ⟨?_, h.ordered.record hh hrun, ?_, ?_⟩
  · exact Linked.goOn (w := w.record results)
      ⟨h.linked.leading, h.linked.caller, h.linked.slot, h.linked.unbroken⟩ hh
  · exact Calls.goOn (w := w.record results)
      ⟨h.calls.asked, h.calls.mem_asked, h.calls.sorted, h.calls.got, h.calls.done, h.calls.told⟩
      hh hc rfl rfl
  · cases mine with
    | some r => exact hr
    | none =>
      rcases hr with hr | hr | ⟨hr, hr'⟩
      · exact .inr (.inl (hrun ▸ hr))
      · cases hr
      · exact .inr (.inr ⟨hr, .inr (hr'.resolve_left nofun)⟩)

/-- The leader goes on, and what it has in hand is as it was. -/
theorem goOn (h : w.Sound P) {stage stage' : Stage ρ}
    (hc : w.caller c = .leads ⟨me, mine, stage⟩ rest got raised)
    (hi : stage'.inHand = stage.inHand) (hu : stage'.untold = stage.untold)
    (hmine : mine = none → stage ≠ .take) :
    (w.goOn c ⟨me, mine, stage'⟩ rest got raised).Sound P := by
  have hh := h.linked.of_leads hc
  have hr := h.ready
  rw [hh] at hr
  refine ⟨h.linked.goOn hh, h.ordered.congr rfl rfl rfl rfl rfl rfl ?_ ?_,
    h.calls.goOn hh hc rfl rfl, ?_⟩
  · rw [hh]
    exact hi
  · rw [hh]
    exact hu
  · cases mine with
    | some r => exact hr
    | none =>
      rcases hr with hr | hr | ⟨hr, hr'⟩
      · exact .inl ((congrArg (me ∈ ·) hi).mpr hr)
      · exact .inr (.inl ((congrArg (me ∈ List.map Prod.fst ·) hu).mpr hr))
      · exact .inr (.inr ⟨hr, .inr (hr'.resolve_left (hmine rfl))⟩)

theorem me_waited (h : w.Sound P) (hc : w.caller c = .leads led rest got raised) :
    w.waited led.me = true := by
  rw [waited, ((h.calls.mem_asked c led.me).1 (h.calls.todo_asked (Calls.me_todo hc))).2.1]
  rfl

theorem next_untold (h : w.Sound P) {r : ρ} {left : List (Nat × ρ)}
    (hc : w.caller c = .leads ⟨me, mine, .answer ((i, r) :: left)⟩ rest got raised) :
    i ∉ w.answers.map Prod.fst := by
  refine h.ordered.untold_not_answered ?_
  rw [h.linked.of_leads hc]
  exact List.mem_cons_self

theorem tellMe (h : w.Sound P) {r : ρ} {left : List (Nat × ρ)}
    (hc : w.caller c = .leads ⟨me, mine, .answer ((me, r) :: left)⟩ rest got raised) :
    ((w.tellMe me r).goOn c ⟨me, some r, .answer left⟩ rest got raised).Sound P := by
  have hh := h.linked.of_leads hc
  refine ⟨?_, ?_, h.calls.tellMe hh hc (h.next_untold hc) rfl rfl, ?_⟩
  · exact Linked.goOn (w := w.tellMe me r)
      ⟨h.linked.leading, h.linked.caller, h.linked.slot, h.linked.unbroken⟩ hh
  · refine h.ordered.told hh rfl rfl rfl rfl rfl ?_ rfl
    rw [show w.waited me = true from h.me_waited hc]
    rfl
  · exact List.mem_append_right _ (List.mem_singleton_self _)

theorem tell (h : w.Sound P) {r : ρ} {left : List (Nat × ρ)}
    (hc : w.caller c = .leads ⟨me, mine, .answer ((i, r) :: left)⟩ rest got raised)
    (hi : i ≠ me) (hw : w.waited i = true) :
    ((w.tell i r).goOn c ⟨me, mine, .answer left⟩ rest got raised).Sound P := by
  have hh := h.linked.of_leads hc
  have hr := h.ready
  rw [hh] at hr
  refine ⟨(h.linked.tell hh).goOn hh, ?_, h.calls.tell hh hc (h.next_untold hc) rfl rfl, ?_⟩
  · refine h.ordered.told hh rfl rfl rfl rfl rfl ?_ rfl
    rw [hw]
    rfl
  · cases mine with
    | some x => exact List.mem_append_left _ hr
    | none =>
      rcases hr with hr | hr | ⟨hr, hr'⟩
      · cases hr
      · exact .inr (.inl ((List.mem_cons.1 hr).resolve_left hi.symm))
      · exact .inr (.inr ⟨hr, .inr (hr'.resolve_left nofun)⟩)

/-- Nobody waits for a posted item's result. -/
theorem skip (h : w.Sound P) {r : ρ} {left : List (Nat × ρ)}
    (hc : w.caller c = .leads ⟨me, mine, .answer ((i, r) :: left)⟩ rest got raised)
    (hi : i ≠ me) (hw : w.waited i = false) :
    (w.goOn c ⟨me, mine, .answer left⟩ rest got raised).Sound P := by
  have hh := h.linked.of_leads hc
  have hr := h.ready
  rw [hh] at hr
  refine ⟨h.linked.goOn hh, ?_, h.calls.goOn hh hc rfl rfl, ?_⟩
  · refine h.ordered.told hh rfl rfl rfl rfl rfl ?_ rfl
    rw [hw]
    exact (List.append_nil _).symm
  · cases mine with
    | some x => exact hr
    | none =>
      rcases hr with hr | hr | ⟨hr, hr'⟩
      · cases hr
      · exact .inr (.inl ((List.mem_cons.1 hr).resolve_left hi.symm))
      · exact .inr (.inr ⟨hr, .inr (hr'.resolve_left nofun)⟩)

/-- A leader that goes on to hand the lead on has its result. -/
theorem mine_of_handOn (h : w.Sound P) (hc : w.caller c = .leads ⟨me, mine, .hand⟩ rest got raised)
    (hn : P.handOn w.waited w.queue mine.isSome ≠ .again) :
    ∃ r, mine = some r ∧ (me, r) ∈ w.answers := by
  have hr := h.ready
  rw [h.linked.of_leads hc] at hr
  cases mine with
  | some r => exact ⟨r, rfl, hr⟩
  | none =>
    rcases hr with hr | hr | ⟨-, hr⟩
    · cases hr
    · cases hr
    · exact absurd (hr.resolve_left nofun _ _) hn

/-- The lead is handed on to `x`. -/
theorem handOn (h : w.Sound P) (hc : w.caller c = .leads ⟨me, mine, .hand⟩ rest got raised) {r : ρ}
    (hr : mine = some r) (hm : (me, r) ∈ w.answers) {x : Option Nat}
    (hx : w.queue.find? w.waited = x) :
    (w.handOn c (finished ⟨me, mine, .hand⟩ rest got raised) x).Sound P := by
  have hh := h.linked.of_leads hc
  refine ⟨h.linked.handOn hh hr x, ?_, h.calls.handOn hh hc hr hm fun i hi => ?_, ?_⟩
  · cases x <;> refine h.ordered.congr rfl rfl rfl rfl rfl rfl ?_ ?_ <;> rw [hh] <;> rfl
  · exact h.first_untold (hx.trans hi)
  · cases x with
    | none => exact hx
    | some i => exact hx

theorem leaderStep (h : w.Sound P) (hP : P.Lawful)
    (hc : w.caller c = .leads led rest got raised)
    (hf : ∀ run rs, led.stage = .apply run → outcome = some rs → rs.length = run.length) :
    (P.leaderStep w c led rest got raised outcome).Sound P := by
  obtain ⟨me, mine, stage⟩ := led
  cases stage with
  | take => exact h.takeRun hP hc
  | apply run =>
    cases outcome with
    | none => exact h.record hc (by rw [List.map_map]; exact List.map_id run)
    | some rs => exact h.record hc (List.map_fst_zip (Nat.le_of_eq (hf run rs rfl rfl).symm))
  | answer left =>
    cases left with
    | nil => exact h.goOn hc rfl rfl (by simp)
    | cons a left =>
      obtain ⟨i, r⟩ := a
      show Sound P (if i = me then _ else _)
      split
      case isTrue hi =>
        subst hi
        exact h.tellMe hc
      case isFalse hi =>
      split
      case isTrue hw => exact h.tell hc hi hw
      case isFalse hw => exact h.skip hc hi (Bool.eq_false_iff.2 hw)
  | hand =>
    simp only [Policy.leaderStep]
    split
    case h_1 i hn =>
      obtain ⟨r, hr, hm⟩ := h.mine_of_handOn hc (hn ▸ (by simp))
      exact h.handOn hc hr hm (hP.lead _ _ _ _ h.waited_of hn)
    case h_2 hn =>
      obtain ⟨r, hr, hm⟩ := h.mine_of_handOn hc (hn ▸ (by simp))
      exact h.handOn hc hr hm (hP.rest _ _ _ h.waited_of hn)
    case h_3 => exact h.goOn hc rfl rfl (by simp)

end Leading

theorem step (h : w.Sound P) (hP : P.Lawful) {a : Act ρ} (hf : a.Fits w) : (P.step w a).Sound P := by
  cases a with
  | submit c n => exact h.submit c n
  | post =>
    show Sound P (if P.posts then w.post else w)
    split
    case isTrue hp => exact h.post hp
    case isFalse => exact h
  | step c outcome =>
    show Sound P (P.callerStep w c outcome)
    unfold Policy.callerStep
    split
    case h_1 i rest hc => exact h.grant hc
    case h_2 i rest got raised hc =>
      split
      case h_1 => exact h
      case h_2 r hs => exact h.collect hc hs
      case h_3 hs => exact h.takeLead hc hs
    case h_3 led rest got raised hc =>
      refine h.leaderStep hP hc fun run rs hs ho => ?_
      subst ho
      exact hf led rest got raised run hc hs
    case h_4 => exact h

theorem run (hP : P.Lawful) {acts : List (Act ρ)} {w' : World ρ} (hr : P.Runs w acts w') :
    w.Sound P → w'.Sound P := by
  induction hr with
  | nil w => exact id
  | cons hf _ ih => exact fun h => ih (h.step hP hf)

end Sound

end World

end HxdNg.LeadQueue
