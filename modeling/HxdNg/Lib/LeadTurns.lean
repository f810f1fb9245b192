import HxdNg.Lib.LeadRuns

/-!
# Nobody is left waiting

* `World.rank` : no step raises it and each step of the leader lowers it, until the item is told its
  result (`Sound.rank_step`);
* `World.Orderly` : what a queue whose callers take turns at leading promises its callers;
* `told_of_leads` : enough steps of whoever leads bring every item waited for its result.
-/

namespace HxdNg.LeadQueue

variable {ρ : Type*}

namespace World

/-- The caller whose step the lead waits for. -/
def leader (w : World ρ) : Option Nat :=
  match w.holder with
  | .nobody => none
  | .granted c _ => some c
  | .slot i => some (w.owner i)
  | .leads c _ => some c

/-- How many steps the leader is at most from its next run, or from telling `i`. -/
def phase (w : World ρ) (i : Nat) : Holder ρ → Nat
  | .nobody => 0
  | .granted _ _ => 3
  | .slot j => 2 + ((w.caller (w.owner j)).todo.filter (· < j)).length
  | .leads _ led => match led.stage with
    | .take => 1
    | .apply run => i + 6 + (run.filter (· ≤ i)).length
    | .answer left => i + 5 + ((left.map Prod.fst).filter (· ≤ i)).length
    | .hand => i + 4

/-- How many steps of whoever leads item `i` is at most from being told its result. -/
def rank (i : Nat) (w : World ρ) : Nat :=
  (i + 7) * (w.queue.filter (· ≤ i)).length + w.phase i w.holder

end World

/-- Whether an act is a step of whoever has the lead. -/
def Act.leads (w : World ρ) : Act ρ → Nat
  | .step c _ => if w.leader = some c then 1 else 0
  | _ => 0

/-- How many of the acts are steps of whoever has the lead at the time. -/
def Policy.leaderSteps (P : Policy ρ) : World ρ → List (Act ρ) → Nat
  | _, [] => 0
  | w, a :: as => a.leads w + P.leaderSteps (P.step w a) as

namespace World

variable {P : Policy ρ} {w : World ρ} {c i j : Nat} {rest : List Nat} {got : List (Nat × ρ)}
  {raised : Bool} {led : Led ρ} {me : Nat} {mine : Option ρ}

theorem length_filter_lt {l : List Nat} (hl : l.Nodup) (j : Nat) :
    (l.filter (· < j)).length ≤ j := by
  have hn : (l.filter (· < j)).Nodup := hl.sublist List.filter_sublist
  have hs : l.filter (· < j) ⊆ List.range j := fun x hx =>
    List.mem_range.2 (of_decide_eq_true (List.mem_filter.1 hx).2)
  have hle := (List.subperm_of_subset hn hs).length_le
  rwa [List.length_range] at hle

theorem length_filter_le {l : List Nat} (hl : l.Nodup) (i : Nat) :
    (l.filter (· ≤ i)).length ≤ i + 1 := by
  have heq : l.filter (· ≤ i) = l.filter (· < i + 1) :=
    List.filter_congr fun x _ => by simp only [Nat.lt_succ_iff]
  rw [heq]
  exact length_filter_lt hl (i + 1)

theorem filter_lt_eq_nil {l : List Nat} (hl : (j :: l).Pairwise (· < ·)) :
    (j :: l).filter (· < j) = [] := by
  refine List.filter_eq_nil_iff.2 fun x hx => ?_
  rcases List.mem_cons.1 hx with rfl | hx
  · simp
  · have := (List.pairwise_cons.1 hl).1 x hx
    simp only [decide_eq_true_eq]
    omega

namespace Sound

/-- The first item waited for is the least. -/
theorem first_le (h : w.Sound P) (hj : w.queue.find? w.waited = some j) (hi : i ∈ w.queue)
    (hw : w.waited i = true) : j ≤ i := by
  obtain ⟨-, as, bs, hq, has⟩ := List.find?_eq_some_iff_append.1 hj
  have hs := h.ordered.queue_sorted
  rw [hq] at hs hi
  rcases List.mem_append.1 hi with hi | hi
  · exact absurd hw (by simpa using has i hi)
  · rcases List.mem_cons.1 hi with rfl | hi
    · exact Nat.le_refl _
    · exact Nat.le_of_lt ((List.pairwise_cons.1 (List.pairwise_append.1 hs).2.1).1 i hi)

/-- While an item is not told its result, it is in the queue or in the leader's hands. -/
theorem untold_cases (h : w.Sound P) (hi : i < w.next) (hw : w.waited i = true)
    (hn : i ∉ w.answers.map Prod.fst) :
    i ∈ w.queue ∨ ∃ c led, w.holder = .leads c led ∧
      (i ∈ led.stage.inHand ∨ i ∈ led.stage.untold.map Prod.fst) := by
  rcases h.ordered.somewhere hi hw with ha | hq | hh
  · exact absurd ha hn
  · exact .inl hq
  · right
    cases hc : w.holder with
    | leads c led =>
      rw [hc] at hh
      exact ⟨c, led, rfl, hh⟩
    | _ =>
      rw [hc] at hh
      rcases hh with hh | hh <;> cases hh

theorem queued_of_idle (h : w.Sound P) (hi : i < w.next) (hw : w.waited i = true)
    (hn : i ∉ w.answers.map Prod.fst) (hh : w.holder.inHand = []) (hu : w.holder.untold = []) :
    i ∈ w.queue := by
  rcases h.ordered.somewhere hi hw with ha | hq | hm | hm
  · exact absurd ha hn
  · exact hq
  · rw [hh] at hm
    cases hm
  · rw [hu] at hm
    cases hm

/-- While an item is not told its result, somebody leads. -/
theorem holder_ne (h : w.Sound P) (hi : i < w.next) (hw : w.waited i = true)
    (hn : i ∉ w.answers.map Prod.fst) : w.holder ≠ .nobody := by
  intro hh
  have hq := h.queued_of_idle hi hw hn (by rw [hh]; rfl) (by rw [hh]; rfl)
  have hr := h.ready
  rw [hh] at hr
  exact List.find?_eq_none.1 hr i hq hw

/-- The item whose slot has the lead is still to be collected by the caller that queued it. -/
theorem slot_todo (h : w.Sound P) (hh : w.holder = .slot j) : j ∈ (w.caller (w.owner j)).todo := by
  have hr := h.ready
  rw [hh] at hr
  have hp : w.posted j = false := by
    have := List.find?_some hr
    rwa [waited, Bool.not_eq_true'] at this
  have hm := (h.calls.mem_asked (w.owner j) j).2
    ⟨h.ordered.queue_lt (List.mem_of_find?_eq_some hr), hp, rfl⟩
  rw [h.calls.asked] at hm
  refine (List.mem_append.1 hm).resolve_left fun hg => h.first_untold hr ?_
  obtain ⟨a, ha, rfl⟩ := List.mem_map.1 hg
  exact List.mem_map_of_mem (h.calls.got _ a ha)

theorem leader_cases (h : w.Sound P) (hl : w.leader = some c) :
    (∃ i rest, w.caller c = .granted i rest) ∨
      (∃ led rest got raised, w.caller c = .leads led rest got raised) ∨
      ∃ j, w.holder = .slot j ∧ w.owner j = c ∧ j ∈ (w.caller c).todo := by
  unfold leader at hl
  split at hl
  case h_1 => cases hl
  case h_2 d x hh =>
    obtain rfl := Option.some.inj hl
    exact .inl ⟨x, h.linked.granted_of hh⟩
  case h_3 j hh =>
    obtain rfl := Option.some.inj hl
    exact .inr (.inr ⟨j, hh, rfl, h.slot_todo hh⟩)
  case h_4 d led hh =>
    obtain rfl := Option.some.inj hl
    exact .inr (.inl ⟨led, h.linked.leads_of hh⟩)

/-- A caller asleep does not have the lead. -/
theorem not_leader_of_asleep (h : w.Sound P) (hc : w.caller c = .waits (i :: rest) got raised)
    (hs : w.slot i = .waiting) : w.leader ≠ some c := by
  intro hl
  rcases h.leader_cases hl with ⟨x, r, hx⟩ | ⟨led, r, g, b, hx⟩ | ⟨j, hh, rfl, hj⟩
  · rw [hc] at hx
    cases hx
  · rw [hc] at hx
    cases hx
  have hr := h.ready
  rw [hh] at hr
  have hne : i ≠ j := fun e => by
    rw [e, (h.linked.slot j).2 hh] at hs
    cases hs
  have hsort := h.calls.todo_sorted (w.owner j)
  have hi : i ∈ (w.caller (w.owner j)).todo := by
    rw [hc]
    exact List.mem_cons_self
  rw [hc] at hj hsort
  -- An earlier item of the same caller has left the queue, so it has been told.
  have hij := (List.pairwise_cons.1 hsort).1 j ((List.mem_cons.1 hj).resolve_left hne.symm)
  have hm := (h.calls.mem_asked _ i).1 (h.calls.todo_asked hi)
  have hw : w.waited i = true := by
    rw [waited, hm.2.1]
    rfl
  have ha : i ∈ w.answers.map Prod.fst := by
    by_contra hn
    have hq := h.queued_of_idle hm.1 hw hn (by rw [hh]; rfl) (by rw [hh]; rfl)
    exact absurd (h.first_le hr hq hw) (Nat.not_le_of_lt hij)
  obtain ⟨⟨x, r⟩, hx, rfl⟩ := List.mem_map.1 ha
  rcases h.calls.told _ x hi r hx with hd | ⟨led, hl, -⟩
  · rw [hs] at hd
    cases hd
  · rw [hh] at hl
    cases hl

/-- Nor does one with nothing to collect. -/
theorem not_leader_of_done (h : w.Sound P) (ht : (w.caller c).todo = []) : w.leader ≠ some c := by
  intro hl
  rcases h.leader_cases hl with ⟨x, r, hx⟩ | ⟨led, r, g, b, hx⟩ | ⟨j, -, -, hj⟩
  · rw [hx] at ht
    cases ht
  · rw [hx] at ht
    cases ht
  · rw [ht] at hj
    cases hj

theorem rank_submit (h : w.Sound P) (hi : i < w.next) (hw : w.waited i = true)
    (hn : i ∉ w.answers.map Prod.fst) (c n : Nat) : rank i (w.submit c n) ≤ rank i w := by
  unfold World.submit
  split
  case h_2 => exact Nat.le_refl _
  case h_1 hc =>
  -- The slot in the lead is not of a caller that has not called.
  have hphase : ∀ (x : Caller ρ) (owner : Nat → Nat), (∀ j < w.next, owner j = w.owner j) →
      phase { w with caller := Function.update w.caller c x, owner := owner } i w.holder =
        w.phase i w.holder := fun x owner ho => by
    cases hh : w.holder with
    | slot j =>
      have hj := h.slot_todo hh
      have hjc : w.owner j ≠ c := fun e => by
        rw [e, hc] at hj
        cases hj
      have hjn := ((h.calls.mem_asked _ j).1 (h.calls.todo_asked hj)).1
      show 2 + ((Function.update w.caller c x (owner j)).todo.filter (· < j)).length =
        2 + ((w.caller (w.owner j)).todo.filter (· < j)).length
      rw [ho j hjn, Function.update_of_ne hjc]
    | _ => rfl
  split
  case h_1 =>
    exact Nat.le_of_eq (congrArg ((i + 7) * (w.queue.filter (· ≤ i)).length + ·)
      (hphase (.waits [] [] false) w.owner fun _ _ => rfl))
  case h_2 n =>
  have hl : w.leading = true := by
    cases hl : w.leading with
    | true => rfl
    | false => exact absurd (h.linked.leading.1 hl) (h.holder_ne hi hw hn)
  have hnew : (List.range' w.next (n + 1)).filter (· ≤ i) = [] :=
    List.filter_eq_nil_iff.2 fun x hx => by
      have := (List.mem_range'_1.1 hx).1
      simp only [decide_eq_true_eq]
      omega
  have hp := hphase (.waits (List.range' w.next (n + 1)) [] false)
    (fun j => if w.next ≤ j then c else w.owner j)
    (fun j hj => if_neg (Nat.not_le_of_lt hj))
  rw [hl]
  show (i + 7) * ((w.queue ++ List.range' w.next (n + 1)).filter (· ≤ i)).length +
    phase { w with
      caller := Function.update w.caller c (.waits (List.range' w.next (n + 1)) [] false)
      owner := fun j => if w.next ≤ j then c else w.owner j } i w.holder ≤ _
  rw [List.filter_append, hnew, List.append_nil, hp]
  exact Nat.le_refl _

theorem rank_post (hi : i < w.next) : rank i w.post ≤ rank i w := by
  have hq : (w.queue ++ [w.next]).filter (· ≤ i) = w.queue.filter (· ≤ i) := by
    rw [List.filter_append, List.filter_cons_of_neg (by simp only [decide_eq_true_eq]; omega),
      List.filter_nil, List.append_nil]
  show (i + 7) * ((w.queue ++ [w.next]).filter (· ≤ i)).length + w.phase i w.holder ≤ _
  rw [hq]
  exact Nat.le_refl _

/-- A run takes something no later than any item still queued. -/
theorem ahead_take (h : w.Sound P) (hP : P.Lawful) (hi : i ∈ w.queue) :
    0 < ((w.queue.take P.max).filter (· ≤ i)).length := by
  obtain ⟨m, hm⟩ : ∃ m, P.max = m + 1 := ⟨P.max - 1, by have := hP.max_pos; omega⟩
  have hs := h.ordered.queue_sorted
  cases hq : w.queue with
  | nil =>
    rw [hq] at hi
    cases hi
  | cons x q =>
    rw [hq] at hi hs
    have hxi : x ≤ i := by
      rcases List.mem_cons.1 hi with rfl | hi
      · exact Nat.le_refl _
      · exact Nat.le_of_lt ((List.pairwise_cons.1 hs).1 i hi)
    rw [hm, List.take_succ_cons, List.filter_cons_of_pos (by simpa using hxi), List.length_cons]
    exact Nat.succ_pos _

/-- Results are told in the order of queueing, so what is told next is no later than any item not
told yet. -/
theorem next_le (h : w.Sound P) {x : Nat} {r : ρ} {left : List (Nat × ρ)}
    (hh : w.holder = .leads c ⟨me, mine, .answer ((x, r) :: left)⟩) (hi : i < w.next)
    (hw : w.waited i = true) (hn : i ∉ w.answers.map Prod.fst) : x ≤ i := by
  obtain ⟨told, hm, -⟩ := h.ordered.answered
  have happ := h.ordered.applied
  have htaken := h.ordered.taken
  rw [hh] at hm happ
  rw [← happ, ← hm] at htaken
  have hs : ((told ++ (x, r) :: left).map Prod.fst ++ [] ++ w.queue).Pairwise (· < ·) := by
    refine Eq.mpr (congrArg _ htaken) List.pairwise_lt_range
  rw [List.append_nil, List.map_append, List.append_assoc] at hs
  have hx := (List.pairwise_append.1 hs).2.1
  rcases h.untold_cases hi hw hn with hq | ⟨d, led, hh', hi'⟩
  · exact Nat.le_of_lt ((List.pairwise_cons.1 hx).1 i (List.mem_append_right _ hq))
  · rw [hh] at hh'
    obtain ⟨-, rfl⟩ := Holder.leads.inj hh'
    rcases hi' with hi' | hi'
    · cases hi'
    · rcases List.mem_cons.1 hi' with rfl | hi'
      · exact Nat.le_refl _
      · exact Nat.le_of_lt ((List.pairwise_cons.1 hx).1 i (List.mem_append_left _ hi'))

theorem rank_leaderStep (h : w.Sound P) (hP : P.Lawful)
    (hc : w.caller c = .leads led rest got raised) {outcome : Option (List ρ)}
    (hf : ∀ run rs, led.stage = .apply run → outcome = some rs → rs.length = run.length)
    (hi : i < w.next) (hw : w.waited i = true) (hn : i ∉ w.answers.map Prod.fst) :
    rank i (P.leaderStep w c led rest got raised outcome) < rank i w := by
  have hh := h.linked.of_leads hc
  have hrank : rank i w = (i + 7) * (w.queue.filter (· ≤ i)).length +
      w.phase i (.leads c led) := by rw [rank, hh]
  obtain ⟨me, mine, stage⟩ := led
  cases stage with
  | take =>
    have hq := h.queued_of_idle hi hw hn (by rw [hh]; rfl) (by rw [hh]; rfl)
    have hahead := h.ahead_take hP hq
    have hsplit : (w.queue.filter (· ≤ i)).length = ((w.queue.take P.max).filter (· ≤ i)).length +
        ((w.queue.drop P.max).filter (· ≤ i)).length := by
      rw [← List.length_append, ← List.filter_append, List.take_append_drop]
    have hmul : i + 6 ≤ (i + 6) * ((w.queue.take P.max).filter (· ≤ i)).length :=
      Nat.le_mul_of_pos_right _ hahead
    show (i + 7) * ((w.queue.drop P.max).filter (· ≤ i)).length +
      (i + 6 + ((w.queue.take P.max).filter (· ≤ i)).length) < _
    rw [hrank, hsplit, Nat.mul_add, show i + 7 = i + 6 + 1 from rfl,
      Nat.succ_mul (i + 6) ((w.queue.take P.max).filter (· ≤ i)).length]
    show _ < _ + 1
    omega
  | apply run =>
    have hlen : ∀ results : List (Nat × ρ), results.map Prod.fst = run →
        (i + 7) * (w.queue.filter (· ≤ i)).length +
          (i + 5 + ((results.map Prod.fst).filter (· ≤ i)).length) < rank i w := fun results hr => by
      rw [hrank, hr]
      exact Nat.add_lt_add_left (Nat.add_lt_add_right (Nat.lt_succ_self (i + 5)) _) _
    cases outcome with
    | none => exact hlen _ (by rw [List.map_map]; exact List.map_id run)
    | some rs => exact hlen _ (List.map_fst_zip (Nat.le_of_eq (hf run rs rfl rfl).symm))
  | answer left =>
    cases left with
    | nil =>
      rw [hrank]
      exact Nat.add_lt_add_left (Nat.lt_succ_self (i + 4)) _
    | cons a left =>
      obtain ⟨x, r⟩ := a
      have hx := h.next_le hh hi hw hn
      have hlt : (i + 7) * (w.queue.filter (· ≤ i)).length +
          (i + 5 + ((left.map Prod.fst).filter (· ≤ i)).length) < rank i w := by
        rw [hrank]
        refine Nat.add_lt_add_left (Nat.add_lt_add_left (m := ((x :: left.map Prod.fst).filter
          (· ≤ i)).length) ?_ (i + 5)) _
        rw [List.filter_cons_of_pos (by simpa using hx)]
        exact Nat.lt_succ_self _
      show rank i (if x = me then _ else _) < _
      split
      case isTrue => exact hlt
      case isFalse =>
      split
      case isTrue => exact hlt
      case isFalse => exact hlt
  | hand =>
    have hq := h.queued_of_idle hi hw hn (by rw [hh]; rfl) (by rw [hh]; rfl)
    simp only [Policy.leaderStep]
    split
    case h_1 j hnext =>
      obtain ⟨r, hr, hm⟩ := h.mine_of_handOn hc (hnext ▸ (by simp))
      have hj := hP.lead _ _ _ _ h.waited_of hnext
      have hji := h.first_le hj hq hw
      have hs := (h.handOn hc hr hm hj).calls.todo_sorted (w.owner j)
      have hle := length_filter_lt (hs.imp Nat.ne_of_lt) j
      rw [hrank]
      refine Nat.add_lt_add_left (m := i + 4) (Nat.lt_of_le_of_lt (Nat.add_le_add_left hle 2) ?_) _
      omega
    case h_2 hnext => exact absurd hw (List.find?_eq_none.1 (hP.rest _ _ _ h.waited_of hnext) i hq)
    case h_3 =>
      rw [hrank]
      exact Nat.add_lt_add_left (show 1 < i + 4 by omega) _

/-- A caller that collects comes nearer to the slot with the lead, where that is its own. -/
theorem rank_collect (h : w.Sound P) {x : Nat} {r : ρ}
    (hc : w.caller c = .waits (x :: rest) got raised) (hs : w.slot x = .done r) (i : Nat) :
    rank i (w.collect c x rest got raised r) + (if w.leader = some c then 1 else 0) ≤
      rank i w := by
  have hsort := h.calls.todo_sorted c
  rw [hc] at hsort
  show (i + 7) * (w.queue.filter (· ≤ i)).length +
    phase (w.collect c x rest got raised r) i w.holder + (if w.leader = some c then 1 else 0) ≤ _
  rw [rank, Nat.add_assoc]
  refine Nat.add_le_add_left ?_ _
  by_cases hl : w.leader = some c
  · rw [if_pos hl]
    rcases h.leader_cases hl with ⟨y, l, hy⟩ | ⟨led, l, g, b, hy⟩ | ⟨j, hh, rfl, hj⟩
    · rw [hc] at hy
      cases hy
    · rw [hc] at hy
      cases hy
    · have hne : j ≠ x := fun e => by
        rw [← e, (h.linked.slot j).2 hh] at hs
        cases hs
      rw [hc] at hj
      have hxj : x < j :=
        (List.pairwise_cons.1 hsort).1 j ((List.mem_cons.1 hj).resolve_left hne)
      rw [hh]
      show 2 + ((Function.update w.caller (w.owner j) _ (w.owner j)).todo.filter (· < j)).length + 1 ≤
        2 + ((w.caller (w.owner j)).todo.filter (· < j)).length
      rw [Function.update_self, hc]
      show 2 + (rest.filter (· < j)).length + 1 ≤ 2 + ((x :: rest).filter (· < j)).length
      rw [List.filter_cons_of_pos (by simpa using hxj), List.length_cons]
      omega
  · rw [if_neg hl]
    cases hh : w.holder with
    | slot j =>
      have hjc : w.owner j ≠ c := fun e => hl (by rw [leader, hh, ← e])
      show 2 + ((Function.update w.caller c _ (w.owner j)).todo.filter (· < j)).length ≤
        2 + ((w.caller (w.owner j)).todo.filter (· < j)).length
      rw [Function.update_of_ne hjc]
    | _ => exact Nat.le_refl _

/-- No step makes an item's caller wait longer, and a step of whoever leads brings its result
nearer. -/
theorem rank_step (h : w.Sound P) (hP : P.Lawful) {a : Act ρ} (hf : a.Fits w) (hi : i < w.next)
    (hw : w.waited i = true) (hn : i ∉ w.answers.map Prod.fst) :
    rank i (P.step w a) + a.leads w ≤ rank i w := by
  cases a with
  | submit c n => exact h.rank_submit hi hw hn c n
  | post =>
    show rank i (if P.posts then w.post else w) ≤ _
    split
    case isTrue => exact rank_post hi
    case isFalse => exact Nat.le_refl _
  | step c outcome =>
    show rank i (P.callerStep w c outcome) + (if w.leader = some c then 1 else 0) ≤ _
    have hidle : w.leader ≠ some c → rank i w + (if w.leader = some c then 1 else 0) ≤ rank i w :=
      fun hl => by rw [if_neg hl]; exact Nat.le_refl _
    have hlt : ∀ w' : World ρ, rank i w' < rank i w →
        rank i w' + (if w.leader = some c then 1 else 0) ≤ rank i w := fun w' hlt => by
      split <;> omega
    unfold Policy.callerStep
    split
    case h_1 x rest hc =>
      have hh := h.linked.of_granted hc
      have howner := h.calls.owner_todo (c := c) (i := x) (by rw [hc]; exact List.mem_cons_self)
      have hs := h.calls.todo_sorted c
      rw [hc] at hs
      refine hlt _ (Nat.add_lt_add_left ?_ _)
      show 2 + ((Function.update w.caller c _ (w.owner x)).todo.filter (· < x)).length <
        w.phase i w.holder
      rw [howner, Function.update_self, hh]
      show 2 + ((x :: rest).filter (· < x)).length < 3
      rw [filter_lt_eq_nil hs]
      decide
    case h_2 x rest got raised hc =>
      split
      case h_1 hs => exact hidle (h.not_leader_of_asleep hc hs)
      case h_2 r hs => exact h.rank_collect hc hs i
      case h_3 hs =>
        have hh := (h.linked.slot x).1 hs
        refine hlt _ (Nat.add_lt_add_left ?_ _)
        rw [hh]
        show 1 < 2 + _
        omega
    case h_3 led rest got raised hc =>
      refine hlt _ (h.rank_leaderStep hP hc (fun run rs hs ho => ?_) hi hw hn)
      subst ho
      exact hf led rest got raised run hc hs
    case h_4 hg hw' hl =>
      refine hidle (h.not_leader_of_done ?_)
      cases hc : w.caller c with
      | absent => rfl
      | granted x rest => exact absurd hc (hg x rest)
      | waits items got raised =>
        cases items with
        | nil => rfl
        | cons x rest => exact absurd hc (hw' x rest got raised)
      | leads led rest got raised => exact absurd hc (hl led rest got raised)
      | broken items got => exact absurd hc (h.linked.unbroken c items got)

theorem rank_lt (h : w.Sound P) (hi : i < w.next) (hw : w.waited i = true)
    (hn : i ∉ w.answers.map Prod.fst) : rank i w < (i + 7) * (i + 1) + (2 * i + 8) := by
  have hahead := length_filter_le (h.ordered.queue_sorted.imp Nat.ne_of_lt) i
  have hmul := Nat.mul_le_mul_left (i + 7) hahead
  have hphase : w.phase i w.holder < 2 * i + 8 := by
    have hhand := length_filter_le h.ordered.in_hand_nodup i
    have huntold := length_filter_le h.ordered.untold_nodup i
    cases hh : w.holder with
    | nobody => exact absurd hh (h.holder_ne hi hw hn)
    | granted d x =>
      show 3 < 2 * i + 8
      omega
    | slot j =>
      have hr := h.ready
      rw [hh] at hr
      have hq := h.queued_of_idle hi hw hn (by rw [hh]; rfl) (by rw [hh]; rfl)
      have hji := h.first_le hr hq hw
      have hlen := length_filter_lt ((h.calls.todo_sorted (w.owner j)).imp Nat.ne_of_lt) j
      show 2 + ((w.caller (w.owner j)).todo.filter (· < j)).length < 2 * i + 8
      omega
    | leads d led =>
      rw [hh] at hhand huntold
      obtain ⟨me, mine, stage⟩ := led
      cases stage with
      | take =>
        show 1 < 2 * i + 8
        omega
      | apply run =>
        show i + 6 + (run.filter (· ≤ i)).length < 2 * i + 8
        have : (run.filter (· ≤ i)).length ≤ i + 1 := hhand
        omega
      | answer left =>
        show i + 5 + ((left.map Prod.fst).filter (· ≤ i)).length < 2 * i + 8
        have : ((left.map Prod.fst).filter (· ≤ i)).length ≤ i + 1 := huntold
        omega
      | hand =>
        show i + 4 < 2 * i + 8
        omega
  rw [rank]
  omega

end Sound

/-! ## What callers are promised -/

/-- Somebody takes itself to lead: a caller, or the item whose slot says so. -/
def Leads (w : World ρ) (x : Holder ρ) : Prop :=
  (∃ c, (w.caller c).claim c = some x) ∨ ∃ i, w.slot i = .lead ∧ x = .slot i

structure Orderly (P : Policy ρ) (w : World ρ) : Prop where
  taken : w.runs.flatten ++ w.queue = List.range w.next
  bounded : ∀ run ∈ w.runs, run.length ≤ P.max
  made : w.made.map Prod.fst <+: w.runs.flatten
  told_once : (w.answers.map Prod.fst).Nodup
  told_own : ∀ a ∈ w.answers, a ∈ w.made
  collected : ∀ c, w.asked c = (w.caller c).got.map Prod.fst ++ (w.caller c).todo
  collected_told : ∀ c, ∀ a ∈ (w.caller c).got, a ∈ w.answers
  found : ∀ c, ∀ i ∈ (w.caller c).todo, ∀ r, (i, r) ∈ w.answers → w.slot i = .done r ∨
    ∃ led rest got raised, w.caller c = .leads led rest got raised ∧ led.me = i ∧ led.mine = some r
  one_leader : ∀ x y, w.Leads x → w.Leads y → x = y
  idle : w.leading = false → ∀ i ∈ w.queue, w.posted i = true
  led : ∀ c, ∀ i ∈ (w.caller c).todo, i ∉ w.answers.map Prod.fst → ∃ x, w.Leads x
  unbroken : ∀ c items got, w.caller c ≠ .broken items got

theorem Linked.leads_holder (h : w.Linked) {x : Holder ρ} (hx : w.Leads x) : w.holder = x := by
  rcases hx with ⟨c, hc⟩ | ⟨i, hi, rfl⟩
  · exact (h.holder_of_claim hc).1
  · exact (h.slot i).1 hi

theorem Linked.leads_of_ne (h : w.Linked) (hne : w.holder ≠ .nobody) : w.Leads w.holder := by
  cases hh : w.holder with
  | nobody => exact absurd hh hne
  | slot i => exact .inr ⟨i, (h.slot i).2 hh, rfl⟩
  | granted c i =>
    obtain ⟨rest, hc⟩ := h.granted_of hh
    exact .inl ⟨c, by rw [hc]; rfl⟩
  | leads c led =>
    obtain ⟨rest, got, raised, hc⟩ := h.leads_of hh
    exact .inl ⟨c, by rw [hc]; rfl⟩

theorem Sound.orderly (h : w.Sound P) : w.Orderly P where
  taken := h.ordered.taken
  bounded := h.ordered.bounded
  made := ⟨_, h.ordered.applied⟩
  told_once := h.ordered.answers_nodup
  told_own a ha := (h.ordered.answers_made ha).1
  collected := h.calls.asked
  collected_told := h.calls.got
  found c i hi r hr := by
    rcases h.calls.told c i hi r hr with hs | ⟨led, hl, hm⟩
    · exact .inl hs
    · obtain ⟨rest, got, raised, hc⟩ := h.linked.leads_of hl
      exact .inr ⟨led, rest, got, raised, hc, hm⟩
  one_leader x y hx hy := (h.linked.leads_holder hx).symm.trans (h.linked.leads_holder hy)
  idle hl i hi := by
    have hr := h.ready
    rw [h.linked.leading.1 hl] at hr
    have := List.find?_eq_none.1 hr i hi
    rwa [waited, Bool.not_eq_true', Bool.not_eq_false] at this
  led c i hi hn := by
    have hm := (h.calls.mem_asked c i).1 (h.calls.todo_asked hi)
    have hw : w.waited i = true := by
      rw [waited, hm.2.1]
      rfl
    exact ⟨w.holder, h.linked.leads_of_ne (h.holder_ne hm.1 hw hn)⟩
  unbroken := h.linked.unbroken

/-- What has happened stays so. -/
structure Kept (w w' : World ρ) : Prop where
  next : w.next ≤ w'.next
  waited : ∀ i < w.next, w'.waited i = w.waited i
  answers : w.answers ⊆ w'.answers

theorem Kept.same {w' : World ρ} (hn : w'.next = w.next) (hp : w'.posted = w.posted)
    (ha : w'.answers = w.answers) : w.Kept w' :=
  ⟨Nat.le_of_eq hn.symm, fun i _ => by rw [World.waited, World.waited, hp], ha ▸ List.Subset.refl _⟩

theorem kept_leaderStep (outcome : Option (List ρ)) :
    w.Kept (P.leaderStep w c led rest got raised outcome) := by
  unfold Policy.leaderStep
  split
  case h_1 => exact Kept.same rfl rfl rfl
  case h_2 => exact Kept.same rfl rfl rfl
  case h_3 => exact Kept.same rfl rfl rfl
  case h_4 =>
    split
    · exact ⟨Nat.le_refl _, fun _ _ => rfl, List.subset_append_left _ _⟩
    · split
      · exact ⟨Nat.le_refl _, fun _ _ => rfl, List.subset_append_left _ _⟩
      · exact Kept.same rfl rfl rfl
  case h_5 => split <;> exact Kept.same rfl rfl rfl

theorem kept_step (a : Act ρ) : w.Kept (P.step w a) := by
  cases a with
  | submit c n =>
    show w.Kept (w.submit c n)
    unfold World.submit
    split
    case h_2 => exact Kept.same rfl rfl rfl
    split
    · exact Kept.same rfl rfl rfl
    · exact ⟨Nat.le_add_right _ _, fun _ _ => rfl, List.Subset.refl _⟩
  | post =>
    show w.Kept (if P.posts then w.post else w)
    split
    · refine ⟨Nat.le_succ _, fun i hi => ?_, List.Subset.refl _⟩
      show (!Function.update w.posted w.next true i) = !w.posted i
      rw [Function.update_of_ne (Nat.ne_of_lt hi)]
    · exact Kept.same rfl rfl rfl
  | step c outcome =>
    show w.Kept (P.callerStep w c outcome)
    unfold Policy.callerStep
    split
    case h_1 => exact Kept.same rfl rfl rfl
    case h_2 => split <;> exact Kept.same rfl rfl rfl
    case h_3 => exact kept_leaderStep outcome
    case h_4 => exact Kept.same rfl rfl rfl

/-- Over a run that does not tell `i` its result, every step of whoever leads brings it nearer. -/
theorem rank_run (hP : P.Lawful) {acts : List (Act ρ)} {w' : World ρ} (hr : P.Runs w acts w') :
    w.Sound P → i < w.next → w.waited i = true → i ∉ w'.answers.map Prod.fst →
      rank i w' + P.leaderSteps w acts ≤ rank i w ∧ i ∉ w.answers.map Prod.fst := by
  induction hr with
  | nil w => exact fun _ _ _ hn => ⟨Nat.le_refl _, hn⟩
  | @cons w a as w' hf _ ih =>
    intro h hi hw hn
    have hk := kept_step (P := P) (w := w) a
    obtain ⟨hle, hn'⟩ := ih (h.step hP hf) (Nat.lt_of_lt_of_le hi hk.next)
      ((hk.waited i hi).trans hw) hn
    have hn₀ : i ∉ w.answers.map Prod.fst := fun hm => hn' (List.map_subset _ hk.answers hm)
    have hstep := h.rank_step hP hf hi hw hn₀
    refine ⟨?_, hn₀⟩
    show rank i w' + (a.leads w + P.leaderSteps (P.step w a) as) ≤ rank i w
    omega

theorem told_of_leads (hP : P.Lawful) (h : w.Sound P) {acts : List (Act ρ)} {w' : World ρ}
    (hr : P.Runs w acts w') (hi : i ∈ (w.caller c).todo)
    (hacts : (i + 7) * (i + 1) + (2 * i + 8) ≤ P.leaderSteps w acts) : i ∈ w'.answers.map Prod.fst := by
  by_contra hn
  have hm := (h.calls.mem_asked c i).1 (h.calls.todo_asked hi)
  have hw : w.waited i = true := by
    rw [waited, hm.2.1]
    rfl
  obtain ⟨hle, hn₀⟩ := rank_run hP hr h hm.1 hw hn
  have hlt := h.rank_lt hm.1 hw hn₀
  omega

end World

end HxdNg.LeadQueue
