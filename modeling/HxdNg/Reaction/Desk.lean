import HxdNg.Chat.Commit

/-!
# The reaction desk's queue

Reaction ops wait in one queue, some with a caller asleep on their answer and some only posted.
Whoever leads applies runs of up to `RUN` ops until its own is answered and nobody else waits behind
ops only posted.

* `deskApply` : a run applied in order, its reactions together where they come together;
* `deskQueue` : how `desk_submit`, `desk_post` and `desk_lead` take turns, over `LeadQueue`;
* `group_commit_strands_nobody` : what the two queues that hand the lead on promise.
-/

namespace HxdNg.Reaction

open LeadQueue Chat

variable {α ω R σ : Type*}

/-- The most ops one leader applies before it hands the lead on. -/
def RUN : Nat := 256

/-! ## A run of the desk -/

/-- An op at the desk: a reaction, or work on the live state. -/
inductive DeskOp (α ω : Type*) where
  | react (act : α)
  | work (f : ω)

def DeskOp.act? : DeskOp α ω → Option α
  | react a => some a
  | work _ => none

/-- The reactions an op list starts with, and what follows them. -/
def reactsFirst : List (DeskOp α ω) → List α × List (DeskOp α ω)
  | .react a :: ops => (a :: (reactsFirst ops).1, (reactsFirst ops).2)
  | ops => ([], ops)

theorem reactsFirst_length (ops : List (DeskOp α ω)) :
    (reactsFirst ops).1.length + (reactsFirst ops).2.length = ops.length := by
  fun_induction reactsFirst ops with
  | case1 a ops ih =>
    simp only [List.length_cons]
    omega
  | case2 ops => simp

section Apply
variable (reactAll : σ → List α → List R × σ) (work : σ → ω → R × σ)

/-- Apply a run in order: its reactions together in one transaction where they come together, every
other op as itself. -/
def deskApply (live : σ) : List (DeskOp α ω) → List R × σ
  | [] => ([], live)
  | .react a :: ops =>
    let acts := (reactsFirst ops).1
    let (answers, live') := reactAll live (a :: acts)
    let (more, live'') := deskApply live' (reactsFirst ops).2
    (answers ++ more, live'')
  | .work f :: ops =>
    let (answer, live') := work live f
    let (more, live'') := deskApply live' ops
    (answer :: more, live'')
termination_by ops => ops.length
decreasing_by
  · have := reactsFirst_length ops
    simp only [List.length_cons]
    omega
  · exact Nat.lt_succ_self _

/-- Every op of a run is answered, given an answer to each of the reactions applied together. -/
theorem deskApply_length (hreact : ∀ s acts, (reactAll s acts).1.length = acts.length) (live : σ)
    (ops : List (DeskOp α ω)) : (deskApply reactAll work live ops).1.length = ops.length := by
  fun_induction deskApply reactAll work live ops with
  | case1 => rfl
  | case2 live a ops acts answers live' hr more live'' hm ih =>
    have hlen := reactsFirst_length ops
    have ha := hreact live (a :: acts)
    rw [hr] at ha
    rw [hm] at ih
    replace ha : answers.length = (reactsFirst ops).1.length + 1 := ha
    replace ih : more.length = (reactsFirst ops).2.length := ih
    rw [List.length_append, List.length_cons]
    omega
  | case3 live f ops answer live' hw more live'' hm ih =>
    rw [hm] at ih
    exact congrArg Nat.succ ih

end Apply

/-! ## Taking turns -/

/-- Another caller waiting leads next, posted ops before it in its run; with only posted ops left,
which nobody else would apply, or its own not answered yet, the leader goes on. -/
def deskHandOn (waited : Nat → Bool) (queue : List Nat) (mine : Bool) : Next :=
  match queue.find? waited, mine, queue.isEmpty with
  | some next, true, _ => .lead next
  | none, true, true => .rest
  | _, _, _ => .again

/-- A run that panics answers each of its ops `none`, which is raised, if at all, by whoever waits
for it. -/
def deskQueue (R : Type*) : Policy (Option R) where
  max := RUN
  failed := none
  raises := false
  posts := true
  handOn := deskHandOn

theorem deskQueue_lawful : (deskQueue R).Lawful where
  max_pos := Nat.zero_lt_succ 255
  lead p q mine i _ hn := by
    replace hn : deskHandOn p q mine = .lead i := hn
    unfold deskHandOn at hn
    cases hq : q.find? p with
    | none => rw [hq] at hn; cases mine <;> cases hempty : q.isEmpty <;> simp [hempty] at hn
    | some j =>
      cases mine with
      | false => rw [hq] at hn; cases hn
      | true =>
        rw [hq] at hn
        exact congrArg some (Next.lead.inj hn)
  rest p q mine _ hn := by
    replace hn : deskHandOn p q mine = .rest := hn
    unfold deskHandOn at hn
    cases hq : q.find? p with
    | none => rfl
    | some j => rw [hq] at hn; cases mine <;> cases hn
  patient := .inr fun p q => by
    show deskHandOn p q false = .again
    unfold deskHandOn
    cases q.find? p <;> rfl

/-- An applied run answers as many ops as it was given. -/
theorem deskApply_fits {w : World (Option R)} {c : Nat} {led : Led (Option R)} {rest : List Nat}
    {got : List (Nat × Option R)} {raised : Bool} {run : List Nat}
    (reactAll : σ → List α → List (Option R) × σ) (work : σ → ω → Option R × σ)
    (hreact : ∀ s acts, (reactAll s acts).1.length = acts.length) (live : σ) (op : Nat → DeskOp α ω)
    (hc : w.caller c = .leads led rest got raised) (hs : led.stage = .apply run) :
    (Act.step c (some (deskApply reactAll work live (run.map op)).1)).Fits w := by
  intro led' rest' got' raised' run' hc' hs'
  rw [hc] at hc'
  obtain ⟨rfl, -, -, -⟩ := Caller.leads.inj hc'
  rw [hs] at hs'
  obtain rfl := Stage.apply.inj hs'
  rw [deskApply_length reactAll work hreact, List.length_map]

/-- Callers of either queue that hands the lead on are not stranded. However calls, posted ops, runs,
panics and answers interleave: every item is in one run, in the order queued, and told once, its own
result; there is one leader at most, and none only while nobody waits; and an item somebody waits for
is told its result within so many steps of whoever leads. -/
theorem group_commit_strands_nobody :
    (∀ acts w, ChatCommit.queue.Runs .empty acts w → w.Orderly ChatCommit.queue ∧
      ∀ acts' w', ChatCommit.queue.Runs w acts' w' → ∀ c, ∀ i ∈ (w.caller c).todo,
        (i + 7) * (i + 1) + (2 * i + 8) ≤ ChatCommit.queue.leaderSteps w acts' →
          i ∈ w'.answers.map Prod.fst) ∧
    (∀ acts w, (deskQueue R).Runs .empty acts w → w.Orderly (deskQueue R) ∧
      ∀ acts' w', (deskQueue R).Runs w acts' w' → ∀ c, ∀ i ∈ (w.caller c).todo,
        (i + 7) * (i + 1) + (2 * i + 8) ≤ (deskQueue R).leaderSteps w acts' →
          i ∈ w'.answers.map Prod.fst) := by
  refine ⟨fun acts w hr => ?_, fun acts w hr => ?_⟩
  · have h := World.Sound.run ChatCommit.lawful hr World.sound_empty
    exact ⟨h.orderly, fun acts' w' hr' c i hi hacts =>
      World.told_of_leads ChatCommit.lawful h hr' hi hacts⟩
  · have h := World.Sound.run deskQueue_lawful hr World.sound_empty
    exact ⟨h.orderly, fun acts' w' hr' c i hi hacts =>
      World.told_of_leads deskQueue_lawful h hr' hi hacts⟩

/-- Three calls, each queueing while the one before it leads. -/
def threeCalls {ρ : Type*} (between : List (Act ρ)) : List (Act ρ) :=
  [.step 0 none, .step 0 none, .step 0 none] ++ between ++
  [.submit 1 1, .step 0 none, .step 0 none, .step 0 none, .step 0 none, .step 1 none, .step 1 none,
    .submit 2 1, .step 1 none, .step 1 none, .step 1 none, .step 1 none, .step 1 none, .step 2 none,
    .step 2 none]

theorem group_commit_strands_nobody_three_calls :
    (∃ w, ChatCommit.queue.Runs .empty [.submit 0 1] w ∧ w.Orderly ChatCommit.queue ∧
      0 ∈ (ChatCommit.queue.after w (threeCalls [])).answers.map Prod.fst) ∧
    (∃ w, (deskQueue Nat).Runs .empty [.submit 0 1] w ∧ w.Orderly (deskQueue Nat) ∧
      0 ∈ ((deskQueue Nat).after w (threeCalls [.post])).answers.map Prod.fst) := by
  have hchat : ChatCommit.queue.Runs .empty [.submit 0 1] (ChatCommit.queue.after .empty [.submit 0 1]) :=
    .cons trivial (.nil _)
  have hdesk : (deskQueue Nat).Runs .empty [.submit 0 1] ((deskQueue Nat).after .empty [.submit 0 1]) :=
    .cons trivial (.nil _)
  have hc := (group_commit_strands_nobody (R := Nat)).1 _ _ hchat
  have hd := (group_commit_strands_nobody (R := Nat)).2 _ _ hdesk
  refine ⟨⟨_, hchat, hc.1, hc.2 (threeCalls []) _ ?_ 0 0 (by decide) (by decide +kernel)⟩,
    ⟨_, hdesk, hd.1, hd.2 (threeCalls [.post]) _ ?_ 0 0 (by decide) (by decide +kernel)⟩⟩
  · repeat refine .cons trivial ?_
    exact .nil _
  · repeat refine .cons trivial ?_
    exact .nil _

end HxdNg.Reaction
