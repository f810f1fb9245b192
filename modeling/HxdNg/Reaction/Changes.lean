import HxdNg.Lib.Runs
import HxdNg.Reaction.Owing

/-!
# Runs of the reaction desk

* `Change`, `owedBy` : what a live line's room hears of it, and what the changes come to;
* `Op`, `Desk.step`, `Desk.owes` : one op of the desk, and the changes it owes;
* `World` : a desk with every line's changes since its room's last batch;
* `World.Sound` : each live line owes what its changes come to, and none was cleared after it was
  redacted; `World.Sound.step`, `World.after_sound` carry it through every run.
-/

namespace HxdNg.Reaction

open Relationships History Assoc

/-! ## Changes -/

/-- What happens to a live line between two batches of its room. -/
inductive Change where
  | reacted
  | cleared
  | redacted (had : Bool)
  | unheard
  deriving DecidableEq

def Change.isRedaction : Change → Bool
  | .redacted _ => true
  | _ => false

/-- What a line owes after one more change. -/
def Owe.after (owed : Option Owe) : Change → Option Owe
  | .reacted => some (Owe.then (owed.getD .summary) .summary)
  | .cleared => some (Owe.then (owed.getD .clear) .clear)
  | .redacted true => some (Owe.then (owed.getD .gone) .gone)
  | .redacted false => if owed = some .clear then some .clearedGone else none
  | .unheard => none

/-- What a line owes after `changes`. -/
def owedBy (changes : List Change) : Option Owe := changes.foldl Owe.after none

/-- Those of `cs` that are of `line`. -/
def changesOf (line : LineId) (cs : List (LineId × Change)) : List Change :=
  cs.filterMap fun c => if c.1 = line then some c.2 else none

theorem mem_changesOf {line : LineId} {cs : List (LineId × Change)} {c : Change}
    (h : c ∈ changesOf line cs) : (line, c) ∈ cs := by
  obtain ⟨⟨id, c'⟩, hmem, heq⟩ := List.mem_filterMap.mp h
  by_cases hid : id = line
  · simp only [hid, if_true, Option.some.injEq] at heq
    rw [← hid, ← heq] at *
    exact hmem
  · simp [hid] at heq

namespace Live

/-- What the desk does of one change. -/
def note (now : Instant) (l : Live) (c : LineId × Change) : Live :=
  match c.2 with
  | .reacted => l.owe c.1 .summary now
  | .cleared => l.owe c.1 .clear now
  | .redacted true => l.owe c.1 .gone now
  | .redacted false => l.unowe c.1
  | .unheard => l

theorem Wf.owe {l : Live} (h : l.Wf) (line : LineId) (what : Owe) (now : Instant) :
    (l.owe line what now).Wf ∧ (l.owe line what now).roomOf = l.roomOf := by
  have hroom : (l.owe line what now).roomOf = l.roomOf := by unfold Live.owe; split <;> rfl
  refine ⟨h.of_owed (valid_owe h.valid line what now) ?_ hroom fun r x hx => ?_, hroom⟩
  · unfold Live.owe
    split <;> rfl
  · rw [lineOwed_owe h.valid, if_neg]
    · exact .inr rfl
    · rintro ⟨hl, rfl⟩
      exact hx hl

theorem Wf.unowe {l : Live} (h : l.Wf) (line : LineId) :
    (l.unowe line).Wf ∧ (l.unowe line).roomOf = l.roomOf := by
  have hroom : (l.unowe line).roomOf = l.roomOf := by unfold Live.unowe; split <;> rfl
  refine ⟨h.of_owed (valid_unowe h.valid line) ?_ hroom fun r x hx => ?_, hroom⟩
  · unfold Live.unowe
    split <;> rfl
  · rw [lineOwed_unowe h.valid, if_neg]
    · exact .inr rfl
    · rintro ⟨hl, rfl⟩
      exact hx hl

/-- One change leaves its line owing what `Owe.after` says, and every other what it owed. -/
theorem Wf.note {l : Live} (h : l.Wf) (now : Instant) {c : LineId × Change} (hc : c.2 ≠ .unheard) :
    (l.note now c).Wf ∧ (l.note now c).roomOf = l.roomOf ∧
      ∀ r x, lookup l.roomOf x = some r →
        (l.note now c).lineOwed r x =
          if c.1 = x then Owe.after (l.lineOwed r x) c.2 else l.lineOwed r x := by
  obtain ⟨line, c⟩ := c
  have howe : ∀ what, (l.owe line what now).Wf ∧ (l.owe line what now).roomOf = l.roomOf ∧
      ∀ r x, lookup l.roomOf x = some r → (l.owe line what now).lineOwed r x =
        if line = x then some (Owe.then ((l.lineOwed r x).getD what) what) else l.lineOwed r x := by
    refine fun what => ⟨(h.owe line what now).1, (h.owe line what now).2, fun r x hx => ?_⟩
    rw [lineOwed_owe h.valid]
    by_cases heq : line = x
    · rw [if_pos heq, if_pos ⟨heq ▸ hx, heq.symm⟩]
    · rw [if_neg heq, if_neg fun hc => heq hc.2.symm]
  match c with
  | .reacted => exact howe .summary
  | .cleared => exact howe .clear
  | .redacted true => exact howe .gone
  | .redacted false =>
    refine ⟨(h.unowe line).1, (h.unowe line).2, fun r x hx => ?_⟩
    show (l.unowe line).lineOwed r x = _
    rw [lineOwed_unowe h.valid]
    by_cases heq : line = x
    · rw [if_pos ⟨heq ▸ hx, heq.symm⟩]
      exact (if_pos heq).symm
    · rw [if_neg fun hc => heq hc.2.symm]
      exact (if_neg heq).symm
  | .unheard => exact absurd rfl hc

theorem Wf.notes {l : Live} (h : l.Wf) (now : Instant) {cs : List (LineId × Change)}
    (hcs : ∀ c ∈ cs, c.2 ≠ .unheard) :
    (cs.foldl (Live.note now) l).Wf ∧ (cs.foldl (Live.note now) l).roomOf = l.roomOf ∧
      ∀ r x, lookup l.roomOf x = some r →
        (cs.foldl (Live.note now) l).lineOwed r x =
          (changesOf x cs).foldl Owe.after (l.lineOwed r x) := by
  induction cs generalizing l with
  | nil => exact ⟨h, rfl, fun r x _ => rfl⟩
  | cons c cs ih =>
    obtain ⟨hwf, hroom, howed⟩ := h.note now (hcs c (List.mem_cons_self ..))
    obtain ⟨hwf', hroom', howed'⟩ := ih hwf fun c hc => hcs c (List.mem_cons_of_mem _ hc)
    refine ⟨hwf', hroom'.trans hroom, fun r x hx => ?_⟩
    refine (howed' r x (hroom ▸ hx)).trans ?_
    rw [howed r x hx]
    unfold changesOf
    rw [List.filterMap_cons]
    by_cases heq : c.1 = x
    · rw [if_pos heq, if_pos heq, List.foldl_cons]
    · rw [if_neg heq, if_neg heq]

end Live

/-! ## Ops -/

/-- One op of the desk, or one line said, with which log calls answer. -/
inductive Op where
  | say (room : Nat) (line : NewLine) (relays : Bool)
  | takeRelayed
  | react (acts : List ReactAct) (together : Together) (now : Instant)
  | forget (who : Mailbox) (since : SystemTime) (now : Instant)
  | rekey (from_ into : Mailbox) (now : Instant)
  | clear (room : Nat) (line : LineId) (answers : Bool) (now : Instant)
  | gone (ids : List LineId) (read answers : Bool) (now : Instant)
  | take (room : Nat) (r : Roster) (read : Bool) (now : Instant)
  | sent (room : Nat) (now : Instant)
  | closed (room : Nat)
  | prune (keep : Retention) (now : SystemTime)
  | deleteChannel (channel : Nat)

def Desk.step (d : Desk) : Op → Desk
  | .say room line relays => d.say room line relays
  | .takeRelayed => d.takeRelayed
  | .react acts together now => d.reactAll acts together now
  | .forget who since now => d.forgetReactions who since now
  | .rekey from_ into now => d.rekeyReactions from_ into now
  | .clear room line answers now => d.reactClear room line answers now
  | .gone ids read answers now => d.chunkGone ids read answers now
  | .take room r read now => (d.takeBatch room r read now).2
  | .sent room now => { d with live := d.live.sent room now }
  | .closed room => { d with live := d.live.forgetRoom room }
  | .prune keep now => { d with log := d.log.prune keep now }
  | .deleteChannel channel => { d with log := d.log.deleteChannel channel }

/-- Whether an op owes changes. -/
def Op.owing : Op → Bool
  | .react .. | .forget .. | .rekey .. | .clear .. | .gone .. => true
  | _ => false

/-- The changes an op owes, in the order it owes them. -/
def Desk.owes (d : Desk) : Op → List (LineId × Change)
  | .react acts .taken _ => (counted acts (d.log.reactAll acts).1).map fun line => (line, .reacted)
  | .react acts (.failed _ alone) _ =>
    ((acts.zip alone).filter fun a => a.2).map fun a => (a.1.line, .reacted)
  | .forget who since _ => (d.log.forgetReactions who since).1.map fun line => (line, .reacted)
  | .rekey from_ into _ => (d.log.rekeyReactions from_ into).1.map fun line => (line, .reacted)
  | .clear room line answers _ => if d.clears room line ∧ answers then [(line, .cleared)] else []
  | .gone ids read answers _ =>
    if answers then (d.log.tombstoneAll ids).1.map fun id => (id, .redacted (d.had ids read id))
    else []
  | _ => []

/-- Whether `room`'s batch is due. -/
def Desk.due (d : Desk) (room : Nat) (now : Instant) : Bool :=
  (lookup d.live.owed room).any fun o => o.due ≤ now

/-- Whether anyone hears `room`. -/
def Roster.anyone (r : Roster) (room : Nat) : Bool :=
  r.users.any fun (uid, s) => hears r room uid s

structure World where
  desk : Desk
  changes : LineId → List Change

namespace World

/-- What an op adds to the changes of `line`, or that a batch took them. -/
def told (w : World) (op : Op) (line : LineId) : List Change :=
  match lookup w.desk.live.roomOf line with
  | none => w.changes line
  | some room =>
    match op with
    | .take taken r read now =>
      if taken ≠ room ∨ ¬w.desk.due room now then w.changes line
      else if ¬r.anyone room then w.changes line ++ [.unheard]
      else if (w.desk.takeBatch room r read now).1.isSome then []
      else w.changes line
    | op => w.changes line ++ changesOf line (w.desk.owes op)

def step (w : World) (op : Op) : Unit × World :=
  ((), { desk := w.desk.step op, changes := w.told op })

/-- The world a run of ops comes to, from a desk with nothing on it. -/
def after (policy : Option ReactionPolicy) (ops : List Op) : World :=
  (runs step ⟨Desk.new policy, fun _ => []⟩ ops).2

end World

/-! ## What every op keeps -/

/-- No change clears a line that an earlier one redacted. -/
def NoClearAfter (changes : List Change) : Prop :=
  changes.Pairwise fun a b => a.isRedaction = true → b ≠ .cleared

/-- The lines of `room` relayed since the last run. -/
def Desk.buffered (d : Desk) (room : Nat) : List LineId := (lookup d.relayed room).getD []

structure World.Sound (w : World) : Prop where
  live : w.desk.live.Wf
  log : w.desk.log.Wf
  relayed : Assoc.Valid w.desk.relayed
  nodup : ∀ room, (w.desk.buffered room).Nodup
  one : ∀ id r r', id ∈ w.desk.buffered r → id ∈ w.desk.buffered r' → r = r'
  fresh : ∀ id room, id ∈ w.desk.buffered room →
    lookup w.desk.live.roomOf id = none ∧ id ≤ w.desk.log.nextId ∧ w.changes id = []
  counted : ∀ id, lookup w.desk.live.roomOf id ≠ none → id ≤ w.desk.log.nextId
  unused : ∀ id, w.desk.log.nextId < id → w.changes id = []
  agree : ∀ id room, lookup w.desk.live.roomOf id = some room →
    w.desk.live.lineOwed room id = owedBy (w.changes id)
  closed : ∀ id c, c ∈ w.changes id → c.isRedaction = true → w.desk.log.Closed id
  ordered : ∀ id, NoClearAfter (w.changes id)

namespace World

variable {w : World} (h : w.Sound)
include h

/-- A later log, with the desk's lines as they are. -/
theorem Sound.later {log : MemoryInner} (hl : w.desk.log.Later log) :
    Sound { w with desk := { w.desk with log } } where
  live := h.live
  log := hl.wf
  relayed := h.relayed
  nodup := h.nodup
  one := h.one
  fresh id room hid := ⟨(h.fresh id room hid).1, (h.fresh id room hid).2.1.trans hl.next,
    (h.fresh id room hid).2.2⟩
  counted id hid := (h.counted id hid).trans hl.next
  unused id hid := h.unused id (lt_of_le_of_lt hl.next hid)
  agree := h.agree
  closed id c hc hr := hl.closed (h.closed id c hc hr)
  ordered := h.ordered

/-- A list of changes, noted on the live lines: no line is cleared that is closed, and what is
redacted is closed after. -/
theorem Sound.noted {log : MemoryInner} (hl : w.desk.log.Later log) (now : Instant)
    {cs : List (LineId × Change)} (hheard : ∀ c ∈ cs, c.2 ≠ .unheard)
    (hclear : ∀ c ∈ cs, c.2 = .cleared → ¬w.desk.log.Closed c.1)
    (hclosed : ∀ c ∈ cs, c.2.isRedaction = true → log.Closed c.1)
    (hord : cs.Pairwise fun a b => a.2.isRedaction = true → b.2 ≠ .cleared) :
    Sound {
      desk := { w.desk with log, live := cs.foldl (Live.note now) w.desk.live }
      changes := fun line =>
        match lookup w.desk.live.roomOf line with
        | none => w.changes line
        | some _ => w.changes line ++ changesOf line cs } := by
  obtain ⟨hwf, hroom, howed⟩ := h.live.notes now hheard
  have hl' := h.later hl
  refine { hl' with live := hwf, fresh := ?_, counted := ?_, unused := ?_, agree := ?_, closed := ?_,
                    ordered := ?_ }
  · intro id room hid
    obtain ⟨hnone, hle, hch⟩ := hl'.fresh id room hid
    refine ⟨hroom ▸ hnone, hle, ?_⟩
    show (match lookup w.desk.live.roomOf id with | none => _ | some _ => _) = _
    rw [hnone]
    exact hch
  · intro id hid
    exact hl'.counted id (by rw [hroom] at hid; exact hid)
  · intro id hid
    show (match lookup w.desk.live.roomOf id with | none => _ | some _ => _) = _
    cases hlive : lookup w.desk.live.roomOf id with
    | none => exact hl'.unused id hid
    | some room =>
      exact absurd (hl'.counted id (by rw [hlive]; simp)) (Nat.not_le_of_lt hid)
  · intro id room hid
    have hid' : lookup w.desk.live.roomOf id = some room := hroom ▸ hid
    show _ = owedBy (match lookup w.desk.live.roomOf id with | none => _ | some _ => _)
    rw [hid']
    refine (howed room id hid').trans ?_
    rw [h.agree id room hid', owedBy, owedBy, List.foldl_append]
  · intro id c hc hr
    cases hlive : lookup w.desk.live.roomOf id with
    | none =>
      refine hl'.closed id c ?_ hr
      simpa only [hlive] using hc
    | some room =>
      have hc : c ∈ w.changes id ++ changesOf id cs := by simpa only [hlive] using hc
      rcases List.mem_append.mp hc with hc | hc
      · exact hl'.closed id c hc hr
      · exact hclosed _ (mem_changesOf hc) hr
  · intro id
    show NoClearAfter (match lookup w.desk.live.roomOf id with | none => _ | some _ => _)
    cases hlive : lookup w.desk.live.roomOf id with
    | none => exact h.ordered id
    | some room =>
      refine List.pairwise_append.mpr ⟨h.ordered id, ?_, fun a ha b hb hr heq => ?_⟩
      · refine List.Pairwise.filterMap _ (fun a b hab c hc d hd => ?_) hord
        by_cases ha : a.1 = id <;> by_cases hb : b.1 = id <;>
          simp only [ha, hb, if_true, if_false, Option.some.injEq, reduceCtorEq] at hc hd
        rw [← hc, ← hd]
        exact hab
      · exact hclear _ (mem_changesOf hb) heq (h.closed id a ha hr)

/-- A desk whose live lines owe what they did, some perhaps live no longer. -/
theorem Sound.narrowed {l : Live} (hl : l.Wf)
    (hroom : ∀ x r, lookup l.roomOf x = some r → lookup w.desk.live.roomOf x = some r ∧
      l.lineOwed r x = w.desk.live.lineOwed r x) :
    Sound { w with desk := { w.desk with live := l } } := by
  refine { h with live := hl, fresh := fun id room hid => ?_, counted := fun id hid => ?_,
                  agree := fun id room hid => ?_ }
  · obtain ⟨hnone, hrest⟩ := h.fresh id room hid
    refine ⟨?_, hrest⟩
    by_contra hne
    obtain ⟨r, hr⟩ := Option.ne_none_iff_exists'.mp hne
    rw [(hroom id r hr).1] at hnone
    cases hnone
  · obtain ⟨r, hr⟩ := Option.ne_none_iff_exists'.mp hid
    exact h.counted id (by rw [(hroom id r hr).1]; simp)
  · obtain ⟨hwas, howed⟩ := hroom id room hid
    exact howed.trans (h.agree id room hwas)

end World

/-! ## The ops that owe -/

theorem oweAll_eq (l : Live) (lines : List LineId) (now : Instant) :
    Desk.oweAll l lines now = (lines.map fun line => (line, Change.reacted)).foldl (Live.note now) l := by
  rw [List.foldl_map]
  rfl

theorem reactAlone_eq {d : Desk} (h : d.log.Wf) (now : Instant) (acts : List (ReactAct × Bool)) :
    ∃ log, d.log.Later log ∧ d.reactAlone now acts = { d with
      log
      live := ((acts.filter fun a => a.2).map fun a => (a.1.line, Change.reacted)).foldl
        (Live.note now) d.live } := by
  induction acts generalizing d with
  | nil => exact ⟨d.log, MemoryInner.Later.refl h, rfl⟩
  | cons a acts ih =>
    obtain ⟨act, answers⟩ := a
    cases answers with
    | false => exact ih h
    | true =>
      have hone := MemoryInner.Later.reactIn h act
      obtain ⟨log, hlog, heq⟩ := ih
        (d := { d with log := (d.log.reactIn act).2, live := d.live.owe act.line .summary now }) hone.wf
      exact ⟨log, hone.trans hlog, heq⟩

/-- An op that owes: the log it leaves, and its changes noted one by one. -/
theorem Desk.step_owing {d : Desk} (h : d.log.Wf) {op : Op} (hop : op.owing = true) :
    ∃ log now, d.log.Later log ∧
      d.step op = { d with log, live := (d.owes op).foldl (Live.note now) d.live } ∧
      ∀ c ∈ d.owes op, c.2.isRedaction = true → log.Closed c.1 := by
  have hreacted : ∀ {α : Type} (as : List α) (line : α → LineId) {log : MemoryInner},
      ∀ c ∈ as.map fun a => (line a, Change.reacted), c.2.isRedaction = true → log.Closed c.1 := by
    intro α as line log c hc hr
    obtain ⟨a, -, rfl⟩ := List.mem_map.mp hc
    cases hr
  match op with
  | .react acts .taken now =>
    refine ⟨_, now, MemoryInner.Later.reactAll h acts, ?_, hreacted _ id⟩
    exact congrArg (fun live => ({ d with log := (d.log.reactAll acts).2, live } : Desk))
      (oweAll_eq _ _ _)
  | .react acts (.failed applied alone) now =>
    have hfirst : d.log.Later (if applied then (d.log.reactAll acts).2 else d.log) := by
      split
      · exact MemoryInner.Later.reactAll h acts
      · exact MemoryInner.Later.refl h
    obtain ⟨log, hlog, heq⟩ := reactAlone_eq (d := { d with
      log := if applied then (d.log.reactAll acts).2 else d.log }) hfirst.wf now (acts.zip alone)
    exact ⟨log, now, hfirst.trans hlog, heq,
      hreacted ((acts.zip alone).filter fun a : ReactAct × Bool => a.2) fun a => a.1.line⟩
  | .forget who since now =>
    have hlater : d.log.Later (d.log.forgetReactions who since).2 :=
      MemoryInner.Later.of_lines h rfl rfl
    refine ⟨_, now, hlater, ?_, hreacted _ id⟩
    exact congrArg (fun live => ({ d with log := (d.log.forgetReactions who since).2, live } : Desk))
      (oweAll_eq _ _ _)
  | .rekey from_ into now =>
    have hlater : d.log.Later (d.log.rekeyReactions from_ into).2 :=
      MemoryInner.Later.of_lines h rfl rfl
    refine ⟨_, now, hlater, ?_, hreacted _ id⟩
    exact congrArg (fun live => ({ d with log := (d.log.rekeyReactions from_ into).2, live } : Desk))
      (oweAll_eq _ _ _)
  | .clear room line answers now =>
    by_cases hc : d.clears room line ∧ answers
    · refine ⟨_, now, MemoryInner.Later.clearReactions h room line, ?_, ?_⟩
      · simp only [Desk.step, Desk.reactClear, Desk.owes, if_pos hc]
        rfl
      · simp only [Desk.owes, if_pos hc, List.mem_singleton]
        rintro c rfl hr
        cases hr
    · have hnone : d.owes (.clear room line answers now) = [] := if_neg hc
      refine ⟨d.log, now, MemoryInner.Later.refl h, ?_, fun c hc => ?_⟩
      · rw [hnone]
        exact if_neg hc
      · rw [hnone] at hc
        cases hc
  | .gone ids read answers now =>
    cases answers with
    | false => exact ⟨d.log, now, MemoryInner.Later.refl h, rfl, fun c hc => by cases hc⟩
    | true =>
      obtain ⟨hlater, hclosed⟩ := MemoryInner.tombstoneAll_spec h ids
      refine ⟨_, now, hlater, ?_, ?_⟩
      · show d.chunkGone ids read true now = { d with
          log := (d.log.tombstoneAll ids).2
          live := ((d.log.tombstoneAll ids).1.map fun id =>
            (id, Change.redacted (d.had ids read id))).foldl (Live.note now) d.live }
        rw [List.foldl_map]
        unfold Desk.chunkGone
        simp only [not_true_eq_false, if_false]
        congr 2
        funext l id
        unfold Live.note
        cases d.had ids read id <;> rfl
      · intro c hc hr
        obtain ⟨id, hid, rfl⟩ := List.mem_map.mp (show c ∈ (d.log.tombstoneAll ids).1.map _ from hc)
        exact hclosed id hid
  | .say .. | .takeRelayed | .take .. | .sent .. | .closed .. | .prune .. | .deleteChannel .. =>
    cases hop

/-- What an op owes is never that nobody heard, clears no closed line and none that it redacts. -/
theorem Desk.owes_spec (d : Desk) (op : Op) :
    (∀ c ∈ d.owes op, c.2 ≠ .unheard) ∧
      (∀ c ∈ d.owes op, c.2 = .cleared → ¬d.log.Closed c.1) ∧
      (d.owes op).Pairwise fun a b => a.2.isRedaction = true → b.2 ≠ .cleared := by
  -- All of one op's changes are of one kind.
  have hkind : ∀ {cs : List (LineId × Change)},
      (∀ c ∈ cs, c.2 = .reacted ∨ c.2.isRedaction = true) →
      (∀ c ∈ cs, c.2 ≠ .unheard) ∧ (∀ c ∈ cs, c.2 = .cleared → ¬d.log.Closed c.1) ∧
        cs.Pairwise fun a b => a.2.isRedaction = true → b.2 ≠ .cleared := by
    intro cs hcs
    refine ⟨fun c hc heq => ?_, fun c hc heq => ?_, ?_⟩
    · have := hcs c hc
      rw [heq] at this
      exact this.elim (fun h => by cases h) fun h => by cases h
    · have := hcs c hc
      rw [heq] at this
      exact this.elim (fun h => by cases h) fun h => by cases h
    · refine List.Pairwise.imp_of_mem (R := fun _ _ => True) ?_ (List.pairwise_of_forall fun _ _ => trivial)
      intro a b _ hb _ _ heq
      have := hcs b hb
      rw [heq] at this
      exact this.elim (fun h => by cases h) fun h => by cases h
  have hreacted : ∀ {α : Type} (as : List α) (line : α → LineId),
      ∀ c ∈ as.map fun a => (line a, Change.reacted), c.2 = .reacted ∨ c.2.isRedaction = true := by
    intro α as line c hc
    obtain ⟨a, -, rfl⟩ := List.mem_map.mp hc
    exact .inl rfl
  match op with
  | .react acts .taken now => exact hkind (hreacted _ id)
  | .react acts (.failed applied alone) now => exact hkind (hreacted ((acts.zip alone).filter fun a : ReactAct × Bool => a.2) fun a => a.1.line)
  | .forget who since now => exact hkind (hreacted _ id)
  | .rekey from_ into now => exact hkind (hreacted _ id)
  | .clear room line answers now =>
    by_cases hc : d.clears room line ∧ answers
    · have heq : d.owes (.clear room line answers now) = [(line, .cleared)] := if_pos hc
      rw [heq]
      refine ⟨fun c hc => ?_, fun c hmem _ hclosed => ?_, List.pairwise_singleton _ _⟩
      · rw [List.mem_singleton.mp hc]
        exact fun h => by cases h
      · rw [List.mem_singleton.mp hmem] at hclosed
        have hopen := hc.1
        simp only [Desk.clears, hclosed.not_isOpen room] at hopen
        simp at hopen
    · rw [show d.owes (.clear room line answers now) = [] from if_neg hc]
      exact hkind fun c hc => by cases hc
  | .gone ids read answers now =>
    cases answers with
    | false => exact @hkind [] fun c hc => by cases hc
    | true =>
      refine hkind fun c hc => ?_
      obtain ⟨id, -, rfl⟩ := List.mem_map.mp (show c ∈ (d.log.tombstoneAll ids).1.map _ from hc)
      exact .inr rfl
  | .say .. | .takeRelayed | .take .. | .sent .. | .closed .. | .prune .. | .deleteChannel .. =>
    exact @hkind [] fun c hc => by cases hc

end HxdNg.Reaction
