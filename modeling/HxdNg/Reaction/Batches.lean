import HxdNg.Reaction.Changes

/-!
# Batches, and every op of a run

* `Desk.takeBatch_cases` : what taking a room's batch can come to;
* `Sound.say`, `Sound.takeRelayed`, `Sound.take`, `Sound.forgetRoom` : the ops that owe nothing;
* `World.Sound.step`, `World.after_sound` : every world a run comes to is sound.
-/

namespace HxdNg.Reaction

open Relationships History Assoc

/-! ## Taking a batch -/

/-- The live lines that owe in `room`. -/
def Desk.owedLines (d : Desk) (room : Nat) : List (LineId × Owe) :=
  ((lookup d.live.owed room).elim [] Owed.lines).filter fun p => d.live.isLive p.1

/-- The desk once `room`'s batch is taken. -/
def Desk.taken (d : Desk) (room : Nat) : Desk :=
  { d with live := { d.live with owed := erase room d.live.owed } }

/-- A batch is not due; or is due and goes to nobody, or has nothing in it; or is read; or is not, and
is owed again. -/
theorem Desk.takeBatch_cases (d : Desk) (room : Nat) (r : Roster) (read : Bool) (now : Instant) :
    (d.due room now = false ∧ d.takeBatch room r read now = (none, d)) ∨
    d.due room now = true ∧
      ((r.anyone room = false ∧ d.takeBatch room r read now = (none, d.taken room)) ∨
      r.anyone room = true ∧
        ((d.owedLines room = [] ∧ d.takeBatch room r read now = (none, d.taken room)) ∨
        ((read = true ∨ summaries (d.owedLines room) = []) ∧
          d.takeBatch room r read now =
            (some (Batch.read d.log (d.owedLines room)), d.taken room)) ∨
        (read = false ∧ d.takeBatch room r read now = (none, { d with
          live := (d.taken room).live.restore room (d.owedLines room) now })))) := by
  unfold Desk.takeBatch Desk.due Desk.owedLines
  cases ho : lookup d.live.owed room with
  | none => exact .inl ⟨rfl, rfl⟩
  | some o =>
    dsimp only [Option.any_some, Option.elim]
    by_cases hdue : now < o.due
    · left
      rw [if_pos hdue]
      exact ⟨by simpa using hdue, rfl⟩
    · right
      rw [if_neg hdue]
      refine ⟨by simpa using hdue, ?_⟩
      have hlive : ({ d.live with owed := erase room d.live.owed } : Live).isLive = d.live.isLive := rfl
      rw [hlive]
      generalize hlines : (o.lines.filter fun p => d.live.isLive p.1) = lines
      show (r.anyone room = false ∧ (if lines.isEmpty ∨ ¬r.anyone room then _ else _) = _) ∨ _
      cases hany : r.anyone room with
      | false => exact .inl ⟨rfl, if_pos (.inr (by simp))⟩
      | true =>
        refine .inr ⟨rfl, ?_⟩
        by_cases hempty : lines = []
        · exact .inl ⟨hempty, if_pos (.inl (List.isEmpty_iff.mpr hempty))⟩
        · refine .inr ?_
          have hgo : ¬(lines.isEmpty = true ∨
              ¬(r.users.any fun x => hears r room x.1 x.2) = true) := by
            rintro (hc | hc)
            · exact hempty (List.isEmpty_iff.mp hc)
            · exact hc hany
          rw [if_neg hgo]
          by_cases hread : read = true ∨ (summaries lines).isEmpty = true
          · rw [if_pos hread]
            exact .inl ⟨hread.imp_right List.isEmpty_iff.mp, rfl⟩
          · rw [if_neg hread]
            exact .inr ⟨by simpa using fun hc => hread (.inl hc), rfl⟩

/-- What a live line owes its room is what the room's batch would take. -/
theorem Desk.lookup_owedLines {d : Desk} (h : d.live.Wf) {room : Nat} {line : LineId}
    (hlive : lookup d.live.roomOf line = some room) :
    lookup (d.owedLines room) line = d.live.lineOwed room line := by
  unfold Desk.owedLines Live.lineOwed
  cases ho : lookup d.live.owed room with
  | none => rfl
  | some o =>
    have hl : d.live.isLive line = true := by
      unfold Live.isLive
      rw [hlive]
      rfl
    show lookup (o.lines.filter fun p => d.live.isLive p.1) line = lookup o.lines line
    rw [lookup_filter (h.valid.lines room o ho)]
    dsimp only
    rw [hl]
    cases lookup o.lines line <;> rfl

theorem Desk.valid_owedLines {d : Desk} (h : d.live.Wf) (room : Nat) :
    Assoc.Valid (d.owedLines room) := by
  unfold Desk.owedLines
  cases ho : lookup d.live.owed room with
  | none => exact List.nodup_nil
  | some o => exact Assoc.valid_filter (h.valid.lines room o ho) _

section Taken
variable {d : Desk} (h : d.live.Wf)
include h

theorem Desk.wf_taken (room : Nat) : (d.taken room).live.Wf := by
  refine h.of_owed (Live.valid_takeOwed h.valid room) rfl rfl fun r x _ => ?_
  rw [show (d.taken room).live.lineOwed r x = _ from Live.lineOwed_takeOwed h.valid room r x]
  split
  · exact .inl rfl
  · exact .inr rfl

/-- A batch that was taken and is owed again leaves every live line owing what it did. -/
theorem Desk.restore_taken (room : Nat) (now : Instant) :
    let l := (d.taken room).live.restore room (d.owedLines room) now
    l.Wf ∧ l.roomOf = d.live.roomOf ∧
      ∀ r x, lookup d.live.roomOf x = some r → l.lineOwed r x = d.live.lineOwed r x := by
  have hwf := Desk.wf_taken h room
  obtain ⟨hv, howed⟩ := Live.restore_spec hwf.valid (Desk.valid_owedLines h room) room now
  have hroom : ((d.taken room).live.restore room (d.owedLines room) now).roomOf = d.live.roomOf := by
    unfold Live.restore
    dsimp only
    split <;> rfl
  have hthen : ∀ o : Owe, Owe.then o o = o := fun o => by cases o <;> rfl
  have htaken : ∀ r x, (d.taken room).live.lineOwed r x =
      if r = room then none else d.live.lineOwed r x := Live.lineOwed_takeOwed h.valid room
  refine ⟨hwf.of_owed hv ?_ hroom fun r x hx => ?_, hroom, fun r x hx => ?_⟩
  · unfold Live.restore
    dsimp only
    split <;> rfl
  · right
    rw [howed]
    -- Only lines live in this room are owed again in it.
    have hnone : (lookup (d.owedLines room) x).filter
        (fun _ => r = room ∧ (d.taken room).live.isLive x) = none := by
      rw [Option.filter_eq_none_iff]
      intro what hwhat
      simp only [decide_eq_true_eq]
      rintro ⟨rfl, hlive⟩
      obtain ⟨r', hr'⟩ := Option.isSome_iff_exists.mp hlive
      have hmem := List.mem_filter.mp (mem_of_lookup hwhat)
      have hne : d.live.lineOwed r x ≠ none := by
        unfold Live.lineOwed
        cases ho : lookup d.live.owed r with
        | none => rw [ho] at hmem; cases hmem.1
        | some o =>
          have hv := h.valid.lines r o ho
          rw [Option.bind_some, lookup_of_mem hv (v := what) (by rw [ho] at hmem; exact hmem.1)]
          exact fun hc => by cases hc
      exact hx (h.owing r x hne)
    rw [hnone]
  · rw [howed, htaken]
    have hlive : (d.taken room).live.isLive x = true := by
      show (lookup d.live.roomOf x).isSome = true
      rw [hx]
      rfl
    by_cases hr : r = room
    · subst hr
      rw [Desk.lookup_owedLines h hx, if_pos rfl]
      cases ho : d.live.lineOwed r x with
      | none => rfl
      | some what =>
        have hkeep : (some what).filter (fun _ => decide (r = r ∧ (d.taken r).live.isLive x = true)) =
            some what := Option.filter_eq_some_iff.mpr ⟨rfl, by simp [hlive]⟩
        rw [hkeep]
        exact congrArg some (hthen what)
    · rw [if_neg hr]
      have hnone : (lookup (d.owedLines room) x).filter
          (fun _ => r = room ∧ (d.taken room).live.isLive x) = none := by
        simp [hr]
      rw [hnone]

end Taken

/-! ## The ops that owe nothing -/

namespace World

variable {w : World} (h : w.Sound)
include h

omit h in
/-- The changes of an op that takes no batch and owes nothing. -/
theorem told_of_not_owing {op : Op} (hop : op.owing = false)
    (htake : ∀ room r read now, op ≠ .take room r read now) : w.told op = w.changes := by
  funext line
  unfold told
  cases lookup w.desk.live.roomOf line with
  | none => rfl
  | some room =>
    cases op with
    | take room r read now => exact absurd rfl (htake room r read now)
    | react | forget | rekey | clear | gone => cases hop
    | say | takeRelayed | sent | closed | prune | deleteChannel => exact List.append_nil _

theorem Sound.say (room : Nat) (line : NewLine) (relays : Bool) :
    Sound { w with desk := w.desk.say room line relays } := by
  have hl := MemoryInner.Later.append h.log { line with channel := room }
  unfold Desk.say
  rcases happ : w.desk.log.append { line with channel := room } with ⟨_ | ⟨id, new⟩, log⟩
  · rw [happ] at hl
    exact h.later hl
  rw [happ] at hl
  cases new with
  | false => exact h.later hl
  | true =>
    cases relays with
    | false => exact h.later hl
    | true =>
      have hl' := h.later hl
      -- The line has the next id, which nothing names yet.
      have hid : id = w.desk.log.nextId + 1 ∧ log.nextId = id := by
        unfold MemoryInner.append at happ
        dsimp only at happ
        split at happ
        · cases happ
        · split at happ
          · cases happ
          · simp only [Prod.mk.injEq, Except.ok.injEq, Appended.mk.injEq, and_true] at happ
            obtain ⟨rfl, rfl⟩ := happ
            exact ⟨rfl, rfl⟩
      have hnew : w.desk.log.nextId < id := by rw [hid.1]; exact Nat.lt_succ_self _
      have hunbuffered : ∀ r, id ∉ w.desk.buffered r := fun r hin =>
        absurd (h.fresh id r hin).2.1 (Nat.not_le_of_lt hnew)
      set ring := w.desk.buffered room ++ [id] with hring
      set kept := ring.drop (ring.length - w.desk.live.window) with hkept
      have hbuf : ∀ r, Desk.buffered { w.desk with
          log, relayed := insert room kept w.desk.relayed } r =
          if r = room then kept else w.desk.buffered r := fun r => by
        unfold Desk.buffered
        rw [lookup_insert h.relayed]
        split <;> rfl
      have hmem : ∀ {x r}, x ∈ (if r = room then kept else w.desk.buffered r) →
          (x = id ∧ r = room) ∨ x ∈ w.desk.buffered r := fun {x r} hx => by
        by_cases hr : r = room
        · rw [if_pos hr] at hx
          rcases List.mem_append.mp (List.mem_of_mem_drop hx) with hx | hx
          · exact .inr (hr ▸ hx)
          · exact .inl ⟨List.mem_singleton.mp hx, hr⟩
        · rw [if_neg hr] at hx
          exact .inr hx
      refine { hl' with relayed := Assoc.valid_alter h.relayed _ _, nodup := fun r => ?_,
                        one := fun x r r' hx hx' => ?_, fresh := fun x r hx => ?_ }
      · refine (congrArg List.Nodup (hbuf r)).mpr ?_
        split
        · refine List.Nodup.sublist (List.drop_sublist _ _) ?_
          refine (h.nodup room).append (List.nodup_singleton id) fun x hx hx' => ?_
          rw [List.mem_singleton.mp hx'] at hx
          exact hunbuffered room hx
        · exact h.nodup r
      · rcases hmem (hbuf r ▸ hx) with ⟨rfl, hr⟩ | hin <;>
          rcases hmem (hbuf r' ▸ hx') with ⟨hid', hr'⟩ | hin'
        · exact hr.trans hr'.symm
        · exact absurd hin' (hunbuffered r')
        · rw [hid'] at hin
          exact absurd hin (hunbuffered r)
        · exact h.one x r r' hin hin'
      · rcases hmem (hbuf r ▸ hx) with ⟨rfl, hr⟩ | hin
        · refine ⟨?_, hid.2.ge, h.unused x hnew⟩
          by_contra hne
          exact absurd (h.counted x hne) (Nat.not_le_of_lt hnew)
        · exact hl'.fresh x r hin

theorem Sound.takeRelayed : Sound { w with desk := w.desk.takeRelayed } := by
  -- Room by room: what is relayed is new to the desk, and no line is relayed twice.
  have hall : ∀ (ps : List (Nat × List LineId)) (l : Live), l.Wf →
      (∀ p ∈ ps, p.2.Nodup) → ps.Pairwise (fun p q => p.2.Disjoint q.2) →
      (∀ p ∈ ps, ∀ id ∈ p.2, lookup l.roomOf id = none) →
      let l' := ps.foldl (fun l p => p.2.foldl (fun l id => l.relayed p.1 id) l) l
      l'.Wf ∧
        (∀ x r, lookup l'.roomOf x = some r →
          (∃ p ∈ ps, x ∈ p.2 ∧ r = p.1) ∨ lookup l.roomOf x = some r) ∧
        ∀ x r, lookup l'.roomOf x = some r → l'.lineOwed r x = l.lineOwed r x := by
    intro ps
    induction ps with
    | nil => exact fun l hl _ _ _ => ⟨hl, fun x r hx => .inr hx, fun x r _ => rfl⟩
    | cons p ps ih =>
      intro l hl hnodup hdisj hfresh
      obtain ⟨hdis, hdisj⟩ := List.pairwise_cons.mp hdisj
      have hp := List.mem_cons_self (a := p) (l := ps)
      obtain ⟨hwf, hroom, howed⟩ := @Live.Wf.relayedAll _ hl p.1 _ (hnodup p hp) (hfresh p hp)
      obtain ⟨hwf', hroom', howed'⟩ := ih _ hwf
        (fun q hq => hnodup q (List.mem_cons_of_mem _ hq)) hdisj fun q hq id hid => by
          by_contra hne
          obtain ⟨r, hr⟩ := Option.ne_none_iff_exists'.mp hne
          rcases hroom id r hr with ⟨hin, -⟩ | hwas
          · exact hdis q hq hin hid
          · rw [hfresh q (List.mem_cons_of_mem _ hq) id hid] at hwas
            cases hwas
      refine ⟨hwf', fun x r hx => ?_, fun x r hx => ?_⟩
      · rcases hroom' x r hx with ⟨q, hq, hin, rfl⟩ | hwas
        · exact .inl ⟨q, List.mem_cons_of_mem _ hq, hin, rfl⟩
        · rcases hroom x r hwas with ⟨hin, rfl⟩ | hwas
          · exact .inl ⟨p, hp, hin, rfl⟩
          · exact .inr hwas
      · refine (howed' x r hx).trans ?_
        rcases hroom' x r hx with ⟨q, hq, hin, rfl⟩ | hwas
        · have hnone := hfresh q (List.mem_cons_of_mem _ hq) x hin
          have hno : ∀ l' : Live, l'.Wf → lookup l'.roomOf x = none → l'.lineOwed q.1 x = none := by
            intro l' hwf hx
            by_contra hne
            rw [hwf.owing q.1 x hne] at hx
            cases hx
          rw [hno l hl hnone]
          refine hno _ hwf ?_
          by_contra hne
          obtain ⟨r, hr⟩ := Option.ne_none_iff_exists'.mp hne
          rcases hroom x r hr with ⟨hin', -⟩ | hwas
          · exact hdis q hq hin' hin
          · rw [hnone] at hwas
            cases hwas
        · exact howed x r hwas
  have hbuf : ∀ p ∈ w.desk.relayed, w.desk.buffered p.1 = p.2 := fun p hp => by
    unfold Desk.buffered
    rw [lookup_of_mem h.relayed (show (p.1, p.2) ∈ w.desk.relayed from hp)]
    rfl
  obtain ⟨hwf, hroom, howed⟩ := hall w.desk.relayed w.desk.live h.live
    (fun p hp => hbuf p hp ▸ h.nodup p.1)
    (by
      refine List.Pairwise.imp_of_mem ?_ (List.pairwise_map.mp h.relayed)
      intro p q hp hq hne id hid hid'
      exact hne (h.one id p.1 q.1 (by rw [hbuf p hp]; exact hid) (by rw [hbuf q hq]; exact hid')))
    fun p hp id hid => (h.fresh id p.1 (by rw [hbuf p hp]; exact hid)).1
  have hnone : ∀ room, Desk.buffered w.desk.takeRelayed room = [] := fun room => rfl
  refine { h with live := hwf, relayed := List.nodup_nil, nodup := fun room => ?_,
                  one := fun id r r' hid => ?_, fresh := fun id room hid => ?_,
                  counted := fun id hid => ?_, agree := fun id room hid => ?_ }
  · exact (congrArg List.Nodup (hnone room)).mpr List.nodup_nil
  · cases hnone r ▸ hid
  · cases hnone room ▸ hid
  · obtain ⟨r, hr⟩ := Option.ne_none_iff_exists'.mp hid
    rcases hroom id r hr with ⟨p, hp, hin, -⟩ | hwas
    · exact (h.fresh id p.1 (by rw [hbuf p hp]; exact hin)).2.1
    · exact h.counted id (by rw [hwas]; simp)
  · refine (howed id room hid).trans ?_
    rcases hroom id room hid with ⟨p, hp, hin, rfl⟩ | hwas
    · obtain ⟨hfresh, -, hch⟩ := h.fresh id p.1 (by rw [hbuf p hp]; exact hin)
      show _ = owedBy (w.changes id)
      rw [hch]
      by_contra hne
      rw [h.live.owing p.1 id hne] at hfresh
      cases hfresh
    · exact h.agree id room hwas

theorem Sound.forgetRoom (room : Nat) :
    Sound { w with desk := { w.desk with live := w.desk.live.forgetRoom room } } := by
  obtain ⟨hwf, hroom, howed⟩ := h.live.forgetRoom room
  refine h.narrowed hwf fun x r hx => ?_
  rw [hroom] at hx
  by_cases hc : lookup w.desk.live.roomOf x = some room
  · rw [if_pos hc] at hx
    cases hx
  · rw [if_neg hc] at hx
    refine ⟨hx, ?_⟩
    rw [howed, if_neg]
    rintro rfl
    exact hc hx

/-- Taking a batch: lines it takes owe nothing, and the rest what they did. -/
theorem Sound.take (room : Nat) (r : Roster) (read : Bool) (now : Instant) :
    Sound (w.step (.take room r read now)).2 := by
  have htold : ∀ x, w.told (.take room r read now) x =
      if lookup w.desk.live.roomOf x = some room ∧ w.desk.due room now = true then
        if r.anyone room = false then w.changes x ++ [.unheard]
        else if (w.desk.takeBatch room r read now).1.isSome then [] else w.changes x
      else w.changes x := by
    intro x
    unfold told
    cases hx : lookup w.desk.live.roomOf x with
    | none => simp
    | some room' =>
      by_cases hr : room = room'
      · subst hr
        cases hdue : w.desk.due room now <;> cases hany : r.anyone room <;> simp [hdue, hany]
      · simp [hr, Ne.symm hr]
  -- A batch that was taken: `w'` keeps, drops or adds to the changes of the room's live lines.
  have htaken : ∀ d' : Desk, d'.live.Wf → d'.live.roomOf = w.desk.live.roomOf →
      d'.log = w.desk.log → d'.relayed = w.desk.relayed → ∀ changes : LineId → List Change,
      (∀ x, lookup w.desk.live.roomOf x = none → changes x = w.changes x) →
      (∀ x, changes x = w.changes x ∨ changes x = [] ∨ changes x = w.changes x ++ [.unheard]) →
      (∀ x r, lookup w.desk.live.roomOf x = some r → d'.live.lineOwed r x = owedBy (changes x)) →
      Sound ⟨d', changes⟩ := by
    intro d' hwf hroom hlog hrel changes hdead hch howed
    have hbuf : ∀ r, d'.buffered r = w.desk.buffered r := fun r => by
      unfold Desk.buffered
      rw [hrel]
    refine ⟨hwf, ?_, ?_, ?_, ?_, ?_, ?_, ?_, ?_, ?_, ?_⟩
    · exact (congrArg MemoryInner.Wf hlog).mpr h.log
    · exact (congrArg Assoc.Valid hrel).mpr h.relayed
    · exact fun r => (congrArg List.Nodup (hbuf r)).mpr (h.nodup r)
    · exact fun id a b ha hb => h.one id a b (hbuf a ▸ ha) (hbuf b ▸ hb)
    · intro id a ha
      obtain ⟨hnone, hle, hnil⟩ := h.fresh id a (hbuf a ▸ ha)
      refine ⟨hroom ▸ hnone, ?_, (hdead id hnone).trans hnil⟩
      show id ≤ d'.log.nextId
      rw [hlog]
      exact hle
    · intro id hid
      show id ≤ d'.log.nextId
      rw [hlog]
      exact h.counted id (hroom ▸ hid)
    · intro id hid
      have hid : w.desk.log.nextId < id := hlog ▸ hid
      have hnone : lookup w.desk.live.roomOf id = none := by
        by_contra hne
        exact absurd (h.counted id hne) (Nat.not_le_of_lt hid)
      exact (hdead id hnone).trans (h.unused id hid)
    · exact fun id a ha => howed id a (hroom ▸ ha)
    · intro id c hc hr
      show d'.log.Closed id
      rw [hlog]
      have hc : c ∈ changes id := hc
      rcases hch id with heq | heq | heq <;> rw [heq] at hc
      · exact h.closed id c hc hr
      · cases hc
      · rcases List.mem_append.mp hc with hc | hc
        · exact h.closed id c hc hr
        · rw [List.mem_singleton.mp hc] at hr
          cases hr
    · intro id
      show NoClearAfter (changes id)
      rcases hch id with heq | heq | heq <;> rw [heq]
      · exact h.ordered id
      · exact List.Pairwise.nil
      · refine List.pairwise_append.mpr ⟨h.ordered id, List.pairwise_singleton _ _, ?_⟩
        intro a _ b hb _
        rw [List.mem_singleton.mp hb]
        exact fun hc => by cases hc
  have howedTaken : ∀ x a, (w.desk.taken room).live.lineOwed a x =
      if a = room then none else w.desk.live.lineOwed a x :=
    fun x a => Live.lineOwed_takeOwed h.live.valid room a x
  have hstep : (w.step (.take room r read now)).2 =
      ⟨(w.desk.takeBatch room r read now).2, w.told (.take room r read now)⟩ := rfl
  rw [hstep]
  have hdead : ∀ x, lookup w.desk.live.roomOf x = none →
      w.told (.take room r read now) x = w.changes x := fun x hx => by
    rw [htold, if_neg]
    rw [hx]
    exact fun hc => by cases hc.1
  have hthree : ∀ x, w.told (.take room r read now) x = w.changes x ∨
      w.told (.take room r read now) x = [] ∨
      w.told (.take room r read now) x = w.changes x ++ [.unheard] := fun x => by
    rw [htold]
    split
    · split
      · exact .inr (.inr rfl)
      · split
        · exact .inr (.inl rfl)
        · exact .inl rfl
    · exact .inl rfl
  rcases w.desk.takeBatch_cases room r read now with ⟨hdue, heq⟩ | ⟨hdue, hrest⟩
  · rw [heq]
    refine htaken w.desk h.live rfl rfl rfl _ hdead hthree fun x a hx => ?_
    rw [htold, if_neg (by simp [hdue])]
    exact h.agree x a hx
  rcases hrest with ⟨hany, heq⟩ | ⟨hany, ⟨hempty, heq⟩ | ⟨hread, heq⟩ | ⟨hread, heq⟩⟩
  · rw [heq]
    refine htaken _ (Desk.wf_taken h.live room) rfl rfl rfl _ hdead hthree fun x a hx => ?_
    rw [howedTaken, htold]
    by_cases ha : a = room
    · subst ha
      rw [if_pos rfl, if_pos ⟨hx, hdue⟩, if_pos hany, owedBy, List.foldl_append]
      rfl
    · rw [if_neg ha, if_neg fun hc => ha (Option.some.inj (hx.symm.trans hc.1))]
      exact h.agree x a hx
  · rw [heq]
    refine htaken _ (Desk.wf_taken h.live room) rfl rfl rfl _ hdead hthree fun x a hx => ?_
    rw [howedTaken, htold]
    by_cases ha : a = room
    · -- Nothing was owed of any live line.
      subst ha
      have hnone := Desk.lookup_owedLines h.live hx
      rw [hempty] at hnone
      rw [if_pos rfl, if_pos ⟨hx, hdue⟩, if_neg (by simp [hany]), heq]
      exact hnone.trans (h.agree x a hx)
    · rw [if_neg ha, if_neg fun hc => ha (Option.some.inj (hx.symm.trans hc.1))]
      exact h.agree x a hx
  · rw [heq]
    refine htaken _ (Desk.wf_taken h.live room) rfl rfl rfl _ hdead hthree fun x a hx => ?_
    rw [howedTaken, htold]
    by_cases ha : a = room
    · subst ha
      rw [if_pos rfl, if_pos ⟨hx, hdue⟩, if_neg (by simp [hany]), heq]
      rfl
    · rw [if_neg ha, if_neg fun hc => ha (Option.some.inj (hx.symm.trans hc.1))]
      exact h.agree x a hx
  · rw [heq]
    obtain ⟨hwf, hroom, howed⟩ := Desk.restore_taken h.live room now
    refine htaken { w.desk with
      live := (w.desk.taken room).live.restore room (w.desk.owedLines room) now } hwf hroom rfl rfl _
      hdead hthree fun x a hx => ?_
    rw [show Live.lineOwed _ a x = _ from howed a x hx, htold, heq]
    have hsame : ∀ p : Prop, [Decidable p] → (if p then if r.anyone room = false then
        w.changes x ++ [.unheard] else if (none : Option Batch).isSome then [] else w.changes x
        else w.changes x) = w.changes x := by
      intro p _
      simp [hany]
    rw [hsame]
    exact h.agree x a hx

/-- An op that owes: its changes are noted one by one. -/
theorem Sound.owing {op : Op} (hop : op.owing = true) : Sound (w.step op).2 := by
  obtain ⟨log, now, hlater, heq, hclosed⟩ := Desk.step_owing h.log hop
  obtain ⟨hheard, hclear, hord⟩ := w.desk.owes_spec op
  have hnoted := h.noted hlater now hheard hclear hclosed hord
  show Sound ⟨w.desk.step op, w.told op⟩
  rw [heq]
  convert hnoted using 2
  funext line
  unfold told
  cases lookup w.desk.live.roomOf line with
  | none => rfl
  | some room =>
    cases op with
    | take => cases hop
    | _ => rfl

/-- Every op keeps the world sound. -/
theorem Sound.step (op : Op) : Sound (w.step op).2 := by
  have hquiet : ∀ {d : Desk}, Sound ⟨d, w.changes⟩ → op.owing = false →
      (∀ room r read now, op ≠ .take room r read now) → w.desk.step op = d → Sound (w.step op).2 := by
    rintro d hd hop htake rfl
    show Sound ⟨w.desk.step op, w.told op⟩
    rw [told_of_not_owing hop htake]
    exact hd
  cases op with
  | react | forget | rekey | clear | gone => exact h.owing rfl
  | take room r read now => exact h.take room r read now
  | say room line relays =>
    exact hquiet (h.say room line relays) rfl (fun _ _ _ _ hc => by cases hc) rfl
  | takeRelayed => exact hquiet h.takeRelayed rfl (fun _ _ _ _ hc => by cases hc) rfl
  | sent room now =>
    have hwf : (w.desk.live.sent room now).Wf := h.live.of_owed
      (Live.valid_sent h.live.valid room now) rfl rfl fun r x _ =>
        .inr (Live.lineOwed_sent h.live.valid room now r x)
    have hsent := h.narrowed hwf fun x r hx =>
      ⟨hx, Live.lineOwed_sent h.live.valid room now r x⟩
    exact hquiet hsent rfl (fun _ _ _ _ hc => by cases hc) rfl
  | closed room => exact hquiet (h.forgetRoom room) rfl (fun _ _ _ _ hc => by cases hc) rfl
  | prune keep now =>
    exact hquiet (h.later (MemoryInner.Later.prune h.log keep now)) rfl
      (fun _ _ _ _ hc => by cases hc) rfl
  | deleteChannel channel =>
    exact hquiet (h.later (MemoryInner.Later.deleteChannel h.log channel)) rfl
      (fun _ _ _ _ hc => by cases hc) rfl

end World

theorem Desk.sound_new (policy : Option ReactionPolicy) :
    World.Sound ⟨Desk.new policy, fun _ => []⟩ := by
  obtain ⟨l, hl, hrec, hroom, howed⟩ : ∃ l, (Desk.new policy).live = l ∧ l.recent = [] ∧
      l.roomOf = [] ∧ l.owed = [] := by
    cases policy <;> exact ⟨_, rfl, rfl, rfl, rfl⟩
  have hlive : (Desk.new policy).live.Wf := by
    rw [hl]
    refine ⟨⟨?_, ?_, ?_, fun r o ho => ?_⟩, fun r => ?_, fun r x => ?_, fun r x ho => ?_⟩
    · rw [hrec]; exact List.nodup_nil
    · rw [hroom]; exact List.nodup_nil
    · rw [howed]; exact List.nodup_nil
    · rw [howed] at ho; cases ho
    · unfold Live.ring; rw [hrec]; exact List.nodup_nil
    · unfold Live.ring; rw [hrec, hroom]; simp
    · unfold Live.lineOwed at ho; rw [howed] at ho; exact absurd rfl ho
  have hnone : ∀ x, lookup (Desk.new policy).live.roomOf x = none := fun x => by
    rw [hl, hroom]
    rfl
  exact {
    live := hlive
    log := ⟨List.nodup_nil, fun l hl => by cases hl⟩
    relayed := List.nodup_nil
    nodup := fun _ => List.nodup_nil
    one := fun id r r' hid => by cases hid
    fresh := fun id room hid => by cases hid
    counted := fun id hid => absurd (hnone id) hid
    unused := fun _ _ => rfl
    agree := fun id room hid => by rw [hnone id] at hid; cases hid
    closed := fun id c hc => by cases hc
    ordered := fun _ => List.Pairwise.nil }

/-- Every world a run comes to is sound. -/
theorem World.after_sound (policy : Option ReactionPolicy) (ops : List Op) :
    (World.after policy ops).Sound :=
  runs_invariant World.Sound (fun _ op h => h.step op) (Desk.sound_new policy) ops

end HxdNg.Reaction
