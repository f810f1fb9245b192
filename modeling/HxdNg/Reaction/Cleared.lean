import HxdNg.Reaction.Batches

/-!
# Whether a moderator's clear reaches the readers

* `Reaching` : of a line's changes since its room's last batch, what the four values of `Owe` come out
  right on;
* `reaching_iff` : these are the lists whose fold tells of the clear and of no redacted line;
* `clear_reaches_readers_iff` : so the batch tells every reader of a clear exactly for these, and a
  batch that could not be read leaves every line owing what it did.
-/

namespace HxdNg.Reaction

open Relationships History Assoc

/-! ## What the fold comes to -/

theorem owedBy_concat (h : List Change) (c : Change) :
    owedBy (h ++ [c]) = Owe.after (owedBy h) c := by
  rw [owedBy, owedBy, List.foldl_append]
  rfl

section After
variable {o : Option Owe} {c : Change}

theorem after_eq_of_safe (hg : o ≠ some .gone) (hcg : o ≠ some .clearedGone) :
    Owe.after o .reacted = some .summary ∧ Owe.after o .cleared = some .clear := by
  rcases o with _ | (_ | _ | _ | _)
  · exact ⟨rfl, rfl⟩
  · exact ⟨rfl, rfl⟩
  · exact ⟨rfl, rfl⟩
  · exact absurd rfl hg
  · exact absurd rfl hcg

/-- While no clear is owed, a redaction that took reactions is told as one. -/
theorem after_redacted (hc : o ≠ some .clear) (hcg : o ≠ some .clearedGone) :
    Owe.after o (.redacted true) = some .gone := by
  rcases o with _ | (_ | _ | _ | _)
  · rfl
  · rfl
  · exact absurd rfl hc
  · rfl
  · exact absurd rfl hcg

theorem after_ne_clear (hc : c ≠ .cleared) (ho : o ≠ some .clear) :
    Owe.after o c ≠ some .clear ∧ (o ≠ some .clearedGone → Owe.after o c ≠ some .clearedGone) := by
  rcases o with _ | (_ | _ | _ | _) <;> rcases c with _ | _ | (_ | _) | _ <;>
    simp_all [Owe.after, Owe.then]

end After

/-- Without a redaction the last change says what is owed. -/
theorem owedBy_of_none_redacted {h : List Change} (hr : ∀ c ∈ h, c.isRedaction = false) :
    owedBy h =
      match h.getLast? with
      | some .reacted => some .summary
      | some .cleared => some .clear
      | _ => none := by
  induction h using List.reverseRecOn with
  | nil => rfl
  | append_singleton h c ih =>
    have ih := ih fun c hc => hr c (List.mem_append_left _ hc)
    rw [owedBy_concat, List.getLast?_concat]
    have hsafe : owedBy h ≠ some .gone ∧ owedBy h ≠ some .clearedGone := by
      rw [ih]
      constructor <;> split <;> exact fun hc => by cases hc
    have hnext := after_eq_of_safe hsafe.1 hsafe.2
    cases c with
    | reacted => exact hnext.1
    | cleared => exact hnext.2
    | redacted had =>
      have := hr (.redacted had) (List.mem_append_right _ (List.mem_singleton_self _))
      cases this
    | unheard => rfl

/-- Once a line is redacted, a clear told to every reader stands until it is redacted again with no
reactions, or goes to nobody. -/
theorem foldl_clearedGone {cs : List Change} (hf : .redacted false ∉ cs) (hu : .unheard ∉ cs) :
    cs.foldl Owe.after (some .clearedGone) = some .clearedGone := by
  induction cs with
  | nil => rfl
  | cons c cs ih =>
    rw [List.mem_cons, not_or] at hf hu
    have hone : Owe.after (some .clearedGone) c = some .clearedGone := by
      cases c with
      | reacted => rfl
      | cleared => rfl
      | redacted had =>
        cases had with
        | false => exact absurd rfl hf.1
        | true => rfl
      | unheard => exact absurd rfl hu.1
    rw [List.foldl_cons, hone]
    exact ih hf.2 hu.2

/-- Without a clear, none comes to be owed. -/
theorem foldl_ne_clear {cs : List Change} (hc : .cleared ∉ cs) {o : Option Owe}
    (ho : o ≠ some .clear) :
    cs.foldl Owe.after o ≠ some .clear ∧
      (o ≠ some .clearedGone → cs.foldl Owe.after o ≠ some .clearedGone) := by
  induction cs generalizing o with
  | nil => exact ⟨ho, id⟩
  | cons c cs ih =>
    rw [List.mem_cons, not_or] at hc
    have hone := after_ne_clear (fun h => hc.1 h.symm) ho
    obtain ⟨hclear, hgone⟩ := ih hc.2 hone.1
    exact ⟨hclear, fun hne => hgone (hone.2 hne)⟩

/-- Without a clear, a summary is owed where the last change asks one and no redaction that took
reactions stands before it. -/
theorem owedBy_of_not_cleared {h : List Change} (hc : .cleared ∉ h) :
    (owedBy h = some .gone ↔ (h.filter (· ≠ .reacted)).getLast? = some (.redacted true)) ∧
      (owedBy h = some .summary ↔ h.getLast? = some .reacted ∧
        (h.filter (· ≠ .reacted)).getLast? ≠ some (.redacted true)) := by
  induction h using List.reverseRecOn with
  | nil => simp [owedBy]
  | append_singleton h c ih =>
    have hnot : .cleared ∉ h := fun hin => hc (List.mem_append_left _ hin)
    obtain ⟨ihg, ihs⟩ := ih hnot
    have hno := foldl_ne_clear hnot (o := none) (by simp)
    have hcl : owedBy h ≠ some .clear := hno.1
    have hcg : owedBy h ≠ some .clearedGone := hno.2 (by simp)
    rw [owedBy_concat, List.filter_append, List.getLast?_concat]
    cases c with
    | cleared => exact absurd (List.mem_append_right _ (List.mem_singleton_self _)) hc
    | reacted =>
      have hsame : (h.filter (· ≠ .reacted) ++ [Change.reacted].filter (· ≠ .reacted)) =
          h.filter (· ≠ .reacted) := by simp
      rw [hsame]
      generalize (h.filter (· ≠ .reacted)).getLast? = last at ihg ⊢
      rw [ne_eq, ← ihg]
      by_cases hg : owedBy h = some .gone
      · rw [hg]
        simp [Owe.after, Owe.then]
      · rw [(after_eq_of_safe hg hcg).1]
        simp [hg]
    | redacted had =>
      have hlast : (h.filter (· ≠ .reacted) ++ [Change.redacted had].filter (· ≠ .reacted)).getLast? =
          some (.redacted had) := by simp
      rw [hlast]
      cases had with
      | false =>
        rw [show Owe.after (owedBy h) (.redacted false) = none from if_neg hcl]
        simp
      | true =>
        rw [after_redacted hcl hcg]
        simp
    | unheard =>
      have hlast : (h.filter (· ≠ .reacted) ++ [Change.unheard].filter (· ≠ .reacted)).getLast? =
          some .unheard := by simp
      rw [hlast]
      simp [Owe.after]

/-! ## The changes that come out right -/

/-- The changes of a line, since its room's last batch, after which the batch tells every reader of a
clear and nobody of a redacted line.

* No redaction, and a clear: the room's batch did not go to nobody after the last change.
* A clear and then a redaction: the clear is the last change before the redaction, and the line was
  not redacted again with no reactions on it, nor the batch sent to nobody, since.
* A redaction and no clear: the last change asks no summary, or a redaction that took reactions is the
  last change that is not one. -/
structure Reaching (h : List Change) : Prop where
  heard : (∀ c ∈ h, c.isRedaction = false) → .cleared ∈ h → h.getLast? ≠ some .unheard
  kept : ∀ pre had post, h = pre ++ .redacted had :: post → (∀ c ∈ pre, c.isRedaction = false) →
    .cleared ∈ h → pre.getLast? = some .cleared ∧ .redacted false ∉ post ∧ .unheard ∉ post
  quiet : (∃ c ∈ h, c.isRedaction = true) → .cleared ∉ h → h.getLast? = some .reacted →
    (h.filter (· ≠ .reacted)).getLast? = some (.redacted true)

/-- Owing `o`, a line's batch tells every reader of a clear, whatever its wire. -/
def TellsAll (o : Option Owe) : Prop := o = some .summary ∨ o = some .clear ∨ o = some .clearedGone

/-- A list with a redaction, split at its first. -/
theorem exists_first_redaction {h : List Change} (hr : ∃ c ∈ h, c.isRedaction = true) :
    ∃ pre had post, h = pre ++ .redacted had :: post ∧ ∀ c ∈ pre, c.isRedaction = false := by
  induction h with
  | nil =>
    obtain ⟨c, hc, -⟩ := hr
    cases hc
  | cons c h ih =>
    by_cases hc : c.isRedaction = true
    · cases c with
      | redacted had => exact ⟨[], had, h, rfl, fun c hc => by cases hc⟩
      | _ => cases hc
    · obtain ⟨c', hc', hr'⟩ := hr
      have hin : c' ∈ h := (List.mem_cons.mp hc').resolve_left fun heq => hc (heq ▸ hr')
      obtain ⟨pre, had, post, rfl, hpre⟩ := ih ⟨c', hin, hr'⟩
      refine ⟨c :: pre, had, post, rfl, fun d hd => ?_⟩
      rcases List.mem_cons.mp hd with rfl | hd
      · simpa using hc
      · exact hpre d hd

/-- The lists after which a clear is told to all, and a redacted line's summary to nobody. -/
theorem reaching_iff {h : List Change} (hord : NoClearAfter h) :
    ((.cleared ∈ h → TellsAll (owedBy h)) ∧
      ((∃ c ∈ h, c.isRedaction = true) → owedBy h ≠ some .summary)) ↔ Reaching h := by
  by_cases hr : ∃ c ∈ h, c.isRedaction = true
  · obtain ⟨pre, had, post, heq, hpre⟩ := exists_first_redaction hr
    -- No clear follows the first redaction.
    have hpost : .cleared ∉ post := fun hin => by
      rw [heq] at hord
      have := (List.pairwise_cons.mp (List.pairwise_append.mp hord).2.1).1 _ hin
      exact this rfl rfl
    have hfold : owedBy h = post.foldl Owe.after (Owe.after (owedBy pre) (.redacted had)) := by
      rw [heq, owedBy, List.foldl_append]
      rfl
    by_cases hc : .cleared ∈ h
    · have hcpre : .cleared ∈ pre := by
        rw [heq, List.mem_append, List.mem_cons] at hc
        rcases hc with hc | hc | hc
        · exact hc
        · cases hc
        · exact absurd hc hpost
      have hlast := owedBy_of_none_redacted hpre
      constructor
      · rintro ⟨htells, hsum⟩
        have howed : owedBy h = some .clear ∨ owedBy h = some .clearedGone :=
          (htells hc).resolve_left (hsum hr)
        have hkept : pre.getLast? = some .cleared ∧ .redacted false ∉ post ∧ .unheard ∉ post := by
          have hend : pre.getLast? = some .cleared := by
            by_contra hne
            -- The redaction finds no clear owed, and none comes to be owed after it.
            have hfirst : Owe.after (owedBy pre) (.redacted had) ≠ some .clear ∧
                Owe.after (owedBy pre) (.redacted had) ≠ some .clearedGone := by
              have hnot : owedBy pre = some .summary ∨ owedBy pre = none := by
                rw [hlast]
                rcases hp : pre.getLast? with _ | (_ | _ | _ | _)
                · exact .inr rfl
                · exact .inl rfl
                · exact absurd hp hne
                · exact .inr rfl
                · exact .inr rfl
              rcases hnot with ho | ho <;> rw [ho] <;> cases had <;> simp [Owe.after, Owe.then]
            have hstill := foldl_ne_clear hpost hfirst.1
            rw [← hfold] at hstill
            exact howed.elim hstill.1 (hstill.2 hfirst.2)
          have hcg : ∀ c, c = .redacted false ∨ c = .unheard → c ∉ post := by
            rintro c hkind hin
            obtain ⟨before, after, rfl⟩ := List.append_of_mem hin
            have hb : .cleared ∉ before := fun h => hpost (List.mem_append_left _ h)
            have ha : .cleared ∉ after := fun h =>
              hpost (List.mem_append_right _ (List.mem_cons_of_mem _ h))
            have hredacted : Owe.after (owedBy pre) (.redacted had) ≠ some .clear := by
              rw [hlast, hend]
              cases had <;> exact fun h => by cases h
            have hnone : Owe.after (before.foldl Owe.after (Owe.after (owedBy pre) (.redacted had))) c =
                none := by
              rcases hkind with rfl | rfl
              · exact if_neg (foldl_ne_clear hb hredacted).1
              · rfl
            rw [List.foldl_append, List.foldl_cons, hnone] at hfold
            have hstill := foldl_ne_clear ha (o := none) (fun h => by cases h)
            rw [← hfold] at hstill
            exact howed.elim hstill.1 (hstill.2 fun h => by cases h)
          exact ⟨hend, hcg _ (.inl rfl), hcg _ (.inr rfl)⟩
        refine ⟨fun hnone => ?_, fun pre' had' post' heq' hpre' _ => ?_, fun _ hnc => absurd hc hnc⟩
        · obtain ⟨c, hc, hred⟩ := hr
          rw [hnone c hc] at hred
          cases hred
        · -- The first redaction is at one place.
          have hsplit : pre = pre' ∧ post = post' := by
            have hp : ∀ c ∈ pre, (!c.isRedaction) = true := fun c hc => by rw [hpre c hc]; rfl
            have hp' : ∀ c ∈ pre', (!c.isRedaction) = true := fun c hc => by rw [hpre' c hc]; rfl
            have htake := congrArg (List.takeWhile fun c => !c.isRedaction) (heq.symm.trans heq')
            have hdrop := congrArg (List.dropWhile fun c => !c.isRedaction) (heq.symm.trans heq')
            rw [List.takeWhile_append_of_pos hp, List.takeWhile_append_of_pos hp'] at htake
            rw [List.dropWhile_append_of_pos hp, List.dropWhile_append_of_pos hp'] at hdrop
            have hone : ∀ (b : Bool) (l : List Change),
                (Change.redacted b :: l).takeWhile (fun c => !c.isRedaction) = [] ∧
                (Change.redacted b :: l).dropWhile (fun c => !c.isRedaction) = .redacted b :: l :=
              fun b l => ⟨rfl, rfl⟩
            rw [(hone _ _).1, (hone _ _).1, List.append_nil, List.append_nil] at htake
            rw [(hone _ _).2, (hone _ _).2] at hdrop
            exact ⟨htake, (List.cons.inj hdrop).2⟩
          rw [← hsplit.1, ← hsplit.2]
          exact hkept
      · intro hreach
        obtain ⟨hend, hf, hu⟩ := hreach.kept pre had post heq hpre hc
        have hcg : owedBy h = some .clearedGone := by
          rw [hfold, hlast, hend]
          have : Owe.after (some .clear) (.redacted had) = some .clearedGone := by cases had <;> rfl
          rw [this]
          exact foldl_clearedGone hf hu
        rw [hcg]
        exact ⟨fun _ => .inr (.inr rfl), fun _ hc => by cases hc⟩
    · obtain ⟨-, hsum⟩ := owedBy_of_not_cleared hc
      constructor
      · rintro ⟨-, hno⟩
        refine ⟨fun _ hin => absurd hin hc, fun _ _ _ _ _ hin => absurd hin hc, fun _ _ hend => ?_⟩
        by_contra hne
        exact hno hr (hsum.mpr ⟨hend, hne⟩)
      · intro hreach
        refine ⟨fun hin => absurd hin hc, fun _ howed => ?_⟩
        obtain ⟨hend, hne⟩ := hsum.mp howed
        exact hne (hreach.quiet hr hc hend)
  · have hnone : ∀ c ∈ h, c.isRedaction = false := fun c hc => by
      by_contra hne
      exact hr ⟨c, hc, by simpa using hne⟩
    have hlast := owedBy_of_none_redacted hnone
    constructor
    · rintro ⟨htells, -⟩
      refine ⟨fun _ hc hend => ?_, fun pre had post heq => ?_, fun hin => absurd hin hr⟩
      · rw [hend] at hlast
        rcases htells hc with ho | ho | ho <;> rw [ho] at hlast <;> cases hlast
      · exact absurd ⟨.redacted had, by rw [heq]; simp, rfl⟩ hr
    · intro hreach
      refine ⟨fun hc => ?_, fun hin => absurd hin hr⟩
      have hheard := hreach.heard hnone hc
      rw [hlast]
      rcases hp : h.getLast? with _ | (_ | _ | had | _)
      · rw [List.getLast?_eq_none_iff.mp hp] at hc
        cases hc
      · exact .inl rfl
      · exact .inr (.inl rfl)
      · have := hnone _ (List.mem_of_getLast? hp)
        cases this
      · exact absurd hp hheard

/-! ## What the readers are told -/

/-- What a batch that may not have gone tells `s`. -/
def told (b : Option Batch) (r : Roster) (s : Session) (room : Nat) : List ReactionChange :=
  b.elim [] fun b => b.toldTo r s room

/-- Every session that hears `room` and could have read `line` is told it is clear, or of its
reactions as the log has them when the batch is taken. -/
def ReachesReaders (log : MemoryInner) (b : Option Batch) (room : Nat) (line : LineId) : Prop :=
  ∀ r uid s, (uid, s) ∈ r.users → hears r room uid s = true → couldHaveRead r s room line = true →
    .clear room line ∈ told b r s room ∨
      ∃ mine, .summary room line (log.reactionsOn line none).keys mine ∈ told b r s room

/-- No session that hears `room` is told of `line`'s reactions. -/
def TellsNoSummary (b : Option Batch) (room : Nat) (line : LineId) : Prop :=
  ∀ r uid s, (uid, s) ∈ r.users → hears r room uid s = true →
    ∀ keys mine, .summary room line keys mine ∉ told b r s room

theorem lookup_keys_of_summary {lines : List (LineId × Owe)} {line : LineId}
    (h : lookup lines line = some .summary) (log : MemoryInner) :
    lookup (Batch.read log lines).keys line = some (log.reactionsOn line none).keys := by
  have hmap : ∀ ids : List LineId, line ∈ ids →
      lookup (ids.map fun id => (id, (log.reactionsOn id none).keys)) line =
        some (log.reactionsOn line none).keys := by
    intro ids
    induction ids with
    | nil => exact fun hin => by cases hin
    | cons id ids ih =>
      intro hin
      rw [List.map_cons, lookup_cons]
      by_cases hid : id = line
      · rw [if_pos hid, hid]
      · rw [if_neg hid]
        exact ih ((List.mem_cons.mp hin).resolve_left (Ne.symm hid))
  refine hmap _ (List.mem_map.mpr ⟨(line, .summary), ?_, rfl⟩)
  exact List.mem_filter.mpr ⟨mem_of_lookup h, by simp⟩

section Batch
variable {lines : List (LineId × Owe)} (hv : Assoc.Valid lines) (log : MemoryInner)
variable (r : Roster) (s : Session) (room : Nat) (line : LineId)
include hv

theorem clear_mem_toldTo :
    .clear room line ∈ (Batch.read log lines).toldTo r s room ↔
      couldHaveRead r s room line = true ∧
        (lookup lines line = some .clear ∨ lookup lines line = some .clearedGone ∨
          lookup lines line = some .gone ∧ s.redactions = true) := by
  unfold Batch.toldTo
  rw [List.mem_filterMap]
  constructor
  · rintro ⟨⟨id, what⟩, hmem, htold⟩
    obtain ⟨hmem, hread⟩ := List.mem_filter.mp hmem
    have hl := lookup_of_mem hv hmem
    cases what with
    | summary => cases htold
    | clear =>
      cases htold
      exact ⟨hread, .inl hl⟩
    | clearedGone =>
      cases htold
      exact ⟨hread, .inr (.inl hl)⟩
    | gone =>
      by_cases hs : s.redactions = true
      · simp only [hs, if_true, Option.some.injEq, ReactionChange.clear.injEq, true_and] at htold
        subst htold
        exact ⟨hread, .inr (.inr ⟨hl, hs⟩)⟩
      · simp [hs] at htold
  · rintro ⟨hread, hl | hl | ⟨hl, hs⟩⟩
    · exact ⟨(line, .clear), List.mem_filter.mpr ⟨mem_of_lookup hl, hread⟩, rfl⟩
    · exact ⟨(line, .clearedGone), List.mem_filter.mpr ⟨mem_of_lookup hl, hread⟩, rfl⟩
    · exact ⟨(line, .gone), List.mem_filter.mpr ⟨mem_of_lookup hl, hread⟩, if_pos hs⟩

theorem summary_mem_toldTo :
    (∃ mine, .summary room line (log.reactionsOn line none).keys mine ∈
      (Batch.read log lines).toldTo r s room) ↔
      couldHaveRead r s room line = true ∧ lookup lines line = some .summary := by
  unfold Batch.toldTo
  constructor
  · rintro ⟨mine, hmem⟩
    obtain ⟨⟨id, what⟩, hmem, htold⟩ := List.mem_filterMap.mp hmem
    obtain ⟨hmem, hread⟩ := List.mem_filter.mp hmem
    have hl := lookup_of_mem hv hmem
    cases what with
    | summary =>
      simp only [Option.some.injEq, ReactionChange.summary.injEq] at htold
      obtain ⟨-, rfl, -⟩ := htold
      exact ⟨hread, hl⟩
    | clear | clearedGone => cases htold
    | gone =>
      dsimp only at htold
      split at htold <;> cases htold
  · rintro ⟨hread, hl⟩
    refine ⟨(Batch.read log lines).mineOf s line, List.mem_filterMap.mpr ⟨(line, .summary),
      List.mem_filter.mpr ⟨mem_of_lookup hl, hread⟩, ?_⟩⟩
    dsimp only
    rw [lookup_keys_of_summary hl log]
    rfl

theorem not_summary_mem_toldTo (hl : lookup lines line ≠ some .summary)
    (keys : List (ReactionKey × Nat)) (mine : List Nat) :
    .summary room line keys mine ∉ (Batch.read log lines).toldTo r s room := by
  unfold Batch.toldTo
  intro hmem
  obtain ⟨⟨id, what⟩, hmem, htold⟩ := List.mem_filterMap.mp hmem
  have hlook := lookup_of_mem hv (List.mem_filter.mp hmem).1
  cases what with
  | summary =>
    simp only [Option.some.injEq, ReactionChange.summary.injEq] at htold
    obtain ⟨-, rfl, -⟩ := htold
    exact hl hlook
  | clear | clearedGone => cases htold
  | gone =>
    dsimp only at htold
    split at htold <;> cases htold

end Batch

/-- A reader of any line, on a wire that does not show redactions. -/
theorem exists_plain_reader (room : Nat) (line : LineId) :
    ∃ r uid s, (uid, s) ∈ r.users ∧ hears r room uid s = true ∧
      couldHaveRead r s room line = true ∧ s.redactions = false := by
  let s : Session := {
    mailbox := ⟨"", none⟩, isPerson := true, visible := true, readChat := true, chatHistory := true
    manageRooms := false, moderate := false, roles := [], reactions := true, redactions := false
    heardFrom := [] }
  refine ⟨⟨[(0, s)], [(room, ⟨[], false, false, [0]⟩)], [(room, line)]⟩, 0, s,
    List.mem_singleton_self _, ?_, ?_, rfl⟩
  · unfold hears
    by_cases hr : room = 0 <;> simp [hr, s, lookup, sees, reads]
  · unfold couldHaveRead
    by_cases hr : room = 0 <;> simp [hr, s, lookup, sees, reads]

/-- A due batch that someone hears tells what the live lines owe, whether or not any does. -/
theorem told_takeBatch {d : Desk} {room : Nat} {r : Roster} {now : Instant}
    (hdue : d.due room now = true) (hany : r.anyone room = true) (r' : Roster) (s : Session) :
    told (d.takeBatch room r true now).1 r' s room =
      (Batch.read d.log (d.owedLines room)).toldTo r' s room := by
  rcases d.takeBatch_cases room r true now with ⟨hno, -⟩ | ⟨-, ⟨hno, -⟩ | ⟨-, hrest⟩⟩
  · rw [hdue] at hno
    cases hno
  · rw [hany] at hno
    cases hno
  · rcases hrest with ⟨hempty, heq⟩ | ⟨-, heq⟩ | ⟨hno, -⟩
    · rw [heq, hempty]
      rfl
    · rw [heq]
      rfl
    · cases hno

/-- A clear reaches the readers, and a redacted line is told to none, exactly when the line's changes
since its room's last batch are `Reaching`; and a batch that could not be read is owed again as if it
had not been taken. -/
theorem clear_reaches_readers_iff (policy : Option ReactionPolicy) (ops : List Op) (room : Nat)
    (line : LineId) (r : Roster) (now : Instant)
    (hlive : lookup (World.after policy ops).desk.live.roomOf line = some room)
    (hdue : (World.after policy ops).desk.due room now = true) (hany : r.anyone room = true) :
    let w := World.after policy ops
    let b := (w.desk.takeBatch room r true now).1
    let unread := w.desk.takeBatch room r false now
    (((.cleared ∈ w.changes line → ReachesReaders w.desk.log b room line) ∧
        ((∃ c ∈ w.changes line, c.isRedaction = true) → TellsNoSummary b room line)) ↔
      Reaching (w.changes line)) ∧
    (unread.1 = none → ∀ room' line', lookup w.desk.live.roomOf line' = some room' →
      unread.2.live.lineOwed room' line' = w.desk.live.lineOwed room' line') := by
  intro w b unread
  have hw := World.after_sound policy ops
  have hv := Desk.valid_owedLines hw.live room
  have howed : lookup (w.desk.owedLines room) line = owedBy (w.changes line) :=
    (Desk.lookup_owedLines hw.live hlive).trans (hw.agree line room hlive)
  have htold : ∀ r' s, told b r' s room =
      (Batch.read w.desk.log (w.desk.owedLines room)).toldTo r' s room := told_takeBatch hdue hany
  have hreach : ReachesReaders w.desk.log b room line ↔ TellsAll (owedBy (w.changes line)) := by
    unfold TellsAll
    rw [← howed]
    constructor
    · intro h
      obtain ⟨r', uid, s, hs, hhears, hread, hplain⟩ := exists_plain_reader room line
      rcases h r' uid s hs hhears hread with h | h
      · rw [htold, clear_mem_toldTo hv] at h
        rcases h.2 with h | h | h
        · exact .inr (.inl h)
        · exact .inr (.inr h)
        · rw [hplain] at h
          cases h.2
      · simp only [htold] at h
        exact .inl ((summary_mem_toldTo hv _ _ _ _ _).mp h).2
    · intro h r' uid s _ _ hread
      rw [htold]
      rcases h with h | h | h
      · exact .inr ((summary_mem_toldTo hv _ _ _ _ _).mpr ⟨hread, h⟩)
      · exact .inl ((clear_mem_toldTo hv _ _ _ _ _).mpr ⟨hread, .inl h⟩)
      · exact .inl ((clear_mem_toldTo hv _ _ _ _ _).mpr ⟨hread, .inr (.inl h)⟩)
  have hquiet : TellsNoSummary b room line ↔ owedBy (w.changes line) ≠ some .summary := by
    rw [← howed]
    constructor
    · intro h hsum
      obtain ⟨r', uid, s, hs, hhears, hread, -⟩ := exists_plain_reader room line
      obtain ⟨mine, hmem⟩ := (summary_mem_toldTo hv w.desk.log r' s room line).mpr ⟨hread, hsum⟩
      exact h r' uid s hs hhears _ mine (by rw [htold]; exact hmem)
    · intro h r' uid s _ _ keys mine
      rw [htold]
      exact not_summary_mem_toldTo hv _ _ _ _ _ h keys mine
  refine ⟨?_, fun hnone room' line' hl => ?_⟩
  · rw [hreach, hquiet]
    exact reaching_iff (hw.ordered line)
  · rcases w.desk.takeBatch_cases room r false now with ⟨hno, -⟩ | ⟨-, ⟨hno, -⟩ | ⟨-, hrest⟩⟩
    · rw [hdue] at hno
      cases hno
    · rw [hany] at hno
      cases hno
    · rcases hrest with ⟨hempty, heq⟩ | ⟨-, heq⟩ | ⟨-, heq⟩
      · show (w.desk.takeBatch room r false now).2.live.lineOwed room' line' = _
        rw [heq]
        refine (Live.lineOwed_takeOwed hw.live.valid room room' line').trans ?_
        by_cases hr : room' = room
        · subst hr
          rw [if_pos rfl, ← Desk.lookup_owedLines hw.live hl, hempty]
          rfl
        · rw [if_neg hr]
      · have : unread.1 = some _ := congrArg Prod.fst heq
        rw [hnone] at this
        cases this
      · show (w.desk.takeBatch room r false now).2.live.lineOwed room' line' = _
        rw [heq]
        exact (Desk.restore_taken hw.live room now).2.2 room' line' hl

/-! ## A clear that is lost -/

/-- One person's line in the lobby, a reaction on it cleared, another made, and the line redacted with
that one on it, all before the lobby's first batch. -/
def clearThenRedacted : List Op :=
  let react (login : String) : Op := .react
    [⟨0, 1, ⟨login, none⟩, login, .emoji "+1", true, 0, 20, 5⟩] .taken 0
  [.say 0 ⟨0, none, some "alice", none, 0, none, none⟩ true, .takeRelayed, react "bob",
    .clear 0 1 true 1, react "carol", .gone [1] true true 2]

/-- A session that hears the lobby, on a wire that does not show redactions. -/
def dave : Session :=
  { mailbox := ⟨"dave", none⟩, isPerson := true, visible := true, readChat := true
    chatHistory := true, manageRooms := false, moderate := false, roles := [], reactions := true
    redactions := false, heardFrom := [(0, 0)] }

def oneReader : Roster := { users := [(7, dave)], rooms := [], lastIds := [(0, 1)] }

theorem clear_reaches_readers_iff_lobby :
    Reaching ((World.after (some ⟨200, 1⟩) (clearThenRedacted.take 4)).changes 1) ∧
      ReachesReaders (World.after (some ⟨200, 1⟩) (clearThenRedacted.take 4)).desk.log
        ((World.after (some ⟨200, 1⟩) (clearThenRedacted.take 4)).desk.takeBatch 0 oneReader true 9).1
        0 1 := by
  have h := (clear_reaches_readers_iff (some ⟨200, 1⟩) (clearThenRedacted.take 4) 0 1 oneReader 9
    (by decide +kernel) (by decide +kernel) (by decide +kernel)).1
  have hch : (World.after (some ⟨200, 1⟩) (clearThenRedacted.take 4)).changes 1 =
      [.reacted, .cleared] := by decide +kernel
  have hreach : Reaching ((World.after (some ⟨200, 1⟩) (clearThenRedacted.take 4)).changes 1) := by
    rw [hch]
    refine ⟨fun _ _ => by decide, fun pre had post heq => ?_, fun hr => absurd hr (by decide)⟩
    have : Change.redacted had ∈ [Change.reacted, .cleared] := by rw [heq]; simp
    simp at this
  exact ⟨hreach, (h.mpr hreach).1 (by rw [hch]; decide)⟩

/-- The clear is lost: the reader without redactions is told nothing of the line. -/
theorem clear_lost_behind_summary :
    ¬∀ (policy : Option ReactionPolicy) (ops : List Op) (room : Nat) (line : LineId) (r : Roster)
      (now : Instant), lookup (World.after policy ops).desk.live.roomOf line = some room →
      (World.after policy ops).desk.due room now = true → r.anyone room = true →
      .cleared ∈ (World.after policy ops).changes line →
      ReachesReaders (World.after policy ops).desk.log
        ((World.after policy ops).desk.takeBatch room r true now).1 room line := by
  intro h
  have hreach := h (some ⟨200, 1⟩) clearThenRedacted 0 1 oneReader 9 (by decide +kernel)
    (by decide +kernel) (by decide +kernel) (by decide +kernel)
  have hnone : told ((World.after (some ⟨200, 1⟩) clearThenRedacted).desk.takeBatch 0 oneReader true
      9).1 oneReader dave 0 = [] := by decide +kernel
  have htold := hreach oneReader 7 dave (List.mem_singleton_self _) (by decide +kernel)
    (by decide +kernel)
  rw [hnone] at htold
  rcases htold with h | ⟨_, h⟩ <;> cases h

end HxdNg.Reaction
