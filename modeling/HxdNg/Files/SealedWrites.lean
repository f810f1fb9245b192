import HxdNg.Files.Sealed

/-!
# What is written of a sealed transfer

* `through` : plaintexts sealed, or records opened, one after another;
* `drain_spec`, `call_spec` : what a write or a flush hands the socket;
* `calls_spec` : what a run of them has handed it: the records of what was accepted, each once.
-/

namespace HxdNg.Files

variable {σ : Type} {A : Aead σ}

/-- Plaintexts or records put through a cipher one after another. -/
def through (f : σ → List UInt8 → Option (List UInt8 × σ)) :
    σ → List (List UInt8) → Option (List (List UInt8) × σ)
  | s, [] => some ([], s)
  | s, x :: xs => (f s x).bind fun y => (through f y.2 xs).map fun ys => (y.1 :: ys.1, ys.2)

section Through
variable {f : σ → List UInt8 → Option (List UInt8 × σ)} {s s' s'' : σ} {x y : List UInt8}
  {xs xs' ys ys' : List (List UInt8)}

theorem through_cons (hx : f s x = some (y, s')) (hxs : through f s' xs = some (ys, s'')) :
    through f s (x :: xs) = some (y :: ys, s'') := by
  unfold through
  rw [hx, Option.bind_some, hxs]
  rfl

theorem of_through_cons (h : through f s (x :: xs) = some (ys, s'')) :
    ∃ y s' ys', f s x = some (y, s') ∧ through f s' xs = some (ys', s'') ∧ ys = y :: ys' := by
  unfold through at h
  obtain ⟨⟨y, s'⟩, hx, hrest⟩ := Option.bind_eq_some_iff.mp h
  obtain ⟨⟨ys', s₂⟩, hxs, heq⟩ := Option.map_eq_some_iff.mp hrest
  obtain ⟨rfl, rfl⟩ := Prod.mk.inj heq
  exact ⟨y, s', ys', hx, hxs, rfl⟩

theorem through_append (h : through f s xs = some (ys, s')) (h' : through f s' xs' = some (ys', s'')) :
    through f s (xs ++ xs') = some (ys ++ ys', s'') := by
  induction xs generalizing s ys with
  | nil =>
    obtain ⟨rfl, rfl⟩ := Prod.mk.inj (Option.some.inj h)
    exact h'
  | cons x xs ih =>
    obtain ⟨y, s₁, rest, hx, hxs, rfl⟩ := of_through_cons h
    exact through_cons hx (ih hxs)

end Through

/-- Sealed and not yet handed over. -/
def Writer.unsent (w : Writer σ) : List UInt8 := w.pending.drop w.sent

/-- What draining does: all that was unsent is handed over, or a part of it. -/
inductive DrainsTo (w : Writer σ) (handed : List UInt8) : Drained σ → Prop where
  | done {w' : Writer σ} {p' : Pipe} : w'.sealer = w.sealer → w'.unsent = [] → w'.sent = 0 →
      p'.handed = handed ++ w.unsent → DrainsTo w handed (.done w' p')
  | pending {w' : Writer σ} {p' : Pipe} : w'.sealer = w.sealer →
      p'.handed ++ w'.unsent = handed ++ w.unsent → DrainsTo w handed (.pending w' p')
  | failed {e : Error} {p' : Pipe} : p'.handed <+: handed ++ w.unsent → DrainsTo w handed (.failed e p')

theorem drainTo_spec (doings : List Taking) :
    ∀ (w : Writer σ) (handed : List UInt8), DrainsTo w handed (drainTo w handed doings) := by
  have hsent : ∀ {w : Writer σ}, ¬w.sent < w.pending.length → w.unsent = [] := fun h =>
    List.drop_eq_nil_of_le (Nat.le_of_not_lt h)
  induction doings with
  | nil =>
    intro w handed
    unfold drainTo
    split
    · exact .pending rfl rfl
    · rename_i hnone
      exact .done rfl rfl rfl (by rw [hsent hnone, List.append_nil])
  | cons doing doings ih =>
    intro w handed
    unfold drainTo
    split
    · cases doing with
      | pending => exact .pending rfl rfl
      | fails => exact .failed (List.prefix_append ..)
      | takes n =>
        dsimp only
        split
        · exact .failed (List.prefix_append ..)
        · -- what is taken is the front of what was unsent
          generalize htaken : (w.pending.drop w.sent).take n = taken
          have hnext : Writer.unsent { w with sent := w.sent + taken.length } =
              w.unsent.drop taken.length := (List.drop_drop ..).symm
          have hfront : taken ++ w.unsent.drop taken.length = w.unsent := by
            rw [← htaken, List.length_take]
            rcases Nat.le_total n w.unsent.length with hle | hle
            · have hmin : min n (w.pending.drop w.sent).length = n := Nat.min_eq_left hle
              rw [hmin]
              exact List.take_append_drop ..
            · have hmin : min n (w.pending.drop w.sent).length = w.unsent.length := Nat.min_eq_right hle
              rw [hmin, List.drop_length, List.append_nil]
              exact List.take_of_length_le hle
          have hstep := ih { w with sent := w.sent + taken.length } (handed ++ taken)
          revert hstep
          generalize drainTo { w with sent := w.sent + taken.length } (handed ++ taken) doings = drained
          intro hstep
          cases hstep with
          | done hsealer hunsent hzero hhanded =>
            refine .done hsealer hunsent hzero ?_
            rw [hhanded, hnext, List.append_assoc, hfront]
          | pending hsealer hhanded =>
            refine .pending hsealer ?_
            rw [hhanded, hnext, List.append_assoc, hfront]
          | failed hhanded =>
            refine .failed ?_
            rw [hnext, List.append_assoc, hfront] at hhanded
            exact hhanded
    · rename_i hnone
      exact .done rfl rfl rfl (by rw [hsent hnone, List.append_nil])

theorem drain_spec (w : Writer σ) (p : Pipe) : DrainsTo w p.handed (drain w p) := drainTo_spec ..

/-- What a call does, of the records sealed up to it: what it accepted is sealed, and handed over or
unsent; failing, it has handed over no more than that and a record it sealed. -/
inductive Calls (A : Aead σ) (w : Writer σ) (p : Pipe) (c : Call) : Written σ → Prop where
  | ok {n : Nat} {w' : Writer σ} {p' : Pipe} {records : List (List UInt8)} :
      through A.sealRecord w.sealer (c.accepts n) = some (records, w'.sealer) →
      p'.handed ++ w'.unsent = p.handed ++ w.unsent ++ records.flatten →
      (∀ chunk ∈ c.accepts n, chunk ≠ [] ∧ chunk.length ≤ MAX_RECORD) →
      Calls A w p c (.ok n w' p')
  | pending {w' : Writer σ} {p' : Pipe} : w'.sealer = w.sealer →
      p'.handed ++ w'.unsent = p.handed ++ w.unsent → Calls A w p c (.pending w' p')
  | failed {e : Error} {p' : Pipe} {tail : List UInt8} : p'.handed <+: p.handed ++ w.unsent ++ tail →
      (tail = [] ∨ ∃ chunk s', A.sealRecord w.sealer chunk = some (tail, s')) →
      Calls A w p c (.failed e p')

theorem pollWrite_spec (w : Writer σ) (p : Pipe) (buf : List UInt8) :
    Calls A w p (.write buf) (pollWrite A w p buf) := by
  have hdrain := drain_spec w p
  unfold pollWrite
  revert hdrain
  generalize drain w p = drained
  intro hdrain
  cases hdrain with
  | pending hsealer hhanded => exact .pending hsealer hhanded
  | failed hhanded => exact .failed (by rw [List.append_nil]; exact hhanded) (.inl rfl)
  | @done w₁ p₁ hsealer hunsent hzero hhanded =>
    dsimp only
    split
    · refine .ok (congrArg (fun s => some ([], s)) hsealer.symm) ?_
        (fun chunk hchunk => absurd hchunk List.not_mem_nil)
      · rw [hunsent, hhanded, List.flatten_nil]
    · rename_i hsome
      have hne : buf ≠ [] := fun hnil => hsome (List.isEmpty_iff.mpr hnil)
      have hpos : 0 < min buf.length MAX_RECORD := lt_min (List.length_pos_of_ne_nil hne) (by decide)
      generalize hn : min buf.length MAX_RECORD = n at hpos ⊢
      have haccepts : Call.accepts (.write buf) n = [buf.take n] := if_neg (Nat.pos_iff_ne_zero.mp hpos)
      have hchunk : ∀ chunk ∈ Call.accepts (.write buf) n, chunk ≠ [] ∧ chunk.length ≤ MAX_RECORD := by
        rw [haccepts]
        intro chunk hchunk
        rw [List.mem_singleton.mp hchunk, List.length_take]
        refine ⟨fun hnil => ?_, by omega⟩
        rcases List.take_eq_nil_iff.mp hnil with hzero | hnil'
        · omega
        · exact hne hnil'
      cases hseal : A.sealRecord w₁.sealer (buf.take n) with
      | none => exact .failed (by simp [hhanded]) (.inl rfl)
      | some sealed =>
        obtain ⟨record, sealer⟩ := sealed
        rw [hsealer] at hseal
        have hunsent' : Writer.unsent { w₁ with sealer, pending := record } = record := by
          unfold Writer.unsent
          rw [hzero]
          rfl
        have hdrain' := drain_spec { w₁ with sealer, pending := record } p₁
        dsimp only
        revert hdrain'
        generalize drain { w₁ with sealer, pending := record } p₁ = drained
        intro hdrain'
        have hthrough : through A.sealRecord w.sealer (Call.accepts (.write buf) n) =
            some ([record], sealer) := by
          rw [haccepts]
          exact through_cons hseal rfl
        have hflat : [record].flatten = record := List.flatten_singleton
        cases hdrain' with
        | failed hhanded' =>
          rw [hunsent', hhanded] at hhanded'
          exact .failed hhanded' (.inr ⟨_, _, hseal⟩)
        | pending hsealer' hhanded' =>
          rw [hunsent', hhanded] at hhanded'
          refine .ok (hthrough.trans (by rw [hsealer'])) ?_ hchunk
          rw [hhanded', hflat]
        | done hsealer' hunsent₂ _ hhanded' =>
          rw [hunsent', hhanded] at hhanded'
          refine .ok (hthrough.trans (by rw [hsealer'])) ?_ hchunk
          rw [hunsent₂, hhanded', List.append_nil, hflat]

theorem pollFlush_spec (w : Writer σ) (p : Pipe) : Calls A w p .flush (pollFlush w p) := by
  have hdrain := drain_spec w p
  unfold pollFlush
  revert hdrain
  generalize drain w p = drained
  intro hdrain
  cases hdrain with
  | pending hsealer hhanded => exact .pending hsealer hhanded
  | failed hhanded => exact .failed (by rw [List.append_nil]; exact hhanded) (.inl rfl)
  | done hsealer hunsent _ hhanded =>
    refine .ok (congrArg (fun s => some ([], s)) hsealer.symm) ?_
      (fun chunk hchunk => absurd hchunk List.not_mem_nil)
    rw [hunsent, hhanded, List.flatten_nil]

theorem call_spec (w : Writer σ) (p : Pipe) (c : Call) : Calls A w p c (call A w p c) := by
  cases c with
  | write buf => exact pollWrite_spec w p buf
  | flush => exact pollFlush_spec w p

/-- A flush that ends leaves nothing unsent. -/
theorem pollFlush_all {w w' : Writer σ} {p p' : Pipe} {n : Nat} (h : pollFlush w p = .ok n w' p') :
    p'.handed = p.handed ++ w.unsent := by
  have hdrain := drain_spec w p
  unfold pollFlush at h
  revert hdrain h
  generalize drain w p = drained
  intro h hdrain
  cases hdrain with
  | pending => cases h
  | failed => cases h
  | done _ _ _ hhanded =>
    obtain ⟨-, -, rfl⟩ := Written.ok.inj h
    exact hhanded

/-! ## Runs -/

/-- What a run of calls has handed the socket: the records of what was accepted, in order, but for what
is unsent; where a call failed, at most those and a record of that call's. -/
structure Sent (A : Aead σ) (s : σ) (handed : List UInt8) (ran : Ran σ) : Prop where
  chunks : ∀ chunk ∈ ran.accepted, chunk ≠ [] ∧ chunk.length ≤ MAX_RECORD
  records : ∃ records s', through A.sealRecord s ran.accepted = some (records, s') ∧
    match ran.writer with
    | some w => w.sealer = s' ∧ ran.pipe.handed ++ w.unsent = handed ++ records.flatten
    | none => ∃ tail, ran.pipe.handed <+: handed ++ records.flatten ++ tail ∧
      (tail = [] ∨ ∃ chunk s'', A.sealRecord s' chunk = some (tail, s''))

theorem calls_spec (cs : List Call) :
    ∀ (w : Writer σ) (p : Pipe), Sent A w.sealer (p.handed ++ w.unsent) (calls A w p cs) := by
  induction cs with
  | nil =>
    intro w p
    refine ⟨fun chunk hchunk => absurd hchunk List.not_mem_nil, [], w.sealer, rfl, rfl, ?_⟩
    rw [List.flatten_nil, List.append_nil]
    rfl
  | cons c cs ih =>
    intro w p
    have hcall := call_spec (A := A) w p c
    unfold calls
    revert hcall
    generalize call A w p c = written
    intro hcall
    cases hcall with
    | failed hhanded htail =>
      refine ⟨fun chunk hchunk => absurd hchunk List.not_mem_nil, [], w.sealer, rfl, ?_⟩
      refine ⟨_, ?_, htail⟩
      rw [List.flatten_nil, List.append_nil]
      exact hhanded
    | @pending w' p' hsealer hhanded =>
      have hrest := ih w' p'
      rw [hsealer, hhanded] at hrest
      exact hrest
    | @ok n w' p' records hthrough hhanded hchunks =>
      obtain ⟨hchunks', records', s', hthrough', hrest⟩ := ih w' p'
      refine ⟨?_, records ++ records', s', through_append hthrough hthrough', ?_⟩
      · intro chunk hchunk
        rcases List.mem_append.mp hchunk with hc | hc
        · exact hchunks chunk hc
        · exact hchunks' chunk hc
      · rw [hhanded, List.append_assoc, ← List.flatten_append] at hrest
        exact hrest

end HxdNg.Files
