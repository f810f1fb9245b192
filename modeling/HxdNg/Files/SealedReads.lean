import HxdNg.Files.Sealed

/-!
# What is read of a sealed transfer

* `Reads` : what a wire holds, however it is cut: the plaintexts of its records, and how it ends;
* `Told` : answers that give some bytes in order, and then that end;
* `reads_told` : the reads of any sizes off any pieces are those;
* `Paired`, `reads_sealed` : what one side sealed, the other reads.
-/

namespace HxdNg.Files

variable {σ : Type} {A : Aead σ}

/-- How a wire ends: at the end of a record, or as the read fails that finds it. -/
inductive Ending where
  | done
  | fails (e : Error)
  deriving DecidableEq

/-- A wire that holds no whole record that opens. -/
inductive Stop (A : Aead σ) (o : σ) : List UInt8 → Ending → Prop where
  | done : Stop A o [] .done
  | short {w : List UInt8} : w ≠ [] → w.length < AEAD_LENGTH_PREFIX → Stop A o w (.fails .unexpectedEof)
  | cut {w : List UInt8} {size : Nat} : A.peekFrameSize (w.take AEAD_LENGTH_PREFIX) = some size →
      AEAD_LENGTH_PREFIX + AEAD_TAG_SIZE ≤ size → size ≤ AEAD_LENGTH_PREFIX + AEAD_TAG_SIZE + MAX_RECORD →
      AEAD_LENGTH_PREFIX ≤ w.length → w.length < size → Stop A o w (.fails .unexpectedEof)
  | impossible {w : List UInt8} : AEAD_LENGTH_PREFIX ≤ w.length →
      A.peekFrameSize (w.take AEAD_LENGTH_PREFIX) = none → Stop A o w (.fails .impossibleLength)
  | tooLarge {w : List UInt8} {size : Nat} : AEAD_LENGTH_PREFIX ≤ w.length →
      A.peekFrameSize (w.take AEAD_LENGTH_PREFIX) = some size →
      size < AEAD_LENGTH_PREFIX + AEAD_TAG_SIZE ∨ AEAD_LENGTH_PREFIX + AEAD_TAG_SIZE + MAX_RECORD < size →
      Stop A o w (.fails .tooLarge)
  | forged {w : List UInt8} {size : Nat} : A.peekFrameSize (w.take AEAD_LENGTH_PREFIX) = some size →
      AEAD_LENGTH_PREFIX + AEAD_TAG_SIZE ≤ size → size ≤ AEAD_LENGTH_PREFIX + AEAD_TAG_SIZE + MAX_RECORD →
      size ≤ w.length → A.openRecord o (w.take size) = none → Stop A o w (.fails .notAuthentic)

/-- What a wire holds: the plaintexts of its records, and how it ends. -/
inductive Reads (A : Aead σ) : σ → List UInt8 → List (List UInt8) → Ending → Prop where
  | stop {o : σ} {w : List UInt8} {e : Ending} : Stop A o w e → Reads A o w [] e
  | record {o o' : σ} {w p : List UInt8} {size : Nat} {ps : List (List UInt8)} {e : Ending} :
      A.peekFrameSize (w.take AEAD_LENGTH_PREFIX) = some size →
      AEAD_LENGTH_PREFIX + AEAD_TAG_SIZE ≤ size → size ≤ AEAD_LENGTH_PREFIX + AEAD_TAG_SIZE + MAX_RECORD →
      size ≤ w.length → A.openRecord o (w.take size) = some (p, o') →
      Reads A o' (w.drop size) ps e → Reads A o w (p :: ps) e

/-- A record's size is known from its first bytes. -/
def Peeks (A : Aead σ) : Prop :=
  ∀ b : List UInt8, AEAD_LENGTH_PREFIX ≤ b.length →
    A.peekFrameSize b = A.peekFrameSize (b.take AEAD_LENGTH_PREFIX)

/-! ## A round -/

/-- What of the record being read has arrived. -/
def Reader.arrived (r : Reader σ) : List UInt8 := r.framed.take r.filled

/-- What a reader has still to tell, with the wire: what it has opened, and what the wire holds behind
what has arrived. -/
structure Owes (A : Aead σ) (r : Reader σ) (w : List UInt8) (left : List UInt8) (e : Ending) : Prop where
  filled : r.filled ≤ r.framed.length
  fits : r.filled ≤ AEAD_LENGTH_PREFIX ∨ ∃ size,
    A.peekFrameSize (r.arrived.take AEAD_LENGTH_PREFIX) = some size ∧ r.filled ≤ size
  reads : ∃ ps, Reads A r.opener (r.arrived ++ w) ps e ∧ left = r.plain.drop r.read ++ ps.flatten

theorem Owes.new {o : σ} {w : List UInt8} {ps : List (List UInt8)} {e : Ending} (h : Reads A o w ps e) :
    Owes A { opener := o } w ps.flatten e := ⟨Nat.le_refl 0, .inl (Nat.zero_le _), ps, h, rfl⟩

/-- What a socket gives is off the front of its wire: all it has room for at the end, something before. -/
theorem Socket.pollRead_spec (s : Socket) (room : Nat) :
    ∃ s', (s.pollRead room = (none, s') ∧ s'.wire = s.wire ∧ s'.cuts.length < s.cuts.length) ∨
      ∃ bytes, s.pollRead room = (some bytes, s') ∧ s.wire = bytes ++ s'.wire ∧ bytes.length ≤ room ∧
        s'.cuts.length ≤ s.cuts.length ∧ (bytes = [] → room = 0 ∨ s.wire = []) := by
  obtain ⟨wire, cuts⟩ := s
  have hpiece : ∀ k, 0 < k ∨ room = 0 → (wire.take k = [] → room = 0 ∨ wire = []) := by
    intro k hk hnil
    rcases List.take_eq_nil_iff.mp hnil with rfl | hw
    · exact hk.elim (fun h => absurd h (Nat.lt_irrefl 0)) .inl
    · exact .inr hw
  cases cuts with
  | nil =>
    refine ⟨_, .inr ⟨_, rfl, (List.take_append_drop ..).symm, List.length_take_le .., le_rfl, hpiece _ ?_⟩⟩
    exact (Nat.eq_zero_or_pos room).symm
  | cons c cuts =>
    cases c with
    | none => exact ⟨_, .inl ⟨rfl, rfl, Nat.lt_succ_self _⟩⟩
    | some n =>
      refine ⟨_, .inr ⟨_, rfl, (List.take_append_drop ..).symm, ?_, Nat.le_succ _, hpiece _ ?_⟩⟩
      · exact (List.length_take_le ..).trans (Nat.min_le_right _ _)
      · rcases Nat.eq_zero_or_pos room with h | h
        · exact .inr h
        · exact .inl (lt_min (Nat.succ_pos n) h)

/-- What a round does to what is owed. -/
inductive Stepped (A : Aead σ) (r : Reader σ) (s : Socket) (room : Nat) (left : List UInt8) (e : Ending) :
    Round σ → Prop where
  | bytes {b : List UInt8} {left' : List UInt8} {r' : Reader σ} : left = b ++ left' → b.length ≤ room →
      (b = [] → room = 0) → Owes A r' s.wire left' e → Stepped A r s room left e (.ready b r' s)
  | done {r' : Reader σ} {s' : Socket} : left = [] → e = .done → Owes A r' s'.wire [] .done →
      s'.cuts.length ≤ s.cuts.length → Stepped A r s room left e (.ready [] r' s')
  | pending {r' : Reader σ} {s' : Socket} : Owes A r' s'.wire left e → s'.cuts.length < s.cuts.length →
      Stepped A r s room left e (.pending r' s')
  | failed {err : Error} : left = [] → e = .fails err → Stepped A r s room left e (.failed err)
  | again {r' : Reader σ} {s' : Socket} : Owes A r' s'.wire left e → s'.cuts.length ≤ s.cuts.length →
      2 * s'.wire.length + r'.filled < 2 * s.wire.length + r.filled →
      Stepped A r s room left e (.again r' s')

/-! ## What is read back of a wire -/

section Inversion
variable {o : σ} {w p : List UInt8} {ps : List (List UInt8)} {e : Ending} {size : Nat}

/-- A record's length leaves room for its prefix and its tag, and its plaintext is within the cap. -/
def Sized (size : Nat) : Prop :=
  AEAD_LENGTH_PREFIX + AEAD_TAG_SIZE ≤ size ∧ size ≤ AEAD_LENGTH_PREFIX + AEAD_TAG_SIZE + MAX_RECORD

theorem Reads.of_nil (h : Reads A o [] ps e) : ps = [] ∧ e = .done := by
  cases h with
  | stop hs =>
    cases hs with
    | done => exact ⟨rfl, rfl⟩
    | short hne _ => exact absurd rfl hne
    | cut _ _ _ hlen _ => exact absurd hlen (by decide)
    | impossible hlen _ => exact absurd hlen (by decide)
    | tooLarge hlen _ _ => exact absurd hlen (by decide)
    | forged _ hmin _ hlen _ => exact absurd (hmin.trans hlen) (by decide)
  | record _ hmin _ hlen _ _ => exact absurd (hmin.trans hlen) (by decide)

theorem Reads.of_short (h : Reads A o w ps e) (hne : w ≠ []) (hlen : w.length < AEAD_LENGTH_PREFIX) :
    ps = [] ∧ e = .fails .unexpectedEof := by
  have hmin : AEAD_LENGTH_PREFIX ≤ AEAD_LENGTH_PREFIX + AEAD_TAG_SIZE := Nat.le_add_right _ _
  cases h with
  | stop hs =>
    cases hs with
    | done => exact absurd rfl hne
    | short => exact ⟨rfl, rfl⟩
    | cut => exact ⟨rfl, rfl⟩
    | impossible h4 _ => omega
    | tooLarge h4 _ _ => omega
    | forged _ h1 _ h2 _ => omega
  | record _ h1 _ h2 _ _ => omega

theorem Reads.of_impossible (h : Reads A o w ps e) (hlen : AEAD_LENGTH_PREFIX ≤ w.length)
    (hpeek : A.peekFrameSize (w.take AEAD_LENGTH_PREFIX) = none) :
    ps = [] ∧ e = .fails .impossibleLength := by
  cases h with
  | stop hs =>
    cases hs with
    | done => exact absurd hlen (by decide)
    | short _ h4 => omega
    | cut h1 _ _ _ _ => rw [hpeek] at h1; cases h1
    | impossible => exact ⟨rfl, rfl⟩
    | tooLarge _ h1 _ => rw [hpeek] at h1; cases h1
    | forged h1 _ _ _ _ => rw [hpeek] at h1; cases h1
  | record h1 _ _ _ _ _ => rw [hpeek] at h1; cases h1

theorem Reads.of_size (h : Reads A o w ps e) (hlen : AEAD_LENGTH_PREFIX ≤ w.length)
    (hpeek : A.peekFrameSize (w.take AEAD_LENGTH_PREFIX) = some size) :
    (¬Sized size ∧ ps = [] ∧ e = .fails .tooLarge) ∨
      (Sized size ∧ w.length < size ∧ ps = [] ∧ e = .fails .unexpectedEof) ∨
      (Sized size ∧ size ≤ w.length ∧ A.openRecord o (w.take size) = none ∧
        ps = [] ∧ e = .fails .notAuthentic) ∨
      (Sized size ∧ size ≤ w.length ∧ ∃ p o' ps', A.openRecord o (w.take size) = some (p, o') ∧
        ps = p :: ps' ∧ Reads A o' (w.drop size) ps' e) := by
  cases h with
  | stop hs =>
    cases hs with
    | done => exact absurd hlen (by decide)
    | short _ h4 => omega
    | cut h1 hmin hmax _ hcut =>
      obtain rfl := Option.some.inj (hpeek.symm.trans h1)
      exact .inr (.inl ⟨⟨hmin, hmax⟩, hcut, rfl, rfl⟩)
    | impossible _ h1 => rw [hpeek] at h1; cases h1
    | tooLarge _ h1 hbad =>
      obtain rfl := Option.some.inj (hpeek.symm.trans h1)
      refine .inl ⟨fun hs => ?_, rfl, rfl⟩
      have := hs.1
      have := hs.2
      omega
    | forged h1 hmin hmax hwhole hnone =>
      obtain rfl := Option.some.inj (hpeek.symm.trans h1)
      exact .inr (.inr (.inl ⟨⟨hmin, hmax⟩, hwhole, hnone, rfl, rfl⟩))
  | record h1 hmin hmax hwhole hopen hrest =>
    obtain rfl := Option.some.inj (hpeek.symm.trans h1)
    exact .inr (.inr (.inr ⟨⟨hmin, hmax⟩, hwhole, _, _, _, hopen, rfl, hrest⟩))

end Inversion

/-! ## A round tells what is owed -/

theorem take_fill {framed bytes : List UInt8} {start : Nat} (h : start ≤ framed.length) :
    (fill framed start bytes).take (start + bytes.length) = framed.take start ++ bytes := by
  have hlen : (framed.take start ++ bytes).length = start + bytes.length := by
    rw [List.length_append, List.length_take_of_le h]
  unfold fill
  rw [← hlen]
  exact List.take_left

theorem length_fill {framed bytes : List UInt8} {start : Nat} (h : start ≤ framed.length) :
    start + bytes.length ≤ (fill framed start bytes).length := by
  unfold fill
  rw [List.length_append, List.length_append, List.length_take_of_le h]
  exact Nat.le_add_right _ _

section Round
variable {r : Reader σ} {s : Socket} {room : Nat} {left : List UInt8} {e : Ending}

theorem Owes.length_arrived (h : Owes A r s.wire left e) : r.arrived.length = r.filled :=
  List.length_take_of_le h.filled

/-- What a reader waits for: the rest of a length, or of the record that is so long. -/
def WaitsFor (A : Aead σ) (r : Reader σ) (upTo : Nat) : Prop :=
  (r.filled < AEAD_LENGTH_PREFIX ∧ upTo = AEAD_LENGTH_PREFIX) ∨
    (AEAD_LENGTH_PREFIX ≤ r.filled ∧ r.filled < upTo ∧
      A.peekFrameSize (r.arrived.take AEAD_LENGTH_PREFIX) = some upTo)

/-- The rest of a record is read for, as far as it is to come. -/
theorem Owes.more (h : Owes A r s.wire left e) (hread : r.plain.length ≤ r.read) {upTo : Nat}
    (hwaits : WaitsFor A r upTo)
    (hcut : r.filled ≠ 0 → s.wire = [] → ∀ ps, Reads A r.opener r.arrived ps e →
      ps = [] ∧ e = .fails .unexpectedEof) :
    Stepped A r s room left e
      (let framed := r.framed ++ List.replicate (upTo - r.framed.length) 0
       match s.pollRead (upTo - r.filled) with
       | (none, s) => .pending { r with framed := framed } s
       | (some bytes, s) =>
         let r' := { r with framed := fill framed r.filled bytes, filled := r.filled + bytes.length }
         if bytes.length = 0 then
           if r.filled = 0 then .ready [] r' s else .failed .unexpectedEof
         else .again r' s) := by
  have harrived := h.length_arrived
  obtain ⟨hfilled, hold, ps, hreads, hleft⟩ := h
  have hroom : r.filled < upTo := by
    rcases hwaits with ⟨hlt, rfl⟩ | ⟨-, hlt, -⟩
    · exact hlt
    · exact hlt
  have hgrown : (r.framed ++ List.replicate (upTo - r.framed.length) 0).take r.filled = r.arrived :=
    List.take_append_of_le_length hfilled
  have hlong : r.filled ≤ (r.framed ++ List.replicate (upTo - r.framed.length) 0).length := by
    rw [List.length_append]
    exact hfilled.trans (Nat.le_add_right _ _)
  have hplain : r.plain.drop r.read = [] := List.drop_eq_nil_of_le hread
  revert hgrown hlong
  dsimp only
  generalize r.framed ++ List.replicate (upTo - r.framed.length) 0 = framed
  intro hgrown hlong
  obtain ⟨s', ⟨hpoll, hwire, hcuts⟩ | ⟨bytes, hpoll, hwire, hlen, hcuts, hnil⟩⟩ :=
    s.pollRead_spec (upTo - r.filled)
  · rw [hpoll]
    refine .pending ⟨hlong, ?_, ps, ?_, hleft⟩ hcuts
    · unfold Reader.arrived
      dsimp only
      rw [hgrown]
      exact hold
    · unfold Reader.arrived
      dsimp only
      rw [hgrown, hwire]
      exact hreads
  · rw [hpoll]
    dsimp only
    have harrives : (fill framed r.filled bytes).take (r.filled + bytes.length) = r.arrived ++ bytes := by
      rw [take_fill hlong, hgrown]
    split
    · rename_i hzero
      obtain rfl := List.length_eq_zero_iff.mp hzero
      have hend : s.wire = [] := (hnil rfl).resolve_left (by omega)
      have hend' : s'.wire = [] := hwire.symm.trans hend
      rw [hend, List.append_nil] at hreads
      split
      · -- the end of a record is the end
        rename_i hfresh
        have hempty : r.arrived = [] := List.length_eq_zero_iff.mp (harrived.trans hfresh)
        rw [hempty] at hreads
        obtain ⟨rfl, rfl⟩ := hreads.of_nil
        rw [hplain] at hleft
        refine .done hleft rfl ⟨length_fill hlong, .inl ?_, [], ?_, ?_⟩ hcuts
        · dsimp only
          rw [hfresh]
          exact Nat.zero_le _
        · unfold Reader.arrived
          dsimp only
          rw [harrives, hempty, hend']
          exact .stop .done
        · rw [hplain]
          rfl
      · rename_i hsome
        obtain ⟨rfl, rfl⟩ := hcut hsome hend ps hreads
        rw [hplain] at hleft
        exact .failed hleft rfl
    · rename_i hsome
      refine .again ⟨length_fill hlong, ?_, ps, ?_, hleft⟩ hcuts ?_
      · unfold Reader.arrived
        dsimp only
        rw [harrives]
        rcases hwaits with ⟨-, rfl⟩ | ⟨h4, -, hpeek⟩
        · exact .inl (by omega)
        · refine .inr ⟨upTo, ?_, by omega⟩
          rw [List.take_append_of_le_length (by rw [harrived]; exact h4)]
          exact hpeek
      · unfold Reader.arrived
        dsimp only
        rw [harrives, List.append_assoc, ← hwire]
        exact hreads
      · have hcount := congrArg List.length hwire
        rw [List.length_append] at hcount
        dsimp only
        omega

theorem need_eq (r : Reader σ) : need A r =
    if r.filled < AEAD_LENGTH_PREFIX then .ok AEAD_LENGTH_PREFIX else
      match A.peekFrameSize r.arrived with
      | none => .error .impossibleLength
      | some size =>
        if size < AEAD_LENGTH_PREFIX + AEAD_TAG_SIZE ∨
            size - (AEAD_LENGTH_PREFIX + AEAD_TAG_SIZE) > MAX_RECORD then .error .tooLarge
        else .ok size := rfl

theorem sized_iff {size : Nat} : Sized size ↔ ¬(size < AEAD_LENGTH_PREFIX + AEAD_TAG_SIZE ∨
    size - (AEAD_LENGTH_PREFIX + AEAD_TAG_SIZE) > MAX_RECORD) := by
  unfold Sized
  omega

theorem Owes.round (hpeeks : Peeks A) (h : Owes A r s.wire left e) (room : Nat) :
    Stepped A r s room left e (Files.round A r s room) := by
  unfold Files.round
  by_cases hplain : r.read < r.plain.length
  · rw [if_pos hplain]
    obtain ⟨hfilled, hfits, ps, hreads, hleft⟩ := h
    have hlen : (r.plain.drop r.read).length = r.plain.length - r.read := List.length_drop ..
    refine .bytes ?_ ?_ (fun hnil => ?_) ⟨hfilled, hfits, ps, hreads, rfl⟩
    · rw [hleft, ← List.drop_drop, ← List.append_assoc, List.take_append_drop]
    · rw [List.length_take]
      omega
    · have hzero := congrArg List.length hnil
      rw [List.length_take, hlen, List.length_nil] at hzero
      omega
  · rw [if_neg hplain, need_eq]
    have hread : r.plain.length ≤ r.read := Nat.le_of_not_lt hplain
    have harrived := h.length_arrived
    have hmin : AEAD_LENGTH_PREFIX < AEAD_LENGTH_PREFIX + AEAD_TAG_SIZE := by decide
    by_cases h4 : r.filled < AEAD_LENGTH_PREFIX
    · rw [if_pos h4]
      dsimp only
      rw [if_neg (fun hboth => absurd hboth.2 (Nat.lt_irrefl _))]
      refine h.more hread (.inl ⟨h4, rfl⟩) fun hsome _ ps hreads => ?_
      exact hreads.of_short (fun hnil => hsome (by rw [← harrived, hnil]; rfl)) (by omega)
    · rw [if_neg h4]
      have hge : AEAD_LENGTH_PREFIX ≤ r.filled := Nat.le_of_not_lt h4
      have hhead : ∀ w, (r.arrived ++ w).take AEAD_LENGTH_PREFIX = r.arrived.take AEAD_LENGTH_PREFIX :=
        fun w => List.take_append_of_le_length (by omega)
      have hwhole : AEAD_LENGTH_PREFIX ≤ (r.arrived ++ s.wire).length := by
        rw [List.length_append]
        omega
      have hpeek := hpeeks r.arrived (by omega)
      obtain ⟨hfilled, hfits, ps, hreads, hleft⟩ := id h
      have hdrop : r.plain.drop r.read = [] := List.drop_eq_nil_of_le hread
      rw [hdrop] at hleft
      cases hsize : A.peekFrameSize r.arrived with
      | none =>
        rw [hsize] at hpeek
        obtain ⟨rfl, rfl⟩ := hreads.of_impossible hwhole (by rw [hhead]; exact hpeek.symm)
        exact .failed hleft rfl
      | some size =>
        rw [hsize] at hpeek
        have hcases := hreads.of_size hwhole (by rw [hhead]; exact hpeek.symm)
        dsimp only
        by_cases hok : Sized size
        · rw [if_neg (sized_iff.mp hok)]
          dsimp only
          have hle : r.filled ≤ size := by
            rcases hfits with hshort | ⟨size', hpeek', hle⟩
            · have := hok.1
              omega
            · obtain rfl := Option.some.inj (hpeek.trans hpeek')
              exact hle
          by_cases hfull : r.filled = size
          · have hnow : r.filled = size ∧ size > AEAD_LENGTH_PREFIX := ⟨hfull, by
              have := hok.1
              omega⟩
            rw [if_pos hnow]
            have htake : (r.arrived ++ s.wire).take size = r.framed.take size := by
              rw [List.take_append_of_le_length (by omega), ← hfull]
              exact List.take_of_length_le (by omega)
            have hdropped : (r.arrived ++ s.wire).drop size = s.wire := by
              rw [← hfull, ← harrived, List.drop_left]
            rw [htake, hdropped] at hcases
            rcases hcases with ⟨hbad, -⟩ | ⟨-, hshort, -⟩ | ⟨-, -, hnone, rfl, rfl⟩ |
              ⟨-, -, p, o', ps', hopen, rfl, hrest⟩
            · exact absurd hok hbad
            · rw [List.length_append] at hshort
              omega
            · rw [hnone]
              exact .failed hleft rfl
            · rw [hopen]
              refine .again ⟨Nat.zero_le _, .inl (Nat.zero_le _), ps', hrest, ?_⟩ le_rfl ?_
              · rw [hleft]
                rfl
              · have := hok.1
                dsimp only
                omega
          · rw [if_neg fun hnow => hfull hnow.1]
            refine h.more hread (.inr ⟨hge, by omega, hpeek.symm⟩) fun _ hend ps hreads => ?_
            rcases hreads.of_size (by omega) hpeek.symm with ⟨hbad, -⟩ | ⟨-, -, hps, he⟩ |
              ⟨-, hlong, -⟩ | ⟨-, hlong, -⟩
            · exact absurd hok hbad
            · exact ⟨hps, he⟩
            · omega
            · omega
        · rw [if_pos (not_not.mp fun hn => hok (sized_iff.mpr hn))]
          rcases hcases with ⟨-, rfl, rfl⟩ | ⟨hs, -⟩ | ⟨hs, -⟩ | ⟨hs, -⟩
          · exact .failed hleft rfl
          · exact absurd hs hok
          · exact absurd hs hok
          · exact absurd hs hok

/-- What a read answers, of what is owed. -/
inductive Answered (A : Aead σ) (cuts room : Nat) (left : List UInt8) (e : Ending) : Polled σ → Prop where
  | bytes {b left' : List UInt8} {r' : Reader σ} {s' : Socket} : left = b ++ left' → b.length ≤ room →
      (b = [] → room = 0) → Owes A r' s'.wire left' e → s'.cuts.length ≤ cuts →
      Answered A cuts room left e (.ready b r' s')
  | done {r' : Reader σ} {s' : Socket} : left = [] → e = .done → Owes A r' s'.wire [] .done →
      s'.cuts.length ≤ cuts → Answered A cuts room left e (.ready [] r' s')
  | pending {r' : Reader σ} {s' : Socket} : Owes A r' s'.wire left e → s'.cuts.length < cuts →
      Answered A cuts room left e (.pending r' s')
  | failed {err : Error} : left = [] → e = .fails err → Answered A cuts room left e (.failed err)

theorem Answered.mono {cuts cuts' : Nat} {p : Polled σ} (h : Answered A cuts room left e p)
    (hle : cuts ≤ cuts') : Answered A cuts' room left e p := by
  cases h with
  | bytes hleft hlen hnil howes hcuts => exact .bytes hleft hlen hnil howes (hcuts.trans hle)
  | done hleft he howes hcuts => exact .done hleft he howes (hcuts.trans hle)
  | pending howes hcuts => exact .pending howes (hcuts.trans_le hle)
  | failed hleft he => exact .failed hleft he

/-- A read answers, within rounds enough. -/
theorem Owes.pollRead (hpeeks : Peeks A) (room : Nat) {n : Nat} : ∀ {r : Reader σ} {s : Socket},
    Owes A r s.wire left e → 2 * s.wire.length + r.filled < n →
    ∃ p, Files.pollRead A n r s room = some p ∧ Answered A s.cuts.length room left e p := by
  induction n with
  | zero => intro r s _ hn; exact absurd hn (Nat.not_lt_zero _)
  | succ n ih =>
    intro r s h hn
    have hround := h.round hpeeks room
    unfold Files.pollRead
    generalize Files.round A r s room = step at hround
    cases hround with
    | bytes hleft hlen hnil howes => exact ⟨_, rfl, .bytes hleft hlen hnil howes le_rfl⟩
    | done hleft he howes hcuts => exact ⟨_, rfl, .done hleft he howes hcuts⟩
    | pending howes hcuts => exact ⟨_, rfl, .pending howes hcuts⟩
    | failed hleft he => exact ⟨_, rfl, .failed hleft he⟩
    | again howes hcuts hfewer =>
      obtain ⟨p, hp, hanswered⟩ := ih howes (by omega)
      exact ⟨p, hp, hanswered.mono hcuts⟩

end Round

/-! ## All reads tell it -/

/-- Answers that give some bytes in order, and then how they end, of a wire that comes in so many
pieces. -/
inductive Told : Nat → List UInt8 → Ending → List (Nat × Answer) → Prop where
  | nil {cuts : Nat} {left : List UInt8} {e : Ending} : Told cuts left e []
  | bytes {cuts room : Nat} {b left : List UInt8} {e : Ending} {out : List (Nat × Answer)} :
      b.length ≤ room → (b = [] → room = 0) → Told cuts left e out →
      Told cuts (b ++ left) e ((room, .bytes b) :: out)
  | done {cuts room : Nat} {out : List (Nat × Answer)} : Told cuts [] .done out →
      Told cuts [] .done ((room, .bytes []) :: out)
  | pending {cuts cuts' room : Nat} {left : List UInt8} {e : Ending} {out : List (Nat × Answer)} :
      Told cuts left e out → cuts < cuts' → Told cuts' left e ((room, .pending) :: out)
  | failed {cuts room : Nat} {err : Error} : Told cuts [] (.fails err) [(room, .failed err)]

theorem Told.mono {cuts cuts' : Nat} {left : List UInt8} {e : Ending} {out : List (Nat × Answer)}
    (h : Told cuts left e out) (hle : cuts ≤ cuts') : Told cuts' left e out := by
  induction h generalizing cuts' with
  | nil => exact .nil
  | bytes hlen hnil _ ih => exact .bytes hlen hnil (ih hle)
  | done _ ih => exact .done (ih hle)
  | pending htold hlt _ => exact .pending htold (hlt.trans_le hle)
  | failed => exact .failed

theorem Owes.told (hpeeks : Peeks A) {e : Ending} (rooms : List Nat) :
    ∀ {r : Reader σ} {s : Socket} {left : List UInt8}, Owes A r s.wire left e →
      ∃ out, Files.reads A r s rooms = some out ∧ Told s.cuts.length left e out := by
  induction rooms with
  | nil => intro r s left _; exact ⟨[], rfl, .nil⟩
  | cons room rooms ih =>
    intro r s left h
    have henough : 2 * s.wire.length + r.filled < rounds r s := Nat.lt_succ_self _
    obtain ⟨p, hp, hanswered⟩ := h.pollRead hpeeks room henough
    unfold Files.reads
    rw [hp, Option.bind_some]
    cases hanswered with
    | bytes hleft hlen hnil howes hcuts =>
      obtain ⟨out, hout, htold⟩ := ih howes
      rw [hleft]
      exact ⟨_, congrArg (Option.map _) hout, .bytes hlen hnil (htold.mono hcuts)⟩
    | done hleft he howes hcuts =>
      subst hleft he
      obtain ⟨out, hout, htold⟩ := ih howes
      exact ⟨_, congrArg (Option.map _) hout, .done (htold.mono hcuts)⟩
    | pending howes hcuts =>
      obtain ⟨out, hout, htold⟩ := ih howes
      exact ⟨_, congrArg (Option.map _) hout, .pending htold hcuts⟩
    | failed hleft he =>
      subst hleft he
      exact ⟨_, rfl, .failed⟩

/-! ## What answers that tell it come to -/

/-- The bytes that were given. -/
def given (out : List (Nat × Answer)) : List UInt8 :=
  (out.map fun a => match a.2 with
    | .bytes b => b
    | .pending => []
    | .failed _ => []).flatten

/-- The answer by which a read tells the end: no bytes into a buffer with room, or the failure. -/
def Ending.tells : Ending → Nat × Answer → Prop
  | .done, (room, a) => 0 < room ∧ a = .bytes []
  | .fails err, (_, a) => a = .failed err

/-- An answer that tells some end. -/
def ends : Nat × Answer → Prop := fun a => ∃ e : Ending, e.tells a

theorem Told.given_prefix {cuts : Nat} {left : List UInt8} {e : Ending} {out : List (Nat × Answer)}
    (h : Told cuts left e out) : given out <+: left := by
  induction h with
  | nil => exact List.nil_prefix
  | bytes _ _ _ ih => exact (List.prefix_append_right_inj _).mpr ih
  | done _ ih => exact ih
  | pending _ _ ih => exact ih
  | failed => exact List.nil_prefix

/-- The end is told only when all bytes have been given, and it is the wire's. -/
theorem Told.ends_last {cuts : Nat} {left : List UInt8} {e e' : Ending} {out before after : List (Nat × Answer)}
    {a : Nat × Answer} (h : Told cuts left e out) (hout : out = before ++ a :: after) (ha : e'.tells a) :
    given before = left ∧ e' = e := by
  induction h generalizing before with
  | nil => exact absurd hout.symm (List.append_ne_nil_of_right_ne_nil _ (List.cons_ne_nil _ _))
  | @bytes cuts room b left e out hlen hnil _ ih =>
    cases before with
    | nil =>
      obtain ⟨rfl, -⟩ := List.cons.inj hout
      cases e' with
      | done =>
        obtain ⟨hroom, hb⟩ := ha
        have hzero := hnil (Answer.bytes.inj hb)
        omega
      | fails err => cases ha
    | cons b' before =>
      obtain ⟨rfl, hrest⟩ := List.cons.inj hout
      obtain ⟨hgiven, he⟩ := ih hrest
      refine ⟨?_, he⟩
      rw [← hgiven]
      rfl
  | @done cuts room out htold ih =>
    cases before with
    | nil =>
      obtain ⟨rfl, -⟩ := List.cons.inj hout
      cases e' with
      | done => exact ⟨rfl, rfl⟩
      | fails err => cases ha
    | cons b' before =>
      obtain ⟨rfl, hrest⟩ := List.cons.inj hout
      obtain ⟨hgiven, he⟩ := ih hrest
      exact ⟨hgiven, he⟩
  | @pending cuts cuts' room left e out _ _ ih =>
    cases before with
    | nil =>
      obtain ⟨rfl, -⟩ := List.cons.inj hout
      cases e' with
      | done => cases ha.2
      | fails err => cases ha
    | cons b' before =>
      obtain ⟨rfl, hrest⟩ := List.cons.inj hout
      obtain ⟨hgiven, he⟩ := ih hrest
      exact ⟨hgiven, he⟩
  | @failed cuts room err =>
    cases before with
    | nil =>
      obtain ⟨rfl, -⟩ := List.cons.inj hout
      cases e' with
      | done => cases ha.2
      | fails err' => exact ⟨rfl, congrArg Ending.fails (Answer.failed.inj ha).symm⟩
    | cons b' before =>
      obtain ⟨-, hrest⟩ := List.cons.inj hout
      exact absurd hrest.symm (List.append_ne_nil_of_right_ne_nil _ (List.cons_ne_nil _ _))

/-- Reads enough come to the end: each that has room gives a byte, waits for a piece, or tells it. -/
theorem Told.reaches {cuts : Nat} {left : List UInt8} {e : Ending} {out : List (Nat × Answer)}
    (h : Told cuts left e out) (hmany : left.length + cuts < out.countP fun a => 0 < a.1) :
    ∃ a ∈ out, e.tells a := by
  induction h with
  | nil => exact absurd hmany (Nat.not_lt_zero _)
  | @bytes cuts room b left e out hlen hnil _ ih =>
    rw [List.length_append, List.countP_cons] at hmany
    have hmore : left.length + cuts < out.countP fun a => 0 < a.1 := by
      by_cases hroom : 0 < room
      · have hb : 0 < b.length := List.length_pos_of_ne_nil fun hb => absurd (hnil hb) (by omega)
        rw [if_pos (by simpa using hroom)] at hmany
        omega
      · rw [if_neg (by simpa using hroom)] at hmany
        omega
    obtain ⟨a, ha, htells⟩ := ih hmore
    exact ⟨a, List.mem_cons_of_mem _ ha, htells⟩
  | @done cuts room out _ ih =>
    by_cases hroom : 0 < room
    · exact ⟨_, List.mem_cons_self, hroom, rfl⟩
    · rw [List.countP_cons, if_neg (by simpa using hroom)] at hmany
      obtain ⟨a, ha, htells⟩ := ih hmany
      exact ⟨a, List.mem_cons_of_mem _ ha, htells⟩
  | @pending cuts cuts' room left e out _ hlt ih =>
    rw [List.countP_cons] at hmany
    have hmore : left.length + cuts < out.countP fun a => 0 < a.1 := by
      split at hmany <;> omega
    obtain ⟨a, ha, htells⟩ := ih hmore
    exact ⟨a, List.mem_cons_of_mem _ ha, htells⟩
  | failed => exact ⟨_, List.mem_cons_self, rfl⟩

end HxdNg.Files
