import HxdNg.Files.SealedWrites
import HxdNg.Lib.Runs
import HxdNg.Session.Hope

/-!
# What runs through the halves of a HOPE connection

* `Coder.Streaming` : what is relied on of a transport;
* `pollRead_raw`, `pollRead_spec` : what one read gives, keeps and takes off the wire;
* `Progressed`, `progress_spec`, `pass_spec` : what one write hands the socket and reports;
* `Delivered`, `Wrote` : what has been read and written, at any point of a connection.
-/

namespace HxdNg.Hope

open HxdNg.Files (through through_append of_through_cons)

variable {S R : Type} {C : Coder S R}

/-- Bytes decode the same however they are cut, and coding nothing comes to nothing. -/
structure Coder.Streaming (C : Coder S R) : Prop where
  encode_nil : ∀ {s s' e}, C.encode s [] = some (e, s') → e = []
  decode_nil : ∀ r, C.decode r [] = some ([], r)
  decode_append : ∀ {r r' r'' a b x y}, C.decode r a = some (x, r') → C.decode r' b = some (y, r'') →
    C.decode r (a ++ b) = some (x ++ y, r'')

/-! ## Reading -/

/-- Decoded and not yet read. -/
def HopeRead.held (h : HopeRead) : List UInt8 := h.plain.drop h.at_

/-- A buffer read to its end is let go. -/
def HopeRead.Wf (h : HopeRead) : Prop := h.at_ < h.plain.length ∨ h = {}

theorem HopeRead.Wf.held_nil {h : HopeRead} (hw : h.Wf) (hat : ¬h.at_ < h.plain.length) : h = {} :=
  hw.resolve_left hat

theorem HopeRead.give_spec {h : HopeRead} (hat : h.at_ < h.plain.length) (room : Nat) :
    (h.give room).1 ++ (h.give room).2.held = h.held ∧ (h.give room).2.Wf ∧
      (0 < room → (h.give room).1 ≠ []) := by
  unfold give held Wf
  simp only
  set n := min (h.plain.length - h.at_) room with hn
  refine ⟨?_, ?_, ?_⟩
  · split
    case isTrue hall =>
      have hlen : (h.plain.drop h.at_).length ≤ n := by
        rw [List.length_drop]
        omega
      rw [List.take_of_length_le hlen]
      simp
    case isFalse =>
      rw [← List.drop_drop]
      exact List.take_append_drop n (h.plain.drop h.at_)
  · split
    case isTrue => exact .inr rfl
    case isFalse hsome =>
      left
      simp only
      omega
  · intro hroom hnil
    have hlen := congrArg List.length hnil
    rw [List.length_take, List.length_drop, List.length_nil] at hlen
    omega

/-- A read before a transport: bytes pass as they are, and are counted. -/
structure Passed (slots : Slots S R) (wire : List UInt8) (d : ReadDone S R) : Prop where
  reader : d.reader = {}
  slots_eq : d.slots = { slots with passed := slots.passed + d.polled.bytes.length }
  eats : d.polled.bytes ++ d.wire = wire
  unbroken : d.polled ≠ .failed .broken

theorem pollRead_raw {slots : Slots S R} (hrecv : slots.recv = none) (wire : List UInt8) (room : Nat)
    (offers : List Offer) : Passed slots wire (pollRead C slots {} wire room offers) := by
  obtain ⟨send, recv, passed⟩ := slots
  obtain rfl : recv = none := hrecv
  unfold pollRead
  rw [if_neg (by simp)]
  cases offers with
  | nil => exact ⟨rfl, rfl, rfl, by simp⟩
  | cons o offers =>
    cases o with
    | pending => exact ⟨rfl, rfl, rfl, by simp⟩
    | fails => exact ⟨rfl, rfl, rfl, by simp⟩
    | moves n => exact ⟨rfl, rfl, List.take_append_drop _ wire, by simp⟩

/-- A read under a transport: what it gives and what it keeps is what was kept and what it decoded; with
nothing to give, it keeps nothing. -/
structure Decoded (C : Coder S R) (slots : Slots S R) (recv : R) (h : HopeRead) (wire : List UInt8)
    (room : Nat) (d : ReadDone S R) : Prop where
  wf : d.reader.Wf
  eats : ∃ eaten out recv', wire = eaten ++ d.wire ∧ C.decode recv eaten = some (out, recv') ∧
    d.slots = { slots with recv := some recv' } ∧ d.polled.bytes ++ d.reader.held = h.held ++ out
  gives : 0 < room → d.polled.bytes = [] → d.reader.held = []

theorem pollRead_spec (hC : C.Streaming) {room : Nat} (offers : List Offer) :
    ∀ {slots : Slots S R} {recv : R} {h : HopeRead} {wire : List UInt8}, slots.recv = some recv → h.Wf →
      (pollRead C slots h wire room offers).polled = .failed .broken ∨
      Decoded C slots recv h wire room (pollRead C slots h wire room offers) := by
  have hgive : ∀ {slots : Slots S R} {recv : R} {h : HopeRead} {wire : List UInt8},
      slots.recv = some recv → h.at_ < h.plain.length →
      Decoded C slots recv h wire room ⟨.ready (h.give room).1, slots, (h.give room).2, wire⟩ := by
    intro slots recv h wire hrecv hat
    obtain ⟨hheld, hwf, hsome⟩ := h.give_spec hat room
    exact ⟨hwf, ⟨[], [], recv, rfl, hC.decode_nil recv, by rw [← hrecv], by rw [List.append_nil]; exact hheld⟩,
      fun hroom hnil => absurd hnil (hsome hroom)⟩
  have hquiet : ∀ {slots : Slots S R} {recv : R} {wire : List UInt8} {polled : Polled (List UInt8)},
      slots.recv = some recv → polled.bytes = [] → Decoded C slots recv {} wire room ⟨polled, slots, {}, wire⟩ :=
    fun {slots recv wire polled} hrecv hnil => ⟨.inr rfl, ⟨[], [], recv, rfl, hC.decode_nil recv,
      by rw [← hrecv], by rw [hnil]; rfl⟩, fun _ _ => rfl⟩
  induction offers with
  | nil =>
    intro slots recv h wire hrecv hw
    unfold pollRead
    split
    case isTrue hat => exact .inr (hgive hrecv hat)
    case isFalse hat =>
      obtain rfl := hw.held_nil hat
      exact .inr (hquiet hrecv rfl)
  | cons o offers ih =>
    intro slots recv h wire hrecv hw
    unfold pollRead
    split
    case isTrue hat => exact .inr (hgive hrecv hat)
    case isFalse hat =>
      obtain rfl := hw.held_nil hat
      rw [hrecv]
      cases o with
      | pending => exact .inr (hquiet hrecv rfl)
      | fails => exact .inr (hquiet hrecv rfl)
      | moves n =>
        dsimp only
        split
        case isTrue => exact .inr (hquiet hrecv rfl)
        case isFalse =>
          cases hdec : C.decode recv (wire.take (min n RAW)) with
          | none => exact .inl rfl
          | some out =>
            have hwf : HopeRead.Wf { plain := [] ++ out.1, at_ := 0 } := by
              cases hout : out.1 with
              | nil => exact .inr rfl
              | cons b bs => exact .inl (by simp)
            refine (ih rfl hwf).imp id fun hd => ?_
            obtain ⟨eaten, more, recv', hwire, hmore, hslots, hbytes⟩ := hd.eats
            refine ⟨hd.wf, ⟨wire.take (min n RAW) ++ eaten, out.1 ++ more, recv', ?_,
              hC.decode_append hdec hmore, hslots, ?_⟩, hd.gives⟩
            · rw [List.append_assoc, ← hwire, List.take_append_drop]
            · rw [hbytes]
              rfl

/-! ## Writing -/

/-- The socket was asked for more than it would take: it took what it offered to, and was then not ready. -/
def Waits (offers : List Offer) : Prop :=
  ∃ moved rest, offers = moved ++ rest ∧ (∀ o ∈ moved, ∃ n, o = .moves n) ∧
    (rest = [] ∨ rest.head? = some .pending)

theorem Waits.moved {offers : List Offer} (h : Waits offers) (n : Nat) : Waits (.moves n :: offers) := by
  obtain ⟨moved, rest, rfl, hmoved, hrest⟩ := h
  refine ⟨.moves n :: moved, rest, rfl, fun o ho => ?_, hrest⟩
  rcases List.mem_cons.mp ho with rfl | ho
  · exact ⟨n, rfl⟩
  · exact hmoved o ho

/-- Why a write of an encoding fails: the socket did, or took nothing of what it was handed. -/
def Fails (e : Error) (offers : List Offer) : Prop :=
  (e = .socket ∧ .fails ∈ offers) ∨ (e = .writeZero ∧ .moves 0 ∈ offers)

theorem Fails.moved {e : Error} {offers : List Offer} (h : Fails e offers) (n : Nat) :
    Fails e (.moves n :: offers) :=
  h.imp (And.imp_right (List.mem_cons_of_mem _)) (And.imp_right (List.mem_cons_of_mem _))

/-- A half with an encoding under way. -/
structure HopeWrite.Owing (w : HopeWrite) : Prop where
  credited : w.credited < w.owed
  sent : w.sent ≤ w.pending.length

/-- A write of what is under way: the socket is handed the encoding from where it had got to, and either some
more of the buffer is reported and not its last byte, or all that was left of both is done with, or the
socket stopped it. -/
inductive Progressed (w : HopeWrite) (took : List UInt8) (offers : List Offer) : WriteDone → Prop
  | reported {k n : Nat} : w.sent + k ≤ w.pending.length → 0 < n → w.credited + n < w.owed →
      Progressed w took offers ⟨.ready n, { w with sent := w.sent + k, credited := w.credited + n },
        took ++ (w.pending.drop w.sent).take k⟩
  | finished {n : Nat} : 0 < n → w.credited + n = w.owed →
      Progressed w took offers ⟨.ready n, {}, took ++ w.pending.drop w.sent⟩
  | waits {k : Nat} : w.sent + k ≤ w.pending.length → Waits offers →
      Progressed w took offers ⟨.pending, { w with sent := w.sent + k },
        took ++ (w.pending.drop w.sent).take k⟩
  | failed {k : Nat} {e : Error} : w.sent + k ≤ w.pending.length → Fails e offers →
      Progressed w took offers ⟨.failed e, { w with sent := w.sent + k },
        took ++ (w.pending.drop w.sent).take k⟩

theorem HopeWrite.Owing.target {w : HopeWrite} (h : w.Owing) :
    w.target ≤ w.owed ∧ (w.target = w.owed ↔ w.sent = w.pending.length) := by
  have hpos := h.credited
  unfold HopeWrite.target
  split
  case isTrue hall => exact ⟨le_refl _, by simp [hall]⟩
  case isFalse hsome =>
    refine ⟨by omega, fun htarget => ?_, fun hall => absurd hall hsome⟩
    omega

/-- With the whole encoding gone there is something to report. -/
theorem HopeWrite.Owing.unsent {w : HopeWrite} (h : w.Owing) (hquiet : ¬w.credited < w.target) :
    w.sent < w.pending.length := by
  refine lt_of_le_of_ne h.sent fun hall => hquiet ?_
  rw [h.target.2.mpr hall]
  exact h.credited

theorem progress_spec (offers : List Offer) : ∀ {w : HopeWrite} {took : List UInt8}, w.Owing →
    Progressed w took offers (progress w took offers) := by
  have hreport : ∀ {w : HopeWrite} {took : List UInt8} {offers : List Offer}, w.Owing →
      w.credited < w.target → Progressed w took offers
        ⟨.ready (w.target - w.credited), if w.target = w.owed then {} else { w with credited := w.target },
          took⟩ := by
    intro w took offers h hmore
    obtain ⟨hle, hall⟩ := h.target
    split
    case isTrue htarget =>
      have hgone : took = took ++ w.pending.drop w.sent := by
        rw [hall.mp htarget, List.drop_length, List.append_nil]
      nth_rewrite 2 [hgone]
      exact .finished (by omega) (by omega)
    case isFalse htarget =>
      have hadd : w.credited + (w.target - w.credited) = w.target := by omega
      simpa [hadd] using Progressed.reported (k := 0) (n := w.target - w.credited) h.sent (by omega)
        (by omega)
  induction offers with
  | nil =>
    intro w took h
    unfold progress
    split
    case isTrue hmore => exact hreport h hmore
    case isFalse =>
      simpa using Progressed.waits (k := 0) h.sent ⟨[], [], rfl, by simp, .inl rfl⟩
  | cons o offers ih =>
    intro w took h
    unfold progress
    split
    case isTrue hmore => exact hreport h hmore
    case isFalse hquiet =>
      have hlt := h.unsent hquiet
      cases o with
      | pending =>
        simpa using Progressed.waits (k := 0) h.sent ⟨[], .pending :: offers, rfl, by simp, .inr rfl⟩
      | fails =>
        have hfails : Fails .socket (.fails :: offers) := .inl ⟨rfl, List.mem_cons_self⟩
        simpa using Progressed.failed (k := 0) h.sent hfails
      | moves n =>
        dsimp only
        have hlen : ((w.pending.drop w.sent).take n).length = min n (w.pending.length - w.sent) := by
          rw [List.length_take, List.length_drop]
        split
        case isTrue hzero =>
          obtain rfl : n = 0 := by omega
          have hfails : Fails .writeZero (.moves 0 :: offers) := .inr ⟨rfl, List.mem_cons_self⟩
          simpa using Progressed.failed (k := 0) h.sent hfails
        case isFalse =>
          -- the rest of the schedule goes on from what this offer moved
          set gone := (w.pending.drop w.sent).take n with hgone
          have hon : HopeWrite.Owing { w with sent := w.sent + gone.length } :=
            ⟨h.credited, by simp only; omega⟩
          have hfront : gone = (w.pending.drop w.sent).take gone.length := by
            rw [hlen, hgone, ← List.take_take, List.take_of_length_le (i := w.pending.length - w.sent)]
            rw [List.length_drop]
          have hjoin : ∀ k, took ++ gone ++ (w.pending.drop (w.sent + gone.length)).take k =
              took ++ (w.pending.drop w.sent).take (gone.length + k) := by
            intro k
            rw [List.append_assoc, ← List.drop_drop, List.take_add, ← hfront]
          have hstep : Progressed _ (took ++ gone) offers _ := ih hon
          revert hstep
          generalize progress { w with sent := w.sent + gone.length } (took ++ gone) offers = d
          intro hstep
          cases hstep with
          | reported hk hn hcredited =>
            simp only at hk hcredited ⊢
            rw [hjoin]
            rw [Nat.add_assoc]
            exact .reported (by omega) hn hcredited
          | finished hn hcredited =>
            simp only at hcredited ⊢
            have hall : gone ++ w.pending.drop (w.sent + gone.length) = w.pending.drop w.sent := by
              rw [← List.drop_drop]
              nth_rewrite 1 [hfront]
              exact List.take_append_drop ..
            rw [List.append_assoc, hall]
            exact .finished hn hcredited
          | waits hk hwaits =>
            simp only at hk ⊢
            rw [hjoin, Nat.add_assoc]
            exact .waits (by omega) (hwaits.moved n)
          | failed hk hfails =>
            simp only at hk ⊢
            rw [hjoin, Nat.add_assoc]
            exact .failed (by omega) (hfails.moved n)

/-! ## What has been read -/

/-- At any point of a connection: before its transport the reader has been given the front of the wire as it
is; after, the bytes counted as they are and then, with what is kept for its next read, the decoding of all
that was taken off the wire since. -/
structure Delivered (C : Coder S R) (r : R) (wire : List UInt8) (w : World S R) : Prop where
  raw : w.slots.recv = none →
    w.reader = {} ∧ w.past.delivered ++ w.wire = wire ∧ w.slots.passed = w.past.delivered.length
  decoded : ∀ recv, w.slots.recv = some recv → w.reader.Wf ∧ ∃ encoded plain,
    wire = wire.take w.slots.passed ++ encoded ++ w.wire ∧ C.decode r encoded = some (plain, recv) ∧
    w.past.delivered ++ w.reader.held = wire.take w.slots.passed ++ plain

theorem Delivered.read {r : R} {wire : List UInt8} {w : World S R} (hC : C.Streaming)
    (h : Delivered C r wire w) (room : Nat) (offers : List Offer) :
    Delivered C r wire (w.read C room offers).2 := by
  unfold World.read
  split
  case isFalse => exact h
  case isTrue =>
    dsimp only
    split
    case isTrue => exact ⟨h.raw, h.decoded⟩
    case isFalse hok =>
      cases hrecv : w.slots.recv with
      | none =>
        obtain ⟨hreader, hwire, hpassed⟩ := h.raw hrecv
        obtain ⟨hreader', hslots, heats, -⟩ := pollRead_raw (C := C) hrecv w.wire room offers
        rw [hreader] at hok ⊢
        rw [hslots] at *
        refine ⟨fun _ => ⟨hreader', ?_, ?_⟩, fun recv hsome => ?_⟩
        · simp only
          rw [List.append_assoc, heats, hwire]
        · simp only
          rw [List.length_append, hpassed]
        · exact absurd (hrecv.symm.trans hsome) (by simp)
      | some recv =>
        obtain ⟨hwf, encoded, plain, hwire, hdec, hgot⟩ := h.decoded recv hrecv
        obtain hbroken | hd := pollRead_spec hC offers hrecv hwf
        · exact absurd hbroken hok
        obtain ⟨eaten, out, recv', heats, hout, hslots, hbytes⟩ := hd.eats
        refine ⟨fun hnone => ?_, fun recv'' hsome => ⟨hd.wf, encoded ++ eaten, plain ++ out, ?_, ?_, ?_⟩⟩
        · rw [hslots] at hnone
          cases hnone
        · rw [hslots]
          simp only
          rw [heats] at hwire
          exact hwire.trans (by simp only [List.append_assoc])
        · rw [hslots] at hsome
          obtain rfl := Option.some.inj hsome
          exact hC.decode_append hdec hout
        · rw [hslots]
          simp only
          rw [List.append_assoc, hbytes, ← List.append_assoc, hgot, List.append_assoc]

/-! ## What has been written -/

/-- A buffer and the half that is writing it: what has been reported of it is short of its end, and the rest
heads what the writer still has to hand over. -/
structure Writing (u : Handed) (w : HopeWrite) (left : List UInt8) : Prop where
  pending : w.pending = u.coding
  owed : w.owed = u.text.length
  credited : w.credited = u.counts.sum
  short : u.counts.sum < u.text.length
  sent : w.sent ≤ u.coding.length
  rest : u.text.drop u.counts.sum <+: left

/-- At any point of a connection: the buffers begun under a transport are encoded one after another, each
once; the socket has taken what passed as it is, the whole encodings of the buffers reported to their ends
and the front of the encoding under way; and what was reported, with what is left to hand over, is what the
writer was given. -/
structure Wrote (C : Coder S R) (s : S) (send : Option S) (w : HopeWrite) (took left : List UInt8)
    (p : Past) : Prop where
  plain : send = none → p.handed = []
  encoded : ∀ s', send = some s' →
    through C.encode s (p.handed.map (·.text)) = some (p.handed.map (·.coding), s')
  reached : took = p.raw ++ (p.done.map (·.coding)).flatten ++
    p.now.elim [] fun u => u.coding.take w.sent
  counted : ∀ u ∈ p.done, u.counts.sum = u.text.length
  idle : p.now = none → w = {}
  writing : ∀ u, p.now = some u → Writing u w left
  given : p.raw ++ (p.done.map (·.text)).flatten ++ (p.now.elim [] fun u => u.text.take u.counts.sum) ++
    left = p.given

section Wrote
variable {s : S} {send : Option S} {w : HopeWrite} {took left : List UInt8} {p : Past}

theorem Wrote.more (h : Wrote C s send w took left p) (more : List UInt8) :
    Wrote C s send w took (left ++ more) { p with given := p.given ++ more } where
  plain := h.plain
  encoded := h.encoded
  reached := h.reached
  counted := h.counted
  idle := h.idle
  writing u hu :=
    have hw := h.writing u hu
    { hw with rest := hw.rest.trans (List.prefix_append left more) }
  given := by
    rw [← h.given]
    simp only [List.append_assoc]

theorem Wrote.owed_eq_zero (h : Wrote C s send w took left p) : w.owed = 0 ↔ p.now = none := by
  cases hnow : p.now with
  | none => rw [h.idle hnow]; simp
  | some u =>
    have hw := h.writing u hnow
    have hshort := hw.short
    rw [hw.owed]
    simp only [reduceCtorEq, iff_false]
    omega

/-- A buffer begun where nothing was owed of another. -/
theorem Wrote.begins (h : Wrote C s send w took left p) (hnow : p.now = none) {s' s'' : S}
    (hsend : send = some s') {coding : List UInt8} (hcode : C.encode s' left = some (coding, s''))
    (hne : left ≠ []) :
    Wrote C s (some s'') ⟨coding, 0, left.length, 0⟩ took left { p with now := some ⟨left, coding, []⟩ } where
  plain hnone := absurd hnone (by simp)
  encoded t ht := by
    obtain rfl := Option.some.inj ht
    have hdone := h.encoded s' hsend
    unfold Past.handed at hdone ⊢
    rw [hnow] at hdone
    simp only [Option.toList_none, List.append_nil] at hdone
    simp only [Option.toList_some, List.map_append, List.map_cons, List.map_nil]
    refine through_append hdone ?_
    unfold through
    rw [hcode]
    rfl
  reached := by
    rw [h.reached, hnow]
    simp
  counted := h.counted
  idle hnone := absurd hnone (by simp)
  writing u hu := by
    obtain rfl := Option.some.inj hu
    exact ⟨rfl, rfl, rfl, List.length_pos_of_ne_nil hne, Nat.zero_le _, List.prefix_refl left⟩
  given := by
    rw [← h.given, hnow]
    simp

theorem front_of_prefix {l left : List UInt8} {n : Nat} (h : l <+: left) (hn : n ≤ l.length) :
    l.take n ++ left.drop n = left ∧ l.drop n <+: left.drop n := by
  obtain ⟨tail, rfl⟩ := h
  rw [List.drop_append_of_le_length hn]
  exact ⟨by rw [← List.append_assoc, List.take_append_drop], List.prefix_append ..⟩

/-- What one more write of the encoding under way comes to. -/
theorem Wrote.progressed (h : Wrote C s send w took left p) {u : Handed} (hnow : p.now = some u)
    {offers : List Offer} {d : WriteDone} (hd : Progressed w took offers d) :
    Wrote C s send d.writer d.took (left.drop d.polled.count) (p.reports left d.polled d.writer) := by
  have hw := h.writing u hnow
  have hencoded := h.encoded
  have hplain := h.plain
  have hreached := h.reached
  have hgiven := h.given
  unfold Past.handed at hencoded hplain
  rw [hnow] at hencoded hplain hreached hgiven
  simp only [Option.toList_some, Option.elim_some] at hencoded hplain hreached hgiven
  have hmore : ∀ k, took ++ (w.pending.drop w.sent).take k =
      p.raw ++ (p.done.map (·.coding)).flatten ++ u.coding.take (w.sent + k) := by
    intro k
    rw [hreached, hw.pending, List.append_assoc, List.take_add]
  have hfront : ∀ {n}, u.counts.sum + n ≤ u.text.length →
      u.text.take (u.counts.sum + n) ++ left.drop n = u.text.take u.counts.sum ++ left ∧
        u.text.drop (u.counts.sum + n) <+: left.drop n := by
    intro n hn
    obtain ⟨hleft, hrest⟩ := front_of_prefix hw.rest (n := n) (by rw [List.length_drop]; omega)
    rw [List.take_add, List.append_assoc, hleft, ← List.drop_drop]
    exact ⟨rfl, hrest⟩
  have hlen : w.pending.length = u.coding.length := congrArg List.length hw.pending
  have hstopped : ∀ k, w.sent + k ≤ w.pending.length →
      Wrote C s send { w with sent := w.sent + k } (took ++ (w.pending.drop w.sent).take k) left p := by
    intro k hk
    refine ⟨h.plain, h.encoded, ?_, h.counted, fun hnone => ?_, fun v hv => ?_, h.given⟩
    · rw [hmore, hnow]
      rfl
    · rw [hnow] at hnone
      cases hnone
    · obtain rfl := Option.some.inj (hnow.symm.trans hv)
      exact { hw with sent := by rw [← hlen]; exact hk }
  cases hd with
  | @reported k n hk hn hshort =>
    rw [hw.credited, hw.owed] at hshort
    obtain ⟨hjoin, hrest⟩ := hfront (Nat.le_of_lt hshort)
    have howed : w.owed ≠ 0 := by
      rw [hw.owed]
      omega
    simp only [Past.reports, hnow, if_neg howed, Polled.count]
    refine ⟨?_, ?_, hmore k, h.counted, fun hnone => absurd hnone (by simp), fun v hv => ?_, ?_⟩
    · simpa [Past.handed] using hplain
    · simpa [Past.handed] using hencoded
    · obtain rfl := Option.some.inj hv
      have hsum : (u.counts ++ [n]).sum = u.counts.sum + n := by simp
      refine ⟨hw.pending, hw.owed, ?_, ?_, by rw [← hlen]; exact hk, ?_⟩
      · simp only
        rw [hsum, hw.credited]
      · simp only
        rw [hsum]
        exact hshort
      · simp only
        rw [hsum]
        exact hrest
    · simp only [Option.elim_some, List.sum_append, List.sum_singleton]
      rw [List.append_assoc, hjoin, ← List.append_assoc, hgiven]
  | @finished n hn hall =>
    rw [hw.credited, hw.owed] at hall
    obtain ⟨hjoin, -⟩ := hfront (Nat.le_of_eq hall)
    simp only [Past.reports, hnow, if_true, Polled.count]
    refine ⟨?_, ?_, ?_, fun v hv => ?_, fun _ => rfl, fun v hv => absurd hv (by simp), ?_⟩
    · simpa [Past.handed] using hplain
    · simpa [Past.handed] using hencoded
    · have hend := hmore w.pending.length
      rw [List.take_of_length_le (by rw [List.length_drop]; omega),
        List.take_of_length_le (l := u.coding) (by omega)] at hend
      rw [hend]
      simp
    · rcases List.mem_append.mp hv with hv | hv
      · exact h.counted v hv
      · obtain rfl := List.mem_singleton.mp hv
        simpa using hall
    · rw [hall, List.take_length] at hjoin
      simp only [List.map_append, List.map_cons, List.map_nil, List.flatten_append, List.flatten_cons,
        List.flatten_nil, List.append_nil, Option.elim_none]
      rw [← hgiven, List.append_assoc, List.append_assoc, hjoin]
      simp only [List.append_assoc]
  | waits hk _ => exact hstopped _ hk
  | failed hk _ => exact hstopped _ hk

/-- Before a transport a buffer passes as it is. -/
theorem Wrote.passes (h : Wrote C s none w took left p) (offers : List Offer) :
    Wrote C s none (pass w took left offers).writer (pass w took left offers).took
      (left.drop (pass w took left offers).polled.count)
      (p.reports left (pass w took left offers).polled (pass w took left offers).writer) := by
  obtain ⟨hdone, hnow⟩ := List.append_eq_nil_iff.mp (h.plain rfl)
  replace hnow : p.now = none := Option.toList_eq_nil_iff.mp hnow
  cases offers with
  | nil => exact h
  | cons o offers =>
    cases o with
    | pending => exact h
    | fails => exact h
    | moves n =>
      have hreached := h.reached
      have hgiven := h.given
      rw [hdone, hnow] at hreached hgiven
      have hall : left.take (left.take n).length = left.take n := by
        rw [List.length_take, ← List.take_take, List.take_length]
      simp only [pass, Past.reports, hnow, Polled.count]
      refine ⟨fun _ => ?_, fun s' hs' => (by cases hs'), ?_, h.counted, fun _ => h.idle hnow,
        fun u hu => (by cases hu), ?_⟩
      · rw [Past.handed, hdone]
        rfl
      · rw [hreached, hdone, hall]
        simp
      · have hfront : left.take n ++ left.drop (left.take n).length = left := by
          nth_rewrite 1 [← hall]
          exact List.take_append_drop ..
        rw [← hgiven, hdone]
        simp only [hall, List.map_nil, List.flatten_nil, Option.elim_none, List.append_nil,
          List.append_assoc, hfront]

theorem Wrote.nothing (hC : C.Streaming) (h : Wrote C s send w took [] p) (hnow : p.now = none) {s' s'' : S}
    (hsend : send = some s') {coding : List UInt8} (hcode : C.encode s' [] = some (coding, s'')) :
    Wrote C s (some s'') w took [] { p with done := p.done ++ [⟨[], coding, [0]⟩], now := none } := by
  obtain rfl := hC.encode_nil hcode
  have hdone := h.encoded s' hsend
  unfold Past.handed at hdone
  rw [hnow] at hdone
  have hreached := h.reached
  have hgiven := h.given
  rw [hnow] at hreached hgiven
  refine ⟨fun hnone => (by cases hnone), fun t ht => ?_, ?_, fun v hv => ?_, fun _ => h.idle hnow,
    fun u hu => (by cases hu), ?_⟩
  · obtain rfl := Option.some.inj ht
    unfold Past.handed
    simp only [Option.toList_none, List.append_nil, List.map_append, List.map_cons, List.map_nil] at hdone ⊢
    refine through_append hdone ?_
    unfold through
    rw [hcode]
    rfl
  · rw [hreached]
    simp
  · rcases List.mem_append.mp hv with hv | hv
    · exact h.counted v hv
    · obtain rfl := List.mem_singleton.mp hv
      rfl
  · rw [← hgiven]
    simp

/-- What one write comes to, of what the writer has left to hand over. -/
theorem Wrote.polled (hC : C.Streaming) (h : Wrote C s send w took left p) (offers : List Offer) :
    (pollWrite C send w took left offers).2.polled = .failed .unencodable ∨
    Wrote C s (pollWrite C send w took left offers).1 (pollWrite C send w took left offers).2.writer
      (pollWrite C send w took left offers).2.took
      (left.drop (pollWrite C send w took left offers).2.polled.count)
      ((p.begins C send w left).reports left (pollWrite C send w took left offers).2.polled
        (pollWrite C send w took left offers).2.writer) := by
  unfold pollWrite Past.begins
  cases hnow : p.now with
  | some u =>
    have howed : w.owed ≠ 0 := fun hzero => by
      rw [h.owed_eq_zero.mp hzero] at hnow
      cases hnow
    have hw := h.writing u hnow
    rw [if_neg howed, if_neg howed]
    refine .inr (h.progressed hnow (progress_spec offers ⟨?_, ?_⟩))
    · rw [hw.credited, hw.owed]
      exact hw.short
    · rw [hw.pending]
      exact hw.sent
  | none =>
    have howed : w.owed = 0 := h.owed_eq_zero.mpr hnow
    rw [if_pos howed, if_pos howed]
    cases hsend : send with
    | none =>
      subst hsend
      exact .inr (h.passes offers)
    | some s' =>
      dsimp only [Option.bind_some]
      cases hcode : C.encode s' left with
      | none => exact .inl rfl
      | some encoded =>
        obtain ⟨coding, s''⟩ := encoded
        right
        dsimp only
        split
        case isTrue hnil =>
          subst hnil
          have hnothing := h.nothing hC hnow hsend hcode
          simp only [Past.reports, Polled.count, if_pos howed]
          exact hnothing
        case isFalse hne =>
          refine (h.begins hnow hsend hcode hne).progressed rfl (progress_spec offers ⟨?_, Nat.zero_le _⟩)
          exact List.length_pos_of_ne_nil hne

end Wrote

/-! ## A connection -/

/-- What holds at any point of a connection that agreed one transport. -/
structure World.Sound (C : Coder S R) (s : S) (r : R) (wire : List UInt8) (w : World S R) : Prop where
  agreed : ∀ transport, w.agreed = some transport →
    transport = (s, r) ∧ w.slots.send = none ∧ w.slots.recv = none
  delivered : Delivered C r wire w
  wrote : Wrote C s w.slots.send w.writer w.took w.left w.past

section Sound
variable {s : S} {r : R} {wire : List UInt8} {w : World S R}

theorem World.sound_start (s : S) (r : R) (wire : List UInt8) :
    World.Sound C s r wire (.start (s, r) wire) where
  agreed transport ht := ⟨(Option.some.inj ht).symm, rfl, rfl⟩
  delivered := ⟨fun _ => ⟨rfl, rfl, rfl⟩, fun recv hrecv => by cases hrecv⟩
  wrote := by
    refine ⟨fun _ => rfl, fun s' hs' => ?_, rfl, ?_, fun _ => rfl, ?_, rfl⟩
    · cases hs'
    · intro u hu
      cases hu
    · intro u hu
      cases hu

theorem World.Sound.install (hC : C.Streaming) (h : w.Sound C s r wire) (read : Nat) :
    (w.install read).2.Sound C s r wire := by
  unfold World.install
  cases hagreed : w.agreed with
  | none => exact h
  | some transport =>
    obtain ⟨rfl, hsend, hrecv⟩ := h.agreed transport hagreed
    obtain ⟨hreader, hwire, hpassed⟩ := h.delivered.raw hrecv
    unfold Slots.install
    dsimp only
    split
    · exact ⟨fun _ ht => (by cases ht), ⟨h.delivered.raw, h.delivered.decoded⟩, h.wrote⟩
    · have hfront : wire.take w.slots.passed = w.past.delivered := by
        rw [← hwire, hpassed, List.take_left']
        rfl
      refine ⟨fun _ ht => (by cases ht), ⟨fun hnone => (by cases hnone), fun recv hsome => ?_⟩, ?_⟩
      · obtain rfl := Option.some.inj hsome
        refine ⟨.inr hreader, [], [], ?_, hC.decode_nil r, ?_⟩
        · simp only
          rw [hfront, List.append_nil, hwire]
        · simp only
          rw [hfront, hreader]
          rfl
      · have hw := h.wrote
        have hplain := hw.plain hsend
        refine ⟨fun hnone => (by cases hnone), fun s' hs' => ?_, hw.reached, hw.counted, hw.idle, hw.writing,
          hw.given⟩
        obtain rfl := Option.some.inj hs'
        simp only
        rw [hplain]
        rfl

theorem World.Sound.read (hC : C.Streaming) (h : w.Sound C s r wire) (room : Nat) (offers : List Offer) :
    (w.read C room offers).2.Sound C s r wire := by
  have hdelivered := h.delivered.read hC room offers
  unfold World.read at hdelivered ⊢
  split
  case isFalse => exact h
  case isTrue hreading =>
    rw [if_pos hreading] at hdelivered
    dsimp only at hdelivered ⊢
    split
    case isTrue hbroken =>
      rw [if_pos hbroken] at hdelivered
      exact ⟨h.agreed, hdelivered, h.wrote⟩
    case isFalse hok =>
      rw [if_neg hok] at hdelivered
      have hw := h.wrote
      have hwrote : ∀ d : ReadDone S R, d.slots.send = w.slots.send → Wrote C s d.slots.send w.writer w.took
          w.left { w.past with delivered := w.past.delivered ++ d.polled.bytes } := by
        intro d hsend
        rw [hsend]
        exact ⟨hw.plain, hw.encoded, hw.reached, hw.counted, hw.idle, hw.writing, hw.given⟩
      cases hrecv : w.slots.recv with
      | none =>
        obtain ⟨hreader, -, -⟩ := h.delivered.raw hrecv
        have hd := pollRead_raw (C := C) hrecv w.wire room offers
        rw [← hreader] at hd
        refine ⟨fun transport ht => ?_, hdelivered, hwrote _ (by rw [hd.slots_eq])⟩
        rw [hd.slots_eq]
        exact h.agreed transport ht
      | some recv =>
        obtain ⟨hwf, -⟩ := h.delivered.decoded recv hrecv
        obtain hbroken | hd := pollRead_spec hC offers hrecv hwf
        · exact absurd hbroken hok
        obtain ⟨-, -, recv', -, -, hslots, -⟩ := hd.eats
        refine ⟨fun transport ht => ?_, hdelivered, hwrote _ (by rw [hslots])⟩
        have hnone := (h.agreed transport ht).2.2
        rw [hrecv] at hnone
        cases hnone

theorem Past.begins_delivered (p : Past) (send : Option S) (w : HopeWrite) (buf : List UInt8) :
    (p.begins C send w buf).delivered = p.delivered := by
  unfold begins
  split
  · split <;> rfl
  · rfl

theorem Past.reports_delivered (p : Past) (buf : List UInt8) (polled : Polled Nat) (w : HopeWrite) :
    (p.reports buf polled w).delivered = p.delivered := by
  unfold reports
  split
  · rfl
  · dsimp only
    split <;> rfl
  · rfl

theorem pollWrite_slot {send : Option S} (hsend : send = none) (w : HopeWrite) (took buf : List UInt8)
    (offers : List Offer) : (pollWrite C send w took buf offers).1 = none := by
  subst hsend
  unfold pollWrite
  split <;> rfl

theorem World.Sound.write (hC : C.Streaming) (h : w.Sound C s r wire) (more : List UInt8)
    (offers : List Offer) : (w.write C more offers).2.Sound C s r wire := by
  unfold World.write
  split
  case isFalse => exact h
  case isTrue =>
    dsimp only
    split
    case isTrue => exact ⟨h.agreed, ⟨h.delivered.raw, h.delivered.decoded⟩, h.wrote⟩
    case isFalse hok =>
      refine ⟨fun transport ht => ?_, ⟨fun hnone => ?_, fun recv hsome => ?_⟩, ?_⟩
      · obtain ⟨heq, hsend, hrecv⟩ := h.agreed transport ht
        exact ⟨heq, pollWrite_slot hsend .., hrecv⟩
      · have hraw := h.delivered.raw hnone
        simp only [Past.reports_delivered, Past.begins_delivered]
        exact hraw
      · have hdecoded := h.delivered.decoded recv hsome
        simp only [Past.reports_delivered, Past.begins_delivered]
        exact hdecoded
      · exact ((h.wrote.more more).polled hC offers).resolve_left hok

theorem World.Sound.step (hC : C.Streaming) (h : w.Sound C s r wire) (op : Op) :
    (step C w op).2.Sound C s r wire := by
  cases op with
  | install read => exact h.install hC read
  | read room offers => exact h.read hC room offers
  | write more offers => exact h.write hC more offers

end Sound

/-- How a write under a transport goes on: it reports some of its buffer, or it waits for the socket, or it
fails with the socket or the encoder. -/
structure Progresses (C : Coder S R) (send : S) (buf : List UInt8) (offers : List Offer)
    (polled : Polled Nat) : Prop where
  ready : ∀ n, polled = .ready n → n ≤ buf.length ∧ (buf ≠ [] → 0 < n)
  pending : polled = .pending → Waits offers
  failed : ∀ e, polled = .failed e → (e = .unencodable ∧ C.encode send buf = none) ∨ Fails e offers

theorem Progressed.progresses {send : S} {w : HopeWrite} {took buf : List UInt8} {offers : List Offer}
    {d : WriteDone} (hd : Progressed w took offers d) (hleft : w.owed ≤ w.credited + buf.length) :
    Progresses C send buf offers d.polled := by
  cases hd with
  | reported hk hn hshort =>
    refine ⟨fun n hpolled => ?_, fun hpolled => (by cases hpolled), fun e hpolled => (by cases hpolled)⟩
    obtain rfl := Polled.ready.inj hpolled
    exact ⟨by omega, fun _ => hn⟩
  | finished hn hall =>
    refine ⟨fun n hpolled => ?_, fun hpolled => (by cases hpolled), fun e hpolled => (by cases hpolled)⟩
    obtain rfl := Polled.ready.inj hpolled
    exact ⟨by omega, fun _ => hn⟩
  | waits hk hwaits =>
    exact ⟨fun n hpolled => (by cases hpolled), fun _ => hwaits, fun e hpolled => (by cases hpolled)⟩
  | failed hk hfails =>
    refine ⟨fun n hpolled => (by cases hpolled), fun hpolled => (by cases hpolled), fun e hpolled => ?_⟩
    obtain rfl := Polled.failed.inj hpolled
    exact .inr hfails

theorem Wrote.progresses {s send : S} {w : HopeWrite} {took left : List UInt8} {p : Past}
    (h : Wrote C s (some send) w took left p) (offers : List Offer) :
    Progresses C send left offers (pollWrite C (some send) w took left offers).2.polled := by
  unfold pollWrite
  cases hnow : p.now with
  | some u =>
    have howed : w.owed ≠ 0 := fun hzero => by
      rw [h.owed_eq_zero.mp hzero] at hnow
      cases hnow
    have hw := h.writing u hnow
    have hrest := hw.rest.length_le
    rw [List.length_drop, ← hw.credited, ← hw.owed] at hrest
    rw [if_neg howed]
    refine (progress_spec offers ⟨?_, ?_⟩).progresses (by omega)
    · rw [hw.credited, hw.owed]
      exact hw.short
    · rw [hw.pending]
      exact hw.sent
  | none =>
    rw [if_pos (h.owed_eq_zero.mpr hnow)]
    dsimp only
    cases hcode : C.encode send left with
    | none =>
      refine ⟨fun n hpolled => (by cases hpolled), fun hpolled => (by cases hpolled), fun e hpolled => ?_⟩
      obtain rfl := Polled.failed.inj hpolled
      exact .inl ⟨rfl, hcode⟩
    | some encoded =>
      dsimp only
      split
      case isTrue hnil =>
        refine ⟨fun n hpolled => ?_, fun hpolled => (by cases hpolled), fun e hpolled => (by cases hpolled)⟩
        obtain rfl := Polled.ready.inj hpolled
        exact ⟨Nat.zero_le _, fun hne => absurd hnil hne⟩
      case isFalse hne =>
        refine (progress_spec offers ⟨?_, Nat.zero_le _⟩).progresses (Nat.le_add_left ..)
        exact List.length_pos_of_ne_nil hne

/-- The halves are transparent to how bytes are cut. After any run of installs, reads and writes: what was
written reached the socket as the encodings of its buffers; what was read is the wire as it was up to the
transport and decoded from there, and a read that has nothing to give keeps nothing back; every write makes
progress or waits; and a transport is installed only after exactly the bytes it was to come after. -/
theorem halves_transparent (hC : C.Streaming) (s : S) (r : R) (wire : List UInt8) (ops : List Op) :
    let w := (runs (step C) (.start (s, r) wire) ops).2
    Wrote C s w.slots.send w.writer w.took w.left w.past ∧
    Delivered C r wire w ∧
    (∀ send more offers, w.slots.send = some send → Progresses C send (w.left ++ more) offers
      (pollWrite C w.slots.send w.writer w.took (w.left ++ more) offers).2.polled) ∧
    (∀ room offers, 0 < room → (pollRead C w.slots w.reader w.wire room offers).polled.bytes = [] →
      (pollRead C w.slots w.reader w.wire room offers).polled ≠ .failed .broken →
      (pollRead C w.slots w.reader w.wire room offers).reader.held = []) ∧
    ∀ transport read, w.agreed = some transport → (w.slots.install transport read).1 = true →
      w.past.delivered.length = read := by
  intro w
  have h : w.Sound C s r wire :=
    runs_invariant (World.Sound C s r wire) (fun _ op h => h.step hC op) (World.sound_start s r wire) ops
  refine ⟨h.wrote, h.delivered, fun send more offers hsend => ?_, fun room offers hroom hnil hok => ?_,
    fun transport read hagreed hinstalled => ?_⟩
  · have hwrote := h.wrote.more more
    rw [hsend] at hwrote ⊢
    exact hwrote.progresses offers
  · cases hrecv : w.slots.recv with
    | none =>
      obtain ⟨hreader, -, -⟩ := h.delivered.raw hrecv
      rw [hreader, (pollRead_raw (C := C) hrecv w.wire room offers).reader]
      rfl
    | some recv =>
      obtain ⟨hwf, -⟩ := h.delivered.decoded recv hrecv
      exact ((pollRead_spec hC offers hrecv hwf).resolve_left hok).gives hroom hnil
  · obtain ⟨-, -, hrecv⟩ := h.agreed transport hagreed
    obtain ⟨-, -, hpassed⟩ := h.delivered.raw hrecv
    unfold Slots.install at hinstalled
    rw [← hpassed]
    by_contra hne
    rw [if_pos hne] at hinstalled
    cases hinstalled

/-- A coder that adds each byte's place in the stream to it. -/
def shifted : Coder Nat Nat where
  encode n b := some ((b.zipIdx n).map fun x => x.1 + UInt8.ofNat x.2, n + b.length)
  decode n b := some ((b.zipIdx n).map fun x => x.1 - UInt8.ofNat x.2, n + b.length)

theorem shifted_streaming : shifted.Streaming where
  encode_nil h := by
    obtain ⟨rfl, -⟩ := Prod.mk.inj (Option.some.inj h)
    rfl
  decode_nil r := rfl
  decode_append {r r' r'' a b x y} ha hb := by
    obtain ⟨rfl, rfl⟩ := Prod.mk.inj (Option.some.inj ha)
    obtain ⟨rfl, rfl⟩ := Prod.mk.inj (Option.some.inj hb)
    simp only [shifted, List.zipIdx_append, List.map_append, List.length_append, Nat.add_assoc]

theorem halves_transparent_shifted :
    let w := (runs (step shifted) (.start (0, 0) [7, 8, 10])
      [.read 1 [.moves 5], .install 1, .write [1, 2, 3] [.moves 2, .pending], .read 9 [.moves 2]]).2
    Delivered shifted 0 [7, 8, 10] w :=
  (halves_transparent shifted_streaming 0 0 [7, 8, 10] _).2.1

end HxdNg.Hope
