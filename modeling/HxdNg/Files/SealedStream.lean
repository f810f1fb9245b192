import HxdNg.Files.SealedReads
import HxdNg.Files.SealedWrites

/-!
# A sealed transfer is its bytes

* `Paired` : a cipher whose one side opens what the other sealed, in order;
* `Paired.reads` : a wire that starts with sealed records holds their plaintexts;
* `Tells` : what the reads of a wire answer, when it holds some bytes and ends so;
* `sealed_stream` : both ways.
-/

namespace HxdNg.Files

variable {σ : Type} {A : Aead σ} {InStep : σ → σ → Prop}

/-- The cipher opens what it sealed, in order, of which records the length is in the first bytes. -/
structure Paired (A : Aead σ) (InStep : σ → σ → Prop) : Prop where
  peeks : Peeks A
  opens : ∀ {s o s' : σ} {p record : List UInt8}, InStep s o → p.length ≤ MAX_RECORD →
    A.sealRecord s p = some (record, s') →
    record.length = AEAD_LENGTH_PREFIX + AEAD_TAG_SIZE + p.length ∧
      A.peekFrameSize (record.take AEAD_LENGTH_PREFIX) = some record.length ∧
      ∃ o', A.openRecord o record = some (p, o') ∧ InStep s' o'

section
variable {s s' o : σ} {ps records : List (List UInt8)}

/-- Sealed records hold their plaintexts, before what the rest of the wire holds. -/
theorem Paired.reads (paired : Paired A InStep) (hstep : InStep s o) (hcap : ∀ p ∈ ps, p.length ≤ MAX_RECORD)
    (hsealed : through A.sealRecord s ps = some (records, s')) :
    ∃ o', through A.openRecord o records = some (ps, o') ∧ InStep s' o' ∧
      ∀ w qs e, Reads A o' w qs e → Reads A o (records.flatten ++ w) (ps ++ qs) e := by
  induction ps generalizing s o records with
  | nil =>
    obtain ⟨rfl, rfl⟩ := Prod.mk.inj (Option.some.inj hsealed)
    exact ⟨o, rfl, hstep, fun w qs e h => h⟩
  | cons p ps ih =>
    obtain ⟨record, s₁, rest, hseal, hrest, rfl⟩ := of_through_cons hsealed
    have hp := hcap p List.mem_cons_self
    obtain ⟨hlen, hpeek, o₁, hopen, hstep₁⟩ := paired.opens hstep hp hseal
    obtain ⟨o', hthrough, hstep', hreads⟩ := ih hstep₁ (fun q hq => hcap q (List.mem_cons_of_mem _ hq)) hrest
    refine ⟨o', through_cons hopen hthrough, hstep', fun w qs e h => ?_⟩
    have hwire : (record :: rest).flatten ++ w = record ++ (rest.flatten ++ w) := by
      rw [List.flatten_cons, List.append_assoc]
    have hmin : AEAD_LENGTH_PREFIX + AEAD_TAG_SIZE ≤ record.length := by omega
    have hprefix : AEAD_LENGTH_PREFIX ≤ record.length := by
      unfold AEAD_LENGTH_PREFIX AEAD_TAG_SIZE at *
      omega
    have hhead : A.peekFrameSize ((record ++ (rest.flatten ++ w)).take AEAD_LENGTH_PREFIX) =
        some record.length := by
      rw [List.take_append_of_le_length hprefix]
      exact hpeek
    have hwhole : record.length ≤ (record ++ (rest.flatten ++ w)).length := by
      rw [List.length_append]
      exact Nat.le_add_right _ _
    have hopens : A.openRecord o ((record ++ (rest.flatten ++ w)).take record.length) = some (p, o₁) := by
      rw [List.take_left]
      exact hopen
    have hbehind : Reads A o₁ ((record ++ (rest.flatten ++ w)).drop record.length) (ps ++ qs) e := by
      rw [List.drop_left]
      exact hreads w qs e h
    rw [hwire]
    exact .record hhead hmin (by omega) hwhole hopens hbehind

theorem Paired.cut (paired : Paired A InStep) (hstep : InStep s o) {p record : List UInt8} (hp : p.length ≤ MAX_RECORD)
    (hseal : A.sealRecord s p = some (record, s')) {n : Nat} (hpos : 0 < n) (hlt : n < record.length) :
    Stop A o (record.take n) (.fails .unexpectedEof) := by
  obtain ⟨hlen, hpeek, -⟩ := paired.opens hstep hp hseal
  have htake : (record.take n).length = n := List.length_take_of_le hlt.le
  rcases Nat.lt_or_ge n AEAD_LENGTH_PREFIX with hshort | hlong
  · refine .short (fun hnil => ?_) (by omega)
    rw [hnil, List.length_nil] at htake
    omega
  · have hhead : A.peekFrameSize ((record.take n).take AEAD_LENGTH_PREFIX) = some record.length := by
      rw [List.take_take, Nat.min_eq_left hlong]
      exact hpeek
    exact .cut hhead (by omega) (by omega) (by omega) (by omega)

end

/-! ## What the reads answer -/

/-- The reads into buffers of these sizes, of a wire that holds these bytes and ends so. -/
structure Tells (plain : List UInt8) (e : Ending) (cuts : Nat) (rooms : List Nat)
    (out : List (Nat × Answer)) : Prop where
  answered : out.map Prod.fst <+: rooms
  all : out.map Prod.fst = rooms ∨ ∃ err, ∃ a ∈ out, (Ending.fails err).tells a
  given : given out <+: plain
  ends : ∀ before a after e', out = before ++ a :: after → e'.tells a →
    Files.given before = plain ∧ e' = e
  reaches : plain.length + cuts < rooms.countP (fun room => 0 < room) → ∃ a ∈ out, e.tells a

theorem reads_rooms {rooms : List Nat} : ∀ {r : Reader σ} {s : Socket} {out : List (Nat × Answer)},
    reads A r s rooms = some out → out.map Prod.fst <+: rooms ∧
      (out.map Prod.fst = rooms ∨ ∃ err, ∃ a ∈ out, (Ending.fails err).tells a) := by
  induction rooms with
  | nil =>
    intro r s out h
    obtain rfl := Option.some.inj h
    exact ⟨List.prefix_rfl, .inl rfl⟩
  | cons room rooms ih =>
    intro r s out h
    unfold reads at h
    obtain ⟨p, -, hp⟩ := Option.bind_eq_some_iff.mp h
    have hgoes : ∀ (r' : Reader σ) (s' : Socket) (answer : Answer),
        (reads A r' s' rooms).map ((room, answer) :: ·) = some out → out.map Prod.fst <+: room :: rooms ∧
          (out.map Prod.fst = room :: rooms ∨ ∃ err, ∃ a ∈ out, (Ending.fails err).tells a) := by
      intro r' s' answer hout
      obtain ⟨rest, hrest, rfl⟩ := Option.map_eq_some_iff.mp hout
      obtain ⟨hpre, hall⟩ := ih hrest
      refine ⟨(List.prefix_cons_inj room).mpr hpre, ?_⟩
      rcases hall with hall | ⟨err, a, ha, htells⟩
      · exact .inl (congrArg (room :: ·) hall)
      · exact .inr ⟨err, a, List.mem_cons_of_mem _ ha, htells⟩
    cases p with
    | ready bytes r' s' => exact hgoes r' s' _ hp
    | pending r' s' => exact hgoes r' s' _ hp
    | failed err =>
      obtain rfl := Option.some.inj hp
      exact ⟨⟨rooms, rfl⟩, .inr ⟨err, _, List.mem_singleton_self _, rfl⟩⟩

/-- A wire is read as what it holds, whatever the pieces it comes in and the sizes it is read into. -/
theorem Reads.tells (hpeeks : Peeks A) {o : σ} {w : List UInt8} {ps : List (List UInt8)} {e : Ending}
    (h : Reads A o w ps e) (cuts : List (Option Nat)) (rooms : List Nat) :
    ∃ out, reads A { opener := o } ⟨w, cuts⟩ rooms = some out ∧
      Tells ps.flatten e cuts.length rooms out := by
  have howes : Owes A { opener := o } (Socket.mk w cuts).wire ps.flatten e := .new h
  obtain ⟨out, hout, htold⟩ := howes.told hpeeks rooms
  obtain ⟨hpre, hall⟩ := reads_rooms hout
  refine ⟨out, hout, hpre, hall, htold.given_prefix, fun before a after e' => htold.ends_last,
    fun hmany => ?_⟩
  rcases hall with hall | ⟨err, a, ha, htells⟩
  · refine htold.reaches ?_
    rw [← hall, List.countP_map] at hmany
    exact hmany
  · -- a failure that was told is the wire's
    obtain ⟨before, after, hsplit⟩ := List.append_of_mem ha
    obtain ⟨-, he⟩ := htold.ends_last hsplit htells
    rw [← he]
    exact ⟨a, ha, htells⟩

/-- Sealed records, however they are cut and read, are their plaintexts and then the end; with a record cut
short behind them, or one that is refused, they are their plaintexts and then that failure; and what is
written is the records of what was accepted, each sealed once, all handed over by a flush that ends. -/
theorem sealed_stream (paired : Paired A InStep) :
    (∀ s o ps records s', InStep s o → (∀ p ∈ ps, p.length ≤ MAX_RECORD) →
      through A.sealRecord s ps = some (records, s') → ∀ cuts rooms,
      (∃ out, reads A { opener := o } ⟨records.flatten, cuts⟩ rooms = some out ∧
        Tells ps.flatten .done cuts.length rooms out) ∧
      (∀ p record s'' n, p.length ≤ MAX_RECORD → A.sealRecord s' p = some (record, s'') →
        0 < n → n < record.length →
        ∃ out, reads A { opener := o } ⟨records.flatten ++ record.take n, cuts⟩ rooms = some out ∧
          Tells ps.flatten (.fails .unexpectedEof) cuts.length rooms out) ∧
      (∀ o' bad err, through A.openRecord o records = some (ps, o') → Stop A o' bad (.fails err) →
        ∃ out, reads A { opener := o } ⟨records.flatten ++ bad, cuts⟩ rooms = some out ∧
          Tells ps.flatten (.fails err) cuts.length rooms out)) ∧
    ∀ s doings cs, Sent A s [] (calls A { sealer := s } ⟨doings, []⟩ cs) ∧
      ∀ w n w' p', (calls A { sealer := s } ⟨doings, []⟩ cs).writer = some w →
        pollFlush w (calls A { sealer := s } ⟨doings, []⟩ cs).pipe = .ok n w' p' →
        ∃ records, through A.sealRecord s (calls A { sealer := s } ⟨doings, []⟩ cs).accepted =
          some (records, w.sealer) ∧ p'.handed = records.flatten := by
  refine ⟨fun s o ps records s' hstep hcap hsealed cuts rooms => ?_, fun s doings cs => ?_⟩
  · obtain ⟨o', hopened, hstep', hreads⟩ := paired.reads hstep hcap hsealed
    have hstop : ∀ bad e, Stop A o' bad e → ∃ out,
        reads A { opener := o } ⟨records.flatten ++ bad, cuts⟩ rooms = some out ∧
          Tells ps.flatten e cuts.length rooms out := by
      intro bad e hbad
      have hwhole := hreads bad [] e (.stop hbad)
      rw [List.append_nil] at hwhole
      exact hwhole.tells paired.peeks cuts rooms
    refine ⟨?_, fun p record s'' n hp hseal hpos hlt => ?_, fun o₂ bad err hopened₂ hbad => ?_⟩
    · have hwhole := hstop [] .done .done
      rw [List.append_nil] at hwhole
      exact hwhole
    · exact hstop _ _ (paired.cut hstep' hp hseal hpos hlt)
    · obtain ⟨-, rfl⟩ := Prod.mk.inj (Option.some.inj (hopened.symm.trans hopened₂))
      exact hstop bad _ hbad
  · have hsent := calls_spec (A := A) cs { sealer := s } ⟨doings, []⟩
    refine ⟨hsent, fun w n w' p' hw hflush => ?_⟩
    obtain ⟨-, records, s', hthrough, hrest⟩ := hsent
    rw [hw] at hrest
    obtain ⟨rfl, hhanded⟩ := hrest
    refine ⟨records, hthrough, ?_⟩
    rw [pollFlush_all hflush, hhanded]
    rfl

/-! A cipher that only numbers its records, in the tag. -/

def numbered : Aead Nat where
  peekFrameSize b :=
    if b.length < AEAD_LENGTH_PREFIX then none else some (AEAD_LENGTH_PREFIX + ofBe (b.take AEAD_LENGTH_PREFIX))
  sealRecord k p := some (beBytes 4 (AEAD_TAG_SIZE + p.length) ++ (p ++ beBytes 16 k), k + 1)
  openRecord k record :=
    let p := (record.drop AEAD_LENGTH_PREFIX).take (record.length - (AEAD_LENGTH_PREFIX + AEAD_TAG_SIZE))
    if record = beBytes 4 (AEAD_TAG_SIZE + p.length) ++ (p ++ beBytes 16 k) then some (p, k + 1) else none

theorem paired_numbered : Paired numbered (· = ·) where
  peeks b hlen := by
    have htake : (b.take AEAD_LENGTH_PREFIX).length = AEAD_LENGTH_PREFIX := List.length_take_of_le hlen
    unfold numbered
    dsimp only
    rw [if_neg (by omega), if_neg (by omega), List.take_take, Nat.min_self]
  opens := by
    intro s o s' p record hstep hcap hseal
    subst hstep
    obtain ⟨rfl, rfl⟩ := Prod.mk.inj (Option.some.inj hseal)
    have hfront : (beBytes 4 (AEAD_TAG_SIZE + p.length)).length = AEAD_LENGTH_PREFIX := length_beBytes ..
    have hlen : (beBytes 4 (AEAD_TAG_SIZE + p.length) ++ (p ++ beBytes 16 s)).length =
        AEAD_LENGTH_PREFIX + AEAD_TAG_SIZE + p.length := by
      rw [List.length_append, List.length_append, hfront, length_beBytes]
      unfold AEAD_TAG_SIZE
      omega
    refine ⟨hlen, ?_, s + 1, ?_, rfl⟩
    · have hfits : AEAD_TAG_SIZE + p.length < 256 ^ 4 := by
        unfold AEAD_TAG_SIZE MAX_RECORD at *
        omega
      rw [← hfront, List.take_left, hlen]
      unfold numbered
      dsimp only
      rw [if_neg (by omega), ← hfront, List.take_length, ofBe_beBytes hfits, hfront, Nat.add_assoc]
    · unfold numbered
      dsimp only
      have hplain : (p ++ beBytes 16 s).take p.length = p := List.take_left
      rw [hlen, Nat.add_sub_cancel_left, ← hfront, List.drop_left, hplain, if_pos rfl]

/-- Three records, the second empty, off a wire that comes as one byte, nothing yet, thirty and the rest. -/
theorem sealed_stream_numbered :
    ∃ records s', through numbered.sealRecord 0 [[7], [], [8, 9]] = some (records, s') ∧
      ∃ out, reads numbered { opener := 0 } ⟨records.flatten, [some 0, none, some 29]⟩ [1, 5, 0, 1, 5, 5, 5, 5] =
        some out ∧ Tells [7, 8, 9] .done 3 [1, 5, 0, 1, 5, 5, 5, 5] out := by
  refine ⟨_, 3, rfl, ?_⟩
  have hcap : ∀ p ∈ ([[7], [], [8, 9]] : List (List UInt8)), p.length ≤ MAX_RECORD := by decide
  exact ((sealed_stream paired_numbered).1 0 0 _ _ 3 rfl hcap rfl _ _).1

end HxdNg.Files
