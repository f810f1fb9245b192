import HxdNg.Lib.Runs
import HxdNg.Lib.Results
import HxdNg.Identity.Sealed
import HxdNg.Identity.Vectors

/-!
# No sealed message is accepted twice

* `View` : what a replay memory holds, the latest time shown and each accepted `(signer, id)` with
  the time it is held until; `View.Prunes` : the only thing a memory may do by itself;
* `Replay.Contract` : a memory whose operations are those of its view, up to pruning;
* `Blocked` : why a message cannot be accepted again, which `open` keeps (`open_blocked`);
* `open_accepts_once` : over every run of `open`, whatever the boxes, senders and clocks.
-/

namespace HxdNg.Identity.Sealed

/-! ## The memory -/

/-- What a replay memory holds. -/
structure View where
  top : UInt64
  held : Fingerprint → Bytes 16 → Option UInt64

namespace View

def shown (v : View) (now : UInt64) : View := { v with top := max v.top now }

def insert (v : View) (signer : Fingerprint) (id : Bytes 16) (until_ : UInt64) : View :=
  { v with
    held := fun s i => if s = signer ∧ i = id then some ((v.held s i).getD until_) else v.held s i }

/-- `w` is `v` less some entries held until before the latest time shown. -/
structure Prunes (v w : View) : Prop where
  top_eq : w.top = v.top
  only : ∀ s i u, w.held s i = some u → v.held s i = some u
  keeps : ∀ s i u, v.held s i = some u → w.held s i = some u ∨ u < w.top

end View

/-- A memory that keeps its documentation: `latest` is the maximum of the times shown, `accept` an
insert-if-absent, and an entry is forgotten only once its time is before the latest. -/
structure Replay.Contract {M : Type} (R : Replay M) where
  view : M → View
  latest_eq : ∀ m now, (R.latest m now).1 = max (view m).top now
  latest_view : ∀ m now, View.Prunes ((view m).shown now) (view (R.latest m now).2)
  accepted_eq : ∀ m s i, R.accepted m s i = ((view m).held s i).isSome
  accept_eq : ∀ m s i u, (R.accept m s i u).1 = ((view m).held s i).isNone
  accept_view : ∀ m s i u, View.Prunes ((view m).insert s i u) (view (R.accept m s i u).2)

/-- Whose message was accepted, its id and when it was sent. -/
abbrev Accepted := Fingerprint × Bytes 16 × UInt64

/-- What an outcome accepted: `verified` and `deniable` alone. -/
def Opened.accepts (P : Primitives) : Opened → Option Accepted
  | .verified s _ => some (Fingerprint.of P s.cert.identity, s.message.id, s.message.sent)
  | .deniable m cert _ => some (Fingerprint.of P cert.identity, m.id, m.sent)
  | _ => none

/-- The message is still held, or it would be before the latest time shown. -/
def Blocked (k : Accepted) (v : View) : Prop :=
  v.held k.1 k.2.1 = some (heldUntil k.2.2) ∨ heldUntil k.2.2 < v.top

theorem toNat_heldUntil (sent : UInt64) :
    (heldUntil sent).toNat = min (sent.toNat + 87000) maxWord := by
  unfold heldUntil
  rw [toNat_satAdd]
  rfl

/-- A message fresh against the latest time shown is not yet past the time it is held until, the
saturated end of the range included. -/
theorem top_le_heldUntil {sent now latest : UInt64} (h : fresh sent now latest = .ok ()) :
    ¬ heldUntil sent < latest := by
  unfold fresh at h
  rw [ite_error_eq_ok, not_or] at h
  have hlow := h.1.1
  rw [UInt64.lt_iff_toNat_lt, toNat_satSub, toNat_max] at hlow
  rw [UInt64.lt_iff_toNat_lt, toNat_heldUntil]
  have hhold : hold.toNat = 86400 := rfl
  have hlatest := latest.toNat_lt
  unfold maxWord
  omega

theorem Blocked.shown {k : Accepted} {v : View} (h : Blocked k v) (now : UInt64) :
    Blocked k (v.shown now) := by
  rcases h with h | h
  · exact Or.inl h
  · refine Or.inr ?_
    show heldUntil k.2.2 < max v.top now
    rw [UInt64.lt_iff_toNat_lt] at h ⊢
    rw [toNat_max]
    omega

theorem Blocked.insert {k : Accepted} {v : View} (h : Blocked k v) (s : Fingerprint) (i : Bytes 16)
    (u : UInt64) : Blocked k (v.insert s i u) := by
  rcases h with h | h
  · refine Or.inl ?_
    unfold View.insert
    by_cases hk : k.1 = s ∧ k.2.1 = i
    · simp [hk.1, hk.2, hk.1 ▸ hk.2 ▸ h]
    · simp [hk, h]
  · exact Or.inr h

theorem Blocked.prunes {k : Accepted} {v w : View} (h : Blocked k v) (hw : v.Prunes w) :
    Blocked k w := by
  rcases h with h | h
  · exact hw.keeps _ _ _ h
  · exact Or.inr (by rw [hw.top_eq]; exact h)

/-! ## What `open` does to it -/

section Open
variable {P : Primitives} {H : Hpke} {M : Type} {R : Replay M}

theorem accepts_shown (message : PrivateMessage) (env : Option Envelope) (cert : DeviceCert)
    (received : UInt64) : (shown message env cert received).accepts P =
      some (Fingerprint.of P cert.identity, message.id, message.sent) := by
  cases env <;> rfl

theorem admitFresh_cases {message : PrivateMessage} {env : Option Envelope}
    {pkS : Option (Bytes 32)} {ctx : Opening} {m m' : M} {o : Opened}
    (h : admitFresh P R message env pkS ctx m = (o, m')) :
    (o.accepts P = none ∧ (m' = m ∨ ∃ s i u, R.accept m s i u = (false, m'))) ∨
    ∃ s, o.accepts P = some (s, message.id, message.sent) ∧
      R.accept m s message.id (heldUntil message.sent) = (true, m') := by
  unfold admitFresh at h
  split at h
  · obtain ⟨rfl, rfl⟩ := Prod.mk.inj h
    exact Or.inl ⟨rfl, Or.inl rfl⟩
  · next cert _ =>
    split at h
    · obtain ⟨rfl, rfl⟩ := Prod.mk.inj h
      exact Or.inl ⟨rfl, Or.inl rfl⟩
    · rcases hadd : R.accept m (Fingerprint.of P cert.identity) message.id (heldUntil message.sent)
        with ⟨added, m₁⟩
      simp only [hadd] at h
      cases added with
      | false =>
        obtain ⟨rfl, rfl⟩ := Prod.mk.inj h
        exact Or.inl ⟨rfl, Or.inr ⟨_, _, _, hadd⟩⟩
      | true =>
        obtain ⟨rfl, rfl⟩ := Prod.mk.inj h
        exact Or.inr ⟨_, accepts_shown message env cert ctx.received, hadd⟩

theorem admitUnseen_cases {freshness : Except Error Unit} {message : PrivateMessage}
    {env : Option Envelope} {pkS : Option (Bytes 32)} {ctx : Opening} {m m' : M} {o : Opened}
    (h : admitUnseen P R freshness message env pkS ctx m = (o, m')) :
    (o.accepts P = none ∧ (m' = m ∨ ∃ s i u, R.accept m s i u = (false, m'))) ∨
    ∃ s, o.accepts P = some (s, message.id, message.sent) ∧ freshness = .ok () ∧
      R.accept m s message.id (heldUntil message.sent) = (true, m') := by
  unfold admitUnseen at h
  split at h
  · obtain ⟨rfl, rfl⟩ := Prod.mk.inj h
    exact Or.inl ⟨rfl, Or.inl rfl⟩
  · split at h
    · obtain ⟨rfl, rfl⟩ := Prod.mk.inj h
      exact Or.inl ⟨rfl, Or.inl rfl⟩
    · rcases admitFresh_cases h with hnone | ⟨s, hsome, hadd⟩
      · exact Or.inl hnone
      · exact Or.inr ⟨s, hsome, rfl, hadd⟩

/-- Everything `open` can do to the memory: nothing, record the time, try to insert what is there
already, or accept a fresh message by inserting it. -/
theorem open_cases {sealed : List UInt8} {reader : DeviceKey} {ctx : Opening} {m m' : M} {o : Opened}
    (h : Sealed.open P H R sealed reader ctx m = (o, m')) :
    (o.accepts P = none ∧ (m' = m ∨ m' = (R.latest m ctx.now).2 ∨
      ∃ s i u, R.accept (R.latest m ctx.now).2 s i u = (false, m'))) ∨
    ∃ s i t, o.accepts P = some (s, i, t) ∧ fresh t ctx.now (R.latest m ctx.now).1 = .ok () ∧
      R.accept (R.latest m ctx.now).2 s i (heldUntil t) = (true, m') := by
  unfold Sealed.open at h
  split at h
  · obtain ⟨rfl, rfl⟩ := Prod.mk.inj h
    exact Or.inl ⟨rfl, Or.inl rfl⟩
  · rcases admitUnseen_cases h with ⟨hnone, hm⟩ | ⟨s, hsome, hfresh, hadd⟩
    · exact Or.inl ⟨hnone, Or.inr hm⟩
    · exact Or.inr ⟨s, _, _, hsome, hfresh, hadd⟩

variable (C : R.Contract)

theorem Replay.Contract.latest_blocked {k : Accepted} {m : M} (h : Blocked k (C.view m))
    (now : UInt64) : Blocked k (C.view (R.latest m now).2) :=
  (h.shown now).prunes (C.latest_view m now)

theorem Replay.Contract.accept_blocked {k : Accepted} {m : M} (h : Blocked k (C.view m))
    (s : Fingerprint) (i : Bytes 16) (u : UInt64) : Blocked k (C.view (R.accept m s i u).2) :=
  (h.insert s i u).prunes (C.accept_view m s i u)

/-- What `accept` added was not there. -/
theorem Replay.Contract.held_of_accept {m m' : M} {s : Fingerprint} {i : Bytes 16} {u : UInt64}
    (h : R.accept m s i u = (true, m')) : (C.view m).held s i = none := by
  have heq := C.accept_eq m s i u
  rw [h] at heq
  exact Option.isNone_iff_eq_none.mp heq.symm

/-- A message that was accepted is blocked. -/
theorem open_accepts_blocked {sealed : List UInt8} {reader : DeviceKey} {ctx : Opening} {m m' : M}
    {o : Opened} (h : Sealed.open P H R sealed reader ctx m = (o, m')) {k : Accepted}
    (hk : o.accepts P = some k) : Blocked k (C.view m') := by
  rcases open_cases h with ⟨hnone, -⟩ | ⟨s, i, t, hsome, -, hadd⟩
  · rw [hnone] at hk
    cases hk
  · obtain rfl : (s, i, t) = k := Option.some.inj (hsome.symm.trans hk)
    have hins : Blocked (s, i, t) ((C.view (R.latest m ctx.now).2).insert s i (heldUntil t)) := by
      refine Or.inl ?_
      simp [View.insert, C.held_of_accept hadd]
    have hprune := hins.prunes (C.accept_view (R.latest m ctx.now).2 s i (heldUntil t))
    rw [hadd] at hprune
    exact hprune

/-- A blocked message stays blocked, and is not accepted. -/
theorem open_blocked {sealed : List UInt8} {reader : DeviceKey} {ctx : Opening} {m m' : M}
    {o : Opened} (h : Sealed.open P H R sealed reader ctx m = (o, m')) {k : Accepted}
    (hk : Blocked k (C.view m)) : o.accepts P ≠ some k ∧ Blocked k (C.view m') := by
  have hlatest := C.latest_blocked hk ctx.now
  rcases open_cases h with ⟨hnone, hm⟩ | ⟨s, i, t, hsome, hfresh, hadd⟩
  · refine ⟨by rw [hnone]; nofun, ?_⟩
    rcases hm with rfl | rfl | ⟨s, i, u, hm⟩
    · exact hk
    · exact hlatest
    · have hblocked := C.accept_blocked hlatest s i u
      rw [hm] at hblocked
      exact hblocked
  · have hblocked := C.accept_blocked hlatest s i (heldUntil t)
    rw [hadd] at hblocked
    refine ⟨fun he => ?_, hblocked⟩
    obtain rfl : (s, i, t) = k := Option.some.inj (hsome.symm.trans he)
    -- not held, so past the time it was held until, which a fresh message is not
    rcases hlatest with hin | hpast
    · rw [C.held_of_accept hadd] at hin
      cases hin
    · rw [(C.latest_view m ctx.now).top_eq] at hpast
      refine top_le_heldUntil hfresh ?_
      rw [C.latest_eq]
      exact hpast

/-- The entries are the same, but for some held until before the latest time shown. -/
structure View.SameEntries (v w : View) : Prop where
  only : ∀ s i u, w.held s i = some u → v.held s i = some u
  keeps : ∀ s i u, v.held s i = some u → w.held s i = some u ∨ u < w.top

theorem Replay.Contract.latest_sameEntries (m : M) (now : UInt64) :
    (C.view m).SameEntries (C.view (R.latest m now).2) :=
  ⟨(C.latest_view m now).only, (C.latest_view m now).keeps⟩

theorem Replay.Contract.accept_sameEntries {m m' : M} {s : Fingerprint} {i : Bytes 16} {u : UInt64}
    (h : R.accept m s i u = (false, m')) : View.Prunes (C.view m) (C.view m') := by
  have hview := C.accept_view m s i u
  have heq := C.accept_eq m s i u
  rw [h] at hview heq
  have hsame : (C.view m).insert s i u = C.view m := by
    unfold View.insert
    congr 1
    funext s' i'
    by_cases hk : s' = s ∧ i' = i
    · obtain ⟨rfl, rfl⟩ := hk
      obtain ⟨x, hx⟩ := Option.isSome_iff_exists.mp (by simpa using heq.symm)
      simp [hx]
    · simp [hk]
  rw [hsame] at hview
  exact hview

/-- A box that is not accepted adds no entry and forgets none that is due. -/
theorem open_sameEntries {sealed : List UInt8} {reader : DeviceKey} {ctx : Opening} {m m' : M}
    {o : Opened} (h : Sealed.open P H R sealed reader ctx m = (o, m')) (hnone : o.accepts P = none) :
    (C.view m).SameEntries (C.view m') := by
  rcases open_cases h with ⟨-, hm⟩ | ⟨s, i, t, hsome, -, -⟩
  · rcases hm with rfl | rfl | ⟨s, i, u, hm⟩
    · exact ⟨fun _ _ _ h => h, fun _ _ _ h => Or.inl h⟩
    · exact C.latest_sameEntries m ctx.now
    · have hlatest := C.latest_sameEntries m ctx.now
      have hprune := C.accept_sameEntries hm
      refine ⟨fun s i u hu => hlatest.only s i u (hprune.only s i u hu), fun s i u hu => ?_⟩
      rcases hlatest.keeps s i u hu with hu | hu
      · exact hprune.keeps s i u hu
      · exact Or.inr (by rw [hprune.top_eq]; exact hu)
  · rw [hnone] at hsome
    cases hsome

end Open

/-! ## Over whole runs -/

/-- One call of a run: a box and what the reader knows about it. -/
abbrev Call := List UInt8 × Opening

/-- The calls of `open` on one device, sharing one memory. -/
def openAll (P : Primitives) (H : Hpke) {M : Type} (R : Replay M) (reader : DeviceKey) :
    M → List Call → List Opened × M :=
  runs fun m c => Sealed.open P H R c.1 reader c.2 m

/-- No two calls of a run accept the same message, whatever the boxes, the senders and the clocks;
and a box that is not accepted leaves the accepted set as it was. -/
theorem open_accepts_once {M : Type} (P : Primitives) (H : Hpke) (R : Replay M) (C : R.Contract)
    (reader : DeviceKey) :
    (∀ (m : M) (calls : List Call), (openAll P H R reader m calls).1.Pairwise fun a b =>
      ∀ k, a.accepts P = some k → b.accepts P ≠ some k) ∧
    (∀ (m : M) (sealed : List UInt8) (ctx : Opening),
      (Sealed.open P H R sealed reader ctx m).1.accepts P = none →
      (C.view m).SameEntries (C.view (Sealed.open P H R sealed reader ctx m).2)) := by
  refine ⟨fun m calls => ?_, fun m sealed ctx hnone => open_sameEntries C rfl hnone⟩
  refine runs_once (fun k m => Blocked k (C.view m)) ?_ ?_ m calls
  · exact fun m c k hk => open_blocked C rfl hk
  · exact fun m c k hk => open_accepts_blocked C rfl hk

/-! ## The memory of the source's tests -/

/-- The latest time shown, and a list that forgets nothing. -/
structure Memory where
  latest : UInt64
  accepted : List (Fingerprint × Bytes 16 × UInt64)

namespace Memory

def replay : Replay Memory where
  latest m now := (max m.latest now, { m with latest := max m.latest now })
  accepted m signer id := m.accepted.any fun e => e.1 = signer ∧ e.2.1 = id
  accept m signer id until_ :=
    if m.accepted.any fun e => e.1 = signer ∧ e.2.1 = id then (false, m)
    else (true, { m with accepted := m.accepted ++ [(signer, id, until_)] })

def held (m : Memory) (signer : Fingerprint) (id : Bytes 16) : Option UInt64 :=
  (m.accepted.find? fun e => e.1 = signer ∧ e.2.1 = id).map fun e => e.2.2

def view (m : Memory) : View := ⟨m.latest, m.held⟩

theorem isSome_held (m : Memory) (signer : Fingerprint) (id : Bytes 16) :
    (m.held signer id).isSome = m.accepted.any fun e => e.1 = signer ∧ e.2.1 = id := by
  rw [held, Option.isSome_map, Bool.eq_iff_iff, List.find?_isSome, List.any_eq_true]

theorem held_append (m : Memory) (s s' : Fingerprint) (i i' : Bytes 16) (u : UInt64) :
    held { m with accepted := m.accepted ++ [(s, i, u)] } s' i' =
      (m.held s' i').or (if s = s' ∧ i = i' then some u else none) := by
  unfold held
  rw [List.find?_append, Option.map_or]
  by_cases h : s = s' ∧ i = i'
  · rw [if_pos h, List.find?_cons_of_pos (by simpa using h)]
    rfl
  · rw [if_neg h, List.find?_cons_of_neg (by simpa using h)]
    rfl

theorem view_accept (m : Memory) (s : Fingerprint) (i : Bytes 16) (u : UInt64) :
    view (replay.accept m s i u).2 = (view m).insert s i u := by
  unfold view View.insert replay
  by_cases h : (m.accepted.any fun e => e.1 = s ∧ e.2.1 = i) = true
  · simp only [h, if_true]
    congr 1
    funext s' i'
    by_cases hk : s' = s ∧ i' = i
    · obtain ⟨rfl, rfl⟩ := hk
      rw [← isSome_held] at h
      obtain ⟨x, hx⟩ := Option.isSome_iff_exists.mp h
      simp [hx]
    · simp [hk]
  · simp only [h]
    congr 1
    funext s' i'
    simp only [Bool.false_eq_true, if_false, held_append]
    by_cases hk : s' = s ∧ i' = i
    · obtain ⟨rfl, rfl⟩ := hk
      cases m.held s' i' <;> simp
    · have hk' : ¬ (s = s' ∧ i = i') := fun hc => hk ⟨hc.1.symm, hc.2.symm⟩
      simp [hk, hk']

def contract : replay.Contract where
  view := view
  latest_eq _ _ := rfl
  latest_view _ _ := ⟨rfl, fun _ _ _ h => h, fun _ _ _ h => Or.inl h⟩
  accepted_eq m s i := (isSome_held m s i).symm
  accept_eq m s i u := by
    rw [← Option.not_isSome, show (m.view.held s i).isSome = _ from isSome_held m s i]
    unfold replay
    by_cases h : (m.accepted.any fun e => e.1 = s ∧ e.2.1 = i) = true
    · simp only [h, if_true, Bool.not_true]
    · simp only [h, Bool.false_eq_true, if_false, Bool.not_false]
  accept_view m s i u := by
    rw [view_accept]
    exact ⟨rfl, fun _ _ _ h => h, fun _ _ _ h => Or.inl h⟩

end Memory

/-- The published box, handed to its recipient twice: accepted the first time, not the second. -/
theorem open_accepts_once_published :
    (Sealed.open vectors.primitives (boxRow.hpke vectors.primitives) Memory.replay Vectors.sealedBox
        Vectors.otherDevice Vectors.opening ⟨0, []⟩).1.accepts vectors.primitives =
      some (Vectors.identityFingerprint, Vectors.privateMessage.id, Vectors.privateMessage.sent) ∧
    (Sealed.open vectors.primitives (boxRow.hpke vectors.primitives) Memory.replay Vectors.sealedBox
        Vectors.otherDevice Vectors.opening
        (Sealed.open vectors.primitives (boxRow.hpke vectors.primitives) Memory.replay
          Vectors.sealedBox Vectors.otherDevice Vectors.opening ⟨0, []⟩).2).1.accepts
        vectors.primitives ≠
      some (Vectors.identityFingerprint, Vectors.privateMessage.id, Vectors.privateMessage.sent) := by
  have hfirst : (Sealed.open vectors.primitives (boxRow.hpke vectors.primitives) Memory.replay
      Vectors.sealedBox Vectors.otherDevice Vectors.opening ⟨0, []⟩).1.accepts vectors.primitives =
      some (Vectors.identityFingerprint, Vectors.privateMessage.id, Vectors.privateMessage.sent) := by
    decide +kernel
  refine ⟨hfirst, ?_⟩
  have honce := (open_accepts_once vectors.primitives (boxRow.hpke vectors.primitives) Memory.replay
    Memory.contract Vectors.otherDevice).1 ⟨0, []⟩
    [(Vectors.sealedBox, Vectors.opening), (Vectors.sealedBox, Vectors.opening)]
  unfold openAll at honce
  rw [runs_cons, runs_cons, List.pairwise_cons] at honce
  exact honce.1 _ List.mem_cons_self _ hfirst

end HxdNg.Identity.Sealed
