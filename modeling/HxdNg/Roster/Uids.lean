import Mathlib
import HxdNg.Lib.Runs

/-!
# User ids

Sessions and linked servers' ghosts take their uids from one 16-bit space. A freed uid is held in a
quarantine for five minutes, and given out earlier only when no other is to be had.

* `nextUidAt_some`, `nextUidAt_none` : what the allocator gives and when it gives nothing;
* `Inv`, `inv_step` : sessions, ghosts and the quarantine stay apart;
* `uids_never_shared` : all of it over every run.
-/

namespace HxdNg.Roster

/-- A user id, as seen on the wire. -/
abbrev Uid := UInt16

/-- How long a freed uid stays out of circulation, in nanoseconds. -/
def uidQuarantine : Nat := 5 * 60 * 10 ^ 9

/-- Freed uids, oldest first, with a set beside the queue. -/
structure UidQuarantine where
  order : List (Uid × Nat)
  held : Finset Uid

namespace UidQuarantine

def hold (q : UidQuarantine) (uid : Uid) (now : Nat) : UidQuarantine :=
  if uid ∈ q.held then q else ⟨q.order ++ [(uid, now)], insert uid q.held⟩

/-- The loop of `releaseExpired`, over the queue. -/
def release (now : Nat) : List (Uid × Nat) → Finset Uid → UidQuarantine
  | [], held => ⟨[], held⟩
  | (uid, freed) :: rest, held =>
    if now - freed < uidQuarantine then ⟨(uid, freed) :: rest, held⟩
    else release now rest (held.erase uid)

def releaseExpired (q : UidQuarantine) (now : Nat) : UidQuarantine := release now q.order q.held

def takeOldest (q : UidQuarantine) : Option Uid × UidQuarantine :=
  match q.order with
  | [] => (none, q)
  | (uid, _) :: rest => (some uid, ⟨rest, q.held.erase uid⟩)

end UidQuarantine

/-- The part of the roster that gives out uids. -/
structure RosterInner where
  users : Finset Uid
  serial : Uid → Nat
  lastUid : Uid
  freedUids : UidQuarantine
  ghosts : Finset Uid
  lastSerial : Nat

namespace RosterInner

def empty : RosterInner := ⟨∅, fun _ => 0, 0, ⟨[], ∅⟩, ∅, 0⟩

/-- The sequential scan with wrap: it skips 0 and what is `taken`, for `n` tries. -/
def scan (taken : Uid → Bool) : Nat → Uid → Option Uid × Uid
  | 0, last => (none, last)
  | n + 1, last =>
    let uid := last + 1
    if uid = 0 ∨ taken uid then scan taken n uid else (some uid, uid)

def taken (r : RosterInner) (uid : Uid) : Bool :=
  uid ∈ r.users ∨ uid ∈ r.ghosts ∨ uid ∈ r.freedUids.held

def takeOldest (r : RosterInner) : Option Uid × RosterInner :=
  let (uid, q) := r.freedUids.takeOldest
  (uid, { r with freedUids := q })

def nextUidAt (r : RosterInner) (now : Nat) : Option Uid × RosterInner :=
  let r := { r with freedUids := r.freedUids.releaseExpired now }
  if r.users.card + r.ghosts.card + r.freedUids.held.card ≥ 65535 then r.takeOldest
  else
    match scan r.taken 65536 r.lastUid with
    | (some uid, last) => (some uid, { r with lastUid := last })
    | (none, last) => { r with lastUid := last }.takeOldest

/-- `Core::attach`, which a revoked identity is `refused`: the uid and serial of the new session. -/
def attach (r : RosterInner) (now : Nat) (refused : Bool) : Option (Uid × Nat) × RosterInner :=
  if refused then (none, r)
  else
    match r.nextUidAt now with
    | (none, r) => (none, r)
    | (some uid, r) =>
      let serial := r.lastSerial + 1
      (some (uid, serial), { r with
        lastSerial := serial, users := insert uid r.users
        serial := Function.update r.serial uid serial })

def endSession (r : RosterInner) (now : Nat) (uid : Uid) : RosterInner :=
  if uid ∈ r.users then
    { r with users := r.users.erase uid, freedUids := r.freedUids.hold uid now }
  else r

/-- `Core::ghost_attach`, which `fails` when the system gives it no random key. -/
def ghostAttach (r : RosterInner) (now : Nat) (fails : Bool) : Option Uid × RosterInner :=
  if fails then (none, r)
  else
    match r.nextUidAt now with
    | (none, r) => (none, r)
    | (some uid, r) => (some uid, { r with ghosts := insert uid r.ghosts })

def ghostPart (r : RosterInner) (now : Nat) (uid : Uid) : RosterInner :=
  if uid ∈ r.ghosts then
    { r with ghosts := r.ghosts.erase uid, freedUids := r.freedUids.hold uid now }
  else r

end RosterInner

/-! ## The quarantine -/

namespace UidQuarantine

/-- The queue and the set hold the same uids, each once, in the order they were freed. -/
structure Ok (q : UidQuarantine) (clock : Nat) : Prop where
  nodup : (q.order.map Prod.fst).Nodup
  mem_held : ∀ uid, uid ∈ q.held ↔ uid ∈ q.order.map Prod.fst
  sorted : q.order.Pairwise fun a b => a.2 ≤ b.2
  past : ∀ e ∈ q.order, e.2 ≤ clock

variable {q : UidQuarantine} {clock now : Nat}

theorem Ok.mono (h : q.Ok clock) (hle : clock ≤ now) : q.Ok now :=
  ⟨h.nodup, h.mem_held, h.sorted, fun e he => (h.past e he).trans hle⟩

theorem Ok.tail {uid : Uid} {freed : Nat} {rest : List (Uid × Nat)} {held : Finset Uid}
    (h : Ok ⟨(uid, freed) :: rest, held⟩ clock) : Ok ⟨rest, held.erase uid⟩ clock := by
  obtain ⟨hnodup, hmem, hsorted, hpast⟩ := h
  rw [List.map_cons, List.nodup_cons] at hnodup
  refine ⟨hnodup.2, fun u => ?_, (List.pairwise_cons.mp hsorted).2, fun e he =>
    hpast e (List.mem_cons_of_mem _ he)⟩
  rw [Finset.mem_erase, hmem, List.map_cons, List.mem_cons]
  constructor
  · rintro ⟨hne, hu | hu⟩
    · exact absurd hu hne
    · exact hu
  · intro hu
    refine ⟨?_, Or.inr hu⟩
    rintro rfl
    exact hnodup.1 hu

/-- A uid has one entry in the queue. -/
theorem Ok.eq_of_mem (h : q.Ok clock) {uid : Uid} {a b : Nat} (ha : (uid, a) ∈ q.order)
    (hb : (uid, b) ∈ q.order) : a = b :=
  congrArg Prod.snd (List.inj_on_of_nodup_map h.nodup ha hb rfl)

theorem Ok.hold (h : q.Ok now) {uid : Uid} (hu : uid ∉ q.held) : (q.hold uid now).Ok now := by
  unfold UidQuarantine.hold
  rw [if_neg hu]
  have hnot : uid ∉ q.order.map Prod.fst := fun hm => hu ((h.mem_held uid).mpr hm)
  refine ⟨?_, fun u => ?_, ?_, ?_⟩
  · rw [List.map_append]
    refine h.nodup.append (List.nodup_singleton _) ?_
    exact List.disjoint_singleton.mpr hnot
  · rw [Finset.mem_insert, h.mem_held, List.map_append, List.mem_append, List.map_cons,
      List.map_nil, List.mem_singleton, or_comm]
  · rw [List.pairwise_append]
    refine ⟨h.sorted, List.pairwise_singleton _ _, fun a ha b hb => ?_⟩
    rw [List.mem_singleton] at hb
    rw [hb]
    exact h.past a ha
  · intro e he
    rcases List.mem_append.mp he with he | he
    · exact h.past e he
    · rw [List.mem_singleton] at he
      rw [he]

theorem held_hold {uid : Uid} (hu : uid ∉ q.held) : (q.hold uid now).held = insert uid q.held := by
  unfold UidQuarantine.hold
  rw [if_neg hu]

theorem release_spec {order : List (Uid × Nat)} {held : Finset Uid} (h : Ok ⟨order, held⟩ clock)
    (now : Nat) :
    (release now order held).Ok clock ∧ (release now order held).order <:+ order ∧
      (release now order held).held ⊆ held ∧
      ∀ e ∈ order, e ∈ (release now order held).order ∨ uidQuarantine ≤ now - e.2 := by
  induction order generalizing held with
  | nil => exact ⟨h, List.suffix_refl _, Finset.Subset.refl _, by simp⟩
  | cons e rest ih =>
    obtain ⟨uid, freed⟩ := e
    unfold release
    by_cases hexp : now - freed < uidQuarantine
    · rw [if_pos hexp]
      exact ⟨h, List.suffix_refl _, Finset.Subset.refl _, fun e he => Or.inl he⟩
    · rw [if_neg hexp]
      obtain ⟨hok, hsuf, hheld, hexpired⟩ := ih h.tail
      refine ⟨hok, hsuf.trans (List.suffix_cons _ _), hheld.trans (Finset.erase_subset _ _), ?_⟩
      intro e he
      rcases List.mem_cons.mp he with rfl | he
      · exact Or.inr (Nat.le_of_not_lt hexp)
      · exact hexpired e he

end UidQuarantine

/-! ## The allocator -/

/-- 65535 uids other than 0 are all of them. -/
theorem mem_of_card {s : Finset Uid} (hzero : 0 ∉ s) (hcard : 65535 ≤ s.card) {uid : Uid}
    (huid : uid ≠ 0) : uid ∈ s := by
  by_contra hnot
  have hsub : (insert uid s).image UInt16.toNat ⊆ Finset.Ico 1 65536 := by
    intro n hn
    obtain ⟨u, hu, rfl⟩ := Finset.mem_image.mp hn
    have hne : u ≠ 0 := by
      rintro rfl
      rcases Finset.mem_insert.mp hu with hu | hu
      · exact huid hu.symm
      · exact hzero hu
    have hpos : u.toNat ≠ 0 := fun h => hne (UInt16.toNat_inj.mp h)
    have := u.toNat_lt
    exact Finset.mem_Ico.mpr ⟨by omega, by omega⟩
  have hle := Finset.card_le_card hsub
  rw [Finset.card_image_of_injective _ fun a b => UInt16.toNat_inj.mp,
    Finset.card_insert_of_notMem hnot, Nat.card_Ico] at hle
  omega

namespace RosterInner

theorem scan_eq_some {taken : Uid → Bool} {n : Nat} {last uid l : Uid}
    (h : scan taken n last = (some uid, l)) : uid ≠ 0 ∧ taken uid = false := by
  induction n generalizing last with
  | zero => simp [scan] at h
  | succ n ih =>
    unfold scan at h
    dsimp only at h
    split at h
    · exact ih h
    · rename_i hfree
      obtain ⟨rfl, -⟩ := h
      simpa using hfree

theorem scan_eq_none {taken : Uid → Bool} {n : Nat} {last l : Uid}
    (h : scan taken n last = (none, l)) :
    ∀ k, 1 ≤ k → k ≤ n → last + UInt16.ofNat k = 0 ∨ taken (last + UInt16.ofNat k) = true := by
  induction n generalizing last with
  | zero =>
    intro k h1 h0
    omega
  | succ n ih =>
    unfold scan at h
    dsimp only at h
    split at h
    · rename_i htaken
      intro k hk1 hkn
      rcases Nat.eq_or_lt_of_le hk1 with rfl | hk
      · exact htaken
      · have hstep : last + UInt16.ofNat k = last + 1 + UInt16.ofNat (k - 1) := by
          refine UInt16.toNat_inj.mp ?_
          simp only [UInt16.toNat_add, UInt16.toNat_ofNat', UInt16.toNat_one]
          omega
        rw [hstep]
        exact ih h (k - 1) (by omega) (by omega)
    · cases h

/-- A scan of the whole space misses no uid. -/
theorem scan_full {taken : Uid → Bool} {last l uid : Uid} (h : scan taken 65536 last = (none, l))
    (huid : uid ≠ 0) : taken uid = true := by
  have hu := uid.toNat_lt
  have hl := last.toNat_lt
  -- How far the scan goes until it meets `uid`, a whole turn if it starts there.
  obtain ⟨k, hk1, hkn, hk⟩ : ∃ k, 1 ≤ k ∧ k ≤ 65536 ∧ (last.toNat + k) % 65536 = uid.toNat := by
    by_cases hlt : last.toNat < uid.toNat
    · exact ⟨uid.toNat - last.toNat, by omega, by omega, by omega⟩
    · exact ⟨uid.toNat + 65536 - last.toNat, by omega, by omega, by omega⟩
  have heq : last + UInt16.ofNat k = uid := by
    refine UInt16.toNat_inj.mp ?_
    simp only [UInt16.toNat_add, UInt16.toNat_ofNat']
    omega
  rcases scan_eq_none h k hk1 hkn with h | h
  · exact absurd (heq.symm.trans h) huid
  · rw [← heq]
    exact h

/-- Sessions, ghosts and the quarantine are apart, and none has uid 0. -/
structure Ok (r : RosterInner) (clock : Nat) : Prop where
  quarantine : r.freedUids.Ok clock
  users_ghosts : Disjoint r.users r.ghosts
  users_held : Disjoint r.users r.freedUids.held
  ghosts_held : Disjoint r.ghosts r.freedUids.held
  users_zero : 0 ∉ r.users
  ghosts_zero : 0 ∉ r.ghosts
  held_zero : 0 ∉ r.freedUids.held

variable {r r' : RosterInner} {clock now : Nat} {uid : Uid}

/-- A smaller quarantine keeps the parts apart. -/
theorem Ok.of_quarantine (h : r.Ok clock) {q : UidQuarantine} (hq : q.Ok now)
    (hsub : q.held ⊆ r.freedUids.held) (last : Uid) :
    Ok { r with freedUids := q, lastUid := last } now :=
  ⟨hq, h.users_ghosts, h.users_held.mono_right hsub, h.ghosts_held.mono_right hsub, h.users_zero,
    h.ghosts_zero, fun hz => h.held_zero (hsub hz)⟩

theorem Ok.release (h : r.Ok clock) (hle : clock ≤ now) :
    Ok { r with freedUids := r.freedUids.releaseExpired now } now := by
  obtain ⟨hok, -, hsub, -⟩ := UidQuarantine.release_spec h.quarantine now
  exact h.of_quarantine (hok.mono hle) hsub r.lastUid

/-- With 65535 uids in use or held, every uid is. -/
theorem Ok.full (h : r.Ok clock)
    (hcard : r.users.card + r.ghosts.card + r.freedUids.held.card ≥ 65535) (huid : uid ≠ 0) :
    r.taken uid = true := by
  have hzero : 0 ∉ r.users ∪ r.ghosts ∪ r.freedUids.held := by
    simp [h.users_zero, h.ghosts_zero, h.held_zero]
  have hdisj : Disjoint (r.users ∪ r.ghosts) r.freedUids.held :=
    Finset.disjoint_union_left.mpr ⟨h.users_held, h.ghosts_held⟩
  have hmem := mem_of_card hzero (by
    rw [Finset.card_union_of_disjoint hdisj, Finset.card_union_of_disjoint h.users_ghosts]
    exact hcard) huid
  simpa [taken, or_assoc] using hmem

/-- What `takeOldest` gives when every uid is taken: the front of the queue, if there is one. -/
theorem takeOldest_cases (r : RosterInner) :
    (r.freedUids.order = [] ∧ r.takeOldest = (none, r)) ∨
      ∃ uid freed rest, r.freedUids.order = (uid, freed) :: rest ∧
        r.takeOldest = (some uid, { r with freedUids := ⟨rest, r.freedUids.held.erase uid⟩ }) := by
  unfold takeOldest UidQuarantine.takeOldest
  cases r.freedUids.order with
  | nil => exact Or.inl ⟨rfl, rfl⟩
  | cons e rest => exact Or.inr ⟨e.1, e.2, rest, rfl, rfl⟩

/-- The allocator scans to a free uid, or takes the oldest of the quarantine when there is none. -/
theorem nextUidAt_cases (h : r.Ok clock) (hle : clock ≤ now) :
    let r₁ := { r with freedUids := r.freedUids.releaseExpired now }
    (∃ uid last, r.nextUidAt now = (some uid, { r₁ with lastUid := last }) ∧ uid ≠ 0 ∧
      r₁.taken uid = false) ∨
    ((∀ uid, uid ≠ 0 → r₁.taken uid = true) ∧
      ∃ last, r.nextUidAt now = { r₁ with lastUid := last }.takeOldest) := by
  intro r₁
  have hok : r₁.Ok now := h.release hle
  unfold nextUidAt
  dsimp only
  by_cases hcard : r₁.users.card + r₁.ghosts.card + r₁.freedUids.held.card ≥ 65535
  · rw [if_pos hcard]
    exact Or.inr ⟨fun uid huid => hok.full hcard huid, r.lastUid, rfl⟩
  · rw [if_neg hcard]
    cases hscan : scan r₁.taken 65536 r₁.lastUid with
    | mk found last =>
      cases found with
      | some uid => exact Or.inl ⟨uid, last, rfl, scan_eq_some hscan⟩
      | none => exact Or.inr ⟨fun uid huid => scan_full hscan huid, last, rfl⟩

theorem lastSerial_nextUidAt (r : RosterInner) (now : Nat) :
    (r.nextUidAt now).2.lastSerial = r.lastSerial := by
  unfold nextUidAt takeOldest
  dsimp only
  split
  · rfl
  · split <;> rfl

/-- `v` was freed after `uid`, freed at `freed`, and is still held. -/
def FreedAfter (r : RosterInner) (uid : Uid) (freed : Nat) (v : Uid) : Prop :=
  ∃ later, List.Sublist [(uid, freed), (v, later)] r.freedUids.order

/-- What the allocator gives out, and the roster it leaves. -/
structure Allocated (r : RosterInner) (now : Nat) (uid : Uid) (r' : RosterInner) : Prop where
  ok : r'.Ok now
  nonzero : uid ≠ 0
  not_user : uid ∉ r'.users
  not_ghost : uid ∉ r'.ghosts
  not_held : uid ∉ r'.freedUids.held
  frame : r' = { r with freedUids := r'.freedUids, lastUid := r'.lastUid }
  kept : ∀ e ∈ r.freedUids.order,
    e.1 = uid ∨ e ∈ r'.freedUids.order ∨ uidQuarantine ≤ now - e.2
  early : ∀ freed, (uid, freed) ∈ r.freedUids.order → now - freed < uidQuarantine →
    ∀ v, v ≠ 0 → v ≠ uid → v ∈ r.users ∨ v ∈ r.ghosts ∨ r.FreedAfter uid freed v

theorem nextUidAt_some (h : r.Ok clock) (hle : clock ≤ now)
    (he : r.nextUidAt now = (some uid, r')) : r.Allocated now uid r' := by
  have hok : Ok { r with freedUids := r.freedUids.releaseExpired now } now := h.release hle
  obtain ⟨hq, hsuf, hsub, hexpired⟩ := UidQuarantine.release_spec h.quarantine now
  rcases nextUidAt_cases h hle with ⟨u, last, heq, hne, hfree⟩ | ⟨hfull, last, heq⟩
  · obtain ⟨hu, rfl⟩ := Prod.mk.inj (heq.symm.trans he)
    obtain rfl : u = uid := Option.some.inj hu
    simp only [taken, decide_eq_false_iff_not, not_or] at hfree
    obtain ⟨huser, hghost, hheld⟩ := hfree
    refine ⟨hok.of_quarantine hok.quarantine (Finset.Subset.refl _) last, hne, huser, hghost, hheld,
      rfl, fun e he => Or.inr (hexpired e he), fun freed hmem hearly => ?_⟩
    -- A uid the scan finds is not held any more, so it has expired.
    rcases hexpired _ hmem with hin | hexp
    · exact absurd ((hok.quarantine.mem_held u).mpr (List.mem_map_of_mem hin)) hheld
    · exact absurd hexp (Nat.not_le.mpr hearly)
  · rw [heq] at he
    rcases takeOldest_cases { r with
        freedUids := r.freedUids.releaseExpired now, lastUid := last } with
      ⟨-, htake⟩ | ⟨u, t, rest, horder, htake⟩
    · rw [htake] at he
      cases he
    · rw [htake] at he
      obtain ⟨hu, rfl⟩ := Prod.mk.inj he
      obtain rfl : u = uid := Option.some.inj hu
      change (r.freedUids.releaseExpired now).order = (u, t) :: rest at horder
      have hfront : UidQuarantine.Ok ⟨(u, t) :: rest, (r.freedUids.releaseExpired now).held⟩ now := by
        rw [← horder]
        exact hok.quarantine
      have hheld : u ∈ (r.freedUids.releaseExpired now).held :=
        (hfront.mem_held u).mpr List.mem_cons_self
      refine ⟨hok.of_quarantine hfront.tail (Finset.erase_subset _ _) last, ?_, ?_, ?_,
        Finset.notMem_erase _ _, rfl, fun e he => ?_, fun freed hmem hearly v hv hvu => ?_⟩
      · rintro rfl
        exact hok.held_zero hheld
      · exact fun hin => Finset.disjoint_left.mp hok.users_held hin hheld
      · exact fun hin => Finset.disjoint_left.mp hok.ghosts_held hin hheld
      · rcases hexpired e he with hin | hexp
        · change e ∈ (r.freedUids.releaseExpired now).order at hin
          rw [horder] at hin
          rcases List.mem_cons.mp hin with rfl | hin
          · exact Or.inl rfl
          · exact Or.inr (Or.inl hin)
        · exact Or.inr (Or.inr hexp)
      · have hin : (u, freed) ∈ (r.freedUids.releaseExpired now).order :=
          (hexpired _ hmem).resolve_right (Nat.not_le.mpr hearly)
        obtain rfl : freed = t :=
          hok.quarantine.eq_of_mem hin (horder ▸ List.mem_cons_self)
        have htaken := hfull v hv
        simp only [taken, decide_eq_true_eq] at htaken
        rcases htaken with h | h | h
        · exact Or.inl h
        · exact Or.inr (Or.inl h)
        · have hmap := (hfront.mem_held v).mp h
          rw [List.map_cons, List.mem_cons] at hmap
          obtain ⟨⟨v', later⟩, hrest, rfl⟩ := List.mem_map.mp (hmap.resolve_left hvu)
          refine Or.inr (Or.inr ⟨later, List.Sublist.trans ?_ hsuf.sublist⟩)
          change List.Sublist _ (r.freedUids.releaseExpired now).order
          rw [horder]
          exact (List.singleton_sublist.mpr hrest).cons_cons _

/-- The allocator gives nothing only when every uid is a session's or a ghost's. -/
theorem nextUidAt_none (h : r.Ok clock) (hle : clock ≤ now) (he : r.nextUidAt now = (none, r')) :
    (∀ v, v ≠ 0 → v ∈ r.users ∨ v ∈ r.ghosts) ∧ r'.Ok now ∧
      r' = { r with freedUids := r'.freedUids, lastUid := r'.lastUid } ∧
      ∀ e ∈ r.freedUids.order, uidQuarantine ≤ now - e.2 := by
  have hok : Ok { r with freedUids := r.freedUids.releaseExpired now } now := h.release hle
  obtain ⟨-, -, -, hexpired⟩ := UidQuarantine.release_spec h.quarantine now
  rcases nextUidAt_cases h hle with ⟨u, last, heq, -, -⟩ | ⟨hfull, last, heq⟩
  · rw [heq] at he
    cases he
  · rw [heq] at he
    rcases takeOldest_cases { r with
        freedUids := r.freedUids.releaseExpired now, lastUid := last } with
      ⟨hnil, htake⟩ | ⟨u, t, rest, -, htake⟩
    · rw [htake] at he
      obtain ⟨-, rfl⟩ := Prod.mk.inj he
      change (r.freedUids.releaseExpired now).order = [] at hnil
      refine ⟨fun v hv => ?_, hok.of_quarantine hok.quarantine (Finset.Subset.refl _) last, rfl,
        fun e he => ?_⟩
      · have htaken := hfull v hv
        simp only [taken, decide_eq_true_eq] at htaken
        rcases htaken with h | h | h
        · exact Or.inl h
        · exact Or.inr h
        · have hmap := (hok.quarantine.mem_held v).mp h
          simp [hnil] at hmap
      · refine (hexpired e he).resolve_left fun hin => ?_
        change e ∈ (r.freedUids.releaseExpired now).order at hin
        simp [hnil] at hin
    · rw [htake] at he
      cases he

end RosterInner

/-! ## Runs -/

inductive UidAction where
  | attach (refused : Bool)
  | endSession (uid : Uid)
  | ghostAttach (fails : Bool)
  | ghostPart (uid : Uid)

/-- What an action gives out. -/
inductive Given where
  | nothing
  | session (uid : Uid) (serial : Nat)
  | ghost (uid : Uid)

def Given.serial : Given → Option Nat
  | .session _ serial => some serial
  | _ => none

/-- The roster at a time, and when each uid not given out since was freed. -/
structure UidWorld where
  roster : RosterInner
  clock : Nat
  freed : Uid → Option Nat

namespace UidWorld

def start : UidWorld := ⟨.empty, 0, fun _ => none⟩

/-- One action, some time after the one before. -/
def step (w : UidWorld) (input : Nat × UidAction) : Given × UidWorld :=
  let now := w.clock + input.1
  match input.2 with
  | .attach refused =>
    match w.roster.attach now refused with
    | (some (uid, serial), r) => (.session uid serial, ⟨r, now, Function.update w.freed uid none⟩)
    | (none, r) => (.nothing, ⟨r, now, w.freed⟩)
  | .endSession uid =>
    (.nothing, ⟨w.roster.endSession now uid, now,
      if uid ∈ w.roster.users then Function.update w.freed uid (some now) else w.freed⟩)
  | .ghostAttach fails =>
    match w.roster.ghostAttach now fails with
    | (some uid, r) => (.ghost uid, ⟨r, now, Function.update w.freed uid none⟩)
    | (none, r) => (.nothing, ⟨r, now, w.freed⟩)
  | .ghostPart uid =>
    (.nothing, ⟨w.roster.ghostPart now uid, now,
      if uid ∈ w.roster.ghosts then Function.update w.freed uid (some now) else w.freed⟩)

/-- What holds of the roster in every reachable state. -/
structure Inv (w : UidWorld) : Prop where
  ok : w.roster.Ok w.clock
  freed : ∀ uid t, w.freed uid = some t →
    (uid, t) ∈ w.roster.freedUids.order ∨ uidQuarantine ≤ w.clock - t

section Step
variable {w : UidWorld} {r' : RosterInner} {now : Nat} {uid : Uid}

/-- What was freed before stays held until it expires, but for the uid given out. -/
theorem Inv.freed_allocated (hw : w.Inv) (hle : w.clock ≤ now)
    (ha : w.roster.Allocated now uid r') :
    ∀ u t, Function.update w.freed uid none u = some t →
      (u, t) ∈ r'.freedUids.order ∨ uidQuarantine ≤ now - t := by
  intro u t hu
  by_cases hne : u = uid
  · subst hne
    simp at hu
  · rw [Function.update_of_ne hne] at hu
    rcases hw.freed u t hu with hmem | hexp
    · rcases ha.kept _ hmem with h | h | h
      · exact absurd h hne
      · exact Or.inl h
      · exact Or.inr h
    · exact Or.inr (by omega)

theorem Inv.freed_none (hw : w.Inv) (hle : w.clock ≤ now)
    (hexp : ∀ e ∈ w.roster.freedUids.order, uidQuarantine ≤ now - e.2) :
    ∀ u t, w.freed u = some t → (u, t) ∈ r'.freedUids.order ∨ uidQuarantine ≤ now - t := by
  intro u t hu
  rcases hw.freed u t hu with hmem | h
  · exact Or.inr (hexp _ hmem)
  · exact Or.inr (by omega)

/-- A uid freed now joins the queue at its end. -/
theorem Inv.freed_hold (hw : w.Inv) (hle : w.clock ≤ now) (hu : uid ∉ w.roster.freedUids.held) :
    ∀ u t, Function.update w.freed uid (some now) u = some t →
      (u, t) ∈ (w.roster.freedUids.hold uid now).order ∨ uidQuarantine ≤ now - t := by
  intro u t h
  unfold UidQuarantine.hold
  rw [if_neg hu]
  by_cases hne : u = uid
  · subst hne
    rw [Function.update_self, Option.some.injEq] at h
    exact Or.inl (List.mem_append_right _ (h ▸ List.mem_singleton.mpr rfl))
  · rw [Function.update_of_ne hne] at h
    rcases hw.freed u t h with hmem | hexp
    · exact Or.inl (List.mem_append_left _ hmem)
    · exact Or.inr (by omega)

theorem Inv.tick (hw : w.Inv) (hle : w.clock ≤ now) : Inv ⟨w.roster, now, w.freed⟩ := by
  refine ⟨?_, fun u t hu => ?_⟩
  · obtain ⟨hq, h1, h2, h3, h4, h5, h6⟩ := hw.ok
    exact ⟨hq.mono hle, h1, h2, h3, h4, h5, h6⟩
  · rcases hw.freed u t hu with hmem | hexp
    · exact Or.inl hmem
    · exact Or.inr (by show _ ≤ now - t; omega)

theorem inv_attach (hw : w.Inv) (dt : Nat) (refused : Bool) :
    (w.step (dt, .attach refused)).2.Inv := by
  have hle : w.clock ≤ w.clock + dt := Nat.le_add_right _ _
  unfold step RosterInner.attach
  dsimp only
  cases refused with
  | true => exact hw.tick hle
  | false =>
    rw [if_neg Bool.false_ne_true]
    cases he : w.roster.nextUidAt (w.clock + dt) with
    | mk found r' =>
      cases found with
      | none =>
        obtain ⟨-, hok, -, hexp⟩ := RosterInner.nextUidAt_none hw.ok hle he
        exact ⟨hok, hw.freed_none hle hexp⟩
      | some uid =>
        have ha := RosterInner.nextUidAt_some hw.ok hle he
        have hfreed := hw.freed_allocated hle ha
        refine ⟨⟨ha.ok.quarantine, ?_, ?_, ha.ok.ghosts_held, ?_, ha.ok.ghosts_zero,
          ha.ok.held_zero⟩, hfreed⟩
        · exact Finset.disjoint_insert_left.mpr ⟨ha.not_ghost, ha.ok.users_ghosts⟩
        · exact Finset.disjoint_insert_left.mpr ⟨ha.not_held, ha.ok.users_held⟩
        · rw [Finset.mem_insert, not_or]
          exact ⟨ha.nonzero.symm, ha.ok.users_zero⟩

theorem inv_ghostAttach (hw : w.Inv) (dt : Nat) (fails : Bool) :
    (w.step (dt, .ghostAttach fails)).2.Inv := by
  have hle : w.clock ≤ w.clock + dt := Nat.le_add_right _ _
  unfold step RosterInner.ghostAttach
  dsimp only
  cases fails with
  | true => exact hw.tick hle
  | false =>
    rw [if_neg Bool.false_ne_true]
    cases he : w.roster.nextUidAt (w.clock + dt) with
    | mk found r' =>
      cases found with
      | none =>
        obtain ⟨-, hok, -, hexp⟩ := RosterInner.nextUidAt_none hw.ok hle he
        exact ⟨hok, hw.freed_none hle hexp⟩
      | some uid =>
        have ha := RosterInner.nextUidAt_some hw.ok hle he
        have hfreed := hw.freed_allocated hle ha
        refine ⟨⟨ha.ok.quarantine, ?_, ha.ok.users_held, ?_, ha.ok.users_zero, ?_,
          ha.ok.held_zero⟩, hfreed⟩
        · exact Finset.disjoint_insert_right.mpr ⟨ha.not_user, ha.ok.users_ghosts⟩
        · exact Finset.disjoint_insert_left.mpr ⟨ha.not_held, ha.ok.ghosts_held⟩
        · rw [Finset.mem_insert, not_or]
          exact ⟨ha.nonzero.symm, ha.ok.ghosts_zero⟩

theorem inv_endSession (hw : w.Inv) (dt : Nat) (uid : Uid) :
    (w.step (dt, .endSession uid)).2.Inv := by
  have hle : w.clock ≤ w.clock + dt := Nat.le_add_right _ _
  unfold step RosterInner.endSession
  dsimp only
  by_cases hu : uid ∈ w.roster.users
  · rw [if_pos hu, if_pos hu]
    have hheld : uid ∉ w.roster.freedUids.held := Finset.disjoint_left.mp hw.ok.users_held hu
    have hghost : uid ∉ w.roster.ghosts := Finset.disjoint_left.mp hw.ok.users_ghosts hu
    have hsub := Finset.erase_subset uid w.roster.users
    refine ⟨⟨(hw.ok.quarantine.mono hle).hold hheld, hw.ok.users_ghosts.mono_left hsub, ?_, ?_,
      fun hz => hw.ok.users_zero (hsub hz), hw.ok.ghosts_zero, ?_⟩, hw.freed_hold hle hheld⟩
    · rw [UidQuarantine.held_hold hheld, Finset.disjoint_insert_right]
      exact ⟨Finset.notMem_erase _ _, hw.ok.users_held.mono_left hsub⟩
    · rw [UidQuarantine.held_hold hheld, Finset.disjoint_insert_right]
      exact ⟨hghost, hw.ok.ghosts_held⟩
    · rw [UidQuarantine.held_hold hheld, Finset.mem_insert, not_or]
      exact ⟨fun hz => hw.ok.users_zero (hz ▸ hu), hw.ok.held_zero⟩
  · rw [if_neg hu, if_neg hu]
    exact hw.tick hle

theorem inv_ghostPart (hw : w.Inv) (dt : Nat) (uid : Uid) :
    (w.step (dt, .ghostPart uid)).2.Inv := by
  have hle : w.clock ≤ w.clock + dt := Nat.le_add_right _ _
  unfold step RosterInner.ghostPart
  dsimp only
  by_cases hu : uid ∈ w.roster.ghosts
  · rw [if_pos hu, if_pos hu]
    have hheld : uid ∉ w.roster.freedUids.held := Finset.disjoint_left.mp hw.ok.ghosts_held hu
    have huser : uid ∉ w.roster.users := Finset.disjoint_right.mp hw.ok.users_ghosts hu
    have hsub := Finset.erase_subset uid w.roster.ghosts
    refine ⟨⟨(hw.ok.quarantine.mono hle).hold hheld, hw.ok.users_ghosts.mono_right hsub, ?_, ?_,
      hw.ok.users_zero, fun hz => hw.ok.ghosts_zero (hsub hz), ?_⟩, hw.freed_hold hle hheld⟩
    · rw [UidQuarantine.held_hold hheld, Finset.disjoint_insert_right]
      exact ⟨huser, hw.ok.users_held⟩
    · rw [UidQuarantine.held_hold hheld, Finset.disjoint_insert_right]
      exact ⟨Finset.notMem_erase _ _, hw.ok.ghosts_held.mono_left hsub⟩
    · rw [UidQuarantine.held_hold hheld, Finset.mem_insert, not_or]
      exact ⟨fun hz => hw.ok.ghosts_zero (hz ▸ hu), hw.ok.held_zero⟩
  · rw [if_neg hu, if_neg hu]
    exact hw.tick hle

theorem inv_step (hw : w.Inv) (input : Nat × UidAction) : (w.step input).2.Inv := by
  obtain ⟨dt, a⟩ := input
  cases a with
  | attach refused => exact inv_attach hw dt refused
  | endSession uid => exact inv_endSession hw dt uid
  | ghostAttach fails => exact inv_ghostAttach hw dt fails
  | ghostPart uid => exact inv_ghostPart hw dt uid

theorem inv_start : start.Inv :=
  ⟨⟨⟨List.nodup_nil, by simp [start, RosterInner.empty], .nil, by simp [start, RosterInner.empty]⟩,
    by simp [start, RosterInner.empty], by simp [start, RosterInner.empty],
    by simp [start, RosterInner.empty], by simp [start, RosterInner.empty],
    by simp [start, RosterInner.empty], by simp [start, RosterInner.empty]⟩, by simp [start]⟩

theorem inv_runs (inputs : List (Nat × UidAction)) : (runs step start inputs).2.Inv :=
  runs_invariant Inv (fun _ input hw => inv_step hw input) inv_start inputs

/-- A serial given out is the next one, and the last serial never goes back. -/
theorem lastSerial_step (w : UidWorld) (input : Nat × UidAction) :
    w.roster.lastSerial ≤ (w.step input).2.roster.lastSerial ∧
      ∀ k, (w.step input).1.serial = some k →
        w.roster.lastSerial < k ∧ k ≤ (w.step input).2.roster.lastSerial := by
  obtain ⟨dt, a⟩ := input
  have hnext := RosterInner.lastSerial_nextUidAt w.roster (w.clock + dt)
  cases a with
  | attach refused =>
    unfold step RosterInner.attach
    cases refused with
    | true => simp [Given.serial]
    | false =>
      cases he : w.roster.nextUidAt (w.clock + dt) with
      | mk found r' =>
        rw [he] at hnext
        dsimp only at hnext
        cases found <;> simp [Given.serial, he, hnext]
  | endSession uid =>
    unfold step RosterInner.endSession
    dsimp only
    refine ⟨?_, fun k hk => by cases hk⟩
    split <;> exact Nat.le_refl _
  | ghostAttach fails =>
    unfold step RosterInner.ghostAttach
    cases fails with
    | true => simp [Given.serial]
    | false =>
      cases he : w.roster.nextUidAt (w.clock + dt) with
      | mk found r' =>
        rw [he] at hnext
        dsimp only at hnext
        cases found <;> simp [Given.serial, he, hnext]
  | ghostPart uid =>
    unfold step RosterInner.ghostPart
    dsimp only
    refine ⟨?_, fun k hk => by cases hk⟩
    split <;> exact Nat.le_refl _

/-- No two sessions of a run get the same serial. -/
theorem serials_once (inputs : List (Nat × UidAction)) :
    (runs step start inputs).1.Pairwise fun a b => ∀ k, a.serial = some k → b.serial ≠ some k := by
  refine runs_once (fun k w => k ≤ w.roster.lastSerial) ?_ ?_ start inputs
  · intro w input k hk
    obtain ⟨hle, hgiven⟩ := lastSerial_step w input
    exact ⟨fun h => absurd (hgiven k h).1 (by omega), hk.trans hle⟩
  · intro w input k hk
    exact ((lastSerial_step w input).2 k hk).2

end Step

/-- In every reachable state the uids of sessions, ghosts and the quarantine are apart and never 0,
the allocator gives a uid of none of them and nothing only when they have no room left, a uid freed
less than `uidQuarantine` ago comes back only when every other is in use or was freed after it, and
no serial is given out twice. -/
theorem uids_never_shared (inputs : List (Nat × UidAction)) :
    let w := (runs step start inputs).2
    w.roster.Ok w.clock ∧
    (∀ now uid r', w.clock ≤ now → w.roster.nextUidAt now = (some uid, r') →
      uid ≠ 0 ∧ uid ∉ w.roster.users ∧ uid ∉ w.roster.ghosts ∧ uid ∉ r'.freedUids.held ∧
        r'.Ok now ∧
      ∀ t, w.freed uid = some t → now - t < uidQuarantine →
        ∀ v, v ≠ 0 → v ≠ uid →
          v ∈ w.roster.users ∨ v ∈ w.roster.ghosts ∨ w.roster.FreedAfter uid t v) ∧
    (∀ now r', w.clock ≤ now → w.roster.nextUidAt now = (none, r') →
      ∀ v, v ≠ 0 → v ∈ w.roster.users ∨ v ∈ w.roster.ghosts) ∧
    (runs step start inputs).1.Pairwise fun a b => ∀ k, a.serial = some k → b.serial ≠ some k := by
  intro w
  have hw : w.Inv := inv_runs inputs
  refine ⟨hw.ok, fun now uid r' hle he => ?_, fun now r' hle he => ?_, serials_once inputs⟩
  · have ha := RosterInner.nextUidAt_some hw.ok hle he
    have husers : r'.users = w.roster.users := by rw [ha.frame]
    have hghosts : r'.ghosts = w.roster.ghosts := by rw [ha.frame]
    refine ⟨ha.nonzero, husers ▸ ha.not_user, hghosts ▸ ha.not_ghost, ha.not_held, ha.ok, ?_⟩
    intro t ht hearly
    refine ha.early t ((hw.freed uid t ht).resolve_right ?_) hearly
    omega
  · exact (RosterInner.nextUidAt_none hw.ok hle he).1

end UidWorld

end HxdNg.Roster
