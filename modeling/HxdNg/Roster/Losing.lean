import HxdNg.Lib.Assoc
import HxdNg.Lib.Latest
import HxdNg.Roster.Uids

/-!
# Losing a connection

The attached transport of a session died. If its account may detach, the session is parked with a
buffer, and of the sessions detached at its address the longest detached end until no more are left
than may be. The roster's map is the list of its entries in the order they are iterated.

* `rows` : what of a session decides this; telling the users of anything leaves it (`rows_tell`);
* `mem_rows_lose` : who is left, and how detached;
* `answers_lose` : when the answer says what happened.
-/

namespace HxdNg.Roster.Losing

/-- A monotonic clock reading. -/
abbrev Instant := Nat

inductive SessionStatus where
  | active
  | idle
  | detached
  deriving DecidableEq

inductive Event where
  | changed (uid : Uid) (status : SessionStatus)
  | parted (uid : Uid)
  | chatUserParted (cid : Nat) (uid : Uid)
  | voiceStatus (cid : Nat) (participants : List Uid)
  deriving DecidableEq

/-- Where a session's events currently go. -/
inductive Sink where
  | live
  | lagged
  | buffering (since : Instant) (startSeq : Nat) (broken : Bool)
  deriving DecidableEq

structure Outbox where
  nextSeq : Nat
  sink : Sink

structure UserSession (A T : Type) where
  addr : Option A
  canDetach : Bool
  kicked : Bool
  identity : Option T
  visible : Bool
  status : SessionStatus
  outbox : Outbox

structure PrivateChat where
  creator : Option Uid
  members : List Uid
  invited : List Uid

/-- Who speaks where. -/
structure VoiceState where
  roomOf : Assoc.Map Uid Nat
  rooms : Assoc.Map Nat (List Uid)

structure RosterInner (A T : Type) where
  users : Assoc.Map Uid (UserSession A T)
  chats : Assoc.Map Nat PrivateChat
  voice : VoiceState
  freedUids : UidQuarantine

variable {A T : Type}

def Sink.since : Sink → Option Instant
  | .buffering since _ _ => some since
  | _ => none

/-! ## Telling the users -/

section Telling
-- Does the queue of a session have room for an event, at the seq it has come to?
variable (takes : Uid → Nat → Event → Bool)

/-- `Outbox::push`: past a bound a connection lags and a buffer breaks. -/
def Outbox.push (uid : Uid) (ev : Event) (o : Outbox) : Outbox where
  nextSeq := o.nextSeq + 1
  sink :=
    match o.sink with
    | .live => if takes uid o.nextSeq ev then .live else .lagged
    | .lagged => .lagged
    | .buffering since startSeq broken =>
      .buffering since startSeq (broken || !takes uid o.nextSeq ev)

namespace RosterInner

def tell (whom : Uid → UserSession A T → Bool) (ev : Event) (r : RosterInner A T) :
    RosterInner A T :=
  { r with users := r.users.mapVals fun uid s =>
      if whom uid s then { s with outbox := s.outbox.push takes uid ev } else s }

def sendTo (uid : Uid) (ev : Event) (r : RosterInner A T) : RosterInner A T :=
  r.tell takes (fun u _ => u = uid) ev

def broadcast (ev : Event) (skip : Option Uid) (r : RosterInner A T) : RosterInner A T :=
  r.tell takes (fun u s => some u ≠ skip && s.visible) ev

/-- Tell each of some users. -/
def sendEach (uids : List Uid) (ev : Event) (r : RosterInner A T) : RosterInner A T :=
  uids.foldl (fun r uid => r.sendTo takes uid ev) r

/-! ## Leaving -/

def voiceStatus (cid : Nat) (r : RosterInner A T) : RosterInner A T :=
  let participants := (r.voice.rooms.get cid).getD []
  r.sendEach takes participants (.voiceStatus cid participants)

def voicePart (uid : Uid) (r : RosterInner A T) : RosterInner A T :=
  match r.voice.roomOf.get uid with
  | none => r
  | some cid =>
    let r := { r with voice := { r.voice with roomOf := r.voice.roomOf.drop uid } }
    match r.voice.rooms.get cid with
    | none => r
    | some peers =>
      let peers := peers.filter (· ≠ uid)
      let r := { r with voice := { r.voice with
        rooms := if peers.isEmpty then r.voice.rooms.drop cid else r.voice.rooms.set cid peers } }
      (r.sendTo takes uid (.voiceStatus cid peers)).voiceStatus takes cid

def voicePartRoom (uid : Uid) (cid : Nat) (r : RosterInner A T) : RosterInner A T :=
  if r.voice.roomOf.get uid = some cid then r.voicePart takes uid else r

def partOne (cid : Nat) (uid : Uid) (r : RosterInner A T) : RosterInner A T :=
  let r := r.voicePartRoom takes uid cid
  match r.chats.get cid with
  | none => r
  | some chat =>
    let chat := { chat with invited := chat.invited.filter (· ≠ uid) }
    if uid ∈ chat.members then
      let members := chat.members.erase uid
      if members.isEmpty then { r with chats := r.chats.drop cid }
      else
        { r with chats := r.chats.set cid { chat with members := members } }.sendEach takes members
          (.chatUserParted cid uid)
    else { r with chats := r.chats.set cid chat }

def leaveAllChats (uid : Uid) (r : RosterInner A T) : RosterInner A T :=
  let r := { r with chats := r.chats.mapVals fun _ chat =>
    if chat.creator = some uid then { chat with creator := none } else chat }
  let cids := r.chats.entries.filter fun e => uid ∈ e.2.members ∨ uid ∈ e.2.invited
  cids.foldl (fun r e => r.partOne takes e.1 uid) r

def endSession (now : Instant) (uid : Uid) (r : RosterInner A T) : RosterInner A T :=
  let r := (r.voicePart takes uid).leaveAllChats takes uid
  match r.users.get uid with
  | none => r
  | some sess =>
    let r := { r with
      users := r.users.filter fun e => e.1 ≠ uid, freedUids := r.freedUids.hold uid now }
    if sess.visible then r.broadcast takes (.parted uid) (some uid) else r

def setStatus (uid : Uid) (status : SessionStatus) (r : RosterInner A T) : RosterInner A T :=
  match r.users.get uid with
  | none => r
  | some sess =>
    if sess.status = status then r
    else
      let r := { r with users := r.users.mapVals fun u s =>
        if u = uid then { s with status := status } else s }
      if sess.visible then r.broadcast takes (.changed uid status) none else r

end RosterInner

/-! ## Losing -/

variable (revoked : T → Bool)

/-- `Core::refuses_session`. -/
def UserSession.refused (s : UserSession A T) : Bool := s.identity.any revoked

/-- May a session be parked when its connection is lost? -/
def UserSession.parks (s : UserSession A T) : Bool := s.canDetach && !s.kicked && !s.refused revoked

namespace RosterInner
variable [DecidableEq A]

/-- The sessions detached at an address, each with the time its connection was lost. -/
def detachedAt (r : RosterInner A T) (addr : A) : List (Uid × Instant) :=
  r.users.entries.filterMap fun e =>
    if e.2.addr = some addr then e.2.outbox.sink.since.map fun since => (e.1, since) else none

/-- End the longest detached at an address while there are more than `cap`. -/
def evict (now : Instant) (addr : A) (cap : Nat) : Nat → RosterInner A T → RosterInner A T
  | 0, r => r
  | n + 1, r =>
    let detached := r.detachedAt addr
    if detached.length ≤ cap then r
    else
      match (sortBy Prod.snd detached).head? with
      | none => r
      | some (oldest, _) => evict now addr cap n (r.endSession takes now oldest)

/-- Its events go to a buffer, broken from the start where some were lost to lagging. -/
def buffer (now : Instant) (uid : Uid) (r : RosterInner A T) : RosterInner A T :=
  { r with users := r.users.mapVals fun u s =>
      if u = uid then
        { s with outbox := { s.outbox with
          sink := .buffering now s.outbox.nextSeq (s.outbox.sink = .lagged) } }
      else s }

/-- `Core::lose`, with whether the session survives detached. -/
def lose (now : Instant) (uid : Uid) (cap : Nat) (r : RosterInner A T) : RosterInner A T × Bool :=
  match r.users.get uid with
  | none => (r, false)
  | some sess =>
    if !sess.parks revoked then (r.endSession takes now uid, false)
    else
      let r := (r.buffer now uid).voicePart takes uid
      if (r.users.get uid).isNone then (r, false)
      else
        let r := r.setStatus takes uid .detached
        match sess.addr with
        | none => (r, true)
        | some addr => (r.evict takes now addr cap r.users.size, true)

end RosterInner

/-! ## What decides it -/

/-- Of a session: its uid, its address and how long it has been detached. -/
abbrev Row (A : Type) := Uid × Option A × Option Instant

def row (e : Uid × UserSession A T) : Row A := (e.1, e.2.addr, e.2.outbox.sink.since)

def Row.detachedAt [DecidableEq A] (addr : A) (row : Row A) : Option (Uid × Instant) :=
  if row.2.1 = some addr then row.2.2.map fun since => (row.1, since) else none

namespace RosterInner

def rows (r : RosterInner A T) : List (Row A) := r.users.entries.map row

def isDetached (r : RosterInner A T) (uid : Uid) : Bool :=
  (r.users.get uid).any fun s => s.outbox.sink.since.isSome

variable {r : RosterInner A T} {uid u : Uid} {now : Instant}

theorem nodup_rows (r : RosterInner A T) : (r.rows.map Prod.fst).Nodup := by
  unfold rows
  rw [List.map_map]
  exact r.users.valid

theorem mem_rows_of_get {s : UserSession A T} (h : r.users.get uid = some s) :
    (uid, s.addr, s.outbox.sink.since) ∈ r.rows :=
  List.mem_map.mpr ⟨(uid, s), Assoc.Map.mem_entries_iff.mpr h, rfl⟩

theorem get_of_mem_rows {row : Row A} (h : row ∈ r.rows) :
    ∃ s, r.users.get row.1 = some s ∧ s.addr = row.2.1 ∧ s.outbox.sink.since = row.2.2 := by
  obtain ⟨⟨u, s⟩, hmem, rfl⟩ := List.mem_map.mp h
  exact ⟨s, Assoc.Map.mem_entries_iff.mp hmem, rfl, rfl⟩

theorem isSome_get_iff : (r.users.get u).isSome = true ↔ ∃ row ∈ r.rows, row.1 = u := by
  constructor
  · intro h
    obtain ⟨s, hs⟩ := Option.isSome_iff_exists.mp h
    exact ⟨_, mem_rows_of_get hs, rfl⟩
  · rintro ⟨row, hrow, rfl⟩
    obtain ⟨s, hs, -⟩ := get_of_mem_rows hrow
    rw [hs]
    rfl

/-- One row a session. -/
theorem row_unique {row row' : Row A} (h : row ∈ r.rows) (h' : row' ∈ r.rows)
    (heq : row.1 = row'.1) : row = row' :=
  List.inj_on_of_nodup_map r.nodup_rows h h' heq

theorem isDetached_iff : r.isDetached u = true ↔ ∃ addr t, (u, addr, some t) ∈ r.rows := by
  unfold isDetached
  constructor
  · intro h
    cases hs : r.users.get u with
    | none =>
      rw [hs] at h
      cases h
    | some s =>
      rw [hs] at h
      obtain ⟨t, ht⟩ := Option.isSome_iff_exists.mp h
      exact ⟨s.addr, t, ht ▸ mem_rows_of_get hs⟩
  · rintro ⟨addr, t, hrow⟩
    obtain ⟨s, hs, -, hsince⟩ := get_of_mem_rows hrow
    rw [hs]
    simp [hsince]

/-! ## Telling leaves the rows -/

theorem since_push (uid : Uid) (ev : Event) (o : Outbox) :
    (o.push takes uid ev).sink.since = o.sink.since := by
  unfold Outbox.push
  cases o.sink with
  | live =>
    dsimp only
    split <;> rfl
  | lagged => rfl
  | buffering since startSeq broken => rfl

theorem rows_tell (whom : Uid → UserSession A T → Bool) (ev : Event) (r : RosterInner A T) :
    (r.tell takes whom ev).rows = r.rows := by
  unfold tell rows Assoc.Map.mapVals
  rw [List.map_map]
  refine List.map_congr_left fun e _ => ?_
  unfold row
  dsimp only [Function.comp]
  split
  · rw [since_push]
  · rfl

theorem rows_sendEach (uids : List Uid) (ev : Event) (r : RosterInner A T) :
    (r.sendEach takes uids ev).rows = r.rows := by
  unfold sendEach
  induction uids generalizing r with
  | nil => rfl
  | cons uid uids ih =>
    rw [List.foldl_cons, ih]
    exact rows_tell takes _ ev r

theorem rows_voicePart (uid : Uid) (r : RosterInner A T) :
    (r.voicePart takes uid).rows = r.rows := by
  unfold voicePart
  cases r.voice.roomOf.get uid with
  | none => rfl
  | some cid =>
    dsimp only
    cases r.voice.rooms.get cid with
    | none => rfl
    | some peers => exact (rows_sendEach takes _ _ _).trans (rows_tell takes _ _ _)

theorem rows_partOne (cid : Nat) (uid : Uid) (r : RosterInner A T) :
    (r.partOne takes cid uid).rows = r.rows := by
  have hroom : (r.voicePartRoom takes uid cid).rows = r.rows := by
    unfold voicePartRoom
    split
    · exact rows_voicePart takes uid r
    · rfl
  unfold partOne
  dsimp only
  rw [← hroom]
  split
  · rfl
  · split
    · split
      · rfl
      · exact rows_sendEach takes _ _ _
    · rfl

theorem rows_leaveAllChats (uid : Uid) (r : RosterInner A T) :
    (r.leaveAllChats takes uid).rows = r.rows := by
  have hfold : ∀ (cids : List (Nat × PrivateChat)) (r : RosterInner A T),
      (cids.foldl (fun r e => r.partOne takes e.1 uid) r).rows = r.rows := by
    intro cids
    induction cids with
    | nil => exact fun _ => rfl
    | cons e cids ih => exact fun r => (ih _).trans (rows_partOne takes e.1 uid r)
  exact hfold _ _

theorem rows_setStatus (uid : Uid) (status : SessionStatus) (r : RosterInner A T) :
    (r.setStatus takes uid status).rows = r.rows := by
  unfold setStatus
  cases r.users.get uid with
  | none => rfl
  | some sess =>
    dsimp only
    split
    · rfl
    · have hstatus : ({ r with users := r.users.mapVals fun u s =>
          if u = uid then { s with status := status } else s } : RosterInner A T).rows = r.rows := by
        unfold rows Assoc.Map.mapVals
        rw [List.map_map]
        refine List.map_congr_left fun e _ => ?_
        dsimp only [Function.comp, row]
        split <;> rfl
      split
      · exact (rows_tell takes _ _ _).trans hstatus
      · exact hstatus

/-- A session that ends leaves its row behind, and the others stay. -/
theorem rows_endSession (now : Instant) (uid : Uid) (r : RosterInner A T) :
    (r.endSession takes now uid).rows = r.rows.filter (·.1 ≠ uid) := by
  unfold endSession
  dsimp only
  have hrows : ((r.voicePart takes uid).leaveAllChats takes uid).rows = r.rows :=
    (rows_leaveAllChats takes uid _).trans (rows_voicePart takes uid r)
  generalize (r.voicePart takes uid).leaveAllChats takes uid = r₁ at hrows ⊢
  rw [← hrows]
  cases hget : r₁.users.get uid with
  | none =>
    symm
    refine List.filter_eq_self.mpr fun row hrow => decide_eq_true fun heq => ?_
    have hsome : (r₁.users.get uid).isSome = true := isSome_get_iff.mpr ⟨row, hrow, heq⟩
    rw [hget] at hsome
    cases hsome
  | some sess =>
    dsimp only
    have hfilter : (r₁.users.entries.filter fun e => e.1 ≠ uid).map row =
        (r₁.users.entries.map row).filter (·.1 ≠ uid) := by
      rw [List.filter_map]
      rfl
    split
    · exact (rows_tell takes _ _ _).trans hfilter
    · exact hfilter

theorem rows_buffer (now : Instant) (uid : Uid) (r : RosterInner A T) :
    (r.buffer now uid).rows =
      r.rows.map fun row => if row.1 = uid then (row.1, row.2.1, some now) else row := by
  unfold buffer rows Assoc.Map.mapVals
  rw [List.map_map, List.map_map]
  refine List.map_congr_left fun e _ => ?_
  unfold row
  dsimp only [Function.comp]
  by_cases hu : e.1 = uid
  · rw [if_pos hu, if_pos hu]
    rfl
  · rw [if_neg hu, if_neg hu]

theorem isSome_get_of_rows {r r' : RosterInner A T} (h : r.rows = r'.rows) (u : Uid) :
    (r.users.get u).isSome = (r'.users.get u).isSome := by
  rw [Bool.eq_iff_iff, isSome_get_iff, isSome_get_iff, h]

theorem isSome_get_buffer (u : Uid) :
    ((r.buffer now uid).users.get u).isSome = (r.users.get u).isSome := by
  show (Option.isSome ((r.users.mapVals _).get u)) = _
  rw [Assoc.Map.get_mapVals, Option.isSome_map]

/-- Who is left of the others when a session that may not be parked ends. -/
theorem get_endSession_iff :
    ((r.endSession takes now uid).users.get u).isSome = true ↔
      (r.users.get u).isSome = true ∧ u ≠ uid := by
  rw [isSome_get_iff, isSome_get_iff, rows_endSession]
  constructor
  · rintro ⟨row, hrow, rfl⟩
    rw [List.mem_filter, decide_eq_true_iff] at hrow
    exact ⟨⟨row, hrow.1, rfl⟩, hrow.2⟩
  · rintro ⟨⟨row, hrow, rfl⟩, hne⟩
    exact ⟨row, List.mem_filter.mpr ⟨hrow, decide_eq_true hne⟩, rfl⟩

/-! ## Who is evicted -/

section Evict
variable [DecidableEq A] {addr : A} {cap n : Nat}

theorem detachedAt_eq (r : RosterInner A T) (addr : A) :
    r.detachedAt addr = r.rows.filterMap (Row.detachedAt addr) := by
  unfold detachedAt rows
  rw [List.filterMap_map]
  rfl

theorem mem_detachedAt {t : Instant} :
    (u, t) ∈ r.detachedAt addr ↔ (u, some addr, some t) ∈ r.rows := by
  rw [detachedAt_eq, List.mem_filterMap]
  constructor
  · rintro ⟨⟨u', addr', since⟩, hrow, heq⟩
    unfold Row.detachedAt at heq
    split at heq
    · rename_i haddr
      obtain ⟨t', rfl, hpair⟩ := Option.map_eq_some_iff.mp heq
      obtain ⟨rfl, rfl⟩ := Prod.mk.inj hpair
      dsimp only at haddr
      exact haddr ▸ hrow
    · cases heq
  · intro hrow
    refine ⟨_, hrow, ?_⟩
    unfold Row.detachedAt
    rw [if_pos rfl]
    rfl

theorem nodup_detachedAt (r : RosterInner A T) (addr : A) :
    ((r.detachedAt addr).map Prod.fst).Nodup := by
  rw [detachedAt_eq, List.map_filterMap]
  refine (r.nodup_rows).sublist ?_
  induction r.rows with
  | nil => exact List.Sublist.refl _
  | cons row rows ih =>
    rw [List.filterMap_cons, List.map_cons]
    unfold Row.detachedAt
    split
    · rename_i heq
      exact ih.cons _
    · rename_i u heq
      obtain ⟨e, hrow, rfl⟩ := Option.map_eq_some_iff.mp heq
      split at hrow
      · obtain ⟨t, -, rfl⟩ := Option.map_eq_some_iff.mp hrow
        exact ih.cons_cons _
      · cases hrow

/-- One that ends is no longer among the detached, and the others are as they were. -/
theorem detachedAt_endSession (now : Instant) (u : Uid) (r : RosterInner A T) :
    (r.endSession takes now u).detachedAt addr = (r.detachedAt addr).filter (·.1 ≠ u) := by
  rw [detachedAt_eq, detachedAt_eq, rows_endSession]
  induction r.rows with
  | nil => rfl
  | cons row rows ih =>
    rw [List.filter_cons, List.filterMap_cons]
    cases hrow : Row.detachedAt addr row with
    | none =>
      by_cases hu : row.1 = u
      · simpa [hu] using ih
      · simpa [hu, List.filterMap_cons, hrow] using ih
    | some e =>
      have he : e.1 = row.1 := by
        unfold Row.detachedAt at hrow
        split at hrow
        · obtain ⟨t, -, rfl⟩ := Option.map_eq_some_iff.mp hrow
          rfl
        · cases hrow
      by_cases hu : row.1 = u
      · simpa [hu, he] using ih
      · simpa [hu, he, List.filterMap_cons, hrow] using ih

theorem detachedAt_endSession_of_mem {t : Instant} (h : (u, t) ∈ r.detachedAt addr) :
    (r.endSession takes now u).detachedAt addr = (r.detachedAt addr).erase (u, t) := by
  have hn := r.nodup_detachedAt addr
  rw [detachedAt_endSession, hn.of_map.erase_eq_filter]
  refine List.filter_congr fun e he => ?_
  rw [Bool.eq_iff_iff, decide_eq_true_iff, bne_iff_ne]
  refine not_congr ⟨fun heq => ?_, fun heq => heq ▸ rfl⟩
  exact List.inj_on_of_nodup_map hn he h heq

/-- Who is left when the longest detached at an address have ended: those not detached there, and
the latest. -/
theorem mem_rows_evict (row : Row A) :
    row ∈ (r.evict takes now addr cap n).rows ↔
      row ∈ r.rows ∧ ∀ e ∈ row.detachedAt addr, e ∈ keepLatest Prod.snd cap n (r.detachedAt addr) := by
  have hself : ∀ (r : RosterInner A T) (row : Row A), row ∈ r.rows →
      ∀ e ∈ row.detachedAt addr, e ∈ r.detachedAt addr := by
    intro r row hrow e he
    rw [detachedAt_eq]
    exact List.mem_filterMap.mpr ⟨row, hrow, he⟩
  induction n generalizing r with
  | zero => exact ⟨fun h => ⟨h, hself r row h⟩, fun h => h.1⟩
  | succ n ih =>
    rw [evict]
    by_cases hle : (r.detachedAt addr).length ≤ cap
    · rw [if_pos hle, keepLatest_of_le hle]
      exact ⟨fun h => ⟨h, hself r row h⟩, fun h => h.1⟩
    · obtain ⟨⟨oldest, t⟩, hhead, hmem, heq⟩ :=
        keepLatest_of_gt (n := n) Prod.snd (not_le.mp hle)
      rw [if_neg hle, hhead, heq]
      dsimp only
      refine ih.trans ?_
      rw [detachedAt_endSession_of_mem takes hmem, rows_endSession, List.mem_filter]
      refine ⟨fun h => ⟨h.1.1, h.2⟩, fun h => ⟨⟨h.1, decide_eq_true fun hu => ?_⟩, h.2⟩⟩
      -- the row of the one that ended is not among what is kept
      have hrow : row = (oldest, some addr, some t) :=
        row_unique h.1 (mem_detachedAt.mp hmem) hu
      have hkept := h.2 (oldest, t) (by rw [hrow]; unfold Row.detachedAt; rw [if_pos rfl]; rfl)
      exact (r.nodup_detachedAt addr).of_map.not_mem_erase (keepLatest_sublist.subset hkept)

theorem detachedAt_evict (e : Uid × Instant) :
    e ∈ (r.evict takes now addr cap n).detachedAt addr ↔
      e ∈ keepLatest Prod.snd cap n (r.detachedAt addr) := by
  obtain ⟨u, t⟩ := e
  rw [mem_detachedAt, mem_rows_evict]
  have hrow : Row.detachedAt addr ((u, some addr, some t) : Row A) = some (u, t) := by
    unfold Row.detachedAt
    rw [if_pos rfl]
    rfl
  constructor
  · exact fun h => h.2 _ hrow
  · intro h
    refine ⟨mem_detachedAt.mp (keepLatest_sublist.subset h), fun e he => ?_⟩
    rw [hrow] at he
    exact Option.some.inj he ▸ h

theorem length_detachedAt_evict (hturns : (r.detachedAt addr).length ≤ cap + n) :
    ((r.evict takes now addr cap n).detachedAt addr).length = min (r.detachedAt addr).length cap := by
  have hperm : ((r.evict takes now addr cap n).detachedAt addr).Perm
      (keepLatest Prod.snd cap n (r.detachedAt addr)) := by
    refine (List.perm_ext_iff_of_nodup (nodup_detachedAt _ _).of_map ?_).mpr fun e =>
      detachedAt_evict takes e
    exact (nodup_detachedAt r addr).of_map.sublist keepLatest_sublist
  rw [hperm.length_eq, length_keepLatest hturns]

/-- Of a session detached at the address, whether it is among the latest decides. -/
theorem get_evict_iff :
    ((r.evict takes now addr cap n).users.get u).isSome = true ↔
      (r.users.get u).isSome = true ∧
        ∀ t, (u, t) ∈ r.detachedAt addr → (u, t) ∈ keepLatest Prod.snd cap n (r.detachedAt addr) := by
  rw [isSome_get_iff, isSome_get_iff]
  constructor
  · rintro ⟨row, hrow, rfl⟩
    rw [mem_rows_evict] at hrow
    refine ⟨⟨row, hrow.1, rfl⟩, fun t ht => hrow.2 _ ?_⟩
    rw [row_unique hrow.1 (mem_detachedAt.mp ht) rfl]
    unfold Row.detachedAt
    rw [if_pos rfl]
    rfl
  · rintro ⟨⟨row, hrow, rfl⟩, hkept⟩
    refine ⟨row, (mem_rows_evict takes row).mpr ⟨hrow, fun e he => ?_⟩, rfl⟩
    have hmem : e ∈ r.detachedAt addr := by
      rw [detachedAt_eq]
      exact List.mem_filterMap.mpr ⟨row, hrow, he⟩
    have heq : e.1 = row.1 := by
      unfold Row.detachedAt at he
      split at he
      · obtain ⟨t, -, rfl⟩ := Option.map_eq_some_iff.mp he
        rfl
      · cases he
    obtain ⟨u', t⟩ := e
    obtain rfl : u' = row.1 := heq
    exact hkept t hmem

theorem length_detachedAt_le (r : RosterInner A T) (addr : A) :
    (r.detachedAt addr).length ≤ r.users.size :=
  List.length_filterMap_le _ _

end Evict

/-! ## What the answer says -/

section Answers
variable [DecidableEq A]

/-- The sessions detached at an address were one of them to detach now. -/
def crowd (r : RosterInner A T) (now : Instant) (uid : Uid) (addr : A) : List (Uid × Instant) :=
  r.users.entries.filterMap fun e =>
    if e.2.addr = some addr then
      if e.1 = uid then some (uid, now) else e.2.outbox.sink.since.map fun since => (e.1, since)
    else none

/-- A lost connection was answered right: the session survives detached just when that is the
answer, at most `cap` of its address are detached, those ended are the longest detached that had to
be, or the session itself where it may not be parked. -/
structure Answers (now : Instant) (uid : Uid) (cap : Nat) (r r' : RosterInner A T) (survives : Bool) :
    Prop where
  answer : survives = true ↔ r'.isDetached uid = true
  held : ∀ s addr, r.users.get uid = some s → s.addr = some addr →
    (r'.detachedAt addr).length ≤ cap
  refused : ∀ s, r.users.get uid = some s → s.parks revoked = false → r'.users.get uid = none
  needed : ∀ s addr, r.users.get uid = some s → s.parks revoked = true → s.addr = some addr →
    ((r.crowd now uid addr).filter fun e => (r'.users.get e.1).isNone).length =
      (r.crowd now uid addr).length - cap
  longest : ∀ s addr, r.users.get uid = some s → s.parks revoked = true → s.addr = some addr →
    ∀ e ∈ r.crowd now uid addr, ∀ e' ∈ r.crowd now uid addr,
      r'.users.get e.1 = none → r'.users.get e'.1 ≠ none → e.2 ≤ e'.2
  ended : ∀ u, r.users.get u ≠ none → r'.users.get u = none → ∃ s, r.users.get uid = some s ∧
    if s.parks revoked then ∃ addr t, s.addr = some addr ∧ (u, t) ∈ r.crowd now uid addr else u = uid
  gained : ∀ u, r.users.get u = none → r'.users.get u = none

/-- When it is: fewer than `cap` of the detached at its address are after it, lost at the same
moment and iterated later, or, where it is not parked, no more than `cap` others are there. -/
def Spared (r : RosterInner A T) (now : Instant) (uid : Uid) (cap : Nat) : Prop :=
  ∀ s addr, r.users.get uid = some s → s.addr = some addr →
    if s.parks revoked then later Prod.snd (uid, now) (r.crowd now uid addr) < cap
    else ((r.detachedAt addr).filter fun e => e.1 ≠ uid).length ≤ cap

/-! ## When it is right -/

theorem crowd_eq (r : RosterInner A T) (now : Instant) (uid : Uid) (addr : A) :
    r.crowd now uid addr = (r.buffer now uid).detachedAt addr := by
  unfold crowd
  rw [detachedAt_eq, rows_buffer, List.filterMap_map]
  unfold rows
  rw [List.filterMap_map]
  refine List.filterMap_congr fun e _ => ?_
  unfold row Row.detachedAt
  dsimp only [Function.comp]
  by_cases hu : e.1 = uid
  · simp only [hu, if_true, Option.map_some]
  · simp only [if_neg hu]

variable {s : UserSession A T} {cap : Nat}

/-- A session that may not be parked ends. -/
theorem lose_refused (hs : r.users.get uid = some s) (hp : s.parks revoked = false) :
    r.lose takes revoked now uid cap = (r.endSession takes now uid, false) := by
  unfold lose
  rw [hs]
  dsimp only
  rw [hp]
  rfl

variable (now cap) in
/-- One that may is parked, and then the longest detached of its address end. -/
theorem lose_parked (hs : r.users.get uid = some s) (hp : s.parks revoked = true) :
    ∃ r₁ : RosterInner A T, r₁.rows = (r.buffer now uid).rows ∧
      r.lose takes revoked now uid cap =
        match s.addr with
        | none => (r₁, true)
        | some addr => (r₁.evict takes now addr cap r₁.users.size, true) := by
  refine ⟨((r.buffer now uid).voicePart takes uid).setStatus takes uid .detached, ?_, ?_⟩
  · rw [rows_setStatus, rows_voicePart]
  · have hsome : (((r.buffer now uid).voicePart takes uid).users.get uid).isSome = true := by
      rw [isSome_get_iff, rows_voicePart, ← isSome_get_iff]
      show (Option.isSome ((r.users.mapVals _).get uid)) = true
      rw [Assoc.Map.get_mapVals, hs]
      rfl
    unfold lose
    rw [hs]
    dsimp only
    rw [hp, Option.isNone_eq_false_iff.mpr hsome]
    rfl

theorem answers_refused (hs : r.users.get uid = some s) (hp : s.parks revoked = false) :
    Answers revoked now uid cap r (r.endSession takes now uid) false ↔
      ∀ addr, s.addr = some addr → ((r.detachedAt addr).filter fun e => e.1 ≠ uid).length ≤ cap := by
  have hgone : (r.endSession takes now uid).users.get uid = none :=
    Option.isNone_iff_eq_none.mp (by
      rw [← Option.not_isSome, Bool.not_eq_true', ← Bool.not_eq_true, get_endSession_iff]
      exact fun h => h.2 rfl)
  constructor
  · intro h addr haddr
    rw [← detachedAt_endSession takes now]
    exact h.held s addr hs haddr
  · intro h
    refine ⟨?_, ?_, fun _ _ _ => hgone, ?_, ?_, ?_, ?_⟩
    · unfold isDetached
      rw [hgone]
      exact iff_of_false Bool.false_ne_true Bool.false_ne_true
    · intro s' addr hs' haddr
      obtain rfl := Option.some.inj (hs.symm.trans hs')
      rw [detachedAt_endSession]
      exact h addr haddr
    · intro s' addr hs' hp'
      obtain rfl := Option.some.inj (hs.symm.trans hs')
      exact absurd (hp.symm.trans hp') Bool.false_ne_true
    · intro s' addr hs' hp'
      obtain rfl := Option.some.inj (hs.symm.trans hs')
      exact absurd (hp.symm.trans hp') Bool.false_ne_true
    · intro u hu hnone
      refine ⟨s, hs, ?_⟩
      rw [hp]
      by_contra hne
      have hsome : ((r.endSession takes now uid).users.get u).isSome = true :=
        (get_endSession_iff takes).mpr ⟨Option.isSome_iff_ne_none.mpr hu, hne⟩
      rw [hnone] at hsome
      cases hsome
    · intro u hu
      by_contra hne
      have := ((get_endSession_iff takes).mp (Option.isSome_iff_ne_none.mpr hne)).1
      rw [hu] at this
      cases this

/-- One that may be parked is among the detached at its address. -/
theorem mem_crowd {addr : A} (hs : r.users.get uid = some s) (haddr : s.addr = some addr) :
    (uid, now) ∈ r.crowd now uid addr := by
  rw [crowd_eq, mem_detachedAt, rows_buffer]
  refine List.mem_map.mpr ⟨_, mem_rows_of_get hs, ?_⟩
  rw [if_pos rfl, haddr]

/-- With no address it stays, and so does everyone else. -/
theorem answers_parked_nowhere {r₁ : RosterInner A T} (hs : r.users.get uid = some s)
    (haddr : s.addr = none) (hp : s.parks revoked = true)
    (hrows : r₁.rows = (r.buffer now uid).rows) : Answers revoked now uid cap r r₁ true := by
  have hsome : ∀ u, (r₁.users.get u).isSome = (r.users.get u).isSome := fun u =>
    (isSome_get_of_rows hrows u).trans (isSome_get_buffer u)
  have hnowhere : ∀ s' addr, r.users.get uid = some s' → s'.addr ≠ some addr := by
    intro s' addr hs' haddr'
    obtain rfl := Option.some.inj (hs.symm.trans hs')
    rw [haddr] at haddr'
    cases haddr'
  refine ⟨iff_of_true rfl ?_, ?_, ?_, ?_, ?_, ?_, ?_⟩
  · rw [isDetached_iff, hrows, rows_buffer]
    exact ⟨s.addr, now, List.mem_map.mpr ⟨_, mem_rows_of_get hs, by rw [if_pos rfl]⟩⟩
  · exact fun s' addr hs' haddr' => absurd haddr' (hnowhere s' addr hs')
  · intro s' hs' hp'
    obtain rfl := Option.some.inj (hs.symm.trans hs')
    exact absurd (hp.symm.trans hp') Bool.noConfusion
  · exact fun s' addr hs' _ haddr' => absurd haddr' (hnowhere s' addr hs')
  · exact fun s' addr hs' _ haddr' => absurd haddr' (hnowhere s' addr hs')
  · intro u hu hnone
    have h := hsome u
    rw [hnone, Option.isSome_iff_ne_none.mpr hu] at h
    cases h
  · intro u hu
    have h := hsome u
    rw [hu] at h
    exact Option.not_isSome_iff_eq_none.mp (by rw [h]; exact Bool.false_ne_true)

/-- With one, it answers right where it is not among the longest detached itself. -/
theorem answers_parked_at {r₁ : RosterInner A T} {addr : A} (hs : r.users.get uid = some s)
    (haddr : s.addr = some addr) (hp : s.parks revoked = true)
    (hrows : r₁.rows = (r.buffer now uid).rows) :
    Answers revoked now uid cap r (r₁.evict takes now addr cap r₁.users.size) true ↔
      later Prod.snd (uid, now) (r.crowd now uid addr) < cap := by
  have hcrowd : r₁.detachedAt addr = r.crowd now uid addr := by
    rw [crowd_eq, detachedAt_eq, detachedAt_eq, hrows]
  have hturns : (r₁.detachedAt addr).length ≤ cap + r₁.users.size :=
    (length_detachedAt_le r₁ addr).trans (Nat.le_add_left _ _)
  have hn := nodup_detachedAt r₁ addr
  have hmem : (uid, now) ∈ r₁.detachedAt addr := hcrowd ▸ mem_crowd hs haddr
  have hsome : ∀ u, (r₁.users.get u).isSome = (r.users.get u).isSome := fun u =>
    (isSome_get_of_rows hrows u).trans (isSome_get_buffer u)
  have hthere : ∀ e ∈ r₁.detachedAt addr, (r₁.users.get e.1).isSome = true := fun e he =>
    isSome_get_iff.mpr ⟨_, mem_detachedAt.mp he, rfl⟩
  -- who of the detached at the address has ended
  have hout : ∀ e ∈ r₁.detachedAt addr,
      ((r₁.evict takes now addr cap r₁.users.size).users.get e.1).isSome = true ↔
        e ∈ keepLatest Prod.snd cap r₁.users.size (r₁.detachedAt addr) := by
    intro e he
    rw [get_evict_iff]
    refine ⟨fun h => h.2 e.2 he, fun h => ⟨hthere e he, fun t ht => ?_⟩⟩
    rwa [List.inj_on_of_nodup_map hn ht he rfl]
  have hanswer : (r₁.evict takes now addr cap r₁.users.size).isDetached uid = true ↔
      later Prod.snd (uid, now) (r.crowd now uid addr) < cap := by
    rw [← hcrowd, ← mem_keepLatest hn.of_map hturns hmem]
    constructor
    · intro h
      obtain ⟨addr', t, hrow⟩ := isDetached_iff.mp h
      exact (hout _ hmem).mp (isSome_get_iff.mpr ⟨_, hrow, rfl⟩)
    · intro h
      exact isDetached_iff.mpr ⟨_, _, mem_detachedAt.mp ((detachedAt_evict takes _).mpr h)⟩
  refine ⟨fun h => hanswer.mp (h.answer.mp rfl), fun h => ?_⟩
  refine ⟨iff_of_true rfl (hanswer.mpr h), ?_, ?_, ?_, ?_, ?_, ?_⟩
  · intro s' addr' hs' haddr'
    obtain rfl := Option.some.inj (hs.symm.trans hs')
    obtain rfl := Option.some.inj (haddr.symm.trans haddr')
    rw [length_detachedAt_evict takes hturns]
    exact Nat.min_le_right _ _
  · intro s' hs' hp'
    obtain rfl := Option.some.inj (hs.symm.trans hs')
    exact absurd (hp.symm.trans hp') Bool.noConfusion
  · intro s' addr' hs' _ haddr'
    obtain rfl := Option.some.inj (hs.symm.trans hs')
    obtain rfl := Option.some.inj (haddr.symm.trans haddr')
    rw [← hcrowd]
    have hperm : ((r₁.detachedAt addr).filter fun e =>
        ((r₁.evict takes now addr cap r₁.users.size).users.get e.1).isSome).Perm
        (keepLatest Prod.snd cap r₁.users.size (r₁.detachedAt addr)) := by
      refine (List.perm_ext_iff_of_nodup (hn.of_map.filter _)
        (hn.of_map.sublist keepLatest_sublist)).mpr fun e => ?_
      rw [List.mem_filter]
      exact ⟨fun h => (hout e h.1).mp h.2, fun h =>
        ⟨keepLatest_sublist.subset h, (hout e (keepLatest_sublist.subset h)).mpr h⟩⟩
    have hstay := hperm.length_eq
    rw [length_keepLatest hturns] at hstay
    have hsplit := List.length_eq_length_filter_add (l := r₁.detachedAt addr) fun e =>
      ((r₁.evict takes now addr cap r₁.users.size).users.get e.1).isSome
    simp only [Option.not_isSome] at hsplit
    omega
  · intro s' addr' hs' _ haddr' e he e' he' hnone hstay
    obtain rfl := Option.some.inj (hs.symm.trans hs')
    obtain rfl := Option.some.inj (haddr.symm.trans haddr')
    rw [← hcrowd] at he he'
    refine keepLatest_least hn.of_map he (fun hkept => ?_)
      ((hout e' he').mp (Option.isSome_iff_ne_none.mpr hstay))
    have := (hout e he).mpr hkept
    rw [hnone] at this
    cases this
  · intro u hu hnone
    refine ⟨s, hs, ?_⟩
    rw [if_pos hp]
    by_contra hne
    refine Option.isSome_iff_ne_none.mp ((get_evict_iff takes).mpr ⟨?_, fun t ht => ?_⟩) hnone
    · rw [hsome]
      exact Option.isSome_iff_ne_none.mpr hu
    · exact absurd ⟨addr, t, haddr, hcrowd ▸ ht⟩ hne
  · intro u hu
    by_contra hne
    have := ((get_evict_iff takes).mp (Option.isSome_iff_ne_none.mpr hne)).1
    rw [hsome, hu] at this
    cases this

/-- Losing a connection answers what happened just when the session is not itself among those that
make room for it. -/
theorem answers_lose (takes : Uid → Nat → Event → Bool) (revoked : T → Bool) (now : Instant)
    (uid : Uid) (cap : Nat) (r : RosterInner A T) :
    Answers revoked now uid cap r (r.lose takes revoked now uid cap).1
        (r.lose takes revoked now uid cap).2 ↔
      Spared revoked r now uid cap := by
  cases hs : r.users.get uid with
  | none =>
    have hlose : r.lose takes revoked now uid cap = (r, false) := by
      unfold lose
      rw [hs]
    have hnone : ∀ s, r.users.get uid ≠ some s := fun s h => by
      rw [hs] at h
      cases h
    rw [hlose]
    refine iff_of_true ⟨?_, ?_, ?_, ?_, ?_, ?_, fun _ h => h⟩ fun s _ h => absurd h (hnone s)
    · unfold isDetached
      rw [hs]
      exact iff_of_false Bool.false_ne_true Bool.false_ne_true
    · exact fun s _ h => absurd h (hnone s)
    · exact fun s h => absurd h (hnone s)
    · exact fun s _ h => absurd h (hnone s)
    · exact fun s _ h => absurd h (hnone s)
    · exact fun u hu h => absurd h hu
  | some s =>
    have hspared : Spared revoked r now uid cap ↔ ∀ addr, s.addr = some addr →
        if s.parks revoked then later Prod.snd (uid, now) (r.crowd now uid addr) < cap
        else ((r.detachedAt addr).filter fun e => e.1 ≠ uid).length ≤ cap := by
      refine ⟨fun h addr => h s addr hs, fun h s' addr hs' => ?_⟩
      obtain rfl := Option.some.inj (hs.symm.trans hs')
      exact h addr
    rw [hspared]
    cases hp : s.parks revoked with
    | false =>
      rw [lose_refused takes revoked hs hp]
      exact answers_refused takes revoked hs hp
    | true =>
      obtain ⟨r₁, hrows, hlose⟩ := lose_parked takes revoked now cap hs hp
      rw [hlose]
      cases haddr : s.addr with
      | none => exact iff_of_true (answers_parked_nowhere revoked hs haddr hp hrows) (by simp)
      | some addr =>
        refine (answers_parked_at takes revoked hs haddr hp hrows).trans ⟨?_, fun h => h addr rfl⟩
        intro h addr' haddr'
        exact Option.some.inj haddr' ▸ h

end Answers

def attached (addr : Nat) : UserSession Nat Nat where
  addr := some addr
  canDetach := true
  kicked := false
  identity := none
  visible := true
  status := .active
  outbox := ⟨1, .live⟩

def alone : RosterInner Nat Nat where
  users := Assoc.Map.empty.set 1 (attached 7)
  chats := .empty
  voice := ⟨.empty, .empty⟩
  freedUids := ⟨[], ∅⟩

/-- Where none may be detached the session is said to survive, and is gone. -/
theorem gone_answered :
    (alone.lose (fun _ _ _ => true) (fun _ => false) 5 1 0).2 = true ∧
      (alone.lose (fun _ _ _ => true) (fun _ => false) 5 1 0).1.users.get 1 = none ∧
      ¬ Answers (fun _ => false) 5 1 0 alone (alone.lose (fun _ _ _ => true) (fun _ => false) 5 1 0).1
        (alone.lose (fun _ _ _ => true) (fun _ => false) 5 1 0).2 := by
  refine ⟨by decide, by decide, fun h => ?_⟩
  exact absurd (h.answer.mp (by decide)) (by decide)

end RosterInner

end Telling

end HxdNg.Roster.Losing
