import Mathlib
import HxdNg.Identity.Forms

/-!
# The server key handover

A server key signs over to the successor it committed to, and a client checks the chain of handovers
a server serves against what it pinned for the host.

* `walk_eq_ok` : what the walk over a chain accepts, in closed form (`Walks`);
* `check_follow_iff` : when, and with what, `check` moves the pin.
-/

namespace HxdNg.Identity

open Cbor

/-- The server challenge's fields the handover check reads. -/
structure ServerChallenge where
  serverKey : PublicKey
  next : Option (Bytes 32)
  deriving DecidableEq

structure Handover where
  old : PublicKey
  new : PublicKey
  /-- `new`'s own commitment. -/
  next : Option (Bytes 32)
  /-- When `new` took over. -/
  time : UInt64
  deriving DecidableEq

namespace Handover

def domain : String := "hl-identity/server-handover/v1"

/-- The most handovers a server keeps and a client follows. -/
def maxChain : Nat := 16

variable (P : Primitives)

/-- What a `next` commits to. -/
def commitment (key : PublicKey) : Bytes 32 := P.sha256 key.val

def unsigned (h : Handover) : Value :=
  map [("v", some (.uint version)), ("old", some (.bytes h.old.val)),
    ("new", some (.bytes h.new.val)), ("next", h.next.map fun n => .bytes n.val),
    ("time", some (.uint h.time))]

def parse (bytes : List UInt8) : Except Error Handover := do
  let env ← Envelope.open bytes
  let v := env.value
  let old ← bytes32 v "old"
  let new ← bytes32 v "new"
  let next ← optBytes32 v "next"
  let time ← uint v "time"
  if new = old then throw (.badField "new")
  else
    env.verify P old domain
    return ⟨old, new, next, time⟩

/-- Sign with the old key's seed, which the source asserts is `h.old`'s. -/
def sign (h : Handover) (old : Bytes 32) : Except Error (List UInt8) := do
  let bytes := Envelope.seal h.unsigned (signDomain P old domain)
  let _ ← parse P bytes
  return bytes

/-- A handover a client followed or took at a first pin. -/
structure Followed where
  old : PublicKey
  /-- SHA-256 of the handover's bytes as served. -/
  sha256 : Bytes 32
  time : UInt64
  next : Option (Bytes 32)
  deriving DecidableEq

/-- Whether a challenge under the pinned key passes without a warning. -/
def sameKey (remembered seen : Option (Bytes 32)) : Bool := remembered.isNone || remembered = seen

/-- What a client remembers of a host. -/
structure Pinned where
  key : PublicKey
  commitment : Option (Bytes 32)
  followed : List Followed
  dismissed : List (Bytes 32)
  deriving DecidableEq

/-- Why a served chain cannot be followed. -/
inductive Broken where
  | tooLong
  | notServed
  | commitment
  | bad (e : Error)
  | link
  | time
  | repeatedKey
  | serverKey
  | next
  deriving DecidableEq

inductive Warning where
  | fork (sha256 : Bytes 32)
  | recommitted
  | chain (b : Broken)
  deriving DecidableEq

inductive Verdict where
  | keep
  | follow (key : PublicKey) (commitment : Option (Bytes 32)) (followed : List Followed)
  | warn (w : Warning)
  deriving DecidableEq

abbrev Served := Except Error Handover × Bytes 32

/-- One entry of a list, verified and hashed. -/
def serveOne (b : List UInt8) : Served := (parse P b, P.sha256 b)

/-- A list longer than allowed is never verified. -/
def serve (chain : List (List UInt8)) : Option (List Served) :=
  if chain.length > maxChain then none else some (chain.map (serveOne P))

/-- A verified handover, not dismissed, from a record's `old` with other bytes. -/
def conflicts (followed : List Followed) (dismissed : List (Bytes 32)) (s : Served) : Bool :=
  match s with
  | (.ok h, sha256) =>
    ¬ dismissed.contains sha256 ∧ followed.any fun f => f.old = h.old ∧ f.sha256 ≠ sha256
  | (.error _, _) => false

/-- A handover that does not verify forks nothing. -/
def forks (followed : List Followed) (dismissed : List (Bytes 32)) :
    List Served → Except Warning Unit
  | [] => .ok ()
  | s :: rest =>
    if conflicts followed dismissed s then .error (.fork s.2) else forks followed dismissed rest

/-- What the walk carries from one handover to the next. -/
structure WalkState where
  keys : List PublicKey
  prev : Option Handover
  followed : List Followed

def record (h : Handover) (sha256 : Bytes 32) : Followed := ⟨h.old, sha256, h.time, h.next⟩

/-- The link to the previous handover, and the keys seen, the first `old` among them. -/
def walkLink (st : WalkState) (h : Handover) : Except Broken (List PublicKey) :=
  match st.prev with
  | some p =>
    if h.old ≠ p.new ∨ p.next ≠ some (commitment P h.new) then .error .link
    else if h.time ≤ p.time then .error .time
    else .ok st.keys
  | none => .ok (st.keys ++ [h.old])

def walkStep (now : UInt64) (st : WalkState) (s : Served) : Except Broken WalkState :=
  match s with
  | (.error e, _) => .error (.bad e)
  | (.ok h, sha256) => do
    let keys ← walkLink P st h
    if h.time > satAdd now skew then throw .time
    else if keys.contains h.new then throw .repeatedKey
    else return ⟨keys ++ [h.new], some h, st.followed ++ [record h sha256]⟩

/-- The checks over the served handovers from the pinned key on. -/
def walk (chain : List Served) (challenge : ServerChallenge) (now : UInt64) :
    Except Broken (List Followed) := do
  let st ← chain.foldlM (walkStep P now) ⟨[], none, []⟩
  match st.prev with
  | some last =>
    if last.new ≠ challenge.serverKey then throw .serverKey
    else if last.next ≠ challenge.next then throw .next
    else return st.followed
  | none => return st.followed

/-- A first pin: the aliases the chain gives, none if it fails. -/
def pin (chain : List (List UInt8)) (challenge : ServerChallenge) (now : UInt64) : List Followed :=
  match serve P chain with
  | some served =>
    match walk P served challenge now with
    | .ok followed => followed
    | .error _ => []
  | none => []

/-- A pin again after the user accepted a warning: only the fork check. -/
def repin (chain : List (List UInt8)) (followed : List Followed) (dismissed : List (Bytes 32)) :
    Except Warning Unit :=
  forks followed dismissed ((serve P chain).getD [])

/-- The first verified handover from the pinned key, and the list from it on. -/
def fromPinned (key : PublicKey) : List Served → Option (Handover × List Served)
  | [] => none
  | (.ok h, sha256) :: rest =>
    if h.old = key then some (h, (.ok h, sha256) :: rest) else fromPinned key rest
  | (.error _, _) :: rest => fromPinned key rest

/-- The records of a chain that carries the pin to the challenge's key. -/
def follow (pinned : Pinned) (served : Option (List Served)) (challenge : ServerChallenge)
    (now : UInt64) : Except Broken (List Followed) :=
  match served with
  | none => .error .tooLong
  | some served =>
    match fromPinned pinned.key served with
    | none => .error .notServed
    | some (first, chain) =>
      if pinned.commitment ≠ some (commitment P first.new) then .error .commitment
      else if pinned.followed.any fun f => f.time ≥ first.time then .error .time
      else do
        let followed ← walk P chain challenge now
        return followed.filter fun f => ¬ pinned.followed.any fun r => r.old = f.old

/-- Every later fetch of discovery. -/
def check (pinned : Pinned) (chain : List (List UInt8)) (challenge : ServerChallenge)
    (now : UInt64) : Verdict :=
  let served := serve P chain
  match forks pinned.followed pinned.dismissed (served.getD []) with
  | .error w => .warn w
  | .ok () =>
    if challenge.serverKey = pinned.key then
      if sameKey pinned.commitment challenge.next then .keep else .warn .recommitted
    else
      match follow P pinned served challenge now with
      | .ok followed => .follow challenge.serverKey challenge.next followed
      | .error b => .warn (.chain b)

/-! ## What the walk accepts -/

/-- `b` is the handover `a` handed over and committed to. -/
def Link (a b : Handover) : Prop := b.old = a.new ∧ a.next = some (commitment P b.new)

/-- The keys of a chain, the first `old` among them. -/
def chainKeys (h : Handover) (hs : List Handover) : List PublicKey := h.old :: (h :: hs).map new

/-- The chain `h :: hs` carries its first `old` to the challenge's key. -/
structure Walks (challenge : ServerChallenge) (now : UInt64) (h : Handover) (hs : List Handover) :
    Prop where
  links : (h :: hs).IsChain (Link P)
  times : (h :: hs).IsChain fun a b => a.time < b.time
  last_time : (hs.getLastD h).time ≤ satAdd now skew
  keys : (chainKeys h hs).Nodup
  serverKey : (hs.getLastD h).new = challenge.serverKey
  next : (hs.getLastD h).next = challenge.next

/-- Byte strings that verify, with what they say. -/
def Verify (bs : List (List UInt8)) (hs : List Handover) : Prop :=
  List.Forall₂ (fun b h => parse P b = .ok h) bs hs

/-- The records of verified byte strings. -/
def records (bs : List (List UInt8)) (hs : List Handover) : List Followed :=
  List.zipWith (fun b h => record h (P.sha256 b)) bs hs

section Walk
variable {P : Primitives} {now : UInt64}

theorem walkStep_first_eq_ok {b : List UInt8} {st : WalkState} :
    walkStep P now ⟨[], none, []⟩ (serveOne P b) = .ok st ↔
      ∃ h, parse P b = .ok h ∧ h.time ≤ satAdd now skew ∧ h.new ≠ h.old ∧
        st = ⟨[h.old, h.new], some h, [record h (P.sha256 b)]⟩ := by
  cases hb : parse P b with
  | error e => simp [walkStep, serveOne, hb]
  | ok h =>
    simp only [walkStep, walkLink, serveOne, hb, ok_bind, ite_throw_eq_ok, pure_eq_ok,
      Except.ok.injEq, exists_eq_left', List.nil_append, List.contains_iff_mem, List.mem_singleton,
      UInt64.not_lt, gt_iff_lt, @eq_comm _ st, List.singleton_append, ne_eq]

theorem walkStep_next_eq_ok {keys : List PublicKey} {p : Handover} {acc : List Followed}
    {b : List UInt8} {st : WalkState} :
    walkStep P now ⟨keys, some p, acc⟩ (serveOne P b) = .ok st ↔
      ∃ h, parse P b = .ok h ∧ Link P p h ∧ p.time < h.time ∧ h.time ≤ satAdd now skew ∧
        h.new ∉ keys ∧ st = ⟨keys ++ [h.new], some h, acc ++ [record h (P.sha256 b)]⟩ := by
  cases hb : parse P b with
  | error e => simp [walkStep, serveOne, hb]
  | ok h =>
    simp only [walkStep, walkLink, serveOne, hb, bind_eq_ok, ite_error_eq_ok, ite_throw_eq_ok,
      pure_eq_ok, Except.ok.injEq, Link, exists_eq_left', List.contains_iff_mem, not_or, not_not,
      UInt64.not_le, UInt64.not_lt, gt_iff_lt, exists_eq_left', and_assoc]
    constructor
    · rintro ⟨keys', h1, h2, h3, rfl, h4, h5, rfl⟩
      exact ⟨h1, h2, h3, h4, h5, rfl⟩
    · rintro ⟨h1, h2, h3, h4, h5, rfl⟩
      exact ⟨keys, h1, h2, h3, rfl, h4, h5, rfl⟩

theorem foldlM_walkStep_eq_ok {keys : List PublicKey} {p : Handover} {acc : List Followed}
    {bs : List (List UInt8)} {st : WalkState} (hkeys : keys.Nodup) :
    (bs.map (serveOne P)).foldlM (walkStep P now) ⟨keys, some p, acc⟩ = .ok st ↔
      ∃ hs, Verify P bs hs ∧ (p :: hs).IsChain (Link P) ∧
        ((p :: hs).IsChain fun a b => a.time < b.time) ∧ (∀ h ∈ hs, h.time ≤ satAdd now skew) ∧
        (keys ++ hs.map new).Nodup ∧
        st = ⟨keys ++ hs.map new, some (hs.getLastD p), acc ++ records P bs hs⟩ := by
  induction bs generalizing keys p acc with
  | nil => simp [Verify, records, hkeys, eq_comm, pure, Except.pure]
  | cons b bs ih =>
    rw [List.map_cons, List.foldlM_cons, bind_eq_ok]
    constructor
    · rintro ⟨st', hstep, hrest⟩
      obtain ⟨h, hb, hlink, htime, hnow, hnew, rfl⟩ := walkStep_next_eq_ok.mp hstep
      obtain ⟨hs, hv, hl, ht, hn, hk, rfl⟩ := 
        (ih (hkeys.append (List.nodup_singleton _) (List.disjoint_singleton.mpr hnew))).mp hrest
      refine ⟨h :: hs, .cons hb hv, .cons_cons hlink hl, .cons_cons htime ht, ?_, ?_, ?_⟩
      · simpa [hnow] using hn
      · simpa using hk
      · rw [List.getLastD_cons]
        simp [records]
    · rintro ⟨hs, hv, hl, ht, hn, hk, rfl⟩
      cases hv with
      | @cons _ h _ hs hb hv =>
        rw [List.isChain_cons_cons] at hl ht
        rw [List.map_cons, List.append_cons] at hk
        have hkeys' : (keys ++ [h.new]).Nodup := hk.of_append_left
        refine ⟨_, walkStep_next_eq_ok.mpr ⟨h, hb, hl.1, ht.1, hn h List.mem_cons_self, ?_, rfl⟩, ?_⟩
        · intro hmem
          exact List.disjoint_of_nodup_append hkeys' hmem List.mem_cons_self
        · rw [ih hkeys']
          refine ⟨hs, hv, hl.2, ht.2, fun x hx => hn x (List.mem_cons_of_mem _ hx), hk, ?_⟩
          rw [List.getLastD_cons]
          simp [records]

/-- In a chain of ascending times the last is the latest. -/
theorem time_le_getLastD {h : Handover} {hs : List Handover}
    (ht : (h :: hs).IsChain fun a b => a.time < b.time) :
    ∀ x ∈ h :: hs, x.time ≤ (hs.getLastD h).time := by
  induction hs generalizing h with
  | nil => simp
  | cons h' hs ih =>
    rw [List.isChain_cons_cons] at ht
    rw [List.getLastD_cons]
    intro x hx
    rcases List.mem_cons.mp hx with rfl | hx
    · exact UInt64.le_trans (UInt64.le_of_lt ht.1) (ih ht.2 h' List.mem_cons_self)
    · exact ih ht.2 x hx

theorem getLastD_mem (h : Handover) (hs : List Handover) : hs.getLastD h ∈ h :: hs := by
  rw [← List.getLast_eq_getLastD (List.cons_ne_nil h hs)]
  exact List.getLast_mem _

/-- The walk over a list from a pinned key on, in closed form. -/
theorem walk_eq_ok {b : List UInt8} {bs : List (List UInt8)} {challenge : ServerChallenge}
    {f : List Followed} :
    walk P ((b :: bs).map (serveOne P)) challenge now = .ok f ↔
      ∃ h hs, Verify P (b :: bs) (h :: hs) ∧ Walks P challenge now h hs ∧
        f = records P (b :: bs) (h :: hs) := by
  unfold walk
  rw [List.map_cons, List.foldlM_cons]
  constructor
  · intro hw
    simp only [bind_eq_ok] at hw
    obtain ⟨st, ⟨st₁, hfirst, hrest⟩, hend⟩ := hw
    obtain ⟨h, hb, hnow, hne, rfl⟩ := walkStep_first_eq_ok.mp hfirst
    have hkeys : [h.old, h.new].Nodup := by simpa using Ne.symm hne
    obtain ⟨hs, hv, hl, ht, hn, hk, rfl⟩ := (foldlM_walkStep_eq_ok hkeys).mp hrest
    simp only [ite_throw_eq_ok, pure_eq_ok, ne_eq, not_not] at hend
    obtain ⟨hkey, hnext, rfl⟩ := hend
    refine ⟨h, hs, .cons hb hv, ⟨hl, ht, ?_, hk, hkey, hnext⟩, rfl⟩
    rcases List.mem_cons.mp (getLastD_mem h hs) with hlast | hlast
    · rw [hlast]; exact hnow
    · exact hn _ hlast
  · rintro ⟨h, hs, hv, hw, rfl⟩
    obtain ⟨hb, hv⟩ := List.forall₂_cons.mp hv
    have hnow : ∀ x ∈ h :: hs, x.time ≤ satAdd now skew := fun x hx =>
      UInt64.le_trans (time_le_getLastD hw.times x hx) hw.last_time
    have hk : ([h.old, h.new] ++ hs.map new).Nodup := hw.keys
    have hne : h.new ≠ h.old := by
      have := hk.of_append_left
      simp only [List.nodup_cons, List.mem_singleton] at this
      exact Ne.symm this.1
    have hkeys : [h.old, h.new].Nodup := hk.of_append_left
    rw [walkStep_first_eq_ok.mpr ⟨h, hb, hnow h List.mem_cons_self, hne, rfl⟩, ok_bind,
      (foldlM_walkStep_eq_ok hkeys).mpr ⟨hs, hv, hw.links, hw.times,
        fun x hx => hnow x (List.mem_cons_of_mem _ hx), hk, rfl⟩, ok_bind]
    simp only [hw.serverKey, hw.next, ne_eq, not_true_eq_false, if_false]
    rfl

end Walk

/-! ## When `check` moves the pin -/

/-- A served byte string is a verified handover from `key`. -/
def From (key : PublicKey) (b : List UInt8) : Prop := ∃ h, parse P b = .ok h ∧ h.old = key

/-- A served byte string is a verified handover that forks a record, undismissed. -/
def Conflict (followed : List Followed) (dismissed : List (Bytes 32)) (b : List UInt8) : Prop :=
  ∃ h, parse P b = .ok h ∧ P.sha256 b ∉ dismissed ∧
    ∃ f ∈ followed, f.old = h.old ∧ f.sha256 ≠ P.sha256 b

/-- `bs`, the served list from the first verified handover from the pinned key on, says `h :: hs`,
which carries the pin to the challenge's key. -/
structure Carries (pinned : Pinned) (chain : List (List UInt8)) (challenge : ServerChallenge)
    (now : UInt64) (bs : List (List UInt8)) (h : Handover) (hs : List Handover) : Prop where
  first : ∃ before, chain = before ++ bs ∧ ∀ x ∈ before, ¬ From P pinned.key x
  verify : Verify P bs (h :: hs)
  old : h.old = pinned.key
  committed : pinned.commitment = some (commitment P h.new)
  after_records : ∀ f ∈ pinned.followed, f.time < h.time
  walks : Walks P challenge now h hs

/-- The records a client does not hold yet. -/
def fresh (held : List Followed) (followed : List Followed) : List Followed :=
  followed.filter fun f => ¬ held.any fun r => r.old = f.old

section Check
variable {P : Primitives} {followed : List Followed} {dismissed : List (Bytes 32)}

theorem conflicts_serveOne {b : List UInt8} :
    conflicts followed dismissed (serveOne P b) = true ↔ Conflict P followed dismissed b := by
  unfold Conflict serveOne
  cases parse P b with
  | error e => simp [conflicts]
  | ok h => simp [conflicts]

theorem forks_eq_ok {bs : List (List UInt8)} :
    forks followed dismissed (bs.map (serveOne P)) = .ok () ↔
      ∀ b ∈ bs, ¬ Conflict P followed dismissed b := by
  induction bs with
  | nil => simp [forks]
  | cons b bs ih =>
    rw [List.map_cons, forks, ite_error_eq_ok, ih, conflicts_serveOne, List.forall_mem_cons]

theorem forks_eq_error {served : List Served} {w : Warning}
    (h : forks followed dismissed served = .error w) : ∃ sha256, w = .fork sha256 := by
  induction served with
  | nil => cases h
  | cons s served ih =>
    unfold forks at h
    split at h
    · injection h with h
      exact ⟨s.2, h.symm⟩
    · exact ih h

theorem fromPinned_eq_some {key : PublicKey} {bs : List (List UInt8)} {h : Handover}
    {rest : List Served} :
    fromPinned key (bs.map (serveOne P)) = some (h, rest) ↔
      ∃ before b after, bs = before ++ b :: after ∧ (∀ x ∈ before, ¬ From P key x) ∧
        parse P b = .ok h ∧ h.old = key ∧ rest = (b :: after).map (serveOne P) := by
  induction bs with
  | nil => simp [fromPinned]
  | cons b bs ih =>
    by_cases hb : From P key b
    · obtain ⟨h', hb', hold⟩ := hb
      have hstep : fromPinned key ((b :: bs).map (serveOne P)) =
          some (h', (b :: bs).map (serveOne P)) := by
        simp [serveOne, hb', fromPinned, hold]
      rw [hstep, Option.some.injEq, Prod.mk.injEq]
      constructor
      · rintro ⟨rfl, rfl⟩
        exact ⟨[], b, bs, rfl, by simp, hb', hold, rfl⟩
      · rintro ⟨before, b', after, heq, hbefore, hp, -, rfl⟩
        cases before with
        | nil =>
          obtain ⟨rfl, rfl⟩ := List.cons.inj heq
          exact ⟨Except.ok.inj (hb'.symm.trans hp), rfl⟩
        | cons x before =>
          obtain ⟨rfl, rfl⟩ := List.cons.inj heq
          exact absurd ⟨h', hb', hold⟩ (hbefore b List.mem_cons_self)
    · have hstep : fromPinned key ((b :: bs).map (serveOne P)) =
          fromPinned key (bs.map (serveOne P)) := by
        rw [List.map_cons]
        cases hp : parse P b with
        | error e => simp [serveOne, hp, fromPinned]
        | ok h' =>
          have hold : h'.old ≠ key := fun hold => hb ⟨h', hp, hold⟩
          simp [serveOne, hp, fromPinned, hold]
      rw [hstep, ih]
      constructor
      · rintro ⟨before, b', after, rfl, hbefore, hrest⟩
        exact ⟨b :: before, b', after, rfl, List.forall_mem_cons.mpr ⟨hb, hbefore⟩, hrest⟩
      · rintro ⟨before, b', after, heq, hbefore, hp, hold, hrest⟩
        cases before with
        | nil =>
          obtain ⟨rfl, rfl⟩ := List.cons.inj heq
          exact absurd ⟨h, hp, hold⟩ hb
        | cons x before =>
          obtain ⟨rfl, rfl⟩ := List.cons.inj heq
          exact ⟨before, b', after, rfl, fun y hy => hbefore y (List.mem_cons_of_mem _ hy), hp, hold,
            hrest⟩

theorem follow_eq_ok {pinned : Pinned} {chain : List (List UInt8)} {challenge : ServerChallenge}
    {now : UInt64} {f : List Followed} :
    follow P pinned (serve P chain) challenge now = .ok f ↔
      chain.length ≤ maxChain ∧ ∃ bs h hs, Carries P pinned chain challenge now bs h hs ∧
        f = fresh pinned.followed (records P bs (h :: hs)) := by
  unfold serve follow
  by_cases hlen : chain.length > maxChain
  · simp [if_pos hlen, Nat.not_le.mpr hlen]
  rw [if_neg hlen]
  constructor
  · intro hf
    refine ⟨Nat.le_of_not_lt hlen, ?_⟩
    dsimp only at hf
    cases hp : fromPinned pinned.key (chain.map (serveOne P)) with
    | none => simp [hp] at hf
    | some r =>
      obtain ⟨h, rest⟩ := r
      obtain ⟨before, b, after, rfl, hbefore, hb, hold, rfl⟩ := fromPinned_eq_some.mp hp
      simp only [hp, ite_error_eq_ok, bind_eq_ok, pure_eq_ok, not_not, ne_eq] at hf
      obtain ⟨hcommit, htimes, w, hwalk, rfl⟩ := hf
      obtain ⟨h', hs, hv, hw, rfl⟩ := walk_eq_ok.mp hwalk
      obtain rfl : h' = h := Except.ok.inj ((List.forall₂_cons.mp hv).1.symm.trans hb)
      refine ⟨b :: after, h', hs, ⟨⟨before, rfl, hbefore⟩, hv, hold, hcommit, ?_, hw⟩, rfl⟩
      intro f hf
      simpa using fun hle => htimes (List.any_eq_true.mpr ⟨f, hf, decide_eq_true hle⟩)
  · rintro ⟨-, bs, h, hs, ⟨⟨before, rfl, hbefore⟩, hv, hold, hcommit, htimes, hw⟩, rfl⟩
    obtain ⟨b, after, hb, -, rfl⟩ := List.forall₂_cons_right_iff.mp hv
    have hp := fromPinned_eq_some.mpr ⟨before, b, after, rfl, hbefore, hb, hold, rfl⟩
    have hany : (pinned.followed.any fun f => f.time ≥ h.time) = false := by
      simpa using htimes
    simp only [hp, hcommit, ne_eq, not_true_eq_false, if_false, hany, Bool.false_eq_true,
      walk_eq_ok.mpr ⟨h, hs, hv, hw, rfl⟩]
    rfl

theorem serve_getD {chain : List (List UInt8)} (hlen : chain.length ≤ maxChain) :
    (serve P chain).getD [] = chain.map (serveOne P) := by
  unfold serve
  rw [if_neg (Nat.not_lt.mpr hlen), Option.getD_some]

/-- `check` follows exactly when nothing forks, the key changed and `follow` succeeds. -/
theorem check_eq_follow {pinned : Pinned} {chain : List (List UInt8)} {challenge : ServerChallenge}
    {now : UInt64} {key : PublicKey} {next : Option (Bytes 32)} {f : List Followed} :
    check P pinned chain challenge now = .follow key next f ↔
      forks pinned.followed pinned.dismissed ((serve P chain).getD []) = .ok () ∧
      challenge.serverKey ≠ pinned.key ∧ follow P pinned (serve P chain) challenge now = .ok f ∧
      key = challenge.serverKey ∧ next = challenge.next := by
  unfold check
  dsimp only
  cases forks pinned.followed pinned.dismissed ((serve P chain).getD []) with
  | error w => simp
  | ok u =>
    by_cases hkey : challenge.serverKey = pinned.key
    · cases sameKey pinned.commitment challenge.next <;> simp [hkey]
    · cases follow P pinned (serve P chain) challenge now with
      | error b => simp [hkey]
      | ok f' =>
        simp only [hkey, if_false, Verdict.follow.injEq, ne_eq, not_false_eq_true, true_and,
          Except.ok.injEq]
        rw [@eq_comm _ _ key, @eq_comm _ _ next]
        exact ⟨fun ⟨hk, hn, hf⟩ => ⟨hf, hk, hn⟩, fun ⟨hf, hk, hn⟩ => ⟨hk, hn, hf⟩⟩

/-- The pin is followed only along committed links, and always along them. -/
theorem check_follow_iff (pinned : Pinned) (chain : List (List UInt8)) (challenge : ServerChallenge)
    (now : UInt64) (key : PublicKey) (next : Option (Bytes 32)) (followed : List Followed) :
    check P pinned chain challenge now = .follow key next followed ↔
      (∀ b ∈ chain, ¬ Conflict P pinned.followed pinned.dismissed b) ∧
      challenge.serverKey ≠ pinned.key ∧ chain.length ≤ maxChain ∧
      (∃ bs h hs, Carries P pinned chain challenge now bs h hs ∧
        followed = fresh pinned.followed (records P bs (h :: hs))) ∧
      key = challenge.serverKey ∧ next = challenge.next := by
  rw [check_eq_follow, follow_eq_ok]
  constructor
  · rintro ⟨hforks, hkey, ⟨hlen, hcarries⟩, hk, hn⟩
    rw [serve_getD hlen, forks_eq_ok] at hforks
    exact ⟨hforks, hkey, hlen, hcarries, hk, hn⟩
  · rintro ⟨hforks, hkey, hlen, hcarries, hk, hn⟩
    rw [serve_getD hlen, forks_eq_ok]
    exact ⟨hforks, hkey, ⟨hlen, hcarries⟩, hk, hn⟩

end Check

end Handover

end HxdNg.Identity
