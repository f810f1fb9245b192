import Mathlib
import HxdNg.Registrars.Service
import HxdNg.Lib.Ranked

/-!
# The lists of records

* `State.recordsPage` : the records past a seq that a list has, as many as fit a page;
* `Registrar.recordsSince` : a page of the full list, once what is due is published;
* `Follower`, `follow` : who reads the full list by deltas, while others call the registrar.
-/

namespace HxdNg.Registrars

open HxdNg.Identity

def LIST_MAX_BYTES : Nat := 1024 * 1024
def ENTRY_OVERHEAD : Nat := 1 + 9 + 9
def PAGE_OVERHEAD : Nat := 512

/-- Which records a page is drawn from. -/
inductive RecordFilter where
  /-- Every record naming this key; none ever pruned. -/
  | identity (key : PublicKey)
  /-- The full list at `now`, with so many device revocations of each identity. -/
  | all (now : UInt64) (deviceCap : Nat)

structure Page where
  entries : List (Nat × List UInt8) := []
  more : Bool := false
  deriving DecidableEq

/-- How much one entry costs a page. -/
def entryCost (bytes : List UInt8) : Nat := bytes.length + ENTRY_OVERHEAD

/-- A page of what fits, `used` of the budget being gone; a first entry always does. -/
def cut (budget : Nat) : Nat → Bool → List (Nat × List UInt8) → Page
  | _, _, [] => {}
  | used, begun, (seq, bytes) :: items =>
    if begun ∧ used + entryCost bytes > budget then { more := true }
    else
      let rest := cut budget (used + entryCost bytes) true items
      { rest with entries := (seq, bytes) :: rest.entries }

def page (items : List (Nat × List UInt8)) (budget : Nat) : Page := cut budget 0 false items

namespace State

variable (s : State)

/-- The records, each with its seq. -/
def numbered : List (Nat × NewRecord) := (s.records.zipIdx 1).map Prod.swap

/-- The device revocations of an identity, as what they last until and their seq. -/
def deviceRevocations (key : PublicKey) : List (Nat × Nat) :=
  (s.numbered.filter fun r => r.2.kind = .revokeDevice ∧ r.2.identity = key).map fun r =>
    ((r.2.lastsUntil.map (·.toNat)).getD maxWord, r.1)

/-- The seqs of those the full list keeps: the latest, ties to the later seq. -/
def kept (deviceCap : Nat) (key : PublicKey) : List Nat :=
  ((sortBy (fun r => OrderDual.toDual (toLex r)) (s.deviceRevocations key)).take deviceCap).map Prod.snd

def visible (filter : RecordFilter) (seq : Nat) (r : NewRecord) : Bool :=
  match filter with
  | .identity key => r.identity = key || r.other = some key
  | .all now deviceCap =>
    let live := r.lastsUntil.all (· ≥ now)
    match r.kind with
    | .revokeDevice => live && (s.kept deviceCap r.identity).contains seq
    | .revokeAttestation => live
    | _ => true

def recordsPage (filter : RecordFilter) (since budget : Nat) : Page :=
  page (((s.numbered.filter fun r => since < r.1).filter fun r => s.visible filter r.1 r.2).map fun r =>
    (r.1, r.2.bytes)) budget

end State

def pageBudget : Nat := LIST_MAX_BYTES - PAGE_OVERHEAD

namespace Registrar

variable (P : Primitives) (R : Registrar) (deviceCap : Nat)

/-- The full list, as a delta from `since`. -/
def recordsSince (s : State) (since : Option Nat) (now : UInt64) : Page × State :=
  let s := R.publishDue P s now
  (s.recordsPage (.all now deviceCap) (since.getD 0) pageBudget, s)

end Registrar

/-! ## Following the list -/

/-- A registrar, and a reader with what it has read of it. -/
structure Follower where
  store : State
  since : Option Nat
  got : List (Nat × List UInt8)

/-- Somebody calls the registrar, or the reader fetches a page. -/
inductive Followed where
  | call (now : UInt64) (op : Registrar.Op)
  | fetch (now : UInt64)

namespace Follower

variable (P : Primitives) (R : Registrar) (deviceCap : Nat)

/-- The page the reader is given. -/
def page (f : Follower) (now : UInt64) : Page := (R.recordsSince P deviceCap f.store f.since now).1

def fetch (f : Follower) (now : UInt64) : Follower where
  store := (R.recordsSince P deviceCap f.store f.since now).2
  since := ((f.page P R deviceCap now).entries.getLast?.map Prod.fst).or f.since
  got := f.got ++ (f.page P R deviceCap now).entries

def step (f : Follower) : Followed → Follower
  | .call now op => { f with store := R.step P f.store now op }
  | .fetch now => f.fetch P R deviceCap now

/-- A run from a registrar that has published nothing, and a reader that has read nothing. -/
def follow (events : List Followed) : Follower := events.foldl (step P R deviceCap) ⟨.empty, none, []⟩

end Follower

/-- When a reader fetched. -/
def Followed.fetched : Followed → Option UInt64
  | .call _ _ => none
  | .fetch now => some now

end HxdNg.Registrars
