import HxdNg.Identity.Message
import HxdNg.Lib.Assoc
import HxdNg.Lib.Checked
import HxdNg.Link.Wire

/-!
# Fetched certificates

The certificates a server fetched for its ghosts' signed lines, kept by hash, and the lines logged
before theirs came.

* `Certs` with `shouldFetch`, `fetched`, `logged` : the cache;
* `Certs.step`, `run` : these as one step, with the lines given back;
* `Certs.passed`, `since` : what a run's lines are held to.

What hashes a certificate is a parameter, and so is what a line is: neither is looked into. A
subtraction of counts that would go below zero is a failure.
-/

namespace HxdNg.Link

open Assoc

/-- Certificates held, in number and in bytes. -/
def maxCerts : Nat := 1024
def maxCertBytes : Nat := 256 * 1024

/-- Logged lines waiting for their certificate, across every hash, and for the fetches over one link. -/
def maxWaiting : Nat := 1024
def waitingPerLink : Nat := maxWaiting / 4

/-- Fetches under way at once, across every link and over one. -/
def maxFetching : Nat := 32
def fetchingPerLink : Nat := maxFetching / 4

/-- A certificate that could not be had is not asked for again sooner. -/
def retryAfter : Nat := 60000000000

abbrev Hash := List UInt8
abbrev CertBytes := List UInt8

/-- Certificates by hash, and what waits on them: lines with their ids, as `α`. -/
structure Certs (α : Type) where
  held : Map Hash CertBytes := .empty
  order : List Hash := []
  bytes : Nat := 0
  fetching : Map Hash String := .empty
  tried : Map Hash Nat := .empty
  waiting : Map Hash (List α) := .empty
  waitingLines : Nat := 0

namespace Certs
variable {α : Type}

/-- The oldest go while too many are held, or too many bytes. -/
def evict : Nat → Certs α → Option (Certs α)
  | 0, c => some c
  | n + 1, c =>
    if ¬(c.held.size > maxCerts ∨ c.bytes > maxCertBytes) then some c else
    match c.order with
    | [] => some c
    | old :: order =>
      match c.held.get old with
      | none => evict n { c with order }
      | some gone => (minus c.bytes gone.length).bind fun bytes =>
          evict n { c with order, bytes, held := c.held.drop old }

def insert (c : Certs α) (hash : Hash) (cert : CertBytes) : Option (Certs α) :=
  if (c.held.get hash).isSome then some c else
  evict (c.order.length + 1)
    { c with
      bytes := c.bytes + cert.length
      held := c.held.set hash cert
      order := c.order ++ [hash] }

/-- Whether to fetch `hash` over `link` now, marking it under way if so. -/
def shouldFetch (c : Certs α) (hash : Hash) (link : String) (now : Nat) : Bool × Certs α :=
  let c := { c with tried := c.tried.filter fun t => now - t.2 < retryAfter }
  if (c.held.get hash).isSome || (c.fetching.get hash).isSome || (c.tried.get hash).isSome ||
      c.fetching.size ≥ maxFetching || c.fetching.values.countP (· = link) ≥ fetchingPerLink then
    (false, c)
  else (true, { c with fetching := c.fetching.set hash link })

/-- The first hash tried the longest ago. -/
def oldestTried (tried : Map Hash Nat) : Option Hash :=
  (tried.entries.find? fun t => tried.entries.all fun t' => t.2 ≤ t'.2).map Prod.fst

/-- A fetch of `hash` has ended, with `cert` if it came and hashes to it: kept, and the lines that
waited for it handed back with it. -/
def fetched (sha256 : CertBytes → Hash) (c : Certs α) (hash : Hash) (cert : Option CertBytes)
    (now : Nat) : Option (Option (CertBytes × List α) × Certs α) :=
  let waiting := (c.waiting.get hash).getD []
  (minus c.waitingLines waiting.length).bind fun waitingLines =>
    let c := { c with
      fetching := c.fetching.drop hash, waiting := c.waiting.drop hash, waitingLines }
    match cert.filter fun b => b.length ≤ Identity.certMaxBytes && sha256 b = hash with
    | none =>
      let tried :=
        if c.tried.size ≥ maxCerts then
          match oldestTried c.tried with
          | some h => c.tried.drop h
          | none => c.tried
        else c.tried
      some (none, { c with tried := tried.set hash now })
    | some cert => (c.insert hash cert).map fun c => (some (cert, waiting), c)

/-- How many lines wait on the fetches over a link. -/
def overLink (c : Certs α) (link : String) : Nat :=
  (((c.fetching.entries.filter fun f => f.2 = link).filterMap fun f =>
    c.waiting.get f.1).map List.length).sum

/-- A line logged in its link form: the certificate to check it with now if it is held; or it waits
for one under way. Past the bound, or with no fetch under way, it stays as logged. -/
def logged (c : Certs α) (hash : Hash) (line : α) : Option (CertBytes × α) × Certs α :=
  match c.held.get hash with
  | some cert => (some (cert, line), c)
  | none =>
    match c.fetching.get hash with
    | none => (none, c)
    | some link =>
      if c.waitingLines < maxWaiting ∧ c.overLink link < waitingPerLink then
        (none, { c with
          waiting := c.waiting.set hash ((c.waiting.get hash).getD [] ++ [line])
          waitingLines := c.waitingLines + 1 })
      else (none, c)

/-! ### Steps -/

inductive Op (α : Type) where
  | shouldFetch (hash : Hash) (link : String) (now : Nat)
  | fetched (hash : Hash) (cert : Option CertBytes) (now : Nat)
  | logged (hash : Hash) (line : α)
  | rehash (tried : Map Hash Nat)

def step (sha256 : CertBytes → Hash) (c : Certs α) : Op α → Option (List α × Certs α)
  | .shouldFetch hash link now => some ([], (c.shouldFetch hash link now).2)
  | .fetched hash cert now => (c.fetched sha256 hash cert now).map fun (r, c) => (r.elim [] (·.2), c)
  | .logged hash line => some ((c.logged hash line).1.elim [] (fun r => [r.2]), (c.logged hash line).2)
  | .rehash tried => some ([], if tried.entries.Perm c.tried.entries then { c with tried } else c)

def run (sha256 : CertBytes → Hash) : Certs α → List (Op α) → Option (List α × Certs α)
  | c, [] => some ([], c)
  | c, op :: ops => (c.step sha256 op).bind fun (given, c) =>
      (run sha256 c ops).map fun (more, c) => (given ++ more, c)

def passed (ops : List (Op α)) : List α :=
  ops.filterMap fun
    | .logged _ line => some line
    | _ => none

/-- What is logged under `hash` once the fetches of it that have ended have. -/
def since (hash : Hash) (ops : List (Op α)) : List α :=
  ops.foldl (fun lines op =>
    match op with
    | .fetched h _ _ => if h = hash then [] else lines
    | .logged h line => if h = hash then lines ++ [line] else lines
    | _ => lines) []

end Certs

end HxdNg.Link
