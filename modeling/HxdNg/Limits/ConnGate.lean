import HxdNg.Lib.Assoc
import HxdNg.Lib.Machine
import HxdNg.Lib.Runs

/-!
# The connections each address and each account holds

A gate counts the connections an address holds, those its IPv6 /48 holds, and once a connection has
logged in, those its account holds. A permit is one connection's place in those counts.

The token buckets' arithmetic is left to a verdict: whether a bucket is full as a table is pruned,
and whether it can pay for one connection more.

* `Gate.admitIp`, `Gate.admitAccount`, `Gate.release` : what is done under the gate's lock;
* `Gate.step` : one of them, on a gate and the permits it gave.
-/

namespace HxdNg.Limits

/-! ## Addresses -/

inductive IpAddr where
  | v4 (octets : Bytes 4)
  | v6 (octets : Bytes 16)
  deriving DecidableEq

namespace IpAddr

def octets : IpAddr → List UInt8
  | v4 o => o.val
  | v6 o => o.val

def isIpv4 : IpAddr → Bool
  | v4 _ => true
  | v6 _ => false

/-- An IPv4 address mapped into IPv6 is the IPv4 address. -/
def toCanonical : IpAddr → IpAddr
  | v4 o => v4 o
  | v6 o =>
    if o.val.take 12 = List.replicate 10 0 ++ [255, 255] then
      v4 ⟨o.val.drop 12, by rw [List.length_drop, o.property]⟩
    else v6 o

/-- The first `n` octets, and zeros for the rest. -/
def masked (o : Bytes 16) (n : Nat) : Bytes 16 :=
  ⟨o.val.take n ++ List.replicate (16 - min n 16) 0, by
    rw [List.length_append, List.length_take, List.length_replicate, o.property]; omega⟩

end IpAddr

def prefixEq (a b : IpAddr) (bits : Nat) : Bool :=
  if a.isIpv4 ≠ b.isIpv4 then false
  else
    let (whole, rest) := (bits / 8, bits % 8)
    if a.octets.take whole ≠ b.octets.take whole then false
    else if rest = 0 then true
    else
      let mask : UInt8 := 0xff <<< UInt8.ofNat (8 - rest)
      a.octets.getD whole 0 &&& mask = b.octets.getD whole 0 &&& mask

/-- A set of addresses and CIDR blocks. -/
structure AddrSet where
  entries : List (IpAddr × Nat)

def AddrSet.contains (s : AddrSet) (peer : IpAddr) : Bool :=
  s.entries.any fun e => prefixEq peer.toCanonical e.1 e.2

/-- The address a limit counts against: IPv4 as itself, IPv6 as its /64. -/
def limitKey (ip : IpAddr) : IpAddr :=
  match ip.toCanonical with
  | .v6 o => .v6 (IpAddr.masked o 8)
  | v4 => v4

/-- The IPv6 /48 an address is in. -/
def v648 (ip : IpAddr) : Option IpAddr :=
  match ip.toCanonical with
  | .v6 o => some (.v6 (IpAddr.masked o 6))
  | .v4 _ => none

/-! ## The gate -/

/-- How connections are limited; 0 is no limit. -/
structure ConnLimits where
  perAddr : Nat
  perV648 : Nat
  reconnect : Nat
  perAccount : Nat
  exempt : AddrSet

inductive ConnRefused where
  | tooMany | tooFast | tooManyIn48
  deriving DecidableEq

inductive AccountRefused where
  | full | tooFast
  deriving DecidableEq

/-- The connections each address, account and /48 holds. -/
structure Table where
  map : List (IpAddr × Nat) := []
  pruneAt : Nat := 0
  accounts : List (String × Nat) := []
  accountsPruneAt : Nat := 0
  by48 : List (IpAddr × Nat) := []

/-- Whose count a permit holds a place in. -/
inductive Place where
  | addr (key : IpAddr) (wide : Option IpAddr)
  | account (login : String)
  deriving DecidableEq

abbrev PermitId := Nat

structure ConnPermit where
  /-- None where the gate held the connection to nothing. -/
  place : Option Place
  carried : Option PermitId

def ConnPermit.isAccount (p : ConnPermit) : Bool := p.place.any fun
  | .account _ => true
  | .addr _ _ => false

def pruneFloor : Nat := 4096

namespace Table
open Assoc

/-- Forget the addresses that hold nothing and have their burst back, once the table has doubled. -/
def pruneAddrs (t : Table) (full : IpAddr → Bool) : Table :=
  if max t.pruneAt pruneFloor ≤ t.map.length then
    let map := t.map.filter fun s => 0 < s.2 || !full s.1
    { t with map, pruneAt := map.length * 2 }
  else t

def pruneAccounts (t : Table) (full : String → Bool) : Table :=
  if max t.accountsPruneAt pruneFloor ≤ t.accounts.length then
    let accounts := t.accounts.filter fun s => 0 < s.2 || !full s.1
    { t with accounts, accountsPruneAt := accounts.length * 2 }
  else t

/-- Give back a place in `key`'s count, and in `wide`'s. -/
def releaseAddr (t : Table) (key : IpAddr) (wide : Option IpAddr) : Table :=
  let by48 := match wide with
    | some wide => alter wide
        (fun n => n.bind fun n => if n - 1 = 0 then none else some (n - 1)) t.by48
    | none => t.by48
  { t with by48, map := alter key (fun s => s.map fun live => live - 1) t.map }

def releaseAccount (t : Table) (login : String) : Table :=
  { t with accounts := alter login (fun s => s.map fun live => live - 1) t.accounts }

def release (t : Table) : Place → Table
  | .addr key wide => t.releaseAddr key wide
  | .account login => t.releaseAccount login

end Table

/-- A gate, and the permits it gave that are not dropped. -/
structure Gate where
  limits : ConnLimits
  table : Table := {}
  permits : List (PermitId × ConnPermit) := []
  next : PermitId := 0

namespace Gate
open Assoc

/-- A permit is made. -/
def give (g : Gate) (table : Table) (place : Option Place) : PermitId × Gate :=
  (g.next, { g with table, next := g.next + 1, permits := insert g.next ⟨place, none⟩ g.permits })

/-- What an address may be admitted to: its count, its /48's and its burst. -/
def refusal (g : Gate) (t : Table) (key : IpAddr) (wide : Option IpAddr) (spent : Bool) :
    Option ConnRefused :=
  if g.limits.perAddr ≠ 0 ∧ g.limits.perAddr ≤ (lookup t.map key).getD 0 then some .tooMany
  else if wide.any fun wide => g.limits.perV648 ≤ (lookup t.by48 wide).getD 0 then some .tooManyIn48
  else if g.limits.reconnect ≠ 0 ∧ spent then some .tooFast
  else none

def admitIp (g : Gate) (ip : IpAddr) (full : IpAddr → Bool) (spent : Bool) :
    Except ConnRefused PermitId × Gate :=
  let l := g.limits
  if l.perAddr = 0 ∧ l.perV648 = 0 ∧ l.reconnect = 0 ∨ l.exempt.contains ip then
    let (id, g) := g.give g.table none
    (.ok id, g)
  else
    let key := limitKey ip
    let wide := if l.perV648 = 0 then none else v648 ip
    let t := g.table.pruneAddrs full
    let t := { t with map := alter key (fun s => some (s.getD 0)) t.map }
    match g.refusal t key wide spent with
    | some refused => (.error refused, { g with table := t })
    | none =>
      let by48 := match wide with
        | some wide => alter wide (fun n => some (n.getD 0 + 1)) t.by48
        | none => t.by48
      let t := { t with by48, map := alter key (fun s => s.map fun live => live + 1) t.map }
      let (id, g) := g.give t (some (.addr key wide))
      (.ok id, g)

def accountRefusal (g : Gate) (t : Table) (login : String) (slack : Nat) (spent : Bool) :
    Option AccountRefused :=
  if g.limits.perAccount ≠ 0 ∧
      min (g.limits.perAccount + slack) maxWord ≤ (lookup t.accounts login).getD 0 then some .full
  else if g.limits.reconnect ≠ 0 ∧ spent then some .tooFast
  else none

/-- Move a permit from its address's count to `login`'s. Where it carried another place, that one is
answered, to be given back once the lock is. -/
def admitAccount (g : Gate) (id : PermitId) (login : String) (slack : Nat) (full : String → Bool)
    (spent : Bool) : Except AccountRefused (Option PermitId) × Gate :=
  match lookup g.permits id with
  | none => (.ok none, g)
  | some p =>
    if p.isAccount then (.ok none, g)
    else
      let t := g.table.pruneAccounts full
      let t := { t with accounts := alter login (fun s => some (s.getD 0)) t.accounts }
      match g.accountRefusal t login slack spent with
      | some refused => (.error refused, { g with table := t })
      | none =>
        let t := { t with accounts := alter login (fun s => s.map fun live => live + 1) t.accounts }
        let t := match p.place with
          | some (.addr key wide) => t.releaseAddr key wide
          | _ => t
        (.ok p.carried, { g with
          table := t
          permits := insert id ⟨some (.account login), none⟩ g.permits })

/-- A permit takes a place of another connection's along. -/
def carry (g : Gate) (id other : PermitId) : Gate :=
  { g with permits := alter id (fun p => p.map fun p => { p with carried := some other }) g.permits }

/-- A permit is dropped, which gives back the place it holds. -/
def release (g : Gate) (id : PermitId) : Gate :=
  match lookup g.permits id with
  | none => g
  | some p =>
    { g with
      permits := erase id g.permits
      table := match p.place with
        | some place => g.table.release place
        | none => g.table }

end Gate

inductive Op where
  | admitIp (ip : IpAddr) (full : IpAddr → Bool) (spent : Bool)
  | admitAccount (id : PermitId) (login : String) (slack : Nat) (full : String → Bool) (spent : Bool)
  | carry (id other : PermitId)
  | release (id : PermitId)

/-- What the gate is asked, and whether it refuses. -/
def Gate.step (g : Gate) : Op → Bool × Gate
  | .admitIp ip full spent => ((g.admitIp ip full spent).map (fun r => !r.isOk) id)
  | .admitAccount id login slack full spent =>
    ((g.admitAccount id login slack full spent).map (fun r => !r.isOk) (fun g => g))
  | .carry id other => (false, g.carry id other)
  | .release id => (false, g.release id)

end HxdNg.Limits
