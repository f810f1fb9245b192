import HxdNg.Accounts.Files

/-!
# Identity links in account files

The backend with its lookup cache: which account carries a fingerprint, by the text its file states,
without reading a file whose stamp has settled and not moved.

* `Backend.loginFor`, `carries`, `scan` : the lookup through the cache;
* `Backend.findByFingerprint`, `linkIdentity`, `rotateLink`, `unlinkIdentity`, `findOrCreateLinked`;
* `Op`, `Backend.step` : the calls, and an operator's edit of the directory.
-/

namespace HxdNg.Accounts

open Assoc
open Identity (Fingerprint)

/-- Enough of a file's metadata to notice an edit. Times are in nanoseconds. -/
structure FileStamp where
  len : Nat
  modified : Option Nat
  deriving DecidableEq

def SECOND : Nat := 1000000000

/-- A file modified within the last second may be edited again inside one tick. -/
def settled (stamp : FileStamp) (now : Nat) : Bool := stamp.modified.any fun m => m + SECOND ≤ now

/-- What each account file seen had, and the fingerprint text it stated. -/
abbrev Seen := Map String (FileStamp × Option String)

structure Index where
  files : Seen := .empty
  byFp : Map String String := .empty

/-- The directory, the stamps of its files, and what lookups have left. -/
structure Backend where
  auth : FileAuth
  stamps : String → FileStamp
  index : Index := {}

def eqIgnoreAsciiCase (a b : String) : Bool := a.toLower = b.toLower

/-- Does a text stated say the fingerprint wanted? -/
def states (want : String) (text : Option String) : Bool := text.any (eqIgnoreAsciiCase · want)

/-- The text remembered for a file whose stamp has settled and not moved. -/
def Seen.remembered (files : Seen) (login : String) (stamp : FileStamp) (now : Nat) :
    Option (Option String) :=
  match files.get login with
  | some (s, fp) => if settled stamp now ∧ s = stamp then some fp else none
  | none => none

/-- Remember a file's text, once its stamp has settled. -/
def Seen.remember (files : Seen) (login : String) (stamp : FileStamp) (now : Nat)
    (fp : Option String) : Seen :=
  if settled stamp now then files.set login (stamp, fp) else files

def FileAuth.lookup (s : FileAuth) (login : String) : Except AuthError Account :=
  let login := (if login = "" then "guest" else login).toLower
  if !validLogin login then .error .noSuchAccount
  else match s.load login with
    | .error e => .error e
    | .ok file => .ok (file.intoAccount login s.roles)

namespace Backend

/-- Does `login`'s file still carry the fingerprint `want`? -/
def carries (b : Backend) (now : Nat) (files : Seen) (login want : String) : Bool × Seen :=
  if b.auth.files.get login = none then (false, files)
  else match files.remembered login (b.stamps login) now with
    | some fp => (states want fp, files)
    | none => match b.auth.load login with
      | .error _ => (false, files)
      | .ok file =>
        let fp := file.identity.fingerprint
        (states want fp, files.remember login (b.stamps login) now fp)

/-- One file of a scan. -/
def scanOne (b : Backend) (now : Nat) (want : String) (acc : Seen × Option String) (login : String) :
    Seen × Option String :=
  let (files, found) := acc
  let found' (fp : Option String) := found.or (if states want fp then some login else none)
  match files.remembered login (b.stamps login) now with
  | some fp => (files, found' fp)
  | none => match b.auth.load login with
    | .error .noSuchAccount => acc
    | .error _ => (files.remember login (b.stamps login) now none, found' none)
    | .ok file =>
      let fp := file.identity.fingerprint
      (files.remember login (b.stamps login) now fp, found' fp)

/-- The first account file, in order, that carries `want`. -/
def scan (b : Backend) (now : Nat) (want : String) (index : Index) : Option String × Index :=
  let entries := b.auth.entries
  let (files, found) :=
    entries.foldl (b.scanOne now want) (index.files.filter fun e => entries.contains e.1, none)
  (found, ⟨files, found.elim index.byFp (index.byFp.set want)⟩)

/-- Which account, if any, carries `fp`. `seen` is the time it looks at the one remembered, `now` that
of the scan. -/
def loginFor (b : Backend) (fp : Fingerprint) (seen now : Nat) : Option String × Index :=
  let want := fp.toText.toLower
  match b.index.byFp.get want with
  | some login =>
    let (still, files) := b.carries seen b.index.files login want
    if still then (some login, { b.index with files := files })
    else b.scan now want ⟨files, b.index.byFp.drop want⟩
  | none => b.scan now want b.index

def findByFingerprint (b : Backend) (fp : Fingerprint) (seen now : Nat) :
    Except AuthError (Option Account) × Backend :=
  let (found, index) := b.loginFor fp seen now
  let b := { b with index := index }
  match found with
  | none => (.ok none, b)
  | some login => match b.auth.lookup login with
    | .ok account => (.ok (some account), b)
    | .error .noSuchAccount => (.ok none, b)
    | .error e => (.error e, b)

/-- Set or clear the fingerprint one account's file states. `stamp` is what the write leaves on it and
`ok` whether the disk takes it. -/
def writeLink (b : Backend) (login : String) (fp : Option Fingerprint) (stamp : FileStamp)
    (ok : Bool) : Except AuthError Unit × Backend :=
  let login := login.toLower
  if !validLogin login then (.error .noSuchAccount, b)
  else match b.auth.files.get login with
    | none => (.error .noSuchAccount, b)
    | some none => (.error .backend, b)
    | some (some file) =>
      if !ok then (.error .backend, b)
      else
        let file := { file with
          identity := { file.identity with fingerprint := fp.map (·.toText) } }
        let byFp := b.index.byFp.filter fun e => e.2 ≠ login
        (.ok (),
          { auth := { b.auth with files := b.auth.files.set login (some file) }
            stamps := fun k => if k = login then stamp else b.stamps k
            index := { b.index with
              byFp := fp.elim byFp fun fp => byFp.set fp.toText.toLower login } })

end Backend

inductive LinkOutcome where
  | linked (account : Account)
  | already (account : Account)
  | taken (other : Account)
  | refused (account : Account)

inductive UnlinkOutcome where
  | unlinked (account : Account)
  | notLinked
  | wouldOrphan (account : Account)

/-- The instants one call looks at the directory, the stamp its write leaves, and whether the disk
takes it. -/
structure Moment where
  seen : Nat
  now : Nat
  seen' : Nat
  now' : Nat
  stamp : FileStamp
  ok : Bool

namespace Backend

def linkIdentity (b : Backend) (login : String) (fp : Fingerprint) (m : Moment) :
    Except AuthError LinkOutcome × Backend :=
  match b.auth.lookup login with
  | .error e => (.error e, b)
  | .ok account =>
    if account.identity.fingerprint = some fp then (.ok (.already account), b)
    else if !account.hasPassword || account.identity.fingerprint.isSome ||
        !account.identity.allowSelfLink then (.ok (.refused account), b)
    else match b.findByFingerprint fp m.seen m.now with
      | (.error e, b) => (.error e, b)
      | (.ok (some other), b) => (.ok (.taken other), b)
      | (.ok none, b) => match b.writeLink account.login (some fp) m.stamp m.ok with
        | (.error e, b) => (.error e, b)
        | (.ok (), b) => match b.auth.lookup account.login with
          | .error e => (.error e, b)
          | .ok account => (.ok (.linked account), b)

def rotateLink (b : Backend) (from_ to_ : Fingerprint) (m : Moment) :
    Except AuthError (Option Account) × Backend :=
  match b.loginFor from_ m.seen m.now with
  | (none, index) => (.ok none, { b with index := index })
  | (some login, index) =>
    let b := { b with index := index }
    match b.loginFor to_ m.seen' m.now' with
    | (some _, index) => (.ok none, { b with index := index })
    | (none, index) => match ({ b with index := index } : Backend).writeLink login (some to_) m.stamp m.ok with
      | (.error e, b) => (.error e, b)
      | (.ok (), b) => match b.auth.lookup login with
        | .error e => (.error e, b)
        | .ok account => (.ok (some account), b)

def unlinkIdentity (b : Backend) (fp : Fingerprint) (m : Moment) :
    Except AuthError UnlinkOutcome × Backend :=
  match b.findByFingerprint fp m.seen m.now with
  | (.error e, b) => (.error e, b)
  | (.ok none, b) => (.ok .notLinked, b)
  | (.ok (some account), b) =>
    if !account.hasPassword then (.ok (.wouldOrphan account), b)
    else match b.writeLink account.login none m.stamp m.ok with
      | (.error e, b) => (.error e, b)
      | (.ok (), b) => (.ok (.unlinked account), b)

/-- The login an account made for an identity is named after. -/
def baseLogin (proposed : String) (fp : Fingerprint) : String :=
  let kept := (proposed.toLower.toList.filter fun c =>
    c.isAlphanum || c = '_' || c = '-' || c = '.').take 24
  let base := kept.dropWhile fun c => c = '.' || c = '-'
  if base.isEmpty then "id-" ++ String.ofList (fp.toText.toList.take 8) else String.ofList base

/-- `base`, `base-2`, `base-3`, … -/
def candidates (base : String) : List String :=
  base :: (List.range 999).map fun n => base ++ "-" ++ toString (n + 2)

/-- May an account be made under a login, as far as its name goes? -/
def nameable (s : FileAuth) (login : String) : Bool :=
  validLogin login && login ≠ "guest" && !s.isReserved login

/-- The account of an identity, made if it has none. -/
def findOrCreateLinked (b : Backend) (proposed name : String) (fp : Fingerprint)
    (access : AccessBits) (m : Moment) : Except AuthError (Account × Bool) × Backend :=
  match b.findByFingerprint fp m.seen m.now with
  | (.error e, b) => (.error e, b)
  | (.ok (some existing), b) => (.ok (existing, false), b)
  | (.ok none, b) =>
    let file : AccountFile :=
      { name := some name
        access := writeAccess {} access (b.auth.roles.granted []) none
        identity := { fingerprint := some fp.toText } }
    match (candidates (baseLogin proposed fp)).find? fun login =>
        nameable b.auth login && b.auth.files.get login = none with
    | none => (.error .backend, b)
    | some login =>
      if !m.ok then (.error .backend, b)
      else
        let b := { b with
          auth := { b.auth with files := b.auth.files.set login (some file) }
          stamps := fun k => if k = login then m.stamp else b.stamps k }
        match b.auth.lookup login with
        | .error e => (.error e, b)
        | .ok account => (.ok (account, true), b)

end Backend

/-- A call, or an operator's edit: whatever directory it leaves. -/
inductive Op where
  | find (fp : Fingerprint)
  | link (login : String) (fp : Fingerprint)
  | rotate (from_ to_ : Fingerprint)
  | unlink (fp : Fingerprint)
  | create (proposed name : String) (fp : Fingerprint) (access : AccessBits)
  | edit (files : Map String (Option AccountFile)) (stamps : String → FileStamp) (roles : Roles)

inductive Answer where
  | found (account : Option Account)
  | link (outcome : LinkOutcome)
  | rotated (account : Option Account)
  | unlink (outcome : UnlinkOutcome)
  | created (account : Account) (isNew : Bool)
  | edited
  | error (e : AuthError)

/-- Does an answer say a file was written? -/
def Answer.wrote : Answer → Bool
  | .link (.linked _) => true
  | .rotated (some _) => true
  | .unlink (.unlinked _) => true
  | .created _ isNew => isNew
  | .edited => true
  | _ => false

def Backend.step (b : Backend) (m : Moment) : Op → Answer × Backend
  | .find fp =>
    let (r, b) := b.findByFingerprint fp m.seen m.now
    (match r with | .ok a => .found a | .error e => .error e, b)
  | .link login fp =>
    let (r, b) := b.linkIdentity login fp m
    (match r with | .ok o => .link o | .error e => .error e, b)
  | .rotate from_ to_ =>
    let (r, b) := b.rotateLink from_ to_ m
    (match r with | .ok a => .rotated a | .error e => .error e, b)
  | .unlink fp =>
    let (r, b) := b.unlinkIdentity fp m
    (match r with | .ok o => .unlink o | .error e => .error e, b)
  | .create proposed name fp access =>
    let (r, b) := b.findOrCreateLinked proposed name fp access m
    (match r with | .ok (a, isNew) => .created a isNew | .error e => .error e, b)
  | .edit files stamps roles =>
    (.edited, { b with auth := { b.auth with files := files, roles := roles }, stamps := stamps })

end HxdNg.Accounts
