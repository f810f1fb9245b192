import HxdNg.Media.Store

/-!
# News pictures, their rows and their files

Bytes are stored once under their hash, whatever number of rows name them. The rows are the metadata
store's, the files the blob store's, and what relates the two is done under one lock.

* `Meta` : the rows, and the store's transactions on them;
* `Files` : the canonical and the derivative file of each hash;
* `Task`, `Section` : where a call is outside `news_blob_serial`, and where its holder is;
* `Domain.next` : what a call does from one of its steps to the next; the holder of the lock makes one
  call on a store at a step;
* `Op`, `Domain.step` : a call begins, a transaction runs, or a task takes a step.

The names, captions and sizes in pixels of pictures, and the texts of articles, are left out. A survey
answers anything: what it reports is a lead.
-/

namespace HxdNg.News

open Assoc Relationships
open Media (Handle Canonical MediaType)

abbrev BlobId := Bytes 32
abbrev ArticleId := Nat

/-- Seconds since the epoch, as the rows keep them. -/
abbrev Time := Nat

inductive MediaReject where
  | generic
  | tooLarge
  | unsupported
  | rateLimited
  | notAuthorized
  | busy
  deriving DecidableEq

inductive NewsError where
  | media (e : MediaReject)
  | newsFull
  | noSuchMedia
  | store
  deriving DecidableEq

/-! ## Rows -/

structure BlobRow where
  bytes : Nat
  derivative : Option (MediaType × Nat)
  refs : Int
  deriving DecidableEq

structure AttachRow where
  hash : BlobId
  /-- `none` while it is staged. -/
  article : Option ArticleId
  uploader : Mailbox
  stagedAt : Time
  deriving DecidableEq

structure Meta where
  blobs : Map BlobId BlobRow := .empty
  attaches : Map Handle AttachRow := .empty

/-- An image that has been decoded, and what is to be stored of it. -/
structure Upload where
  canonical : Canonical
  derivative : Option Canonical
  owner : Mailbox
  deriving DecidableEq

namespace Meta

/-- The rows that name `id`, of those that pass. -/
def count (p : AttachRow → Bool) (id : BlobId) (m : Meta) : Nat :=
  m.attaches.values.countP fun a => decide (a.hash = id) && p a

def legacy (u : Upload) : Option (MediaType × Nat) := u.derivative.map fun d => (d.mime, d.bytes.length)

/-- The row of a staged blob, before it is counted. -/
def blobRow (blob : BlobId) (u : Upload) (m : Meta) : BlobRow :=
  match m.blobs.get blob with
  | some row => { row with derivative := (legacy u).or row.derivative }
  | none => ⟨u.canonical.bytes.length, legacy u, 0⟩

def stageAttachment (blob : BlobId) (handle : Handle) (now : Time) (u : Upload) (m : Meta) :
    Except NewsError Meta :=
  if (m.attaches.get handle).isSome then .error .store
  else
    let row := m.blobRow blob u
    .ok ⟨m.blobs.set blob { row with refs := row.refs + 1 },
      m.attaches.set handle ⟨blob, none, u.owner, now⟩⟩

/-- Bind staged handles to a new article, all of them or none. -/
def bind (article : ArticleId) (owner : Option Mailbox) (cutoff : Time) :
    (before handles : List Handle) → Meta → Except NewsError Meta
  | _, [], m => .ok m
  | before, handle :: handles, m =>
    if before.contains handle then .error .noSuchMedia
    else
      match owner, m.attaches.get handle with
      | some owner, some a =>
        if owner.matches a.uploader.login a.uploader.fingerprint = true ∧ a.article = none ∧
            cutoff ≤ a.stagedAt then
          bind article (some owner) cutoff (before ++ [handle]) handles
            { m with attaches := m.attaches.set handle { a with article := some article } }
        else .error .noSuchMedia
      | _, _ => .error .noSuchMedia

/-- Drop the rows that pass, and give back their references. -/
def giveBack (p : AttachRow → Bool) (m : Meta) : Meta where
  blobs := m.blobs.mapVals fun id row => { row with refs := row.refs - m.count p id }
  attaches := m.attaches.filter fun kv => !p kv.2

/-- The articles named are deleted, or their category is. -/
def releaseAttachments (articles : List ArticleId) : Meta → Meta :=
  giveBack fun a => a.article.any articles.contains

def expired (before : Time) (a : AttachRow) : Bool := a.article.isNone && decide (a.stagedAt < before)

/-- Drop expired staged rows, and the blobs nothing else names. -/
def expireAttachments (before : Time) (m : Meta) : List BlobId × Meta :=
  let left := m.giveBack (expired before)
  let gone := fun id (row : BlobRow) => decide (0 < m.count (expired before) id) && decide (row.refs ≤ 0)
  ((left.blobs.filter fun kv => gone kv.1 kv.2).keys,
    { left with blobs := left.blobs.filter fun kv => !gone kv.1 kv.2 })

/-- The blobs that rows name. -/
def attachmentBlobs (m : Meta) : List BlobId := (m.blobs.filter fun kv => decide (0 < kv.2.refs)).keys

def unreferencedBlobs (m : Meta) : List BlobId × Meta :=
  ((m.blobs.filter fun kv => decide (kv.2.refs ≤ 0)).keys,
    { m with blobs := m.blobs.filter fun kv => !decide (kv.2.refs ≤ 0) })

def BlobRow.size (row : BlobRow) : Nat := row.bytes + row.derivative.elim 0 Prod.snd

def attachmentBytes (m : Meta) : Nat := m.blobs.total BlobRow.size

end Meta

/-! ## Files -/

structure Files where
  canonical : Map BlobId (List UInt8) := .empty
  derivative : Map BlobId (List UInt8) := .empty

/-- A file that is there is left as it is. -/
def writeAtomic (files : Map BlobId (List UInt8)) (id : BlobId) (bytes : List UInt8) :
    Map BlobId (List UInt8) :=
  if (files.get id).isSome then files else files.set id bytes

namespace Files

def put (sha256 : List UInt8 → BlobId) (bytes : List UInt8) (f : Files) : Files :=
  { f with canonical := writeAtomic f.canonical (sha256 bytes) bytes }

def contains (id : BlobId) (f : Files) : Bool := (f.canonical.get id).isSome

def putDerivative (id : BlobId) (bytes : List UInt8) (f : Files) : Files :=
  { f with derivative := writeAtomic f.derivative id bytes }

def containsDerivative (id : BlobId) (f : Files) : Bool := (f.derivative.get id).isSome

def remove (id : BlobId) (f : Files) : Files := ⟨f.canonical.drop id, f.derivative.drop id⟩

end Files

structure BlobSurvey where
  present : List BlobId
  old : List BlobId

/-! ## Calls -/

structure Codec where
  canonicalize : List UInt8 → Except MediaReject Canonical
  legacyDerivative : Canonical → Except MediaReject (Option Canonical)

structure AttachmentPolicy where
  maxBytes : Nat
  maxTotalBytes : Nat
  stageTtl : Time
  legacyDerivative : Bool

structure Server where
  sha256 : List UInt8 → BlobId
  codec : Codec
  policy : AttachmentPolicy

/-- What comes after files have been unlinked, in the section that unlinks them. -/
inductive After where
  | unreferenced (before : Time)
  | survey (before : Time)
  | done
  deriving DecidableEq

/-- What waits for `news_blob_serial`. -/
inductive Job where
  | stage (u : Upload)
  | expire (before : Time)
  | removeUnreferenced
  | orphans (ids : List BlobId)

/-- Where a call is that does not hold the lock. -/
inductive Task where
  | waiting (job : Job)
  | keeping (before : Time)
  | surveying (before : Time) (keep : List BlobId)

/-- Where the holder of the lock is. -/
inductive Section where
  | checking (u : Upload)
  | putting (u : Upload)
  | puttingDerivative (u : Upload)
  | recording (u : Upload)
  | unlinking (ids : List BlobId) (after : After)

structure Domain where
  rows : Meta := {}
  files : Files := {}
  /-- `news_blob_serial`: who holds it, and where they are. -/
  serial : Option (Nat × Section) := none
  tasks : Map Nat Task := .empty

namespace Server

variable (v : Server)

def blob (u : Upload) : BlobId := v.sha256 u.canonical.bytes

/-- The derivative stored beside an image: one that cannot be made is done without. -/
def derive (c : Canonical) : Option Canonical :=
  if v.policy.legacyDerivative then (v.codec.legacyDerivative c).toOption.join else none

/-- What is asked and made before the lock; `allowed` says that the allowance lasts, `busy` and
`busyAfter` that the codec has no room. -/
def prepare (owner : Mailbox) (input : List UInt8) (allowed busy busyAfter : Bool) :
    Except NewsError Upload :=
  if input.length > v.policy.maxBytes then .error (.media .tooLarge)
  else if ¬ allowed then .error (.media .rateLimited)
  else if busy then .error (.media .busy)
  else
    match v.codec.canonicalize input with
    | .error e => .error (.media e)
    | .ok c =>
      if v.policy.legacyDerivative ∧ (busyAfter ∨ v.codec.legacyDerivative c = .error .busy) then
        .error (.media .busy)
      else .ok ⟨c, v.derive c, owner⟩

/-- What an upload adds to the volume: a file that is there adds nothing. -/
def incoming (u : Upload) (f : Files) : Nat :=
  (if f.contains (v.blob u) then 0 else u.canonical.bytes.length) +
    match u.derivative with
    | some d => if f.containsDerivative (v.blob u) then 0 else d.bytes.length
    | none => 0

end Server

namespace Domain

/-- The lock is held, by `c`, who is at `s`. -/
def hold (c : Nat) (s : Section) (w : Domain) : Domain := { w with serial := some (c, s) }

def unlock (w : Domain) : Domain := { w with serial := none }

def goOn (c : Nat) (task : Task) (w : Domain) : Domain := { w with tasks := w.tasks.set c task }

/-- A job that has taken the lock. A section's first call on a store is made with it. -/
def begin_ (c : Nat) (job : Job) (w : Domain) : Domain :=
  match job with
  | .stage u => w.hold c (.checking u)
  | .expire before =>
    let (ids, rows) := w.rows.expireAttachments before
    { w with rows }.hold c (.unlinking ids (.unreferenced before))
  | .removeUnreferenced =>
    let (ids, rows) := w.rows.unreferencedBlobs
    { w with rows }.hold c (.unlinking ids .done)
  | .orphans ids =>
    let keep := w.rows.attachmentBlobs
    w.hold c (.unlinking (ids.filter fun id => !keep.contains id) .done)

/-- A section whose files are unlinked. -/
def afterUnlink (c : Nat) (w : Domain) : After → Domain
  | .unreferenced before =>
    let (ids, rows) := w.rows.unreferencedBlobs
    { w with rows }.hold c (.unlinking ids (.survey before))
  | .survey before => w.unlock.goOn c (.keeping before)
  | .done => w.unlock

variable (v : Server)

/-- A step of the lock's holder. An upload whose hash is `blocked` is refused. -/
def holderStep (c : Nat) (now : Time) (handle : Handle) (blocked : Bool) (w : Domain) : Section → Domain
  | .checking u =>
    if blocked then w.unlock
    else if w.rows.attachmentBytes + v.incoming u w.files > v.policy.maxTotalBytes then w.unlock
    else w.hold c (.putting u)
  | .putting u => { w with files := w.files.put v.sha256 u.canonical.bytes }.hold c (.puttingDerivative u)
  | .puttingDerivative u =>
    match u.derivative with
    | some d => { w with files := w.files.putDerivative (v.blob u) d.bytes }.hold c (.recording u)
    | none => w.hold c (.recording u)
  | .recording u =>
    match w.rows.stageAttachment (v.blob u) handle now u with
    | .error _ => w.unlock
    | .ok rows => { w with rows }.unlock
  | .unlinking (id :: ids) after => { w with files := w.files.remove id }.hold c (.unlinking ids after)
  | .unlinking [] after => w.afterUnlink c after

/-- A step of a call that does not hold the lock. -/
def taskStep (c : Nat) (survey : BlobSurvey) (w : Domain) : Task → Domain
  | .waiting job => if w.serial.isSome then w else { w with tasks := w.tasks.drop c }.begin_ c job
  | .keeping before => w.goOn c (.surveying before w.rows.attachmentBlobs)
  | .surveying _ keep =>
    let orphans := survey.old.filter fun id => !keep.contains id
    let missing := keep.filter fun id => !survey.present.contains id
    if orphans.isEmpty ∧ missing.isEmpty then { w with tasks := w.tasks.drop c }
    else w.goOn c (.waiting (.orphans orphans))

def next (c : Nat) (now : Time) (handle : Handle) (blocked : Bool) (survey : BlobSurvey)
    (w : Domain) : Domain :=
  match w.serial.filter fun held => held.1 = c with
  | some (_, s) => w.holderStep v c now handle blocked s
  | none =>
    match w.tasks.get c with
    | some task => w.taskStep c survey task
    | none => w

end Domain

inductive Op where
  | stage (c : Nat) (owner : Mailbox) (input : List UInt8) (allowed busy busyAfter : Bool)
  | post (article : ArticleId) (owner : Option Mailbox) (cutoff : Time) (handles : List Handle)
  | takeDown (c : Nat) (articles : List ArticleId)
  | sweep (c : Nat) (now : Time)
  | next (c : Nat) (now : Time) (handle : Handle) (blocked : Bool) (survey : BlobSurvey)

/-- The upload that begins. -/
def Op.input : Op → Option (List UInt8)
  | .stage _ _ input .. => some input
  | _ => none

/-- The handle drawn at a step, if it is one that stages. -/
def Op.handle : Op → Option Handle
  | .next _ _ handle .. => some handle
  | _ => none

namespace Domain

variable (v : Server)

/-- A call that begins: its thread has no other under way. -/
def enter (c : Nat) (job : Job) (w : Domain) : Domain :=
  if (w.tasks.get c).isSome ∨ w.serial.any (fun held => held.1 = c) then w
  else w.goOn c (.waiting job)

def step (w : Domain) : Op → Domain
  | .stage c owner input allowed busy busyAfter =>
    match v.prepare owner input allowed busy busyAfter with
    | .error _ => w
    | .ok u => w.enter c (.stage u)
  | .post article owner cutoff handles =>
    match w.rows.bind article owner cutoff [] handles with
    | .error _ => w
    | .ok rows => { w with rows }
  | .takeDown c articles =>
    { w with rows := w.rows.releaseAttachments articles }.enter c .removeUnreferenced
  | .sweep c now => w.enter c (.expire (now - v.policy.stageTtl))
  | .next c now handle blocked survey => w.next v c now handle blocked survey

def run (ops : List Op) : Domain := ops.foldl (step v) {}

end Domain

end HxdNg.News
