import HxdNg.Media.Store

/-!
# Reports on lines and images, and the acts that answer them

* `MemoryModeration` : the reports filed, open and closed, and whether an open one holds an image;
* `Core.report` : a report on a line, an image or something else, and what it pins and grants;
* `Core.reportClose` : a report dismissed or closed as a duplicate, which lets its image go;
* `Core.redactLine`, `revokeMedia`, `purgeSender`, `purgeGhost` : the acts that close reports as removed;
* `Core.send`, `uploadPart`, `finishUpload`, `reports`, `historyMediaFetchable` : what else touches an
  image.
-/

namespace HxdNg.Media

open Relationships Assoc
open Identity (Fingerprint)

abbrev LineId := Nat
abbrev ReportId := Nat

/-- Whose a reported or removed thing is: the durable identity where there is one. -/
structure Subject where
  login : Option String
  fingerprint : Option Fingerprint
  deriving DecidableEq

namespace Subject

/-- The mailbox rule's key for this person, or `none` for someone with no durable identity. -/
def mailbox (s : Subject) : Option Mailbox :=
  match s.login, s.fingerprint with
  | login, some fp => some (.identified (login.getD "") fp)
  | some login, none => some ⟨login, none⟩
  | none, none => none

def samePerson (s other : Subject) : Bool :=
  match s.mailbox, other.mailbox with
  | some a, some b => a.matches b.login b.fingerprint
  | _, _ => false

def ofMailbox (m : Mailbox) : Subject where
  login := if m.login = "" then none else some m.login
  fingerprint := m.fingerprint

end Subject

structure LogLine where
  id : LineId
  fromLogin : Option String
  fromFingerprint : Option Fingerprint
  at_ : Instant
  media : Option Handle
  ghost : Option (Bytes 16)
  deleted : Bool
  deriving DecidableEq

def Subject.ofLine (line : LogLine) : Subject := ⟨line.fromLogin, line.fromFingerprint⟩

/-- Whether `line` was sent by `who`, by the mailbox rule. -/
def sentBy (line : LogLine) (who : Mailbox) : Bool :=
  match line.fromLogin, line.fromFingerprint with
  | none, none => false
  | login, fp => who.matches (login.getD "") fp

/-! ## The report store -/

inductive ReportTarget where
  | line (id : LineId)
  | media (id : Handle)
  | msg (reference : Option Nat)
  /-- A person, named by the report's `about`. -/
  | user
  | article (id : Nat)
  deriving DecidableEq

inductive Outcome where
  | removed
  | dismissed
  | duplicate
  deriving DecidableEq

structure Closed where
  at_ : Instant
  outcome : Outcome
  duplicateOf : Option ReportId
  deriving DecidableEq

structure Report where
  id : ReportId
  reporter : Option Mailbox
  target : ReportTarget
  about : Subject
  media : Option Handle
  closed : Option Closed
  deriving DecidableEq

def Report.open (r : Report) : Bool := r.closed.isNone

inductive ReportFilter where
  | open
  | closed
  | all

def ReportFilter.admits : ReportFilter → Report → Bool
  | .open, r => r.closed.isNone
  | .closed, r => r.closed.isSome
  | .all, _ => true

structure MemoryModeration where
  reports : List Report
  lastReport : ReportId

namespace MemoryModeration

def file (s : MemoryModeration) (report : Report) : ReportId × MemoryModeration :=
  let id := s.lastReport + 1
  (id, { reports := s.reports ++ [{ report with id := id }], lastReport := id })

def report (s : MemoryModeration) (id : ReportId) : Option Report := s.reports.find? fun r => r.id = id

/-- The reports `filter` admits, newest first, from before `before`. -/
def page (s : MemoryModeration) (filter : ReportFilter) (before : Option ReportId) (limit : Nat) :
    List Report :=
  (s.reports.reverse.filter fun r => filter.admits r && before.all fun b => decide (r.id < b)).take limit

def openOn (s : MemoryModeration) (target : ReportTarget) : List Report :=
  s.reports.filter fun r => r.open && decide (r.target = target)

/-- Close the open report `id`, and whether there was one. -/
def close (s : MemoryModeration) (id : ReportId) (closed : Closed) : Bool × MemoryModeration :=
  match s.reports.findIdx? fun r => decide (r.id = id) && r.open with
  | some i => (true, { s with reports := s.reports.modify i fun r => { r with closed := some closed } })
  | none => (false, s)

def holdsMedia (s : MemoryModeration) (handle : Handle) : Bool :=
  s.reports.any fun r => r.open && decide (r.media = some handle)

def pruneReports (s : MemoryModeration) (before : Instant) : MemoryModeration :=
  { s with reports := s.reports.filter fun r => r.closed.all fun c => decide (before ≤ c.at_) }

end MemoryModeration

/-! ## The core -/

inductive ModError where
  | badRequest (what : String)
  | noSuchLine
  | noSuchMedia
  | noSuchReport
  | noSuchTarget
  | isProtected
  | ownReport
  | rateLimited
  deriving DecidableEq

structure Server where
  sha256 : List UInt8 → Bytes 32
  media : MediaConfig
  pinDays : Nat

/-- A number of days as a length of time. -/
def days (n : Nat) : Instant := n * 24 * 3600 * 10 ^ 9

structure Core where
  now : Instant
  media : StoreInner
  lines : List LogLine
  lastLine : LineId
  moderation : MemoryModeration

/-- The session a report comes from, and its mailbox where it has one. -/
structure Reporter where
  uid : Nat
  serial : Nat
  mailbox : Option Mailbox

/-- The principals a session presents: itself, and its mailbox. -/
def Reporter.principals (by_ : Reporter) : List Principal :=
  .session by_.uid by_.serial :: (by_.mailbox.map Principal.mailbox).toList

inductive ReportRequest where
  | line (id : LineId) (readable : Bool)
  | media (handle : Handle)
  | msg (reference : Option Nat) (about : Subject)
  | user (about : Subject)
  | article (id : Nat) (about : Subject) (gone : Bool)

/-- What a report request comes to: its target, whose it is, whether it is gone, and the image it is
about. -/
structure Reported where
  target : ReportTarget
  about : Subject
  gone : Bool
  media : Option Handle

structure Filed where
  id : ReportId
  outcome : Option Outcome
  followUp : Bool
  deriving DecidableEq

namespace Core

def initial : Core := ⟨0, .empty, [], 0, ⟨[], 0⟩⟩

def line (c : Core) (id : LineId) : Option LogLine := c.lines.find? fun l => l.id = id

/-- A part of an upload that is not the last: what is dead goes, and the part is kept aside. -/
def uploadPart (c : Core) : Core := { c with media := c.media.sweep c.now }

/-- The end of an upload, with the handle drawn for it. -/
def finishUpload (v : Server) (c : Core) (who : Uploader) (canonical : Canonical) (drawn : Option Handle) :
    Core :=
  let hash := v.sha256 canonical.bytes
  { c with media := (StoreInner.accept v.media hash c.media who canonical drawn c.now).2 }

/-- The new line `l`, under the next id. -/
def append (c : Core) (l : LogLine) : Core :=
  { c with lines := c.lines ++ [{ l with id := c.lastLine + 1 }], lastLine := c.lastLine + 1 }

/-- A line sent to a logged room, which an image that is not the sender's or is gone refuses; `audience`
are those the relay showed it to. -/
def send (c : Core) (sender : Principal) (login : Option String) (fp : Option Fingerprint)
    (media : Option Handle) (audience : List Principal) : Core :=
  match media with
  | none => c.append ⟨0, login, fp, c.now, none, none, false⟩
  | some handle =>
    match c.media.mediaForSend c.now sender handle with
    | none => c
    | some _ =>
      let c := c.append ⟨0, login, fp, c.now, some handle, none, false⟩
      { c with media := c.media.mediaCapture handle (audience ++ [sender]) }

/-- A line of a linked server's user, which carries no image. -/
def sendGhost (c : Core) (key : Bytes 16) : Core := c.append ⟨0, none, none, c.now, none, some key, false⟩

/-- Whether a history reader may fetch the image of a line it was served, and the grant that makes it so
where every reader may. -/
def historyMediaFetchable (v : Server) (c : Core) (who : Reporter) (id : LineId) : Bool × Core :=
  match (c.line id).bind fun l => if l.deleted then none else l.media with
  | none => (false, c)
  | some handle =>
    if ((c.media.mediaMeta c.now handle).bind MediaRef.id).isNone then (false, c)
    else if v.media.historyAccess = .readers then
      (true, { c with media := c.media.mediaGrant c.now handle (.session who.uid who.serial) })
    else (who.principals.any fun p => (c.media.mediaFetchAs c.now p handle).isSome, c)

/-! ### Reports -/

def reported (c : Core) (by_ : Reporter) : ReportRequest → Except ModError Reported
  | .line id readable =>
    match (c.line id).filter fun _ => readable with
    | none => .error .noSuchTarget
    | some line => .ok ⟨.line id, .ofLine line, line.deleted, line.media⟩
  | .media handle =>
    match c.media.mediaShownTo c.now by_.principals handle with
    | none => .error .noSuchTarget
    | some record =>
      .ok ⟨.media handle, record.uploader.elim ⟨none, none⟩ Subject.ofMailbox, record.reference.id.isNone,
        some handle⟩
  | .msg reference about => .ok ⟨.msg reference, about, false, none⟩
  | .user about => .ok ⟨.user, about, false, none⟩
  | .article id about gone => .ok ⟨.article id, about, gone, none⟩

/-- The open report of the same thing that `by_` filed before. -/
def followed (c : Core) (by_ : Reporter) (what : Reported) : Option Report :=
  by_.mailbox.bind fun mine => (c.moderation.openOn what.target).find? fun r =>
    (r.reporter.any fun m => mine.matches m.login m.fingerprint) &&
      (decide (what.target ≠ .user) || r.about.samePerson what.about)

/-- Hold the image of a new report while it is open, and hand it to the moderators. -/
def holdImage (v : Server) (c : Core) (handle : Handle) (moderators : List Principal) : Core :=
  let media := c.media.mediaPin c.now handle (days v.pinDays)
  { c with media := moderators.foldl (fun s p => s.mediaGrant c.now handle p) media }

/-- The report filed, and what it holds unless it is closed at once. -/
def fileReport (v : Server) (c : Core) (by_ : Reporter) (what : Reported) (moderators : List Principal) :
    Filed × Core :=
  let closed := if what.gone then some ⟨c.now, .removed, none⟩ else none
  let (id, moderation) := c.moderation.file ⟨0, by_.mailbox, what.target, what.about, what.media, closed⟩
  let c := { c with moderation := moderation }
  let c :=
    match what.gone, what.media with
    | false, some handle => c.holdImage v handle moderators
    | _, _ => c
  (⟨id, if what.gone then some .removed else none, by_.mailbox.isSome⟩, c)

/-- A report; `allows` is the rate's answer and `moderators` the principals of those on the roster. -/
def report (v : Server) (c : Core) (by_ : Reporter) (request : ReportRequest) (allows : Bool)
    (moderators : List Principal) : Except ModError (Filed × Core) := do
  let what ← c.reported by_ request
  match c.followed by_ what with
  | some first => .ok (⟨first.id, none, true⟩, c)
  | none => if allows then .ok (c.fileReport v by_ what moderators) else .error .rateLimited

/-- A page of reports, the images of the open ones granted to the moderator that reads it. -/
def reports (c : Core) (who : List Principal) (filter : ReportFilter) (before : Option ReportId)
    (limit : Nat) : (List Report × Bool) × Core :=
  let limit := min (max limit 1) 100
  let page := c.moderation.page filter before (limit + 1)
  let more := limit < page.length
  let page := page.take limit
  let handles := (page.filter Report.open).filterMap Report.media
  let grant (s : StoreInner) (h : Handle) := who.foldl (fun s p => s.mediaGrant c.now h p) s
  ((page, more), { c with media := handles.foldl grant c.media })

/-- What closes a report as a duplicate, or the refusal. -/
def duplicateOf (c : Core) (id : ReportId) (outcome : Outcome) (of : Option ReportId) :
    Except ModError (Option ReportId) :=
  match outcome, of with
  | .removed, _ => .error (.badRequest "A report is closed as removed by removing what it names.")
  | .duplicate, none => .error (.badRequest "A duplicate names the report it repeats.")
  | .duplicate, some of =>
    if of = id then .error (.badRequest "A report cannot repeat itself.")
    else if (c.moderation.report of).isNone then .error .noSuchReport
    else .ok (some of)
  | .dismissed, _ => .ok none

/-- Let an image go that no open report holds. -/
def release (c : Core) (handle : Handle) : Core :=
  if c.moderation.holdsMedia handle then c else { c with media := c.media.mediaUnpin handle }

/-- Close a report as dismissed, or as a duplicate of another. -/
def reportClose (c : Core) (person : Option Subject) (id : ReportId) (outcome : Outcome)
    (of : Option ReportId) : Except ModError Core := do
  let duplicate ← c.duplicateOf id outcome of
  match c.moderation.report id with
  | none => .error .noSuchReport
  | some report =>
    if report.closed.isSome then .error (.badRequest "That report is closed already.")
    else if person.any report.about.samePerson then .error .ownReport
    else
      let (found, moderation) := c.moderation.close id ⟨c.now, outcome, duplicate⟩
      if found then
        let c := { c with moderation := moderation }
        .ok (report.media.elim c c.release)
      else .error (.badRequest "That report is closed already.")

/-- Close one report as removed. -/
def closeRemoved (c : Core) (report : Report) : Core :=
  { c with moderation := (c.moderation.close report.id ⟨c.now, .removed, none⟩).2 }

/-- Close every open report on `target` as removed; for a person, only those `about` them. -/
def closeReportsOn (c : Core) (target : ReportTarget) (about : Option Mailbox) : Core :=
  ((c.moderation.openOn target).filter fun r => about.all fun who =>
    r.about.mailbox.any fun m => who.matches m.login m.fingerprint).foldl closeRemoved c

/-- The same for many targets at once, none of them a person. -/
def closeReportsOnAny (c : Core) (targets : List ReportTarget) : Core :=
  (c.moderation.reports.filter fun r => r.open && decide (r.target ∈ targets)).foldl closeRemoved c

/-! ### Acts -/

def tombstoneLines (c : Core) (ids : List LineId) : Core :=
  { c with lines := c.lines.map fun l => if l.id ∈ ids then { l with deleted := true } else l }

/-- The bytes and, with `block`, the hash. -/
def revokeQuietly (c : Core) (handle : Handle) (block : Bool) : Core :=
  { c with media := c.media.mediaRevoke handle block }

/-- Redact a logged line, and revoke the image it carried. `guarded` is whether its author is protected
from the moderator. -/
def redactLine (c : Core) (guarded : Subject → Bool) (id : LineId) : Except ModError Core :=
  match c.line id with
  | none => .error .noSuchLine
  | some line =>
    if line.deleted then .ok (c.closeReportsOn (.line id) none)
    else if guarded (.ofLine line) then .error .isProtected
    else
      let record := line.media.bind fun h => c.media.mediaRecord c.now h
      let c := c.tombstoneLines [id]
      let c :=
        match line.media, record with
        | some handle, some _ => (c.revokeQuietly handle true).closeReportsOn (.media handle) none
        | _, _ => c
      .ok (c.closeReportsOn (.line id) none)

/-- Revoke an image. -/
def revokeMedia (c : Core) (guarded : Option Mailbox → Bool) (handle : Handle) (block : Bool) :
    Except ModError Core :=
  match c.media.mediaRecord c.now handle with
  | none => .error .noSuchMedia
  | some record =>
    if guarded record.uploader then .error .isProtected
    else .ok ((c.revokeQuietly handle block).closeReportsOn (.media handle) none)

/-- The lines `who` sent in the last `within` that are not redacted. -/
def linesBy (c : Core) (who : Mailbox) (within : Instant) : List LogLine :=
  c.lines.filter fun l => decide (c.now - within ≤ l.at_) && !l.deleted && sentBy l who

/-- What a purge of `who` takes: its lines, images and articles. -/
def purgeTargets (c : Core) (who : Mailbox) (within : Instant) (articles : List Nat) : List ReportTarget :=
  (c.linesBy who within).map (fun l => ReportTarget.line l.id) ++
    (c.media.mediaUploadedBy c.now who within).map ReportTarget.media ++
    articles.map ReportTarget.article

/-- Purge a person: its lines of the window redacted and its images of the window revoked. `articles`
are those the news store finds. -/
def purgeSender (c : Core) (who : Mailbox) (within : Instant) (articles : List Nat) : Core :=
  let targets := c.purgeTargets who within articles
  let media := c.media.mediaUploadedBy c.now who within
  let c := c.tombstoneLines ((c.linesBy who within).map LogLine.id)
  let c := media.foldl (fun c h => c.revokeQuietly h true) c
  (c.closeReportsOnAny targets).closeReportsOn .user (some who)

/-- The lines of a linked server's user in the last `within` that are not redacted. -/
def linesByGhost (c : Core) (key : Bytes 16) (within : Instant) : List LogLine :=
  c.lines.filter fun l => decide (c.now - within ≤ l.at_) && !l.deleted && decide (l.ghost = some key)

def ghostTargets (c : Core) (key : Bytes 16) (within : Instant) : List ReportTarget :=
  (c.linesByGhost key within).map fun l => ReportTarget.line l.id

/-- Purge a linked server's user's lines here. -/
def purgeGhost (c : Core) (key : Bytes 16) (within : Instant) : Core :=
  let targets := c.ghostTargets key within
  (c.tombstoneLines ((c.linesByGhost key within).map LogLine.id)).closeReportsOnAny targets

end Core

/-! ## What a closing leaves -/

/-- Changing the first element `p` holds of changes every such element, where it holds of one at most. -/
theorem modify_findIdx {α : Type*} {p : α → Bool} {f : α → α} {l : List α}
    (hone : l.Pairwise fun a b => ¬(p a = true ∧ p b = true)) :
    (match l.findIdx? p with | some i => l.modify i f | none => l) =
      l.map fun a => if p a then f a else a := by
  induction l with
  | nil => rfl
  | cons a l ih =>
    obtain ⟨hout, hone⟩ := List.pairwise_cons.1 hone
    rw [List.findIdx?_cons, List.map_cons]
    by_cases ha : p a = true
    · have hrest : l.map (fun b => if p b then f b else b) = l := by
        conv_rhs => rw [← List.map_id l]
        exact List.map_congr_left fun b hb => if_neg fun hp => hout b hb ⟨ha, hp⟩
      rw [if_pos ha, if_pos ha, hrest]
      rfl
    · rw [if_neg ha, if_neg ha, ← ih hone]
      cases l.findIdx? p with
      | none => rfl
      | some i => rfl

namespace MemoryModeration

/-- Reports have distinct ids, which were counted. -/
structure Wf (s : MemoryModeration) : Prop where
  ids : (s.reports.map Report.id).Nodup
  last : ∀ r ∈ s.reports, r.id ≤ s.lastReport

variable {s s' s'' : MemoryModeration} {r : Report} {h : Handle} {closed : Closed} {q q' : Report → Bool}

/-- The open reports `q` selects are closed by `closed`, and nothing else changed. -/
def ClosedBy (q : Report → Bool) (closed : Closed) (s s' : MemoryModeration) : Prop :=
  s'.lastReport = s.lastReport ∧
    s'.reports = s.reports.map fun r => if r.open && q r then { r with closed := some closed } else r

theorem ClosedBy.refl (s : MemoryModeration) : ClosedBy (fun _ => false) closed s s := by
  refine ⟨rfl, ?_⟩
  simp

theorem ClosedBy.trans (h₁ : ClosedBy q closed s s') (h₂ : ClosedBy q' closed s' s'') :
    ClosedBy (fun r => q r || q' r) closed s s'' := by
  refine ⟨h₂.1.trans h₁.1, ?_⟩
  rw [h₂.2, h₁.2, List.map_map]
  apply List.map_congr_left
  intro r _
  by_cases ho : r.open = true
  · by_cases hq : q r = true
    · have hclosed : ({ r with closed := some closed } : Report).open = false := rfl
      simp only [Function.comp, ho, hq, hclosed, Bool.true_or, Bool.and_self, Bool.false_and, if_true,
        Bool.false_eq_true, if_false]
    · by_cases hq' : q' r = true
      · simp [ho, hq, hq']
      · simp [ho, hq, hq']
  · simp [ho]

theorem ClosedBy.wf (hc : ClosedBy q closed s s') (hs : s.Wf) : s'.Wf := by
  have hids : s'.reports.map Report.id = s.reports.map Report.id := by
    rw [hc.2, List.map_map]
    apply List.map_congr_left
    intro r _
    show (if r.open && q r then { r with closed := some closed } else r).id = r.id
    split <;> rfl
  refine ⟨hids ▸ hs.ids, fun r hr => ?_⟩
  have hr : r.id ∈ s'.reports.map Report.id := List.mem_map_of_mem hr
  obtain ⟨r₀, hr₀, hid⟩ := List.mem_map.1 (hids ▸ hr)
  rw [← hid, hc.1]
  exact hs.last r₀ hr₀

/-- The open reports left are those there were and `q` did not select. -/
theorem ClosedBy.mem_open (hc : ClosedBy q closed s s') :
    (r ∈ s'.reports ∧ r.open = true) ↔ r ∈ s.reports ∧ r.open = true ∧ q r = false := by
  rw [hc.2, List.mem_map]
  constructor
  · rintro ⟨⟨r₀, hr₀, rfl⟩, ho⟩
    by_cases hq : (r₀.open && q r₀) = true
    · rw [if_pos hq] at ho
      cases ho
    · rw [if_neg hq] at ho ⊢
      refine ⟨hr₀, ho, ?_⟩
      rwa [ho, Bool.true_and, Bool.not_eq_true] at hq
  · rintro ⟨hr, ho, hq⟩
    refine ⟨⟨r, hr, ?_⟩, ho⟩
    rw [ho, hq]
    rfl

theorem holdsMedia_iff : s.holdsMedia h = true ↔ ∃ r, (r ∈ s.reports ∧ r.open = true) ∧ r.media = some h := by
  simp only [holdsMedia, List.any_eq_true, Bool.and_eq_true, decide_eq_true_iff, and_assoc]

theorem ClosedBy.holdsMedia (hc : ClosedBy q closed s s') :
    s'.holdsMedia h = true ↔ ∃ r ∈ s.reports, r.open = true ∧ q r = false ∧ r.media = some h := by
  rw [holdsMedia_iff]
  simp only [hc.mem_open, and_assoc]

theorem close_closedBy (hs : s.Wf) (id : ReportId) (closed : Closed) :
    ClosedBy (fun r => decide (r.id = id)) closed s (s.close id closed).2 := by
  have hone : s.reports.Pairwise fun a b =>
      ¬((decide (a.id = id) && a.open) = true ∧ (decide (b.id = id) && b.open) = true) := by
    refine (List.pairwise_map.1 hs.ids).imp fun hne h => hne ?_
    rw [Bool.and_eq_true, Bool.and_eq_true, decide_eq_true_iff, decide_eq_true_iff] at h
    exact h.1.1.trans h.2.1.symm
  have hmap := modify_findIdx (f := fun r : Report => { r with closed := some closed }) hone
  unfold close
  cases hi : s.reports.findIdx? fun r => decide (r.id = id) && r.open with
  | some i =>
    rw [hi] at hmap
    refine ⟨rfl, hmap.trans (List.map_congr_left fun r _ => ?_)⟩
    rw [Bool.and_comm]
  | none =>
    rw [hi] at hmap
    refine ⟨rfl, hmap.trans (List.map_congr_left fun r _ => ?_)⟩
    rw [Bool.and_comm]

/-- What closing each of the open reports `q` selects leaves, one after the other. -/
theorem foldl_close (hs : s.Wf) (rs : List Report) (closed : Closed) :
    ClosedBy (fun r => decide (r.id ∈ rs.map Report.id)) closed s
      (rs.foldl (fun s r => (s.close r.id closed).2) s) := by
  induction rs generalizing s with
  | nil =>
    simp only [List.map_nil, List.not_mem_nil, decide_false]
    exact ClosedBy.refl s
  | cons r rs ih =>
    have hone := close_closedBy hs r.id closed
    have hall := hone.trans (ih (hone.wf hs))
    simp only [List.map_cons, List.mem_cons, Bool.decide_or]
    exact hall

/-- Where the reports closed are the open ones `q` selects. -/
theorem foldl_close_filter (hs : s.Wf) (q : Report → Bool) (closed : Closed) :
    ClosedBy q closed s ((s.reports.filter fun r => r.open && q r).foldl
      (fun s r => (s.close r.id closed).2) s) := by
  obtain ⟨hlast, hmap⟩ := foldl_close hs (s.reports.filter fun r => r.open && q r) closed
  refine ⟨hlast, hmap.trans (List.map_congr_left fun r hr => ?_)⟩
  by_cases hsel : (r.open && q r) = true
  · have hm : r.id ∈ (s.reports.filter fun r => r.open && q r).map Report.id :=
      List.mem_map_of_mem (List.mem_filter.2 ⟨hr, hsel⟩)
    rw [Bool.and_eq_true] at hsel
    simp only [hsel.1, hsel.2, hm, decide_true]
  · have hm : r.id ∉ (s.reports.filter fun r => r.open && q r).map Report.id := by
      intro hm
      obtain ⟨r₀, hr₀, hid⟩ := List.mem_map.1 hm
      obtain ⟨hr₀, hsel₀⟩ := List.mem_filter.1 hr₀
      rw [List.inj_on_of_nodup_map hs.ids hr₀ hr hid] at hsel₀
      exact hsel hsel₀
    simp only [hm, decide_false, Bool.and_false, hsel]

end MemoryModeration

namespace Core

variable {c : Core}

theorem foldl_closeRemoved (rs : List Report) (c : Core) :
    rs.foldl closeRemoved c = { c with
      moderation := rs.foldl (fun s r => (s.close r.id ⟨c.now, .removed, none⟩).2) c.moderation } := by
  induction rs generalizing c with
  | nil => rfl
  | cons r rs ih =>
    rw [List.foldl_cons, ih]
    rfl

/-- The reports an act on `target` closes: for a person, only those about them. -/
def onTarget (target : ReportTarget) (about : Option Mailbox) (r : Report) : Bool :=
  decide (r.target = target) && about.all fun who =>
    r.about.mailbox.any fun m => who.matches m.login m.fingerprint

/-- `c'` is `c` with the open reports `q` selects closed as removed. -/
structure Closes (q : Report → Bool) (c c' : Core) : Prop where
  now : c'.now = c.now
  media : c'.media = c.media
  lines : c'.lines = c.lines
  lastLine : c'.lastLine = c.lastLine
  moderation : MemoryModeration.ClosedBy q ⟨c.now, .removed, none⟩ c.moderation c'.moderation

theorem closes_closeReportsOn (hs : c.moderation.Wf) (target : ReportTarget) (about : Option Mailbox) :
    Closes (onTarget target about) c (c.closeReportsOn target about) := by
  have hsel : (c.moderation.openOn target).filter (fun r => about.all fun who =>
      r.about.mailbox.any fun m => who.matches m.login m.fingerprint) =
      c.moderation.reports.filter fun r => r.open && onTarget target about r := by
    rw [MemoryModeration.openOn, List.filter_filter]
    apply List.filter_congr
    intro r _
    rw [onTarget, Bool.and_comm, Bool.and_assoc]
  unfold closeReportsOn
  rw [hsel, foldl_closeRemoved]
  exact ⟨rfl, rfl, rfl, rfl, MemoryModeration.foldl_close_filter hs _ _⟩

theorem closes_closeReportsOnAny (hs : c.moderation.Wf) (targets : List ReportTarget) :
    Closes (fun r => decide (r.target ∈ targets)) c (c.closeReportsOnAny targets) := by
  unfold closeReportsOnAny
  rw [foldl_closeRemoved]
  exact ⟨rfl, rfl, rfl, rfl, MemoryModeration.foldl_close_filter hs _ _⟩

end Core

end HxdNg.Media
