import HxdNg.Media.Reports

/-!
# What a report holds, and for how long

* `Op`, `Core.step` : everything that touches an image, a line that carries one or a report;
* `Watch` : what an onlooker keeps: the handles drawn, and since when open reports hold each;
* `Op.Lets` : the steps after which an image is held no longer than it should be;
* `Sound` : what reports and lines say of the images they name, and `Moves` : what one step does to an
  image; `Pinned` : a handle's pin runs from the first of the reports that hold it;
* `image_gone_stays_gone` : over a run of such steps.
-/

namespace HxdNg.Media

open Relationships Assoc
open Identity (Fingerprint)

inductive Op where
  | wait (d : Instant)
  | uploadPart
  | finishUpload (who : Uploader) (canonical : Canonical) (drawn : Option Handle)
  | send (sender : Principal) (login : Option String) (fp : Option Fingerprint) (media : Option Handle)
      (audience : List Principal)
  | sendGhost (key : Bytes 16)
  | capture (handle : Handle) (who : List Principal)
  | history (who : Reporter) (id : LineId)
  | report (by_ : Reporter) (request : ReportRequest) (allows : Bool) (moderators : List Principal)
  | reports (who : List Principal) (filter : ReportFilter) (before : Option ReportId) (limit : Nat)
  | close (person : Option Subject) (id : ReportId) (outcome : Outcome) (of : Option ReportId)
  | redact (guarded : Subject → Bool) (id : LineId)
  | revoke (guarded : Option Mailbox → Bool) (handle : Handle) (block : Bool)
  | purge (who : Mailbox) (within : Instant) (articles : List Nat)
  | purgeGhost (key : Bytes 16) (within : Instant)
  | sweep
  | blockHashes (hashes : List (Bytes 32))
  | pruneReports (before : Instant)
  | dropLines (keep : LogLine → Bool)

def Op.drawn : Op → Option Handle
  | .finishUpload _ _ drawn => drawn
  | _ => none

/-- The state a fallible operation leaves: a refused one leaves it as it was. -/
def Core.settle {α : Type} (c : Core) (after : α → Core) : Except ModError α → Core
  | .ok a => after a
  | .error _ => c

def Core.step (v : Server) (c : Core) : Op → Core
  | .wait d => { c with now := c.now + d }
  | .uploadPart => c.uploadPart
  | .finishUpload who canonical drawn => c.finishUpload v who canonical drawn
  | .send sender login fp media audience => c.send sender login fp media audience
  | .sendGhost key => c.sendGhost key
  | .capture handle who => { c with media := c.media.mediaCapture handle who }
  | .history who id => (c.historyMediaFetchable v who id).2
  | .report by_ request allows moderators => c.settle Prod.snd (c.report v by_ request allows moderators)
  | .reports who filter before limit => (c.reports who filter before limit).2
  | .close person id outcome of => c.settle (fun c => c) (c.reportClose person id outcome of)
  | .redact guarded id => c.settle (fun c => c) (c.redactLine guarded id)
  | .revoke guarded handle block => c.settle (fun c => c) (c.revokeMedia guarded handle block)
  | .purge who within articles => c.purgeSender who within articles
  | .purgeGhost key within => c.purgeGhost key within
  | .sweep => { c with media := c.media.sweep c.now }
  | .blockHashes hashes => { c with media := c.media.mediaBlockHashes hashes }
  | .pruneReports before => { c with moderation := c.moderation.pruneReports before }
  | .dropLines keep => { c with lines := c.lines.filter keep }

/-- What an onlooker keeps of a run: the handles drawn, and since when each has been held by one open
report or another without a gap. -/
structure Watch where
  issued : Handle → Bool
  since : Handle → Option Instant

/-- What it keeps once `op` has left `c`. -/
def Watch.look (w : Watch) (op : Op) (c : Core) : Watch where
  issued h := w.issued h || decide (op.drawn = some h)
  since h := if c.moderation.holdsMedia h then (w.since h).or (some c.now) else none

structure World where
  core : Core
  watch : Watch

namespace World

def initial : World := ⟨.initial, fun _ => false, fun _ => none⟩

def step (v : Server) (w : World) (op : Op) : World :=
  let c := w.core.step v op
  ⟨c, w.watch.look op c⟩

def run (v : Server) (w : World) (ops : List Op) : World := ops.foldl (step v) w

/-- Whether anyone may fetch the image's bytes. -/
def Fetchable (w : World) (h : Handle) : Prop :=
  ∃ who, (w.core.media.mediaFetchAs w.core.now who h).isSome = true

end World

/-! ## The steps that let an image go -/

namespace Core

/-- A report that would be filed open on an image finds it not yet dead, and its pin still in force if
one is held. -/
def FilesInTime (c : Core) (by_ : Reporter) (request : ReportRequest) : Prop :=
  ∀ what h e, c.reported by_ request = .ok what → c.followed by_ what = none → what.gone = false →
    what.media = some h → c.media.items.get h = some e → e.bytes.isSome = true →
      e.dead c.now = false ∧ (c.moderation.holdsMedia h = true → c.media.pinned c.now h = true)

/-- Of an image that open reports hold, an act that closes those `closes` selects leaves one open or
takes the bytes. -/
def LeavesHeld (c : Core) (closes : Report → Bool) (takes : Handle → Bool) : Prop :=
  ∀ h e, c.media.items.get h = some e → e.bytes.isSome = true → takes h = false →
    c.moderation.holdsMedia h = true →
      ∃ r ∈ c.moderation.reports, r.open = true ∧ closes r = false ∧ r.media = some h

def purgeCloses (c : Core) (who : Mailbox) (within : Instant) (articles : List Nat) (r : Report) : Bool :=
  decide (r.target ∈ c.purgeTargets who within articles) || onTarget .user (some who) r

end Core

/-- No report is filed on an image past its deadline, or on one held by reports whose pin has lapsed; and
no purge, nor a redaction of a line redacted before, closes the last report that holds an image whose
bytes it leaves. -/
def Op.Lets (c : Core) : Op → Prop
  | .report by_ request allows _ => allows = true → c.FilesInTime by_ request
  | .purge who within articles =>
    c.LeavesHeld (c.purgeCloses who within articles)
      fun h => decide (h ∈ c.media.mediaUploadedBy c.now who within)
  | .purgeGhost key within =>
    c.LeavesHeld (fun r => decide (r.target ∈ c.ghostTargets key within)) fun _ => false
  | .redact _ id =>
    ∀ l, c.line id = some l → l.deleted = true → c.LeavesHeld (Core.onTarget (.line id) none) fun _ => false
  | _ => True

/-! ## What reports and lines say of images -/

def Report.Names (lines : List LogLine) (lastLine : LineId) (r : Report) : Prop :=
  match r.target with
  | .line id => id ≤ lastLine ∧ ∀ l ∈ lines, l.id = id → l.media = r.media
  | .media h => r.media = some h
  | _ => True

/-- Lines and open reports name images there were, and a report the image its line carries. -/
structure Sound (c : Core) (issued : Handle → Bool) : Prop where
  items : ∀ h, (c.media.items.get h).isSome = true → issued h = true
  ids : (c.lines.map LogLine.id).Nodup
  last : ∀ l ∈ c.lines, l.id ≤ c.lastLine
  carried : ∀ l ∈ c.lines, ∀ h, l.media = some h → issued h = true
  reports : c.moderation.Wf
  held : ∀ r ∈ c.moderation.reports, r.open = true → ∀ h, r.media = some h → issued h = true
  named : ∀ r ∈ c.moderation.reports, r.open = true → r.Names c.lines c.lastLine

variable {v : Server} {c c' c'' : Core} {w : World} {issued : Handle → Bool} {h : Handle} {e : Entry}

/-- A line's id and the image it carries. -/
def LogLine.carries (l : LogLine) : LineId × Option Handle := (l.id, l.media)

theorem ids_sublist {ls ls' : List LogLine}
    (hl : (ls'.map LogLine.carries).Sublist (ls.map LogLine.carries)) :
    (ls'.map LogLine.id).Sublist (ls.map LogLine.id) := by
  have hfst (ls : List LogLine) : ls.map LogLine.id = (ls.map LogLine.carries).map Prod.fst := by
    rw [List.map_map]
    rfl
  rw [hfst, hfst ls]
  exact hl.map Prod.fst

/-- Fewer lines and open reports, naming what they did, are sound too. -/
theorem Sound.shrink (hs : Sound c issued) (hitems : ∀ h, (c'.media.items.get h).isSome = true → issued h = true)
    (hlines : (c'.lines.map LogLine.carries).Sublist (c.lines.map LogLine.carries))
    (hlast : c'.lastLine = c.lastLine) (hwf : c'.moderation.Wf)
    (hopen : ∀ r ∈ c'.moderation.reports, r.open = true → r ∈ c.moderation.reports) : Sound c' issued := by
  have hmem (l : LogLine) (hl : l ∈ c'.lines) : ∃ l₀ ∈ c.lines, l₀.id = l.id ∧ l₀.media = l.media := by
    obtain ⟨l₀, hl₀, heq⟩ := List.mem_map.1 (hlines.subset (List.mem_map_of_mem hl))
    exact ⟨l₀, hl₀, congrArg Prod.fst heq, congrArg Prod.snd heq⟩
  refine ⟨hitems, hs.ids.sublist (ids_sublist hlines), fun l hl => ?_, fun l hl h hm => ?_, hwf,
    fun r hr ho => hs.held r (hopen r hr ho) ho, fun r hr ho => ?_⟩
  · obtain ⟨l₀, hl₀, hid, -⟩ := hmem l hl
    rw [← hid, hlast]
    exact hs.last l₀ hl₀
  · obtain ⟨l₀, hl₀, -, hmedia⟩ := hmem l hl
    exact hs.carried l₀ hl₀ h (hmedia.trans hm)
  · have hn := hs.named r (hopen r hr ho) ho
    unfold Report.Names at hn ⊢
    split
    case h_1 id hid =>
      rw [hid] at hn
      refine ⟨hlast ▸ hn.1, fun l hl hlid => ?_⟩
      obtain ⟨l₀, hl₀, hid₀, hmedia⟩ := hmem l hl
      rw [← hmedia]
      exact hn.2 l₀ hl₀ (hid₀.trans hlid)
    case h_2 h hid =>
      rw [hid] at hn
      exact hn
    case h_3 => trivial

theorem Sound.append (hs : Sound c issued) (l : LogLine) (hm : ∀ h, l.media = some h → issued h = true) :
    Sound (c.append l) issued := by
  refine ⟨hs.items, ?_, fun x hx => ?_, fun x hx h hxm => ?_, hs.reports, hs.held, fun r hr ho => ?_⟩
  · show ((c.lines ++ [{ l with id := c.lastLine + 1 }]).map LogLine.id).Nodup
    rw [List.map_append, List.nodup_append]
    refine ⟨hs.ids, List.nodup_singleton _, fun a ha b hb => ?_⟩
    obtain ⟨x, hx, rfl⟩ := List.mem_map.1 ha
    rw [List.map_singleton, List.mem_singleton] at hb
    rw [hb]
    exact Nat.ne_of_lt (Nat.lt_succ_of_le (hs.last x hx))
  · show x.id ≤ c.lastLine + 1
    rcases List.mem_append.1 hx with hx | hx
    · exact Nat.le_succ_of_le (hs.last x hx)
    · rw [List.mem_singleton.1 hx]
  · rcases List.mem_append.1 hx with hx | hx
    · exact hs.carried x hx h hxm
    · rw [List.mem_singleton.1 hx] at hxm
      exact hm h hxm
  · have hn := hs.named r hr ho
    unfold Report.Names at hn ⊢
    split
    case h_1 id hid =>
      rw [hid] at hn
      refine ⟨Nat.le_succ_of_le hn.1, fun x hx hxid => ?_⟩
      rcases List.mem_append.1 hx with hx | hx
      · exact hn.2 x hx hxid
      · rw [List.mem_singleton.1 hx] at hxid
        exact absurd hn.1 (hxid ▸ Nat.not_succ_le_self c.lastLine)
    case h_2 h hid =>
      rw [hid] at hn
      exact hn
    case h_3 => trivial

theorem Sound.mono {issued' : Handle → Bool} (hs : Sound c issued)
    (himp : ∀ h, issued h = true → issued' h = true) : Sound c issued' where
  items h hi := himp h (hs.items h hi)
  ids := hs.ids
  last := hs.last
  carried l hl h hm := himp h (hs.carried l hl h hm)
  reports := hs.reports
  held r hr ho h hm := himp h (hs.held r hr ho h hm)
  named := hs.named

theorem Core.mem_of_line {id : LineId} {l : LogLine} (hl : c.line id = some l) : l ∈ c.lines ∧ l.id = id :=
  ⟨List.mem_of_find?_eq_some hl,
    of_decide_eq_true (List.find?_some (p := fun l : LogLine => decide (l.id = id)) hl)⟩

/-- A report that can be filed names an image there was, as its line carries it. -/
theorem Sound.reported (hs : Sound c issued) {by_ : Reporter} {request : ReportRequest} {what : Reported}
    (hw : c.reported by_ request = .ok what) :
    (∀ h, what.media = some h → issued h = true) ∧
      ∀ r : Report, r.target = what.target → r.media = what.media → r.Names c.lines c.lastLine := by
  unfold Core.reported at hw
  cases request with
  | line id readable =>
    dsimp only at hw
    split at hw
    case h_1 => cases hw
    case h_2 line hline =>
      obtain ⟨hl, -⟩ := Option.filter_eq_some_iff.1 hline
      obtain ⟨hmem, hid⟩ := Core.mem_of_line hl
      cases hw
      refine ⟨fun h hm => hs.carried line hmem h hm, fun r ht hm => ?_⟩
      rw [Report.Names, ht]
      refine ⟨hid ▸ hs.last line hmem, fun l hlm hlid => ?_⟩
      rw [List.inj_on_of_nodup_map hs.ids hlm hmem (hlid.trans hid.symm)]
      exact hm.symm
  | media handle =>
    dsimp only at hw
    split at hw
    case h_1 => cases hw
    case h_2 record hrec =>
      have hsome : (c.media.items.get handle).isSome = true := by
        unfold StoreInner.mediaShownTo at hrec
        split at hrec
        case h_1 e he => rw [he]; rfl
        case h_2 => cases hrec
      cases hw
      refine ⟨fun h hm => ?_, fun r ht hm => ?_⟩
      · obtain rfl := Option.some.inj hm
        exact hs.items handle hsome
      · rw [Report.Names, ht]
        exact hm
  | msg | user | article =>
    cases hw
    refine ⟨nofun, fun r ht hm => ?_⟩
    rw [Report.Names, ht]
    trivial

/-! ## What one step does to an image -/

/-- What a step does to the pin of an image whose bytes it leaves, and to the reports that hold it. -/
inductive Pinning (v : Server) (c c' : Core) (h : Handle) (e e' : Entry) : Prop
  | stays (pin : e'.pinnedUntil = e.pinnedUntil)
      (held : c'.moderation.holdsMedia h = c.moderation.holdsMedia h)
  | released (pin : e'.pinnedUntil = none) (held : c'.moderation.holdsMedia h = false)
  | pinned (live : e.dead c.now = false) (now : c'.now = c.now)
      (pin : e.pinnedUntil = none → e'.pinnedUntil = some (c.now + days v.pinDays))
      (was : c.moderation.holdsMedia h = false) (held : c'.moderation.holdsMedia h = true)

/-- Every image with bytes after a step had them before, or was drawn for. -/
structure Moves (v : Server) (c c' : Core) (drawn : Option Handle) : Prop where
  now : c.now ≤ c'.now
  entry : ∀ h e', c'.media.items.get h = some e' → e'.bytes.isSome = true →
    (drawn = some h ∧ e'.pinnedUntil = none ∧
      c'.moderation.holdsMedia h = c.moderation.holdsMedia h) ∨
      ∃ e, c.media.items.get h = some e ∧ e.bytes.isSome = true ∧ e'.expires = e.expires ∧
        Pinning v c c' h e e'

/-- A step that pins nothing and files nothing; the open reports `q` selects it closes. -/
structure Shrinks (q : Report → Bool) (c c' : Core) : Prop where
  now : c.now ≤ c'.now
  media : c.media.From c'.media
  lines : (c'.lines.map LogLine.carries).Sublist (c.lines.map LogLine.carries)
  lastLine : c'.lastLine = c.lastLine
  wf : c.moderation.Wf → c'.moderation.Wf
  opened : ∀ r, (r ∈ c'.moderation.reports ∧ r.open = true) ↔
    r ∈ c.moderation.reports ∧ r.open = true ∧ q r = false

variable {q q' : Report → Bool} {drawn : Option Handle}

theorem Shrinks.trans (h₁ : Shrinks q c c') (h₂ : Shrinks q' c' c'') :
    Shrinks (fun r => q r || q' r) c c'' where
  now := Nat.le_trans h₁.now h₂.now
  media := h₁.media.trans h₂.media
  lines := h₂.lines.trans h₁.lines
  lastLine := h₂.lastLine.trans h₁.lastLine
  wf hs := h₂.wf (h₁.wf hs)
  opened r := by
    rw [h₂.opened, ← and_assoc, h₁.opened, Bool.or_eq_false_iff]
    tauto

theorem Core.Closes.shrinks (hc : Core.Closes q c c') : Shrinks q c c' where
  now := Nat.le_of_eq hc.now.symm
  media := hc.media ▸ .refl _
  lines := hc.lines ▸ List.Sublist.refl _
  lastLine := hc.lastLine
  wf := hc.moderation.wf
  opened _ := hc.moderation.mem_open

/-- A step that only touches the images. -/
theorem shrinks_media {s : StoreInner} (hm : c.media.From s) :
    Shrinks (fun _ => false) c { c with media := s } where
  now := Nat.le_refl _
  media := hm
  lines := List.Sublist.refl _
  lastLine := rfl
  wf hs := hs
  opened r := by simp

theorem Shrinks.refl (c : Core) : Shrinks (fun _ => false) c c := shrinks_media (.refl _)

theorem shrinks_tombstoneLines (c : Core) (ids : List LineId) :
    Shrinks (fun _ => false) c (c.tombstoneLines ids) where
  now := Nat.le_refl _
  media := .refl _
  lines := by
    have hmap : (c.tombstoneLines ids).lines.map LogLine.carries = c.lines.map LogLine.carries := by
      rw [Core.tombstoneLines, List.map_map]
      apply List.map_congr_left
      intro l _
      show LogLine.carries (if l.id ∈ ids then { l with deleted := true } else l) = l.carries
      split <;> rfl
    exact hmap ▸ List.Sublist.refl _
  lastLine := rfl
  wf hs := hs
  opened r := by simp [Core.tombstoneLines]

theorem Shrinks.items (hq : Shrinks q c c') (hs : Sound c issued) (h : Handle)
    (hi : (c'.media.items.get h).isSome = true) : issued h = true := by
  obtain ⟨e', he'⟩ := Option.isSome_iff_exists.1 hi
  obtain ⟨e, he, -⟩ := hq.media h e' he'
  exact hs.items h (by rw [he]; rfl)

theorem Shrinks.sound (hq : Shrinks q c c') (hs : Sound c issued) : Sound c' issued :=
  hs.shrink (hq.items hs) hq.lines hq.lastLine (hq.wf hs.reports)
    fun r hr ho => ((hq.opened r).1 ⟨hr, ho⟩).1

/-- Such a step closes the last report that holds no image whose bytes it leaves. -/
theorem Shrinks.moves (hq : Shrinks q c c')
    (hkeep : ∀ h e', c'.media.items.get h = some e' → e'.bytes.isSome = true →
      c.moderation.holdsMedia h = true →
        ∃ r ∈ c.moderation.reports, r.open = true ∧ q r = false ∧ r.media = some h) :
    Moves v c c' none where
  now := hq.now
  entry h e' he' hb := by
    obtain ⟨e, he, hk⟩ := hq.media h e' he'
    refine .inr ⟨e, he, hk.bytes hb, hk.expires, .stays hk.pinnedUntil ?_⟩
    rw [Bool.eq_iff_iff]
    constructor
    · intro hh
      obtain ⟨r, hr, hm⟩ := MemoryModeration.holdsMedia_iff.1 hh
      obtain ⟨hr, ho, -⟩ := (hq.opened r).1 hr
      exact MemoryModeration.holdsMedia_iff.2 ⟨r, ⟨hr, ho⟩, hm⟩
    · intro hh
      obtain ⟨r, hr, ho, hqr, hm⟩ := hkeep h e' he' hb hh
      exact MemoryModeration.holdsMedia_iff.2 ⟨r, (hq.opened r).2 ⟨hr, ho, hqr⟩, hm⟩

/-- A step that closes no report closes no last one. -/
theorem Shrinks.moves_of_none (hq : Shrinks (fun _ => false) c c') : Moves v c c' none := by
  apply hq.moves
  intro h _ _ _ hh
  obtain ⟨r, ⟨hr, ho⟩, hm⟩ := MemoryModeration.holdsMedia_iff.1 hh
  exact ⟨r, hr, ho, rfl, hm⟩

/-- A step that leaves the reports alone and the images kept. -/
theorem Moves.of_from (hnow : c.now ≤ c'.now) (hm : c.media.From c'.media)
    (hmod : c'.moderation = c.moderation) : Moves v c c' none where
  now := hnow
  entry h e' he' hb := by
    obtain ⟨e, he, hk⟩ := hm h e' he'
    exact .inr ⟨e, he, hk.bytes hb, hk.expires, .stays hk.pinnedUntil (by rw [hmod])⟩

/-! ### Uploads and sends -/

theorem moves_finishUpload (v : Server) (c : Core) (who : Uploader) (canonical : Canonical)
    (drawn : Option Handle) : Moves v c (c.finishUpload v who canonical drawn) drawn where
  now := Nat.le_refl _
  entry h e' he' hb := by
    rcases StoreInner.get_accept he' with ⟨e, he, hk⟩ | ⟨hd, hp⟩
    · exact .inr ⟨e, he, hk.bytes hb, hk.expires, .stays hk.pinnedUntil rfl⟩
    · exact .inl ⟨hd, hp, rfl⟩

theorem sent (sender : Principal) (login : Option String) (fp : Option Fingerprint) (media : Option Handle)
    (audience : List Principal) (hs : Sound c issued) :
    Sound (c.send sender login fp media audience) issued ∧
      Moves v c (c.send sender login fp media audience) none := by
  unfold Core.send
  split
  case h_1 => exact ⟨hs.append _ nofun, .of_from (Nat.le_refl _) (.refl _) rfl⟩
  case h_2 handle =>
    split
    case h_1 => exact ⟨hs, .of_from (Nat.le_refl _) (.refl _) rfl⟩
    case h_2 reference href =>
      have hsome : (c.media.items.get handle).isSome = true := by
        unfold StoreInner.mediaForSend at href
        split at href
        case h_1 e he => rw [he]; rfl
        case h_2 => cases href
      have hcap := StoreInner.from_mediaCapture c.media handle (audience ++ [sender])
      refine ⟨?_, .of_from (Nat.le_refl _) hcap rfl⟩
      have happ := hs.append ⟨0, login, fp, c.now, some handle, none, false⟩ fun h hh =>
        Option.some.inj hh ▸ hs.items handle hsome
      exact Shrinks.sound (c := c.append _) (shrinks_media hcap) happ

theorem shrinks_history (v : Server) (c : Core) (who : Reporter) (id : LineId) :
    Shrinks (fun _ => false) c (c.historyMediaFetchable v who id).2 := by
  unfold Core.historyMediaFetchable
  split
  · exact .refl c
  · split
    · exact .refl c
    · split
      · exact shrinks_media (StoreInner.from_mediaGrant _ _ _ _)
      · exact .refl c

theorem from_grants (now : Instant) (h : Handle) (who : List Principal) (s : StoreInner) :
    s.From (who.foldl (fun s p => s.mediaGrant now h p) s) :=
  StoreInner.From.foldl (fun s p => s.from_mediaGrant now h p) who s

theorem shrinks_reports (c : Core) (who : List Principal) (filter : ReportFilter) (before : Option ReportId)
    (limit : Nat) : Shrinks (fun _ => false) c (c.reports who filter before limit).2 :=
  shrinks_media (StoreInner.From.foldl (fun s h => from_grants c.now h who s) _ _)

theorem shrinks_pruneReports (c : Core) (before : Instant) :
    Shrinks (fun _ => false) c { c with moderation := c.moderation.pruneReports before } where
  now := Nat.le_refl _
  media := .refl _
  lines := List.Sublist.refl _
  lastLine := rfl
  wf hs := ⟨hs.ids.sublist (List.filter_sublist.map _), fun r hr => hs.last r (List.mem_filter.1 hr).1⟩
  opened r := by
    show (r ∈ c.moderation.reports.filter _ ∧ r.open = true) ↔ _
    rw [List.mem_filter]
    constructor
    · rintro ⟨⟨hr, -⟩, ho⟩
      exact ⟨hr, ho, rfl⟩
    · rintro ⟨hr, ho, -⟩
      refine ⟨⟨hr, ?_⟩, ho⟩
      rw [Option.isNone_iff_eq_none.1 ho]
      rfl

theorem shrinks_dropLines (c : Core) (keep : LogLine → Bool) :
    Shrinks (fun _ => false) c { c with lines := c.lines.filter keep } where
  now := Nat.le_refl _
  media := .refl _
  lines := List.filter_sublist.map _
  lastLine := rfl
  wf hs := hs
  opened r := by simp

/-! ### Reports -/

theorem MemoryModeration.holdsMedia_file (s : MemoryModeration) (r : Report) (h : Handle) :
    (s.file r).2.holdsMedia h = (s.holdsMedia h || (r.open && decide (r.media = some h))) := by
  show (s.reports ++ [{ r with id := s.lastReport + 1 }]).any _ = _
  rw [List.any_append, List.any_cons, List.any_nil, Bool.or_false]
  rfl

theorem MemoryModeration.Wf.file {s : MemoryModeration} (hs : s.Wf) (r : Report) : (s.file r).2.Wf := by
  refine ⟨?_, fun x hx => ?_⟩
  · show ((s.reports ++ [{ r with id := s.lastReport + 1 }]).map Report.id).Nodup
    rw [List.map_append, List.nodup_append]
    refine ⟨hs.ids, List.nodup_singleton _, fun a ha b hb => ?_⟩
    obtain ⟨x, hx, rfl⟩ := List.mem_map.1 ha
    rw [List.map_singleton, List.mem_singleton] at hb
    rw [hb]
    exact Nat.ne_of_lt (Nat.lt_succ_of_le (hs.last x hx))
  · rcases List.mem_append.1 hx with hx | hx
    · exact Nat.le_succ_of_le (hs.last x hx)
    · rw [List.mem_singleton.1 hx]
      exact Nat.le_refl _

/-- The core once a report is filed, before its image is held. -/
theorem Sound.file (hs : Sound c issued) (r : Report)
    (hheld : ∀ h, r.media = some h → issued h = true)
    (hnamed : ∀ id, Report.Names c.lines c.lastLine { r with id := id }) :
    Sound { c with moderation := (c.moderation.file r).2 } issued := by
  refine ⟨hs.items, hs.ids, hs.last, hs.carried, hs.reports.file r, fun x hx ho => ?_, fun x hx ho => ?_⟩
  · rcases List.mem_append.1 hx with hx | hx
    · exact hs.held x hx ho
    · rw [List.mem_singleton.1 hx]
      exact hheld
  · rcases List.mem_append.1 hx with hx | hx
    · exact hs.named x hx ho
    · rw [List.mem_singleton.1 hx]
      exact hnamed _

theorem from_holdImage (v : Server) (c : Core) (handle : Handle) (moderators : List Principal) :
    (c.media.mediaPin c.now handle (days v.pinDays)).From (c.holdImage v handle moderators).media :=
  from_grants c.now handle moderators _

theorem get_holdImage {handle : Handle} {moderators : List Principal} {e' : Entry}
    (he' : (c.holdImage v handle moderators).media.items.get h = some e') (hb : e'.bytes.isSome = true) :
    ∃ e, c.media.items.get h = some e ∧ e.bytes.isSome = true ∧ e'.expires = e.expires ∧
      e'.pinnedUntil = if h = handle then (e.pin c.now (days v.pinDays)).pinnedUntil else e.pinnedUntil := by
  obtain ⟨e₁, he₁, hk⟩ := from_holdImage v c handle moderators h e' he'
  rw [StoreInner.mediaPin, StoreInner.get_update] at he₁
  by_cases hh : h = handle
  · rw [if_pos hh, Option.map_eq_some_iff] at he₁
    obtain ⟨e, he, rfl⟩ := he₁
    by_cases hbe : e.bytes.isSome = true
    · rw [if_pos hbe] at hk
      refine ⟨e, he, hbe, hk.expires.trans ?_, ?_⟩
      · unfold Entry.pin
        split <;> rfl
      · rw [if_pos hh]
        exact hk.pinnedUntil
    · rw [if_neg hbe] at hk
      exact absurd (hk.bytes hb) hbe
  · rw [if_neg hh] at he₁
    refine ⟨e₁, he₁, hk.bytes hb, hk.expires, ?_⟩
    rw [if_neg hh]
    exact hk.pinnedUntil

/-- A report filed in time pins the image it is the first to hold, and no other. -/
theorem moves_fileReport {by_ : Reporter} {what : Reported} (moderators : List Principal)
    (htime : ∀ h e, what.gone = false → what.media = some h → c.media.items.get h = some e →
      e.bytes.isSome = true →
        e.dead c.now = false ∧ (c.moderation.holdsMedia h = true → c.media.pinned c.now h = true)) :
    Moves v c (c.fileReport v by_ what moderators).2 none := by
  have hheld (h : Handle) : (c.fileReport v by_ what moderators).2.moderation.holdsMedia h =
      (c.moderation.holdsMedia h || (!what.gone && decide (what.media = some h))) := by
    have hmod : (c.fileReport v by_ what moderators).2.moderation = (c.moderation.file ⟨0, by_.mailbox,
        what.target, what.about, what.media,
        if what.gone then some ⟨c.now, .removed, none⟩ else none⟩).2 := by
      unfold Core.fileReport
      dsimp only
      split <;> rfl
    rw [hmod, MemoryModeration.holdsMedia_file]
    cases what.gone <;> rfl
  have hnow : (c.fileReport v by_ what moderators).2.now = c.now := by
    unfold Core.fileReport
    dsimp only
    split <;> rfl
  refine ⟨Nat.le_of_eq hnow.symm, fun h e' he' hb => .inr ?_⟩
  by_cases hhold : what.gone = false ∧ ∃ handle, what.media = some handle
  · obtain ⟨hgone, handle, hmedia⟩ := hhold
    have hc' : (c.fileReport v by_ what moderators).2.media = (c.holdImage v handle moderators).media := by
      unfold Core.fileReport
      rw [hgone, hmedia]
      rfl
    rw [hc'] at he'
    obtain ⟨e, he, hbe, hexp, hpin⟩ := get_holdImage he' hb
    refine ⟨e, he, hbe, hexp, ?_⟩
    have hheldh := hheld h
    rw [hgone, hmedia, Bool.not_false, Bool.true_and] at hheldh
    by_cases hh : h = handle
    · rw [if_pos hh] at hpin
      rw [hh, decide_eq_true rfl, Bool.or_true, ← hh] at hheldh
      obtain ⟨hlive, hforce⟩ := htime h e hgone (hh ▸ hmedia) he hbe
      by_cases hwas : c.moderation.holdsMedia h = true
      · have hp := hforce hwas
        rw [StoreInner.pinned, he, Option.any_some] at hp
        refine .stays (hpin.trans ?_) (hheldh.trans hwas.symm)
        obtain ⟨pin, hpe, hlt⟩ := (Option.any_eq_true _ _).1 hp
        rw [Entry.pin, if_neg]
        rw [hpe, Option.all_some, decide_eq_true_iff]
        exact Nat.not_le_of_lt (of_decide_eq_true hlt)
      · refine .pinned hlive hnow (fun hnone => hpin.trans ?_) (Bool.eq_false_of_not_eq_true hwas) hheldh
        rw [Entry.pin, hnone]
        rfl
    · rw [if_neg hh] at hpin
      rw [decide_eq_false fun heq => hh (Option.some.inj heq).symm, Bool.or_false] at hheldh
      exact .stays hpin hheldh
  · have hc' : (c.fileReport v by_ what moderators).2.media = c.media := by
      unfold Core.fileReport
      dsimp only
      split
      case h_1 handle hgone hmedia => exact absurd ⟨hgone, handle, hmedia⟩ hhold
      case h_2 => rfl
    rw [hc'] at he'
    have hno : (!what.gone && decide (what.media = some h)) = false := by
      rw [Bool.eq_false_iff]
      intro hyes
      rw [Bool.and_eq_true, Bool.not_eq_true', decide_eq_true_iff] at hyes
      exact hhold ⟨hyes.1, h, hyes.2⟩
    refine ⟨e', he', hb, rfl, .stays rfl ?_⟩
    rw [hheld, hno, Bool.or_false]

theorem Sound.fileReport (hs : Sound c issued) {by_ : Reporter} {what : Reported}
    (moderators : List Principal) (hheld : ∀ h, what.media = some h → issued h = true)
    (hnamed : ∀ r : Report, r.target = what.target → r.media = what.media → r.Names c.lines c.lastLine) :
    Sound (c.fileReport v by_ what moderators).2 issued := by
  have hfile := hs.file ⟨0, by_.mailbox, what.target, what.about, what.media,
    if what.gone then some ⟨c.now, .removed, none⟩ else none⟩ hheld fun _ => hnamed _ rfl rfl
  unfold Core.fileReport
  dsimp only
  split
  case h_1 handle hgone hmedia =>
    refine hfile.shrink (fun h hi => ?_) (List.Sublist.refl _) rfl hfile.reports fun r hr _ => hr
    obtain ⟨e', he'⟩ := Option.isSome_iff_exists.1 hi
    obtain ⟨e₁, he₁, -⟩ := from_holdImage v _ handle moderators h e' he'
    rw [StoreInner.mediaPin, StoreInner.get_update] at he₁
    refine hs.items h ?_
    split at he₁
    · obtain ⟨e, he, -⟩ := Option.map_eq_some_iff.1 he₁
      rw [he]
      rfl
    · rw [he₁]
      rfl
  case h_2 => exact hfile

/-! ### Closes -/

theorem MemoryModeration.mem_of_report {s : MemoryModeration} {id : ReportId} {r : Report}
    (hr : s.report id = some r) : r ∈ s.reports ∧ r.id = id :=
  ⟨List.mem_of_find?_eq_some hr,
    of_decide_eq_true (List.find?_some (p := fun r : Report => decide (r.id = id)) hr)⟩

/-- A close that goes through closes one report and lets its image go. -/
theorem reportClose_ok {person : Option Subject} {id : ReportId} {outcome : Outcome} {of : Option ReportId}
    (hok : c.reportClose person id outcome of = .ok c') :
    ∃ report closed, c.moderation.report id = some report ∧
      c' = report.media.elim { c with moderation := (c.moderation.close id closed).2 }
        { c with moderation := (c.moderation.close id closed).2 }.release := by
  unfold Core.reportClose at hok
  cases hdup : c.duplicateOf id outcome of with
  | error e =>
    rw [hdup] at hok
    cases hok
  | ok duplicate =>
    rw [hdup] at hok
    dsimp only [bind, Except.bind] at hok
    split at hok
    case h_1 => cases hok
    case h_2 report hreport =>
      split at hok
      · cases hok
      · split at hok
        · cases hok
        · split at hok
          · exact ⟨report, ⟨c.now, outcome, duplicate⟩, hreport, (Except.ok.inj hok).symm⟩
          · cases hok

/-- What a close that goes through does to the images: it unpins one that no open report holds. -/
theorem closed_ok (hs : Sound c issued) {person : Option Subject} {id : ReportId} {outcome : Outcome}
    {of : Option ReportId} (hok : c.reportClose person id outcome of = .ok c') :
    Sound c' issued ∧ Moves v c c' none := by
  obtain ⟨report, closed, hreport, rfl⟩ := reportClose_ok hok
  obtain ⟨hmem, hid⟩ := MemoryModeration.mem_of_report hreport
  have hclose := MemoryModeration.close_closedBy hs.reports id closed
  have hother (h : Handle) (hne : report.media ≠ some h) :
      (c.moderation.close id closed).2.holdsMedia h = c.moderation.holdsMedia h := by
    rw [Bool.eq_iff_iff, hclose.holdsMedia, MemoryModeration.holdsMedia_iff]
    constructor
    · rintro ⟨r, hr, ho, -, hm⟩
      exact ⟨r, ⟨hr, ho⟩, hm⟩
    · rintro ⟨r, ⟨hr, ho⟩, hm⟩
      refine ⟨r, hr, ho, decide_eq_false fun hrid => hne ?_, hm⟩
      rw [← List.inj_on_of_nodup_map hs.reports.ids hr hmem (hrid.trans hid.symm)]
      exact hm
  have hsub (h : Handle) (hh : (c.moderation.close id closed).2.holdsMedia h = true) :
      c.moderation.holdsMedia h = true := by
    obtain ⟨r, hr, ho, -, hm⟩ := hclose.holdsMedia.1 hh
    exact MemoryModeration.holdsMedia_iff.2 ⟨r, ⟨hr, ho⟩, hm⟩
  have hsound : Sound { c with moderation := (c.moderation.close id closed).2 } issued :=
    hs.shrink hs.items (List.Sublist.refl _) rfl (hclose.wf hs.reports)
      fun r hr ho => (hclose.mem_open.1 ⟨hr, ho⟩).1
  cases hmedia : report.media with
  | none =>
    refine ⟨hsound, Nat.le_refl _, fun h e' he' hb => .inr ⟨e', he', hb, rfl, .stays rfl ?_⟩⟩
    exact hother h (by rw [hmedia]; nofun)
  | some handle =>
    rw [Option.elim_some]
    unfold Core.release
    split
    case isTrue hstill =>
      refine ⟨hsound, Nat.le_refl _, fun h e' he' hb => .inr ⟨e', he', hb, rfl, .stays rfl ?_⟩⟩
      by_cases hh : h = handle
      · rw [hh]
        exact Eq.trans hstill (hsub handle hstill).symm
      · exact hother h (by rw [hmedia]; exact fun heq => hh (Option.some.inj heq).symm)
    case isFalse hlast =>
      constructor
      · refine hsound.shrink (fun h hi => hs.items h ?_) (List.Sublist.refl _) rfl hsound.reports
          fun r hr _ => hr
        replace hi : ((c.media.mediaUnpin handle).items.get h).isSome = true := hi
        rw [StoreInner.mediaUnpin, StoreInner.get_update] at hi
        split at hi
        · rwa [Option.isSome_map] at hi
        · exact hi
      · refine ⟨Nat.le_refl _, fun h e' he' hb => .inr ?_⟩
        replace he' : (c.media.mediaUnpin handle).items.get h = some e' := he'
        rw [StoreInner.mediaUnpin, StoreInner.get_update] at he'
        by_cases hh : h = handle
        · rw [if_pos hh] at he'
          obtain ⟨e, he, rfl⟩ := Option.map_eq_some_iff.1 he'
          refine ⟨e, he, hb, rfl, .released rfl ?_⟩
          rw [hh]
          exact Bool.eq_false_of_not_eq_true hlast
        · rw [if_neg hh] at he'
          refine ⟨e', he', hb, rfl, .stays rfl ?_⟩
          exact hother h (by rw [hmedia]; exact fun heq => hh (Option.some.inj heq).symm)

/-! ### Acts -/

theorem shrinks_revokeQuietly (c : Core) (handle : Handle) (block : Bool) :
    Shrinks (fun _ => false) c (c.revokeQuietly handle block) :=
  shrinks_media (StoreInner.from_mediaRevoke c.media handle block)

theorem StoreInner.bytes_mediaRevoke {s : StoreInner} {handle : Handle} {block : Bool} {e' : Entry}
    (he' : (s.mediaRevoke handle block).items.get handle = some e') : e'.bytes = none := by
  rw [StoreInner.get_mediaRevoke, if_pos rfl, Option.map_eq_some_iff] at he'
  obtain ⟨e, -, rfl⟩ := he'
  rfl

/-- An act that closes only reports on images it takes the bytes of closes the last on no other. -/
theorem Shrinks.moves_of_taken (hq : Shrinks q c c')
    (htaken : ∀ h r e', r ∈ c.moderation.reports → r.open = true → r.media = some h → q r = true →
      c'.media.items.get h = some e' → e'.bytes = none) : Moves v c c' none := by
  apply hq.moves
  intro h e' he' hb hh
  obtain ⟨r, ⟨hr, ho⟩, hm⟩ := MemoryModeration.holdsMedia_iff.1 hh
  refine ⟨r, hr, ho, Bool.eq_false_iff.2 fun hqr => ?_, hm⟩
  rw [htaken h r e' hr ho hm hqr he'] at hb
  cases hb

/-- The open reports on an image are of that image. -/
theorem Sound.media_of_onTarget (hs : Sound c issued) {r : Report} {handle : Handle} {about : Option Mailbox}
    (hr : r ∈ c.moderation.reports) (ho : r.open = true)
    (hq : Core.onTarget (.media handle) about r = true) : r.media = some handle := by
  have hn := hs.named r hr ho
  rw [Core.onTarget, Bool.and_eq_true, decide_eq_true_iff] at hq
  rwa [Report.Names, hq.1] at hn

/-- The open reports on a line there is are of the image it carries. -/
theorem Sound.line_of_onTarget (hs : Sound c issued) {r : Report} {id : LineId} {l : LogLine}
    {about : Option Mailbox} (hl : c.line id = some l) (hr : r ∈ c.moderation.reports) (ho : r.open = true)
    (hq : Core.onTarget (.line id) about r = true) : r.media = l.media := by
  have hn := hs.named r hr ho
  obtain ⟨hmem, hid⟩ := Core.mem_of_line hl
  rw [Core.onTarget, Bool.and_eq_true, decide_eq_true_iff] at hq
  rw [Report.Names, hq.1] at hn
  exact (hn.2 l hmem hid).symm

theorem revoked_ok (hs : Sound c issued) {guarded : Option Mailbox → Bool} {handle : Handle} {block : Bool}
    (hok : c.revokeMedia guarded handle block = .ok c') : Sound c' issued ∧ Moves v c c' none := by
  unfold Core.revokeMedia at hok
  split at hok
  case h_1 => cases hok
  case h_2 record _ =>
    split at hok
    case isTrue => cases hok
    case isFalse =>
      obtain rfl := Except.ok.inj hok
      have hrev := shrinks_revokeQuietly c handle block
      have hclose := Core.closes_closeReportsOn (hrev.wf hs.reports) (.media handle) none
      have hall := hrev.trans hclose.shrinks
      refine ⟨hall.sound hs, hall.moves_of_taken fun h r e' hr ho hm hqr he' => ?_⟩
      rw [Bool.false_or] at hqr
      obtain rfl := Option.some.inj ((hs.media_of_onTarget hr ho hqr).symm.trans hm)
      rw [hclose.media] at he'
      exact StoreInner.bytes_mediaRevoke he'

theorem redacted_ok (hs : Sound c issued) {guarded : Subject → Bool} {id : LineId}
    (hlets : Op.Lets c (.redact guarded id)) (hok : c.redactLine guarded id = .ok c') :
    Sound c' issued ∧ Moves v c c' none := by
  unfold Core.redactLine at hok
  split at hok
  case h_1 => cases hok
  case h_2 line hline =>
    split at hok
    case isTrue hdel =>
      obtain rfl := Except.ok.inj hok
      have hclose := (Core.closes_closeReportsOn hs.reports (.line id) none).shrinks
      refine ⟨hclose.sound hs, hclose.moves fun h e' he' hb hh => ?_⟩
      obtain ⟨e, he, hk⟩ := hclose.media h e' he'
      exact hlets line hline hdel h e he (hk.bytes hb) rfl hh
    case isFalse =>
      split at hok
      case isTrue => cases hok
      case isFalse =>
        dsimp only at hok
        have htomb := shrinks_tombstoneLines c [id]
        split at hok
        case h_1 handle record hmedia hrecord =>
          obtain rfl := Except.ok.inj hok
          have hrev := htomb.trans (shrinks_revokeQuietly (c.tombstoneLines [id]) handle true)
          have hcm := Core.closes_closeReportsOn (hrev.wf hs.reports) (.media handle) none
          have hcl := Core.closes_closeReportsOn (hcm.moderation.wf (hrev.wf hs.reports)) (.line id) none
          have hall := (hrev.trans hcm.shrinks).trans hcl.shrinks
          refine ⟨hall.sound hs, hall.moves_of_taken fun h r e' hr ho hm hqr he' => ?_⟩
          rw [hcl.media, hcm.media] at he'
          have hhandle : r.media = some handle := by
            rw [Bool.false_or, Bool.false_or, Bool.or_eq_true] at hqr
            rcases hqr with hqr | hqr
            · exact hs.media_of_onTarget hr ho hqr
            · exact (hs.line_of_onTarget hline hr ho hqr).trans hmedia
          obtain rfl := Option.some.inj (hhandle.symm.trans hm)
          exact StoreInner.bytes_mediaRevoke he'
        case h_2 hnone =>
          obtain rfl := Except.ok.inj hok
          have hcl := Core.closes_closeReportsOn (htomb.wf hs.reports) (.line id) none
          have hall := htomb.trans hcl.shrinks
          refine ⟨hall.sound hs, hall.moves_of_taken fun h r e' hr ho hm hqr he' => ?_⟩
          -- The line carries no image there is a record of.
          rw [Bool.false_or] at hqr
          have hmedia := (hs.line_of_onTarget hline hr ho hqr).symm.trans hm
          rw [hcl.media] at he'
          replace he' : c.media.items.get h = some e' := he'
          have hrecord : line.media.bind (fun h => c.media.mediaRecord c.now h) =
              some (e'.record h c.now) := by
            rw [hmedia, Option.bind_some, StoreInner.mediaRecord, he', Option.map_some]
          exact absurd hrecord (hnone h _ hmedia)

theorem shrinks_revokeAll (hs : List Handle) (c : Core) :
    Shrinks (fun _ => false) c (hs.foldl (fun c h => c.revokeQuietly h true) c) := by
  induction hs generalizing c with
  | nil => exact .refl c
  | cons h hs ih => exact (shrinks_revokeQuietly c h true).trans (ih _)

/-- Of the images a purge revokes no bytes are left. -/
theorem bytes_revokeAll {hs : List Handle} (hm : h ∈ hs)
    (he : (hs.foldl (fun c h => c.revokeQuietly h true) c).media.items.get h = some e) : e.bytes = none := by
  induction hs generalizing c with
  | nil => cases hm
  | cons a hs ih =>
    rcases List.mem_cons.1 hm with rfl | hm
    · obtain ⟨e₁, he₁, hk⟩ := (shrinks_revokeAll hs _).media h e he
      have hnone := StoreInner.bytes_mediaRevoke he₁
      rw [← Option.not_isSome_iff_eq_none]
      intro hb
      have := hk.bytes hb
      rw [hnone] at this
      cases this
    · exact ih hm he

theorem purged_ok (hs : Sound c issued) {who : Mailbox} {within : Instant} {articles : List Nat}
    (hlets : Op.Lets c (.purge who within articles)) :
    Sound (c.purgeSender who within articles) issued ∧
      Moves v c (c.purgeSender who within articles) none := by
  have htomb := shrinks_tombstoneLines c ((c.linesBy who within).map LogLine.id)
  have hrev := htomb.trans (shrinks_revokeAll (c.media.mediaUploadedBy c.now who within) _)
  have hany := Core.closes_closeReportsOnAny (hrev.wf hs.reports) (c.purgeTargets who within articles)
  have huser := Core.closes_closeReportsOn (hany.moderation.wf (hrev.wf hs.reports)) .user (some who)
  have hall := (hrev.trans hany.shrinks).trans huser.shrinks
  refine ⟨hall.sound hs, hall.moves fun h e' he' hb hh => ?_⟩
  obtain ⟨e, he, hk⟩ := hall.media h e' he'
  have hkept : decide (h ∈ c.media.mediaUploadedBy c.now who within) = false := by
    refine decide_eq_false fun hm => ?_
    rw [huser.media, hany.media] at he'
    rw [bytes_revokeAll hm he'] at hb
    cases hb
  exact hlets h e he (hk.bytes hb) hkept hh

theorem purgedGhost_ok (hs : Sound c issued) {key : Bytes 16} {within : Instant}
    (hlets : Op.Lets c (.purgeGhost key within)) :
    Sound (c.purgeGhost key within) issued ∧ Moves v c (c.purgeGhost key within) none := by
  have htomb := shrinks_tombstoneLines c ((c.linesByGhost key within).map LogLine.id)
  have hany := Core.closes_closeReportsOnAny (htomb.wf hs.reports) (c.ghostTargets key within)
  have hall := htomb.trans hany.shrinks
  refine ⟨hall.sound hs, hall.moves fun h e' he' hb hh => ?_⟩
  obtain ⟨e, he, hk⟩ := hall.media h e' he'
  exact hlets h e he (hk.bytes hb) rfl hh

/-! ### The step -/

theorem reported_ok (hs : Sound c issued) {by_ : Reporter} {request : ReportRequest} {allows : Bool}
    {moderators : List Principal} (hlets : Op.Lets c (.report by_ request allows moderators))
    {filed : Filed} (hok : c.report v by_ request allows moderators = .ok (filed, c')) :
    Sound c' issued ∧ Moves v c c' none := by
  have hsame : Moves v c c none := .of_from (Nat.le_refl _) (.refl _) rfl
  unfold Core.report at hok
  cases hw : c.reported by_ request with
  | error e =>
    rw [hw] at hok
    cases hok
  | ok what =>
    rw [hw] at hok
    dsimp only [bind, Except.bind] at hok
    split at hok
    case h_1 => cases hok; exact ⟨hs, hsame⟩
    case h_2 hfollow =>
      split at hok
      case isTrue hallow =>
        obtain ⟨hheld, hnamed⟩ := hs.reported hw
        have hc' : c' = (c.fileReport v by_ what moderators).2 :=
          congrArg Prod.snd (Except.ok.inj hok).symm
        rw [hc']
        exact ⟨hs.fileReport moderators hheld hnamed, moves_fileReport moderators
          fun h e hgone hmedia he hb => hlets hallow what h e hw hfollow hgone hmedia he hb⟩
      case isFalse => cases hok

theorem finished_ok (hs : Sound c issued) (who : Uploader) (canonical : Canonical) (drawn : Option Handle) :
    Sound (c.finishUpload v who canonical drawn)
      fun h => issued h || decide (drawn = some h) := by
  have himp (h : Handle) (hi : issued h = true) : (issued h || decide (drawn = some h)) = true := by
    rw [hi, Bool.true_or]
  refine ⟨fun h hi => ?_, hs.ids, hs.last, fun l hl h hm => himp h (hs.carried l hl h hm), hs.reports,
    fun r hr ho h hm => himp h (hs.held r hr ho h hm), hs.named⟩
  obtain ⟨e', he'⟩ := Option.isSome_iff_exists.1 hi
  rcases StoreInner.get_accept he' with ⟨e, he, -⟩ | ⟨hd, -⟩
  · exact himp h (hs.items h (by rw [he]; rfl))
  · rw [decide_eq_true hd, Bool.or_true]

theorem settled {α : Type} {after : α → Core} {answer : Except ModError α}
    (hsame : Sound c issued ∧ Moves v c c none)
    (hok : ∀ a, answer = .ok a → Sound (after a) issued ∧ Moves v c (after a) none) :
    Sound (c.settle after answer) issued ∧ Moves v c (c.settle after answer) none := by
  cases answer with
  | error => exact hsame
  | ok a => exact hok a rfl

/-- Every step keeps reports and lines sound, and moves an image no further than `Moves` allows. -/
theorem step_ok (v : Server) (hs : Sound c issued) (op : Op) (hlets : op.Lets c) :
    Sound (c.step v op) (fun h => issued h || decide (op.drawn = some h)) ∧
      Moves v c (c.step v op) op.drawn := by
  have hquiet {c' : Core} (hq : Shrinks (fun _ => false) c c') : Sound c' issued ∧ Moves v c c' none :=
    ⟨hq.sound hs, hq.moves_of_none⟩
  have hwide {c' : Core} (hok : Sound c' issued ∧ Moves v c c' none) :
      Sound c' (fun h => issued h || decide (none = some h)) ∧ Moves v c c' none :=
    ⟨hok.1.mono fun h hi => by rw [hi, Bool.true_or], hok.2⟩
  have hsame := hquiet (.refl c)
  cases op with
  | wait d =>
    exact hwide ⟨hs.shrink hs.items (List.Sublist.refl _) rfl hs.reports fun r hr _ => hr,
      .of_from (Nat.le_add_right _ _) (.refl _) rfl⟩
  | uploadPart => exact hwide (hquiet (shrinks_media (StoreInner.from_sweep c.media c.now)))
  | finishUpload who canonical drawn =>
    exact ⟨finished_ok hs who canonical drawn, moves_finishUpload v c who canonical drawn⟩
  | send sender login fp media audience => exact hwide (sent sender login fp media audience hs)
  | sendGhost key => exact hwide ⟨hs.append _ nofun, .of_from (Nat.le_refl _) (.refl _) rfl⟩
  | capture handle who => exact hwide (hquiet (shrinks_media (StoreInner.from_mediaCapture c.media handle who)))
  | history who id => exact hwide (hquiet (shrinks_history v c who id))
  | report by_ request allows moderators =>
    exact hwide (settled hsame fun _ hok => reported_ok hs hlets hok)
  | reports who filter before limit => exact hwide (hquiet (shrinks_reports c who filter before limit))
  | close person id outcome of =>
    exact hwide (settled hsame fun _ hok => closed_ok hs hok)
  | redact guarded id =>
    exact hwide (settled hsame fun _ hok => redacted_ok hs hlets hok)
  | revoke guarded handle block =>
    exact hwide (settled hsame fun _ hok => revoked_ok hs hok)
  | purge who within articles => exact hwide (purged_ok hs hlets)
  | purgeGhost key within => exact hwide (purgedGhost_ok hs hlets)
  | sweep => exact hwide (hquiet (shrinks_media (StoreInner.from_sweep c.media c.now)))
  | blockHashes hashes => exact hwide (hquiet (shrinks_media (.refl _)))
  | pruneReports before => exact hwide (hquiet (shrinks_pruneReports c before))
  | dropLines keep => exact hwide (hquiet (shrinks_dropLines c keep))

end HxdNg.Media
