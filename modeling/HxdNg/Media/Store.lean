import HxdNg.Lib.Assoc
import HxdNg.Relationships.Rows

/-!
# The in-memory media store

The images a server holds, each under the handle it was given, and what takes one away.

* `Entry`, `Entry.dead`, `Entry.live` : a handle's record, its deadline, and whether its bytes may be
  fetched;
* `StoreInner.remove`, `sweep`, `evictToFit`, `accept` : what makes and drops an entry;
* `mediaPin`, `mediaUnpin`, `mediaGrant`, `mediaCapture`, `mediaRevoke` : what changes one;
* `StoreInner.From` : every entry is one there was, its deadline kept, which each call but a pin and an
  upload keeps.
-/

namespace HxdNg.Media

open Relationships Assoc

abbrev Handle := Bytes 16

/-- A moment or a length of time, in nanoseconds. -/
abbrev Instant := Nat

inductive MediaType where
  | jpeg
  | png
  | gif
  deriving DecidableEq

/-- Who a download is for: one session on the roster, or an account as the inbox keys it. -/
inductive Principal where
  | session (uid serial : Nat)
  | mailbox (m : Mailbox)
  deriving DecidableEq

structure MediaRef where
  id : Option Handle
  mime : MediaType
  width : Nat
  height : Nat
  bytes : Nat
  deriving DecidableEq

structure Fetched where
  mime : MediaType
  bytes : List UInt8
  deriving DecidableEq

/-- Who may fetch the image of a line that history serves. -/
inductive HistoryAccess where
  | recipients
  | readers
  deriving DecidableEq

structure MediaConfig where
  handleTtl : Instant
  maxTotalBytes : Nat
  historyAccess : HistoryAccess

/-- What the pipeline makes of an upload. -/
structure Canonical where
  mime : MediaType
  width : Nat
  height : Nat
  bytes : List UInt8
  deriving DecidableEq

structure Uploader where
  login : String
  mailbox : Option Mailbox
  principal : Principal

structure Entry where
  mime : MediaType
  width : Nat
  height : Nat
  size : Nat
  bytes : Option (List UInt8)
  hash : Bytes 32
  uploader : Principal
  uploaderLogin : String
  uploaderMailbox : Option Mailbox
  created : Instant
  expires : Instant
  pinnedUntil : Option Instant
  audience : List Principal
  deriving DecidableEq

/-- What a moderator's act needs to know about an image. -/
structure MediaRecord where
  reference : MediaRef
  hash : Bytes 32
  uploaderLogin : String
  uploader : Option Mailbox

namespace Entry

/-- When the entry's bytes may no longer be fetched: its TTL, or a pin that outlasts it. -/
def deadline (e : Entry) : Instant :=
  match e.pinnedUntil with
  | some pin => if e.expires < pin then pin else e.expires
  | none => e.expires

def dead (e : Entry) (now : Instant) : Bool := e.deadline ≤ now

def live (e : Entry) (now : Instant) : Bool := e.bytes.isSome && !e.dead now

def mediaRef (e : Entry) (id : Handle) (now : Instant) : MediaRef where
  id := if e.live now then some id else none
  mime := e.mime
  width := e.width
  height := e.height
  bytes := e.size

def record (e : Entry) (id : Handle) (now : Instant) : MediaRecord where
  reference := e.mediaRef id now
  hash := e.hash
  uploaderLogin := e.uploaderLogin
  uploader := e.uploaderMailbox

/-- Whether the image was shown to `who`: its uploader, or one of its set. -/
def shown (e : Entry) (who : Principal) : Bool := e.uploader = who ∨ who ∈ e.audience

/-- A pin in force is kept: a later one does not extend it. -/
def pin (e : Entry) (now «until» : Instant) : Entry :=
  if e.pinnedUntil.all (· ≤ now) then { e with pinnedUntil := some (now + «until») } else e

/-- What an entry keeps through every call but a pin: its deadline, and no bytes it did not have. -/
structure Kept (e e' : Entry) : Prop where
  bytes : e'.bytes.isSome = true → e.bytes.isSome = true
  expires : e'.expires = e.expires
  pinnedUntil : e'.pinnedUntil = e.pinnedUntil

theorem Kept.refl (e : Entry) : e.Kept e := ⟨id, rfl, rfl⟩

theorem Kept.trans {e e' e'' : Entry} (h : e.Kept e') (h' : e'.Kept e'') : e.Kept e'' :=
  ⟨fun hb => h.bytes (h'.bytes hb), h'.expires.trans h.expires, h'.pinnedUntil.trans h.pinnedUntil⟩

end Entry

structure StoreInner where
  items : Map Handle Entry
  order : List Handle
  totalBytes : Nat
  blocked : List (Bytes 32)

namespace StoreInner

def empty : StoreInner := ⟨.empty, [], 0, []⟩

def remove (s : StoreInner) (id : Handle) : StoreInner :=
  { s with
    items := s.items.drop id
    order := s.order.erase id
    totalBytes := s.totalBytes - (((s.items.get id).bind Entry.bytes).elim 0 List.length) }

/-- Change the entry at `id`, if there is one. -/
def update (s : StoreInner) (id : Handle) (f : Entry → Entry) : StoreInner :=
  match s.items.get id with
  | some e => { s with items := s.items.set id (f e) }
  | none => s

/-- The handles whose deadline has passed. -/
def expired (s : StoreInner) (now : Instant) : List Handle :=
  (s.items.filter fun p => p.2.dead now).keys

/-- Drop every handle whose deadline has passed. -/
def sweep (s : StoreInner) (now : Instant) : StoreInner := (s.expired now).foldl remove s

/-- Whether a report has the handle pinned. -/
def pinned (s : StoreInner) (now : Instant) (id : Handle) : Bool :=
  (s.items.get id).any fun e => e.pinnedUntil.any (now < ·)

/-- The loop of `evictToFit`, which a turn either steps past a handle or shortens `order` by one. -/
def evictGo (incoming cap : Nat) (now : Instant) : Nat → Nat → StoreInner → StoreInner
  | 0, _, s => s
  | fuel + 1, skipped, s =>
    if s.totalBytes + incoming ≤ cap then s
    else
      match s.order[skipped]? with
      | none => s
      | some oldest =>
        if s.pinned now oldest then evictGo incoming cap now fuel (skipped + 1) s
        else evictGo incoming cap now fuel skipped (s.remove oldest)

/-- Drop oldest first until the incoming image fits, skipping what a report has pinned. -/
def evictToFit (s : StoreInner) (incoming cap : Nat) (now : Instant) : StoreInner :=
  evictGo incoming cap now s.order.length 0 s

/-- The last phase of an upload: the block list, eviction, and the handle drawn for it. -/
def accept (cfg : MediaConfig) (hash : Bytes 32) (s : StoreInner) (who : Uploader) (canonical : Canonical)
    (drawn : Option Handle) (now : Instant) : Option MediaRef × StoreInner :=
  if hash ∈ s.blocked then (none, s)
  else
    match drawn with
    | none => (none, s)
    | some id =>
      let size := canonical.bytes.length
      let s := s.evictToFit size cfg.maxTotalBytes now
      let entry : Entry :=
        { mime := canonical.mime
          width := canonical.width
          height := canonical.height
          size := size % 2 ^ 32
          bytes := some canonical.bytes
          hash := hash
          uploader := who.principal
          uploaderLogin := who.login
          uploaderMailbox := who.mailbox
          created := now
          expires := now + cfg.handleTtl
          pinnedUntil := none
          audience := [] }
      (some { id := some id, mime := entry.mime, width := entry.width, height := entry.height
              bytes := entry.size },
        { s with
          items := s.items.set id entry
          order := s.order ++ [id]
          totalBytes := s.totalBytes + size })

def mediaFetchAs (s : StoreInner) (now : Instant) (who : Principal) (id : Handle) : Option Fetched :=
  match s.items.get id with
  | some e => if e.live now ∧ e.shown who then e.bytes.map fun b => ⟨e.mime, b⟩ else none
  | none => none

def mediaMeta (s : StoreInner) (now : Instant) (id : Handle) : Option MediaRef :=
  (s.items.get id).map fun e => e.mediaRef id now

/-- Add a principal to a handle's set, while its bytes are there. -/
def mediaGrant (s : StoreInner) (now : Instant) (id : Handle) (who : Principal) : StoreInner :=
  s.update id fun e => if e.live now then { e with audience := e.audience.insert who } else e

/-- Hold a handle past its TTL while a report on it is open. -/
def mediaPin (s : StoreInner) (now : Instant) (id : Handle) («until» : Instant) : StoreInner :=
  s.update id fun e => if e.bytes.isSome then e.pin now «until» else e

/-- Let a handle's TTL govern it again. -/
def mediaUnpin (s : StoreInner) (id : Handle) : StoreInner :=
  s.update id fun e => { e with pinnedUntil := none }

/-- An image as a moderator's act sees it, live or not. -/
def mediaRecord (s : StoreInner) (now : Instant) (id : Handle) : Option MediaRecord :=
  (s.items.get id).map fun e => e.record id now

/-- The same, for a session that was shown the image. -/
def mediaShownTo (s : StoreInner) (now : Instant) (who : List Principal) (id : Handle) :
    Option MediaRecord :=
  match s.items.get id with
  | some e => if who.any e.shown then some (e.record id now) else none
  | none => none

/-- Every handle `who` uploaded in the last `within` whose bytes are still here. -/
def mediaUploadedBy (s : StoreInner) (now : Instant) (who : Mailbox) (within : Instant) : List Handle :=
  s.order.filter fun h => (s.items.get h).any fun e =>
    e.live now && decide (now - e.created ≤ within) &&
      e.uploaderMailbox.any fun m => who.matches m.login m.fingerprint

/-- Drop an image's bytes now, and optionally refuse its canonical hash from then on. -/
def mediaRevoke (s : StoreInner) (id : Handle) (block : Bool) : StoreInner :=
  match s.items.get id with
  | none => s
  | some e =>
    { s with
      items := s.items.set id { e with bytes := none }
      totalBytes := s.totalBytes - e.bytes.elim 0 List.length
      blocked := if block then s.blocked.insert e.hash else s.blocked }

def mediaBlockHashes (s : StoreInner) (hashes : List (Bytes 32)) : StoreInner :=
  { s with blocked := hashes.foldl (fun b h => b.insert h) s.blocked }

/-- A handle a sender has attached: its own upload, while the bytes live. -/
def mediaForSend (s : StoreInner) (now : Instant) (sender : Principal) (id : Handle) : Option MediaRef :=
  match s.items.get id with
  | some e => if e.live now ∧ e.uploader = sender then some (e.mediaRef id now) else none
  | none => none

/-- Record who a relay just showed an image to. -/
def mediaCapture (s : StoreInner) (id : Handle) (who : List Principal) : StoreInner :=
  s.update id fun e => { e with audience := who.foldl (fun a p => a.insert p) e.audience }

/-! ## What each call leaves of an entry -/

/-- Every entry of `s'` is one of `s`, kept. -/
def From (s s' : StoreInner) : Prop :=
  ∀ h e', s'.items.get h = some e' → ∃ e, s.items.get h = some e ∧ e.Kept e'

variable {s s' s'' : StoreInner} {now : Instant} {id h : Handle} {e : Entry}

theorem From.refl (s : StoreInner) : From s s := fun _ e he => ⟨e, he, Entry.Kept.refl e⟩

theorem From.trans (h₁ : From s s') (h₂ : From s' s'') : From s s'' := by
  intro h e'' he''
  obtain ⟨e', he', hk'⟩ := h₂ h e'' he''
  obtain ⟨e, he, hk⟩ := h₁ h e' he'
  exact ⟨e, he, hk.trans hk'⟩

theorem From.foldl {α : Type*} {f : StoreInner → α → StoreInner} (hf : ∀ s a, From s (f s a)) :
    ∀ (as : List α) (s : StoreInner), From s (as.foldl f s)
  | [], s => From.refl s
  | a :: as, s => (hf s a).trans (From.foldl hf as (f s a))

theorem get_remove (s : StoreInner) (id h : Handle) :
    (s.remove id).items.get h = if h = id then none else s.items.get h := Map.get_drop id h

theorem from_remove (s : StoreInner) (id : Handle) : From s (s.remove id) := by
  intro h e he
  rw [get_remove] at he
  by_cases hid : h = id
  · rw [if_pos hid] at he
    cases he
  · rw [if_neg hid] at he
    exact ⟨e, he, Entry.Kept.refl e⟩

theorem from_sweep (s : StoreInner) (now : Instant) : From s (s.sweep now) := From.foldl from_remove _ s

theorem from_evictGo (incoming cap : Nat) (now : Instant) (fuel skipped : Nat) (s : StoreInner) :
    From s (evictGo incoming cap now fuel skipped s) := by
  induction fuel generalizing skipped s with
  | zero => exact From.refl s
  | succ fuel ih =>
    unfold evictGo
    split
    · exact From.refl s
    · split
      · exact From.refl s
      · split
        · exact ih _ s
        · exact (from_remove s _).trans (ih _ _)

theorem from_evictToFit (s : StoreInner) (incoming cap : Nat) (now : Instant) :
    From s (s.evictToFit incoming cap now) := from_evictGo incoming cap now _ 0 s

theorem get_update (s : StoreInner) (id : Handle) (f : Entry → Entry) (h : Handle) :
    (s.update id f).items.get h = if h = id then (s.items.get h).map f else s.items.get h := by
  unfold update
  split
  case h_1 e he =>
    show (s.items.set id (f e)).get h = _
    rw [Map.get_set]
    by_cases hid : h = id
    · rw [if_pos hid, if_pos hid, hid, he]
      rfl
    · rw [if_neg hid, if_neg hid]
  case h_2 he =>
    by_cases hid : h = id
    · rw [if_pos hid, hid, he]
      rfl
    · rw [if_neg hid]

theorem from_update {f : Entry → Entry} (hf : ∀ e : Entry, e.Kept (f e)) (s : StoreInner) (id : Handle) :
    From s (s.update id f) := by
  intro h e' he'
  rw [get_update] at he'
  by_cases hid : h = id
  · rw [if_pos hid, Option.map_eq_some_iff] at he'
    obtain ⟨e, he, rfl⟩ := he'
    exact ⟨e, he, hf e⟩
  · rw [if_neg hid] at he'
    exact ⟨e', he', Entry.Kept.refl e'⟩

theorem from_mediaGrant (s : StoreInner) (now : Instant) (id : Handle) (who : Principal) :
    From s (s.mediaGrant now id who) := by
  apply from_update
  intro e
  split
  · exact ⟨fun hb => hb, rfl, rfl⟩
  · exact Entry.Kept.refl e

theorem from_mediaCapture (s : StoreInner) (id : Handle) (who : List Principal) :
    From s (s.mediaCapture id who) := by
  apply from_update
  intro e
  exact ⟨fun hb => hb, rfl, rfl⟩

theorem get_mediaRevoke (s : StoreInner) (id : Handle) (block : Bool) (h : Handle) :
    (s.mediaRevoke id block).items.get h =
      if h = id then (s.items.get h).map fun e => { e with bytes := none } else s.items.get h := by
  unfold mediaRevoke
  split
  case h_1 he =>
    by_cases hid : h = id
    · rw [if_pos hid, hid, he]
      rfl
    · rw [if_neg hid]
  case h_2 e he =>
    show (s.items.set id _).get h = _
    rw [Map.get_set]
    by_cases hid : h = id
    · rw [if_pos hid, if_pos hid, hid, he]
      rfl
    · rw [if_neg hid, if_neg hid]

theorem from_mediaRevoke (s : StoreInner) (id : Handle) (block : Bool) : From s (s.mediaRevoke id block) := by
  intro h e' he'
  rw [get_mediaRevoke] at he'
  by_cases hid : h = id
  · rw [if_pos hid, Option.map_eq_some_iff] at he'
    obtain ⟨e, he, rfl⟩ := he'
    exact ⟨e, he, nofun, rfl, rfl⟩
  · rw [if_neg hid] at he'
    exact ⟨e', he', Entry.Kept.refl e'⟩

theorem get_accept {cfg : MediaConfig} {hash : Bytes 32} {who : Uploader} {canonical : Canonical}
    {drawn : Option Handle} {e' : Entry}
    (he' : (accept cfg hash s who canonical drawn now).2.items.get h = some e') :
    (∃ e, s.items.get h = some e ∧ e.Kept e') ∨ (drawn = some h ∧ e'.pinnedUntil = none) := by
  unfold accept at he'
  split at he'
  · exact .inl ⟨e', he', Entry.Kept.refl e'⟩
  · split at he'
    · exact .inl ⟨e', he', Entry.Kept.refl e'⟩
    case h_2 id =>
      simp only [Map.get_set] at he'
      by_cases hid : h = id
      · rw [if_pos hid] at he'
        cases he'
        exact .inr ⟨congrArg some hid.symm, rfl⟩
      · rw [if_neg hid] at he'
        exact .inl (from_evictToFit s _ _ now h e' he')

end StoreInner

end HxdNg.Media
