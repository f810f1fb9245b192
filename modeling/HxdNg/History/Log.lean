import HxdNg.Lib.Assoc
import HxdNg.Lib.Machine
import HxdNg.Relationships.Rows

/-!
# The in-memory chat log

What a room's lines, the guids they were sent under and the reactions on them are kept in.

* `MemoryInner.append`, `appendAll` : a line logged once for each channel, sender and guid;
* `MemoryInner.tombstone`, `prune`, `deleteChannel` : what ends a line, its guid or its signed index;
* `reactIn` and the other reaction calls, with `summarize` for what a reader is shown;
* `MemoryInner.Wf` : line ids are distinct and were counted, which every call keeps;
* `MemoryInner.Later` : no call opens a line again that was closed (`MemoryInner.Closed`).
-/

namespace HxdNg.History

open Relationships Assoc

abbrev LineId := Nat

structure StoreError where
  what : String
  deriving DecidableEq

/-! ## Lines -/

/-- A client's own id for a line or message. -/
abbrev MessageGuid := String

/-- A signed line's detached form, and the hash of what it says. -/
structure Signature where
  form : List UInt8
  content : Bytes 32
  deriving DecidableEq

/-- Where a signed line is logged. -/
structure SignedAt where
  channel : Nat
  id : LineId
  content : Bytes 32
  deriving DecidableEq

/-- A line to log. None is logged as a tombstone. -/
structure NewLine where
  channel : Nat
  ghost : Option (Bytes 16)
  fromLogin : Option String
  fromFingerprint : Option Identity.Fingerprint
  at_ : SystemTime
  guid : Option (String × MessageGuid)
  signed : Option Signature
  deriving DecidableEq

structure Appended where
  id : LineId
  /-- False where the line's guid was logged already. -/
  new : Bool
  deriving DecidableEq

structure LogLine where
  id : LineId
  channel : Nat
  fromLogin : Option String
  fromFingerprint : Option Identity.Fingerprint
  at_ : SystemTime
  signed : Option (List UInt8)
  deleted : Bool
  deriving DecidableEq

/-- What retention keeps of each channel: its newest `maxLines` (0 for any number), none older than
`maxAge`, unless `channels` gives it a rule of its own. -/
structure Retention where
  maxLines : Nat
  maxAge : Option Int
  channels : List (Nat × Nat × Option Int)

def Retention.of (keep : Retention) (channel : Nat) : Nat × Option Int :=
  match keep.channels.find? fun c => c.1 = channel with
  | some c => c.2
  | none => (keep.maxLines, keep.maxAge)

structure HistoryQuery where
  channel : Nat
  before : Option LineId
  after : Option LineId
  limit : Nat
  deriving DecidableEq

def HistoryQuery.check (q : HistoryQuery) : Except StoreError HistoryQuery :=
  if q.limit = 0 then .error ⟨"history query limit is zero"⟩ else .ok q

structure HistoryPage where
  lines : List LogLine
  hasMore : Bool
  deriving DecidableEq

/-! ## Reactions -/

inductive ReactionKey where
  | emoji (s : String)
  deriving DecidableEq

instance instLawfulBEqLineKey : LawfulBEq (LineId × ReactionKey) := inferInstance

/-- The mailbox rule as one value: an identified account by its key alone, any other by its login. -/
def reactorKey (who : Mailbox) : List Char :=
  match who.fingerprint with
  | some fp => 'f' :: ':' :: hex fp.val
  | none => 'l' :: ':' :: who.login.toList

structure ReactionRow where
  line : LineId
  key : ReactionKey
  reactor : List Char
  nick : String
  at_ : SystemTime
  deriving DecidableEq

/-- One account adding or removing one key on one line, held to the policy's caps where it adds. -/
structure ReactAct where
  channel : Nat
  line : LineId
  who : Mailbox
  nick : String
  key : ReactionKey
  add : Bool
  at_ : SystemTime
  maxKeys : Nat
  maxPerUser : Nat

inductive Reacted where
  | count (n : Nat)
  | held (n : Nat)
  | noSuchLine
  | tooManyKeys
  | tooManyOfYours
  deriving DecidableEq

/-- A line's reactions as a reader is shown them: its keys with their counts in the order they were
first added, and the indexes of those the reader's account holds. -/
structure Reactions where
  keys : List (ReactionKey × Nat)
  mine : List Nat
  deriving DecidableEq

/-- An index as a byte, which one past the 256th key does not fit. -/
def fitsByte (i : Nat) : Option Nat := if i < 256 then some i else none

/-- One more of `key`, at the place it was first added. -/
def tally (keys : List (ReactionKey × Nat)) (key : ReactionKey) : List (ReactionKey × Nat) × Nat :=
  match keys.findIdx? fun k => k.1 = key with
  | some i => (keys.modify i fun k => (k.1, k.2 + 1), i)
  | none => (keys ++ [(key, 1)], keys.length)

/-- A line's rows, in the order they were made, read into what a reader is shown. -/
def summarize (rows : List (ReactionKey × List Char)) (reader : Option (List Char)) : Reactions :=
  let out := rows.foldl (fun (out : Reactions) row =>
    let (keys, i) := tally out.keys row.1
    ⟨keys, if reader = some row.2 then out.mine ++ (fitsByte i).toList else out.mine⟩) ⟨[], []⟩
  { out with mine := out.mine.mergeSort }

/-! ## The log -/

structure MemoryInner where
  nextId : LineId := 0
  lines : List LogLine := []
  ghosts : List (LineId × Bytes 16) := []
  guids : List ((Nat × String × MessageGuid) × LineId) := []
  signed : List ((Identity.Fingerprint × MessageGuid) × SignedAt) := []
  reactions : List ReactionRow := []

namespace MemoryInner

def append (m : MemoryInner) (line : NewLine) : Except StoreError Appended × MemoryInner :=
  let guid := line.guid.map fun (sender, guid) => (line.channel, sender, guid)
  match guid.bind (lookup m.guids) with
  | some id => (.ok ⟨id, false⟩, m)
  | none =>
    if maxWord ≤ m.nextId then (.error ⟨"chat line ids exhausted"⟩, m) else
    let id := m.nextId + 1
    let lines := m.lines ++ [{
      id, channel := line.channel, fromLogin := line.fromLogin,
      fromFingerprint := line.fromFingerprint, at_ := line.at_,
      signed := line.signed.map Signature.form, deleted := false }]
    let ghosts := match line.ghost with
      | some key => insert id key m.ghosts
      | none => m.ghosts
    let signed := match line.signed, line.fromFingerprint, line.guid with
      | some s, some fp, some (_, g) => insert (fp, g) ⟨line.channel, id, s.content⟩ m.signed
      | _, _, _ => m.signed
    let guids := match guid with
      | some key => insert key id m.guids
      | none => m.guids
    (.ok ⟨id, true⟩, { m with nextId := id, lines, ghosts, signed, guids })

/-- Several lines in order, up to the first the log will not take. -/
def appendAll (m : MemoryInner) : List NewLine → Except StoreError (List Appended) × MemoryInner
  | [] => (.ok [], m)
  | line :: lines =>
    match m.append line with
    | (.error e, m) => (.error e, m)
    | (.ok done, m) =>
      let (rest, m) := appendAll m lines
      (rest.map (done :: ·), m)

/-- The lines of the channel on the page's side of its bounds. -/
def matching (m : MemoryInner) (q : HistoryQuery) : List LogLine :=
  m.lines.filter fun l => l.channel = q.channel ∧ (∀ id ∈ q.before, l.id < id) ∧ ∀ id ∈ q.after, id < l.id

/-- The oldest of them past `after`, and else the newest. -/
def query (m : MemoryInner) (q : HistoryQuery) : Except StoreError HistoryPage := do
  let q ← q.check
  let matching := m.matching q
  let hasMore : Bool := q.limit < matching.length
  return {
    lines :=
      if q.after.isSome then matching.take q.limit
      else if hasMore then matching.drop (matching.length - q.limit)
      else matching
    hasMore }

def findGuid (m : MemoryInner) (channel : Nat) (sender : String) (guid : MessageGuid) :
    Option LineId :=
  lookup m.guids (channel, sender, guid)

def findSigned (m : MemoryInner) (signer : Identity.Fingerprint) (guid : MessageGuid) :
    Option SignedAt :=
  lookup m.signed (signer, guid)

def line (m : MemoryInner) (id : LineId) : Option LogLine := m.lines.find? fun l => l.id = id

/-- Whether `line` is a line of `channel`, and no tombstone. -/
def isOpen (m : MemoryInner) (channel : Nat) (line : LineId) : Bool :=
  m.lines.any fun l => l.id = line ∧ l.channel = channel ∧ ¬l.deleted

def tombstone (m : MemoryInner) (id : LineId) : Bool × MemoryInner :=
  match m.lines.findIdx? fun l => l.id = id with
  | none => (false, m)
  | some i => (true, { m with
      lines := m.lines.modify i fun l => { l with signed := none, deleted := true }
      signed := m.signed.filter fun (_, s) => s.id ≠ id
      reactions := m.reactions.filter fun r => r.line ≠ id })

/-- Each of `ids` tombstoned, and those there were. -/
def tombstoneAll (m : MemoryInner) : List LineId → List LineId × MemoryInner
  | [] => ([], m)
  | id :: ids =>
    let (found, m) := m.tombstone id
    let (gone, m) := tombstoneAll m ids
    (if found then id :: gone else gone, m)

/-- What is kept of the lines that are left: their ghosts, guids, signed index and reactions. -/
def keeping (m : MemoryInner) (lines : List LogLine) : MemoryInner :=
  let kept (id : LineId) : Bool := lines.any fun l => l.id = id
  { m with
    lines
    ghosts := m.ghosts.filter fun (id, _) => kept id
    guids := m.guids.filter fun (_, id) => kept id
    signed := m.signed.filter fun (_, s) => kept s.id
    reactions := m.reactions.filter fun r => kept r.line }

/-- Each channel's newest lines, as many as `keep` has of it. -/
def newest (keep : Retention) : List LogLine → List LogLine
  | [] => []
  | l :: newer =>
    let max := (keep.of l.channel).1
    if max = 0 ∨ newer.countP (fun n => n.channel = l.channel) + 1 ≤ max then
      l :: newest keep newer
    else newest keep newer

def prune (m : MemoryInner) (keep : Retention) (now : SystemTime) : MemoryInner :=
  m.keeping (newest keep (m.lines.filter fun l =>
    match (keep.of l.channel).2 with
    | none => true
    | some age => now - age ≤ l.at_))

def deleteChannel (m : MemoryInner) (channel : Nat) : MemoryInner :=
  m.keeping (m.lines.filter fun l => l.channel ≠ channel)

/-- A signed line's form replaced. A tombstone has none to replace. -/
def restoreSigned (m : MemoryInner) (id : LineId) (form : List UInt8) : MemoryInner :=
  match m.lines.findIdx? fun l => l.id = id with
  | none => m
  | some i => { m with
      lines := m.lines.modify i fun l => { l with signed := l.signed.map fun _ => form } }

/-- One reaction to the log. -/
def reactIn (m : MemoryInner) (act : ReactAct) : Reacted × MemoryInner :=
  if ¬m.isOpen act.channel act.line then (.noSuchLine, m) else
  let reactor := reactorKey act.who
  let on := m.reactions.filter fun r => r.line = act.line
  let held : Bool := on.any fun r => r.key = act.key ∧ r.reactor = reactor
  let keyed : Bool := on.any fun r => r.key = act.key
  let keys := (on.map ReactionRow.key).dedup.length
  let yours := on.countP fun r => r.reactor = reactor
  if act.add ∧ ¬held ∧ ¬keyed ∧ act.maxKeys ≤ keys then (.tooManyKeys, m) else
  if act.add ∧ ¬held ∧ act.maxPerUser ≤ yours then (.tooManyOfYours, m) else
  let reactions :=
    if act.add ∧ ¬held then m.reactions ++ [⟨act.line, act.key, reactor, act.nick, act.at_⟩]
    else if ¬act.add ∧ held then
      m.reactions.filter fun r => ¬(r.line = act.line ∧ r.key = act.key ∧ r.reactor = reactor)
    else m.reactions
  let count := reactions.countP fun r => r.line = act.line ∧ r.key = act.key
  (if act.add = held then .held count else .count count, { m with reactions })

def reactAll (m : MemoryInner) : List ReactAct → List Reacted × MemoryInner
  | [] => ([], m)
  | act :: acts =>
    let (r, m) := m.reactIn act
    let (rs, m) := reactAll m acts
    (r :: rs, m)

/-- What is shown of `line`, of it alone. -/
def reactionsOn (m : MemoryInner) (line : LineId) (reader : Option (List Char)) : Reactions :=
  summarize ((m.reactions.filter fun r => r.line = line).map fun r => (r.key, r.reactor)) reader

/-- The reactions on those of `ids` that have any. -/
def shown (m : MemoryInner) (ids : List LineId) (reader : Option Mailbox) :
    List (LineId × Reactions) :=
  ids.filterMap fun id =>
    let shown := m.reactionsOn id (reader.map reactorKey)
    if shown.keys.isEmpty then none else some (id, shown)

def reactorsOn (m : MemoryInner) (ids : List LineId) : List (LineId × List Char × ReactionKey) :=
  (m.reactions.filter fun r => r.line ∈ ids).map fun r => (r.line, r.reactor, r.key)

/-- Every reaction `who` made since `since` taken, and the lines they were on. -/
def forgetReactions (m : MemoryInner) (who : Mailbox) (since : SystemTime) :
    List LineId × MemoryInner :=
  let gone (r : ReactionRow) : Bool := r.reactor = reactorKey who ∧ since ≤ r.at_
  (((m.reactions.filter gone).map ReactionRow.line).eraseDups,
    { m with reactions := m.reactions.filter fun r => ¬gone r })

def clearReactions (m : MemoryInner) (channel : Nat) (line : LineId) : Option Nat × MemoryInner :=
  if ¬m.isOpen channel line then (none, m) else
  let left := m.reactions.filter fun r => r.line ≠ line
  (some (m.reactions.length - left.length), { m with reactions := left })

/-- `from_`'s reactions become `into`'s; one `into` already holds goes, and the lines that lost one
are answered. -/
def rekeyReactions (m : MemoryInner) (from_ into : Mailbox) : List LineId × MemoryInner :=
  let held := (m.reactions.filter fun r => r.reactor = reactorKey into).map fun r => (r.line, r.key)
  let twice (r : ReactionRow) : Bool := r.reactor = reactorKey from_ ∧ (r.line, r.key) ∈ held
  (((m.reactions.filter twice).map ReactionRow.line).eraseDups,
    { m with reactions := (m.reactions.filter fun r => ¬twice r).map fun r =>
        if r.reactor = reactorKey from_ then { r with reactor := reactorKey into } else r })

/-! ## What every call keeps -/

structure Wf (m : MemoryInner) : Prop where
  nodup : (m.lines.map LogLine.id).Nodup
  counted : ∀ l ∈ m.lines, l.id ≤ m.nextId

/-- `id` was given out, and its line is a tombstone or gone. -/
def Closed (m : MemoryInner) (id : LineId) : Prop :=
  id ≤ m.nextId ∧ ∀ l ∈ m.lines, l.id = id → l.deleted = true

/-- `m'` is a later state of the log than `m`: of the ids `m` gave out, the open lines were open. -/
structure Later (m m' : MemoryInner) : Prop where
  wf : m'.Wf
  next : m.nextId ≤ m'.nextId
  wasOpen : ∀ l ∈ m'.lines, l.deleted = false → l.id ≤ m.nextId →
    ∃ l₀ ∈ m.lines, l₀.id = l.id ∧ l₀.deleted = false

variable {m m' m'' : MemoryInner}

theorem Later.refl (h : m.Wf) : Later m m := ⟨h, le_rfl, fun l hl hd _ => ⟨l, hl, rfl, hd⟩⟩

theorem Later.trans (h : Later m m') (h' : Later m' m'') : Later m m'' := by
  refine ⟨h'.wf, h.next.trans h'.next, fun l hl hd hle => ?_⟩
  obtain ⟨l₁, hl₁, hid, hd₁⟩ := h'.wasOpen l hl hd (hle.trans h.next)
  obtain ⟨l₀, hl₀, hid₀, hd₀⟩ := h.wasOpen l₁ hl₁ hd₁ (by rw [hid]; exact hle)
  exact ⟨l₀, hl₀, hid₀.trans hid, hd₀⟩

theorem Later.closed (h : Later m m') {id : LineId} (hc : m.Closed id) : m'.Closed id := by
  refine ⟨hc.1.trans h.next, fun l hl hid => ?_⟩
  by_contra hd
  obtain ⟨l₀, hl₀, hid₀, hd₀⟩ := h.wasOpen l hl (by simpa using hd) (by rw [hid]; exact hc.1)
  rw [hc.2 l₀ hl₀ (hid₀.trans hid)] at hd₀
  cases hd₀

theorem Closed.not_isOpen {id : LineId} (h : m.Closed id) (channel : Nat) :
    m.isOpen channel id = false := by
  unfold isOpen
  rw [List.any_eq_false]
  intro l hl
  have := h.2 l hl
  simp only [decide_eq_true_eq]
  rintro ⟨hid, -, hd⟩
  exact hd (this hid)

theorem Later.of_lines (h : m.Wf) (hl : m'.lines = m.lines) (hn : m'.nextId = m.nextId) :
    Later m m' := by
  refine ⟨⟨by rw [hl]; exact h.nodup, by rw [hl, hn]; exact h.counted⟩, hn.ge, ?_⟩
  rw [hl]
  exact fun l hl hd _ => ⟨l, hl, rfl, hd⟩

theorem Later.append (h : m.Wf) (line : NewLine) : Later m (m.append line).2 := by
  unfold MemoryInner.append
  dsimp only
  split
  · exact Later.refl h
  · split
    · exact Later.refl h
    · refine ⟨⟨?_, ?_⟩, Nat.le_succ _, ?_⟩
      · rw [List.map_append]
        refine List.Nodup.append h.nodup (List.nodup_singleton _) ?_
        intro id hid hid'
        obtain ⟨l, hl, rfl⟩ := List.mem_map.mp hid
        have hle := h.counted l hl
        have heq : l.id = m.nextId + 1 := by simpa using hid'
        rw [heq] at hle
        exact absurd hle (Nat.not_succ_le_self _)
      · intro l hl
        rcases List.mem_append.mp hl with hl | hl
        · exact (h.counted l hl).trans (Nat.le_succ _)
        · rw [List.mem_singleton.mp hl]
      · intro l hl hd hle
        rcases List.mem_append.mp hl with hl | hl
        · exact ⟨l, hl, rfl, hd⟩
        · rw [List.mem_singleton.mp hl] at hle
          exact absurd hle (Nat.not_succ_le_self _)

theorem map_id_tombstone (ls : List LogLine) (i : Nat) :
    (ls.modify i fun l => { l with signed := none, deleted := true }).map LogLine.id =
      ls.map LogLine.id := by
  induction ls generalizing i with
  | nil => cases i <;> rfl
  | cons l ls ih =>
    cases i with
    | zero => rfl
    | succ i => simp [ih i]

theorem mem_tombstone {ls : List LogLine} {i : Nat} {l : LogLine}
    (h : l ∈ ls.modify i fun l => { l with signed := none, deleted := true }) :
    l ∈ ls ∨ l.deleted = true := by
  obtain ⟨j, hj⟩ := List.mem_iff_getElem?.mp h
  rw [List.getElem?_modify] at hj
  by_cases hij : i = j
  · obtain ⟨l₀, _, rfl⟩ := Option.map_eq_some_iff.mp hj
    right
    simp [hij]
  · left
    simp only [hij, if_false, Option.map_eq_map, Option.map_id_fun', id_eq] at hj
    exact List.mem_of_getElem? hj

theorem Later.tombstone (h : m.Wf) (id : LineId) : Later m (m.tombstone id).2 := by
  unfold MemoryInner.tombstone
  split
  · exact Later.refl h
  · refine ⟨⟨?_, fun l hl => ?_⟩, le_rfl, fun l hl hd _ => ?_⟩
    · rw [map_id_tombstone]
      exact h.nodup
    · have : l.id ∈ m.lines.map LogLine.id := by
        rw [← map_id_tombstone]
        exact List.mem_map_of_mem hl
      obtain ⟨l₀, hl₀, hid⟩ := List.mem_map.mp this
      rw [← hid]
      exact h.counted l₀ hl₀
    · rcases mem_tombstone hl with hl | hl
      · exact ⟨l, hl, rfl, hd⟩
      · rw [hl] at hd
        cases hd

theorem closed_tombstone (h : m.Wf) {id : LineId} (hf : (m.tombstone id).1 = true) :
    (m.tombstone id).2.Closed id := by
  unfold MemoryInner.tombstone at hf ⊢
  split at hf
  · cases hf
  · rename_i i hi
    obtain ⟨hlt, hid, -⟩ := List.findIdx?_eq_some_iff_getElem.mp hi
    have hid : m.lines[i].id = id := by simpa using hid
    refine ⟨?_, fun l hl hlid => ?_⟩
    · rw [← hid]
      exact h.counted _ (List.getElem_mem hlt)
    obtain ⟨j, hj⟩ := List.mem_iff_getElem?.mp hl
    rw [List.getElem?_modify] at hj
    by_cases hij : i = j
    · obtain ⟨l₀, _, rfl⟩ := Option.map_eq_some_iff.mp hj
      simp [hij]
    · -- The ids are distinct, so the line at another place is not this one.
      simp only [hij, if_false, Option.map_eq_map, Option.map_id_fun', id_eq] at hj
      obtain ⟨hj', rfl⟩ := List.getElem?_eq_some_iff.mp hj
      refine absurd (?_ : i = j) hij
      refine (@List.Nodup.getElem_inj_iff _ _ h.nodup _ (by simpa using hlt) _ (by simpa using hj')).mp ?_
      rw [List.getElem_map, List.getElem_map, hid, hlid]

theorem tombstoneAll_spec (h : m.Wf) (ids : List LineId) :
    Later m (m.tombstoneAll ids).2 ∧ ∀ id ∈ (m.tombstoneAll ids).1, (m.tombstoneAll ids).2.Closed id := by
  induction ids generalizing m with
  | nil => exact ⟨Later.refl h, fun id hid => by cases hid⟩
  | cons id ids ih =>
    have hone := Later.tombstone h id
    have ⟨hlater, hclosed⟩ := ih hone.wf
    refine ⟨hone.trans hlater, fun x hx => ?_⟩
    by_cases hf : (m.tombstone id).1 = true
    · have hx : x ∈ id :: ((m.tombstone id).2.tombstoneAll ids).1 := by
        simpa only [tombstoneAll, hf, if_true] using hx
      rcases List.mem_cons.mp hx with rfl | hx
      · exact hlater.closed (closed_tombstone h hf)
      · exact hclosed x hx
    · have hx : x ∈ ((m.tombstone id).2.tombstoneAll ids).1 := by
        simpa only [tombstoneAll, if_neg hf] using hx
      exact hclosed x hx

theorem Later.keeping (h : m.Wf) {lines : List LogLine} (hs : lines.Sublist m.lines) :
    Later m (m.keeping lines) :=
  ⟨⟨h.nodup.sublist (hs.map _), fun l hl => h.counted l (hs.subset hl)⟩, le_rfl,
    fun l hl hd _ => ⟨l, hs.subset hl, rfl, hd⟩⟩

theorem newest_sublist (keep : Retention) (ls : List LogLine) : (newest keep ls).Sublist ls := by
  induction ls with
  | nil => exact List.Sublist.refl _
  | cons l ls ih =>
    rw [newest]
    split
    · exact ih.cons_cons l
    · exact ih.cons l

theorem Later.prune (h : m.Wf) (keep : Retention) (now : SystemTime) :
    Later m (m.prune keep now) :=
  Later.keeping h ((newest_sublist _ _).trans List.filter_sublist)

theorem Later.deleteChannel (h : m.Wf) (channel : Nat) : Later m (m.deleteChannel channel) :=
  Later.keeping h List.filter_sublist

theorem lines_reactIn (m : MemoryInner) (act : ReactAct) :
    (m.reactIn act).2.lines = m.lines ∧ (m.reactIn act).2.nextId = m.nextId := by
  unfold reactIn
  dsimp only
  split
  · exact ⟨rfl, rfl⟩
  · split
    · exact ⟨rfl, rfl⟩
    · split <;> exact ⟨rfl, rfl⟩

theorem Later.reactIn (h : m.Wf) (act : ReactAct) : Later m (m.reactIn act).2 :=
  Later.of_lines h (lines_reactIn m act).1 (lines_reactIn m act).2

theorem Later.reactAll (h : m.Wf) (acts : List ReactAct) : Later m (m.reactAll acts).2 := by
  induction acts generalizing m with
  | nil => exact Later.refl h
  | cons act acts ih => exact (Later.reactIn h act).trans (ih (Later.reactIn h act).wf)

theorem Later.clearReactions (h : m.Wf) (channel : Nat) (line : LineId) :
    Later m (m.clearReactions channel line).2 := by
  unfold MemoryInner.clearReactions
  split
  · exact Later.refl h
  · exact Later.of_lines h rfl rfl

end MemoryInner

end HxdNg.History
