import Mathlib
import HxdNg.History.Log

/-!
# The log's indexes

* `Op`, `MemoryInner.step`, `MemoryInner.run` : the log's calls and runs of them;
* `MemoryInner.Indexed` : line ids rise, every index names a line held, the signed index and the
  reactions no tombstone, and no account holds one key on one line twice; `indexed_run` : every run
  keeps it;
* `MemoryInner.Since` : the ids given out before name the lines they named;
* `MemoryInner.keysOn` : a line's keys, never more than the adds were allowed;
* `MemoryInner.RekeyKeeps` : what a rekey is to do; `rekeyKeeps_iff` : when it does.
-/

namespace HxdNg.History

open Relationships Assoc

/-- One call that writes. -/
inductive Op where
  | appendAll (lines : List NewLine)
  | tombstone (id : LineId)
  | prune (keep : Retention) (now : SystemTime)
  | deleteChannel (channel : Nat)
  | restoreSigned (id : LineId) (form : List UInt8)
  | react (act : ReactAct)
  | reactAll (acts : List ReactAct)
  | clearReactions (channel : Nat) (line : LineId)
  | forgetReactions (who : Mailbox) (since : SystemTime)
  | rekeyReactions (from_ into : Mailbox)

/-- The reactions a call asks for. -/
def Op.acts : Op → List ReactAct
  | .react act => [act]
  | .reactAll acts => acts
  | _ => []

/-- What a row holds: one account's one key on one line. -/
def ReactionRow.slot (r : ReactionRow) : LineId × ReactionKey × List Char := (r.line, r.key, r.reactor)

/-- The same line, whatever became of its words. -/
structure LogLine.Same (l l' : LogLine) : Prop where
  id : l.id = l'.id
  channel : l.channel = l'.channel
  fromLogin : l.fromLogin = l'.fromLogin
  fromFingerprint : l.fromFingerprint = l'.fromFingerprint
  at_ : l.at_ = l'.at_

theorem LogLine.Same.refl (l : LogLine) : l.Same l := ⟨rfl, rfl, rfl, rfl, rfl⟩

theorem LogLine.Same.trans {l l' l'' : LogLine} (h : l.Same l') (h' : l'.Same l'') : l.Same l'' :=
  ⟨h.id.trans h'.id, h.channel.trans h'.channel, h.fromLogin.trans h'.fromLogin,
    h.fromFingerprint.trans h'.fromFingerprint, h.at_.trans h'.at_⟩

namespace MemoryInner

def step (m : MemoryInner) : Op → MemoryInner
  | .appendAll lines => (m.appendAll lines).2
  | .tombstone id => (m.tombstone id).2
  | .prune keep now => m.prune keep now
  | .deleteChannel channel => m.deleteChannel channel
  | .restoreSigned id form => m.restoreSigned id form
  | .react act => (m.reactIn act).2
  | .reactAll acts => (m.reactAll acts).2
  | .clearReactions channel line => (m.clearReactions channel line).2
  | .forgetReactions who since => (m.forgetReactions who since).2
  | .rekeyReactions from_ into => (m.rekeyReactions from_ into).2

def run (m : MemoryInner) (ops : List Op) : MemoryInner := ops.foldl step m

/-- A line held under `id`. -/
def Held (m : MemoryInner) (id : LineId) : Prop := ∃ l ∈ m.lines, l.id = id

/-- A line held under `id` that is no tombstone. -/
def Live (m : MemoryInner) (id : LineId) : Prop := ∃ l ∈ m.lines, l.id = id ∧ l.deleted = false

structure Indexed (m : MemoryInner) : Prop where
  rising : (m.lines.map LogLine.id).Pairwise (· < ·)
  counted : ∀ l ∈ m.lines, l.id ≤ m.nextId
  guids : ∀ e ∈ m.guids, m.Held e.2
  ghosts : ∀ e ∈ m.ghosts, m.Held e.1
  signed : ∀ e ∈ m.signed, m.Live e.2.id
  reactions : ∀ r ∈ m.reactions, m.Live r.line
  once : (m.reactions.map ReactionRow.slot).Nodup

/-- In `m'`, the ids `m` had given out name lines `m` held under them. -/
structure Since (m m' : MemoryInner) : Prop where
  next : m.nextId ≤ m'.nextId
  held : ∀ l' ∈ m'.lines, l'.id ≤ m.nextId → ∃ l ∈ m.lines, l.Same l'

/-- The keys on a line, each once. -/
def keysOn (m : MemoryInner) (line : LineId) : List ReactionKey :=
  ((m.reactions.filter fun r => r.line = line).map ReactionRow.key).dedup

def count (m : MemoryInner) (line : LineId) (key : ReactionKey) : Nat :=
  m.reactions.countP fun r => r.line = line ∧ r.key = key

/-- A rekey keeps every key the two accounts held on a line, as the second's; leaves the first none;
and answers the lines a count of which went down, each once. -/
structure RekeyKeeps (m : MemoryInner) (from_ into : Mailbox) : Prop where
  kept : ∀ r ∈ m.reactions, r.reactor = reactorKey from_ ∨ r.reactor = reactorKey into →
    ∃ r' ∈ (m.rekeyReactions from_ into).2.reactions, r'.slot = (r.line, r.key, reactorKey into)
  moved : ∀ r ∈ (m.rekeyReactions from_ into).2.reactions, r.reactor = reactorKey from_ →
    reactorKey from_ = reactorKey into
  once : (m.rekeyReactions from_ into).1.Nodup
  lost : ∀ line, line ∈ (m.rekeyReactions from_ into).1 ↔
    ∃ key, (m.rekeyReactions from_ into).2.count line key < m.count line key

variable {m m' m'' : MemoryInner}

/-! ## Lines -/

theorem Since.refl (m : MemoryInner) : Since m m := ⟨le_rfl, fun l hl _ => ⟨l, hl, .refl l⟩⟩

theorem Since.trans (h : Since m m') (h' : Since m' m'') : Since m m'' := by
  refine ⟨h.next.trans h'.next, fun l hl hle => ?_⟩
  obtain ⟨l', hl', hs'⟩ := h'.held l hl (hle.trans h.next)
  obtain ⟨l₀, hl₀, hs⟩ := h.held l' hl' (hs'.id ▸ hle)
  exact ⟨l₀, hl₀, hs.trans hs'⟩

theorem Since.of_lines (hl : m'.lines = m.lines) (hn : m'.nextId = m.nextId) : Since m m' :=
  ⟨hn.ge, fun l h _ => ⟨l, hl ▸ h, .refl l⟩⟩

theorem Since.keeping {lines : List LogLine} (hs : lines.Sublist m.lines) : Since m (m.keeping lines) :=
  ⟨le_rfl, fun l hl _ => ⟨l, hs.subset hl, .refl l⟩⟩

theorem Indexed.inj (h : m.Indexed) {l l' : LogLine} (hl : l ∈ m.lines) (hl' : l' ∈ m.lines)
    (hid : l.id = l'.id) : l = l' :=
  List.inj_on_of_nodup_map (h.rising.imp Nat.ne_of_lt) hl hl' hid

theorem Indexed.counted_of_ids (h : m.Indexed) {lines : List LogLine}
    (hids : lines.map LogLine.id = m.lines.map LogLine.id) : ∀ l ∈ lines, l.id ≤ m.nextId := by
  intro l hl
  have hmem : l.id ∈ m.lines.map LogLine.id := hids ▸ List.mem_map_of_mem hl
  obtain ⟨l', hl', hid⟩ := List.mem_map.mp hmem
  exact hid ▸ h.counted l' hl'

section Modify
variable {α β : Type*} {f : α → α} {xs : List α} {i : Nat}

/-- What a change of one element leaves alone. -/
theorem map_modify_eq {g : α → β} (h : ∀ x, g (f x) = g x) (xs : List α) (i : Nat) :
    (xs.modify i f).map g = xs.map g := by
  induction xs generalizing i with
  | nil => cases i <;> rfl
  | cons x xs ih =>
    cases i with
    | zero => rw [List.modify_zero_cons, List.map_cons, List.map_cons, h]
    | succ i => rw [List.modify_succ_cons, List.map_cons, List.map_cons, ih]

theorem mem_modify {x : α} (h : x ∈ xs.modify i f) : x ∈ xs ∨ ∃ y, xs[i]? = some y ∧ x = f y := by
  obtain ⟨j, hj⟩ := List.mem_iff_getElem?.mp h
  rw [List.getElem?_modify] at hj
  by_cases hij : i = j
  · obtain ⟨y, hy, rfl⟩ := Option.map_eq_some_iff.mp hj
    exact .inr ⟨y, hij ▸ hy, if_pos hij⟩
  · simp only [hij, if_false, Option.map_eq_map, Option.map_id_fun', id_eq] at hj
    exact .inl (List.mem_of_getElem? hj)

theorem mem_modify_of_ne {x y : α} (hx : x ∈ xs) (hy : xs[i]? = some y) (hne : x ≠ y) :
    x ∈ xs.modify i f := by
  obtain ⟨j, hj⟩ := List.mem_iff_getElem?.mp hx
  have hij : i ≠ j := by
    rintro rfl
    exact hne (Option.some.inj (hj.symm.trans hy))
  refine List.mem_iff_getElem?.mpr ⟨j, ?_⟩
  rw [List.getElem?_modify, hj]
  exact congrArg some (if_neg hij)

end Modify

/-- A change of one line that leaves it the same line. -/
theorem Since.modify {f : LogLine → LogLine} {i : Nat} (hl : m'.lines = m.lines.modify i f)
    (hn : m'.nextId = m.nextId) (hf : ∀ l : LogLine, l.Same (f l)) : Since m m' := by
  refine ⟨hn.ge, fun l h _ => ?_⟩
  rw [hl] at h
  rcases mem_modify h with h | ⟨l₀, hl₀, rfl⟩
  · exact ⟨l, h, .refl l⟩
  · exact ⟨l₀, List.mem_of_getElem? hl₀, hf l₀⟩

theorem getElem?_findIdx {id : LineId} {i : Nat}
    (h : (m.lines.findIdx? fun l => l.id = id) = some i) : ∃ l, m.lines[i]? = some l ∧ l.id = id := by
  obtain ⟨hlt, hid, -⟩ := List.findIdx?_eq_some_iff_getElem.mp h
  exact ⟨_, List.getElem?_eq_getElem hlt, of_decide_eq_true hid⟩

/-! ## Every call keeps the indexes -/

theorem Indexed.empty : Indexed {} :=
  ⟨.nil, by simp, by simp, by simp, by simp, by simp, .nil⟩

theorem Held.of_ids {id : LineId} (h : m.Held id)
    (hids : m'.lines.map LogLine.id = m.lines.map LogLine.id) : m'.Held id := by
  obtain ⟨l, hl, rfl⟩ := h
  exact List.mem_map.mp (hids ▸ List.mem_map_of_mem hl)

theorem Indexed.append (h : m.Indexed) (line : NewLine) :
    (m.append line).2.Indexed ∧ Since m (m.append line).2 := by
  unfold MemoryInner.append
  dsimp only
  split
  · exact ⟨h, .refl m⟩
  split
  · exact ⟨h, .refl m⟩
  have hheld : ∀ {id}, m.Held id → ∀ {l : LogLine} {m' : MemoryInner}, m'.lines = m.lines ++ [l] →
      m'.Held id := by
    rintro id ⟨l₀, hl₀, hid⟩ l m' hm
    exact ⟨l₀, hm ▸ List.mem_append_left _ hl₀, hid⟩
  have hlive : ∀ {id}, m.Live id → ∀ {l : LogLine} {m' : MemoryInner}, m'.lines = m.lines ++ [l] →
      m'.Live id := by
    rintro id ⟨l₀, hl₀, hid⟩ l m' hm
    exact ⟨l₀, hm ▸ List.mem_append_left _ hl₀, hid⟩
  refine ⟨⟨?_, ?_, ?_, ?_, ?_, ?_, h.once⟩, Nat.le_succ _, ?_⟩
  · rw [List.map_append, List.pairwise_append]
    refine ⟨h.rising, List.pairwise_singleton _ _, fun a ha b hb => ?_⟩
    obtain ⟨l, hl, rfl⟩ := List.mem_map.mp ha
    rw [List.mem_singleton.mp hb]
    exact Nat.lt_succ_of_le (h.counted l hl)
  · intro l hl
    rcases List.mem_append.mp hl with hl | hl
    · exact (h.counted l hl).trans (Nat.le_succ _)
    · rw [List.mem_singleton.mp hl]
  · intro e he
    dsimp only at he
    split at he
    · rcases mem_insert he with rfl | he
      · exact ⟨_, List.mem_append_right _ (List.mem_singleton_self _), rfl⟩
      · exact hheld (h.guids e he) rfl
    · exact hheld (h.guids e he) rfl
  · intro e he
    dsimp only at he
    split at he
    · rcases mem_insert he with rfl | he
      · exact ⟨_, List.mem_append_right _ (List.mem_singleton_self _), rfl⟩
      · exact hheld (h.ghosts e he) rfl
    · exact hheld (h.ghosts e he) rfl
  · intro e he
    dsimp only at he
    split at he
    · rcases mem_insert he with rfl | he
      · exact ⟨_, List.mem_append_right _ (List.mem_singleton_self _), rfl, rfl⟩
      · exact hlive (h.signed e he) rfl
    · exact hlive (h.signed e he) rfl
  · exact fun r hr => hlive (h.reactions r hr) rfl
  · intro l hl hle
    rcases List.mem_append.mp hl with hl | hl
    · exact ⟨l, hl, .refl l⟩
    · rw [List.mem_singleton.mp hl] at hle
      exact absurd hle (Nat.not_succ_le_self _)

theorem Indexed.appendAll (h : m.Indexed) (lines : List NewLine) :
    (m.appendAll lines).2.Indexed ∧ Since m (m.appendAll lines).2 := by
  induction lines generalizing m with
  | nil => exact ⟨h, .refl m⟩
  | cons line lines ih =>
    obtain ⟨hone, hsince⟩ := h.append line
    unfold MemoryInner.appendAll
    split
    · next heq => exact ⟨by simpa [heq] using hone, by simpa [heq] using hsince⟩
    · next heq =>
      rw [heq] at hone hsince
      exact ⟨(ih hone).1, hsince.trans (ih hone).2⟩

theorem Indexed.tombstone (h : m.Indexed) (id : LineId) :
    (m.tombstone id).2.Indexed ∧ Since m (m.tombstone id).2 := by
  unfold MemoryInner.tombstone
  split
  · exact ⟨h, .refl m⟩
  next i hi =>
  obtain ⟨l₀, hl₀, hid₀⟩ := getElem?_findIdx hi
  have hids : (m.lines.modify i fun l => { l with signed := none, deleted := true }).map LogLine.id =
      m.lines.map LogLine.id := by
    apply map_modify_eq
    intro l
    rfl
  -- What is left names another line, which is as it was.
  have hlive : ∀ {id' : LineId}, id' ≠ id → m.Live id' →
      ∃ l ∈ m.lines.modify i fun l => { l with signed := none, deleted := true },
        l.id = id' ∧ l.deleted = false := by
    rintro id' hne ⟨l, hl, hid, hd⟩
    refine ⟨l, mem_modify_of_ne hl hl₀ ?_, hid, hd⟩
    rintro rfl
    exact hne (hid.symm.trans hid₀)
  refine ⟨⟨hids ▸ h.rising, ?_, ?_, ?_, ?_, ?_, ?_⟩, .modify rfl rfl fun _ => ⟨rfl, rfl, rfl, rfl, rfl⟩⟩
  · exact h.counted_of_ids hids
  · exact fun e he => (h.guids e he).of_ids hids
  · exact fun e he => (h.ghosts e he).of_ids hids
  · intro e he
    rw [List.mem_filter] at he
    exact hlive (of_decide_eq_true he.2) (h.signed e he.1)
  · intro r hr
    rw [List.mem_filter] at hr
    exact hlive (of_decide_eq_true hr.2) (h.reactions r hr.1)
  · exact h.once.sublist (List.filter_sublist.map _)

theorem Indexed.keeping (h : m.Indexed) {lines : List LogLine} (hs : lines.Sublist m.lines) :
    (m.keeping lines).Indexed := by
  have hheld : ∀ {id : LineId}, (lines.any fun l => l.id = id) = true → (m.keeping lines).Held id := by
    intro id hid
    obtain ⟨l, hl, hid⟩ := List.any_eq_true.mp hid
    exact ⟨l, hl, of_decide_eq_true hid⟩
  have hlive : ∀ {id : LineId}, (lines.any fun l => l.id = id) = true → m.Live id →
      (m.keeping lines).Live id := by
    rintro id hid ⟨l₀, hl₀, rfl, hd⟩
    obtain ⟨l, hl, hid⟩ := hheld hid
    obtain rfl := h.inj (hs.subset hl) hl₀ hid
    exact ⟨l, hl, rfl, hd⟩
  refine ⟨h.rising.sublist (hs.map _), fun l hl => h.counted l (hs.subset hl), ?_, ?_, ?_, ?_,
    h.once.sublist (List.filter_sublist.map _)⟩
  · exact fun e he => hheld (List.mem_filter.mp he).2
  · exact fun e he => hheld (List.mem_filter.mp he).2
  · exact fun e he => hlive (List.mem_filter.mp he).2 (h.signed e (List.mem_filter.mp he).1)
  · exact fun r hr => hlive (List.mem_filter.mp hr).2 (h.reactions r (List.mem_filter.mp hr).1)

theorem Indexed.restoreSigned (h : m.Indexed) (id : LineId) (form : List UInt8) :
    (m.restoreSigned id form).Indexed ∧ Since m (m.restoreSigned id form) := by
  unfold MemoryInner.restoreSigned
  split
  · exact ⟨h, .refl m⟩
  next i hi =>
  have hkeys : (m.lines.modify i fun l => { l with signed := l.signed.map fun _ => form }).map
      (fun l => (l.id, l.deleted)) = m.lines.map fun l => (l.id, l.deleted) := by
    apply map_modify_eq
    intro l
    rfl
  have hids : (m.lines.modify i fun l => { l with signed := l.signed.map fun _ => form }).map
      LogLine.id = m.lines.map LogLine.id := by
    apply map_modify_eq
    intro l
    rfl
  have hlive : ∀ {id' : LineId}, m.Live id' →
      ∃ l ∈ m.lines.modify i fun l => { l with signed := l.signed.map fun _ => form },
        l.id = id' ∧ l.deleted = false := by
    rintro id' ⟨l, hl, hid, hd⟩
    have hmem : (l.id, l.deleted) ∈ m.lines.map fun l => (l.id, l.deleted) :=
      List.mem_map.mpr ⟨l, hl, rfl⟩
    rw [← hkeys] at hmem
    obtain ⟨l', hl', heq⟩ := List.mem_map.mp hmem
    obtain ⟨hid', hd'⟩ := Prod.mk.inj heq
    exact ⟨l', hl', hid'.trans hid, hd'.trans hd⟩
  refine ⟨⟨hids ▸ h.rising, ?_, ?_, ?_, ?_, ?_, h.once⟩,
    .modify rfl rfl fun _ => ⟨rfl, rfl, rfl, rfl, rfl⟩⟩
  · exact h.counted_of_ids hids
  · exact fun e he => (h.guids e he).of_ids hids
  · exact fun e he => (h.ghosts e he).of_ids hids
  · exact fun e he => hlive (h.signed e he)
  · exact fun r hr => hlive (h.reactions r hr)

/-! ## Reactions -/

theorem mem_keysOn {line : LineId} {key : ReactionKey} :
    key ∈ m.keysOn line ↔ ∃ r ∈ m.reactions, r.line = line ∧ r.key = key := by
  simp only [keysOn, List.mem_dedup, List.mem_map, List.mem_filter, decide_eq_true_eq, and_assoc]

/-- Rows that stay where they were leave a line no more keys. -/
theorem keysOn_le {line : LineId}
    (h : ∀ r' ∈ m'.reactions, r'.line = line → ∃ r ∈ m.reactions, r.line = line ∧ r.key = r'.key) :
    (m'.keysOn line).length ≤ (m.keysOn line).length := by
  refine (List.Nodup.subperm (List.nodup_dedup _) fun key hkey => ?_).length_le
  obtain ⟨r', hr', hline', rfl⟩ := mem_keysOn.mp hkey
  obtain ⟨r, hr, hline, hk⟩ := h r' hr' hline'
  exact mem_keysOn.mpr ⟨r, hr, hline, hk⟩

theorem Indexed.fewer (h : m.Indexed) {rows : List ReactionRow} (hs : rows.Sublist m.reactions) :
    ({ m with reactions := rows } : MemoryInner).Indexed :=
  ⟨h.rising, h.counted, h.guids, h.ghosts, h.signed, fun r hr => h.reactions r (hs.subset hr),
    h.once.sublist (hs.map _)⟩

theorem live_of_isOpen {channel : Nat} {line : LineId} (h : m.isOpen channel line = true) :
    m.Live line := by
  obtain ⟨l, hl, hcond⟩ := List.any_eq_true.mp h
  obtain ⟨hid, -, hd⟩ := of_decide_eq_true hcond
  exact ⟨l, hl, hid, by simpa using hd⟩

/-- What one reaction does: nothing; one row more, of an open line, that its account did not hold and
that leaves the line its keys or had room for one; or some rows fewer. -/
theorem reactIn_cases (m : MemoryInner) (act : ReactAct) :
    (m.reactIn act).2 = m ∨
    (m.Live act.line ∧ act.add = true ∧
      (act.line, act.key, reactorKey act.who) ∉ m.reactions.map ReactionRow.slot ∧
      (act.key ∈ m.keysOn act.line ∨ (m.keysOn act.line).length < act.maxKeys) ∧
      (m.reactIn act).2 = { m with
        reactions := m.reactions ++ [⟨act.line, act.key, reactorKey act.who, act.nick, act.at_⟩] }) ∨
    ∃ rows, rows.Sublist m.reactions ∧ (m.reactIn act).2 = { m with reactions := rows } := by
  unfold reactIn
  dsimp only
  split
  · exact .inl rfl
  next hopen =>
  split
  · exact .inl rfl
  next hkeys =>
  split
  · exact .inl rfl
  next hyours =>
  by_cases hadd : act.add = true ∧ ¬ ((m.reactions.filter fun r => r.line = act.line).any fun r =>
      r.key = act.key ∧ r.reactor = reactorKey act.who) = true
  · refine .inr (.inl ⟨live_of_isOpen (by simpa using hopen), hadd.1, ?_, ?_, by rw [if_pos hadd]⟩)
    · rintro hslot
      obtain ⟨r, hr, heq⟩ := List.mem_map.mp hslot
      obtain ⟨hline, heq⟩ := Prod.mk.inj heq
      obtain ⟨hkey, hreactor⟩ := Prod.mk.inj heq
      refine hadd.2 (List.any_eq_true.mpr ⟨r, ?_, decide_eq_true ⟨hkey, hreactor⟩⟩)
      exact List.mem_filter.mpr ⟨hr, decide_eq_true hline⟩
    · by_contra hno
      obtain ⟨hnew, hfull⟩ := not_or.mp hno
      refine hkeys ⟨hadd.1, hadd.2, fun hany => hnew ?_, Nat.le_of_not_lt hfull⟩
      obtain ⟨r, hr, hkey⟩ := List.any_eq_true.mp hany
      obtain ⟨hr, hline⟩ := List.mem_filter.mp hr
      exact mem_keysOn.mpr ⟨r, hr, of_decide_eq_true hline, of_decide_eq_true hkey⟩
  · refine .inr (.inr ?_)
    rw [if_neg hadd]
    dsimp only
    split
    · exact ⟨_, List.filter_sublist, rfl⟩
    · exact ⟨_, List.Sublist.refl _, rfl⟩

theorem Indexed.reactIn (h : m.Indexed) (act : ReactAct) :
    (m.reactIn act).2.Indexed ∧ Since m (m.reactIn act).2 := by
  rcases reactIn_cases m act with heq | ⟨hlive, -, hslot, -, heq⟩ | ⟨rows, hs, heq⟩
  · rw [heq]
    exact ⟨h, .refl m⟩
  · rw [heq]
    refine ⟨⟨h.rising, h.counted, h.guids, h.ghosts, h.signed, ?_, ?_⟩, .of_lines rfl rfl⟩
    · intro r hr
      rcases List.mem_append.mp hr with hr | hr
      · exact h.reactions r hr
      · rw [List.mem_singleton.mp hr]
        exact hlive
    · rw [List.map_append]
      exact h.once.append (List.nodup_singleton _) (List.disjoint_singleton.mpr hslot)
  · rw [heq]
    exact ⟨h.fewer hs, .of_lines rfl rfl⟩

/-- A reaction leaves a line's keys within any bound they were within and the act was made under. -/
theorem keysOn_reactIn {act : ReactAct} {n : Nat} (hact : act.add = true → act.maxKeys ≤ n)
    (h : ∀ line, (m.keysOn line).length ≤ n) (line : LineId) :
    ((m.reactIn act).2.keysOn line).length ≤ n := by
  rcases reactIn_cases m act with heq | ⟨-, hadd, -, hroom, heq⟩ | ⟨rows, hs, heq⟩
  · rw [heq]
    exact h line
  · by_cases hline : act.line = line
    · subst hline
      have hle : ((m.reactIn act).2.keysOn act.line).length ≤ (act.key :: m.keysOn act.line).dedup.length := by
        refine (List.Nodup.subperm (List.nodup_dedup _) fun key hkey => ?_).length_le
        rw [heq] at hkey
        obtain ⟨r, hr, hid, rfl⟩ := mem_keysOn.mp hkey
        rw [List.mem_dedup, List.mem_cons]
        rcases List.mem_append.mp hr with hr | hr
        · exact .inr (mem_keysOn.mpr ⟨r, hr, hid, rfl⟩)
        · exact .inl (by rw [List.mem_singleton.mp hr])
      refine hle.trans ?_
      rcases hroom with hkeyed | hroom
      · rw [List.dedup_cons_of_mem hkeyed, keysOn, List.dedup_idem]
        exact h act.line
      · refine (List.Sublist.length_le (List.dedup_sublist _)).trans ?_
        exact (Nat.succ_le_of_lt hroom).trans (hact hadd)
    · rw [heq]
      refine (keysOn_le fun r hr hid => ?_).trans (h line)
      rcases List.mem_append.mp hr with hr | hr
      · exact ⟨r, hr, hid, rfl⟩
      · rw [List.mem_singleton.mp hr] at hid
        exact absurd hid hline
  · rw [heq]
    exact (keysOn_le fun r' hr' hid => ⟨r', hs.subset hr', hid, rfl⟩).trans (h line)

theorem Indexed.reactAll (h : m.Indexed) (acts : List ReactAct) :
    (m.reactAll acts).2.Indexed ∧ Since m (m.reactAll acts).2 := by
  induction acts generalizing m with
  | nil => exact ⟨h, .refl m⟩
  | cons act acts ih =>
    obtain ⟨hone, hsince⟩ := h.reactIn act
    obtain ⟨hrest, hafter⟩ := ih hone
    exact ⟨hrest, hsince.trans hafter⟩

theorem keysOn_reactAll {acts : List ReactAct} {n : Nat}
    (hacts : ∀ act ∈ acts, act.add = true → act.maxKeys ≤ n)
    (h : ∀ line, (m.keysOn line).length ≤ n) (line : LineId) :
    ((m.reactAll acts).2.keysOn line).length ≤ n := by
  induction acts generalizing m with
  | nil => exact h line
  | cons act acts ih =>
    rw [List.forall_mem_cons] at hacts
    exact ih hacts.2 (keysOn_reactIn hacts.1 h)

/-! ## Rekeys -/

section Rekey
variable {from_ into : Mailbox}

theorem nodup_eraseDups {α : Type*} [DecidableEq α] : ∀ xs : List α, xs.eraseDups.Nodup
  | [] => List.nodup_nil
  | x :: xs => by
    rw [List.eraseDups_cons, List.nodup_cons, List.mem_eraseDups, List.mem_filter]
    exact ⟨fun h => by simp at h, nodup_eraseDups _⟩
termination_by xs => xs.length
decreasing_by exact Nat.lt_succ_of_le (List.length_filter_le _ _)

/-- Whether a row is the first account's of what the second holds already. -/
def twice (m : MemoryInner) (from_ into : Mailbox) (r : ReactionRow) : Bool :=
  r.reactor = reactorKey from_ ∧ (r.line, r.key) ∈
    (m.reactions.filter fun r => r.reactor = reactorKey into).map fun r => (r.line, r.key)

/-- A row as a rekey leaves it. -/
def moved (from_ into : Mailbox) (r : ReactionRow) : ReactionRow :=
  if r.reactor = reactorKey from_ then { r with reactor := reactorKey into } else r

theorem rekeyReactions_eq (m : MemoryInner) (from_ into : Mailbox) :
    m.rekeyReactions from_ into = (((m.reactions.filter (m.twice from_ into)).map ReactionRow.line).eraseDups,
      { m with reactions := (m.reactions.filter fun r => ¬ m.twice from_ into r).map (moved from_ into) }) :=
  rfl

theorem twice_iff {r : ReactionRow} :
    m.twice from_ into r = true ↔ r.reactor = reactorKey from_ ∧
      ∃ r' ∈ m.reactions, r'.slot = (r.line, r.key, reactorKey into) := by
  simp only [twice, ReactionRow.slot, decide_eq_true_eq, List.mem_map, List.mem_filter, Prod.mk.injEq]
  refine and_congr_right fun _ => exists_congr fun r' => ?_
  tauto

theorem mem_rekeyReactions {r' : ReactionRow} :
    r' ∈ (m.rekeyReactions from_ into).2.reactions ↔
      ∃ r ∈ m.reactions, m.twice from_ into r = false ∧ moved from_ into r = r' := by
  simp only [rekeyReactions_eq, List.mem_map, List.mem_filter, decide_eq_true_eq, Bool.not_eq_true,
    and_assoc]

theorem moved_line (r : ReactionRow) : (moved from_ into r).line = r.line := by
  unfold moved
  split <;> rfl

theorem moved_key (r : ReactionRow) : (moved from_ into r).key = r.key := by
  unfold moved
  split <;> rfl

theorem Indexed.rekeyReactions (h : m.Indexed) (from_ into : Mailbox) :
    (m.rekeyReactions from_ into).2.Indexed := by
  refine ⟨h.rising, h.counted, h.guids, h.ghosts, h.signed, fun r' hr' => ?_, ?_⟩
  · obtain ⟨r, hr, -, rfl⟩ := mem_rekeyReactions.mp hr'
    rw [moved_line]
    exact h.reactions r hr
  · rw [rekeyReactions_eq, List.map_map]
    refine List.Nodup.map_on ?_ ((List.Nodup.of_map _ h.once).filter _)
    intro x hx y hy heq
    obtain ⟨hx, hx'⟩ := List.mem_filter.mp hx
    obtain ⟨hy, hy'⟩ := List.mem_filter.mp hy
    rw [decide_eq_true_eq, twice_iff] at hx' hy'
    refine List.inj_on_of_nodup_map h.once hx hy ?_
    -- A row that is moved does not meet one of the second account's: it would be held twice.
    by_cases hxf : x.reactor = reactorKey from_
    · by_cases hyf : y.reactor = reactorKey from_
      · have hslot : x.line = y.line ∧ x.key = y.key := by
          simpa [moved, hxf, hyf, ReactionRow.slot] using heq
        rw [ReactionRow.slot, ReactionRow.slot, hslot.1, hslot.2, hxf, hyf]
      · refine absurd ⟨hxf, y, hy, ?_⟩ hx'
        simpa [moved, hxf, hyf, ReactionRow.slot] using heq.symm
    · by_cases hyf : y.reactor = reactorKey from_
      · refine absurd ⟨hyf, x, hx, ?_⟩ hy'
        simpa [moved, hxf, hyf, ReactionRow.slot] using heq
      · simpa [moved, hxf, hyf] using heq

/-- A count goes down where a row was held twice. -/
theorem count_rekeyReactions {line : LineId} {key : ReactionKey} :
    (m.rekeyReactions from_ into).2.count line key < m.count line key ↔
      ∃ r ∈ m.reactions, m.twice from_ into r = true ∧ r.line = line ∧ r.key = key := by
  have hmoved : (fun r => decide (r.line = line ∧ r.key = key)) ∘ moved from_ into =
      fun r => decide (r.line = line ∧ r.key = key) := by
    funext r
    rw [Function.comp_apply, moved_line, moved_key]
  have hsplit := List.countP_eq_countP_filter_add m.reactions
    (fun r => decide (r.line = line ∧ r.key = key)) (m.twice from_ into)
  rw [count, count, rekeyReactions_eq, List.countP_map, hmoved]
  have hpos : (m.reactions.filter (m.twice from_ into)).countP
      (fun r => decide (r.line = line ∧ r.key = key)) > 0 ↔
      ∃ r ∈ m.reactions, m.twice from_ into r = true ∧ r.line = line ∧ r.key = key := by
    rw [gt_iff_lt, List.countP_pos_iff]
    simp only [List.mem_filter, decide_eq_true_eq, and_assoc]
  rw [← hpos]
  have hno : (fun r => decide ¬ m.twice from_ into r = true) = fun r => !m.twice from_ into r := by
    funext r
    cases m.twice from_ into r <;> rfl
  rw [hno]
  omega

/-- A rekey does what it is for, unless it moves an account's reactions to the account itself: then
each is held already, and is taken. -/
theorem rekeyKeeps_iff (m : MemoryInner) (from_ into : Mailbox) :
    m.RekeyKeeps from_ into ↔
      reactorKey from_ ≠ reactorKey into ∨ ∀ r ∈ m.reactions, r.reactor ≠ reactorKey from_ := by
  constructor
  · intro h
    by_contra hno
    simp only [not_or, not_not, not_forall] at hno
    obtain ⟨hsame, r, hr, hfrom⟩ := hno
    obtain ⟨r', hr', hslot⟩ := h.kept r hr (.inl hfrom)
    obtain ⟨r₀, hr₀, htwice, rfl⟩ := mem_rekeyReactions.mp hr'
    rw [ReactionRow.slot, moved_line, moved_key, Prod.mk.injEq, Prod.mk.injEq] at hslot
    have hfrom₀ : r₀.reactor = reactorKey from_ := by
      by_contra hne
      rw [moved, if_neg hne] at hslot
      exact hne (hslot.2.2.trans hsame.symm)
    have : m.twice from_ into r₀ = true := twice_iff.mpr ⟨hfrom₀, r₀, hr₀, by
      rw [ReactionRow.slot, hfrom₀, hsame]⟩
    rw [this] at htwice
    cases htwice
  · intro h
    refine ⟨fun r hr hheld => ?_, fun r' hr' hfrom => ?_, ?_, fun line => ?_⟩
    · by_cases htwice : m.twice from_ into r = true
      · -- The second account's own row stays.
        obtain ⟨hfrom, r₀, hr₀, hslot⟩ := twice_iff.mp htwice
        have hne := h.resolve_right fun hnone => hnone r hr hfrom
        have hinto : r₀.reactor = reactorKey into := (Prod.mk.inj (Prod.mk.inj hslot).2).2
        have hstays : r₀.reactor ≠ reactorKey from_ := fun he => hne (he.symm.trans hinto)
        refine ⟨r₀, mem_rekeyReactions.mpr ⟨r₀, hr₀, ?_, if_neg hstays⟩, hslot⟩
        rw [← Bool.not_eq_true, twice_iff]
        exact fun hno => hstays hno.1
      · refine ⟨_, mem_rekeyReactions.mpr ⟨r, hr, Bool.not_eq_true _ ▸ htwice, rfl⟩, ?_⟩
        rw [ReactionRow.slot, moved_line, moved_key, moved]
        split
        · rfl
        · next hne => rw [hheld.resolve_left hne]
    · obtain ⟨r, hr, -, rfl⟩ := mem_rekeyReactions.mp hr'
      rw [moved] at hfrom
      split at hfrom
      · exact hfrom.symm
      · contradiction
    · rw [rekeyReactions_eq]
      exact nodup_eraseDups _
    · rw [rekeyReactions_eq, List.mem_eraseDups, List.mem_map]
      simp only [List.mem_filter]
      constructor
      · rintro ⟨r, ⟨hr, htwice⟩, rfl⟩
        exact ⟨r.key, count_rekeyReactions.mpr ⟨r, hr, htwice, rfl, rfl⟩⟩
      · rintro ⟨key, hlt⟩
        obtain ⟨r, hr, htwice, hline, -⟩ := count_rekeyReactions.mp hlt
        exact ⟨r, ⟨hr, htwice⟩, hline⟩

end Rekey

/-! ## Runs -/

theorem Indexed.step (h : m.Indexed) (op : Op) : (m.step op).Indexed ∧ Since m (m.step op) := by
  cases op with
  | appendAll lines => exact h.appendAll lines
  | tombstone id => exact h.tombstone id
  | prune keep now =>
    exact ⟨h.keeping ((newest_sublist _ _).trans List.filter_sublist),
      .keeping ((newest_sublist _ _).trans List.filter_sublist)⟩
  | deleteChannel channel => exact ⟨h.keeping List.filter_sublist, .keeping List.filter_sublist⟩
  | restoreSigned id form => exact h.restoreSigned id form
  | react act => exact h.reactIn act
  | reactAll acts => exact h.reactAll acts
  | clearReactions channel line =>
    simp only [MemoryInner.step, MemoryInner.clearReactions]
    split
    · exact ⟨h, .refl m⟩
    · exact ⟨h.fewer List.filter_sublist, .of_lines rfl rfl⟩
  | forgetReactions who since => exact ⟨h.fewer List.filter_sublist, .of_lines rfl rfl⟩
  | rekeyReactions from_ into => exact ⟨h.rekeyReactions from_ into, .of_lines rfl rfl⟩

theorem indexed_run (h : m.Indexed) (ops : List Op) : (m.run ops).Indexed ∧ Since m (m.run ops) := by
  induction ops generalizing m with
  | nil => exact ⟨h, .refl m⟩
  | cons op ops ih =>
    obtain ⟨hone, hsince⟩ := h.step op
    obtain ⟨hrest, hafter⟩ := ih hone
    exact ⟨hrest, hsince.trans hafter⟩

theorem reactions_appendAll (m : MemoryInner) (lines : List NewLine) :
    (m.appendAll lines).2.reactions = m.reactions := by
  induction lines generalizing m with
  | nil => rfl
  | cons line lines ih =>
    have hone : (m.append line).2.reactions = m.reactions := by
      unfold MemoryInner.append
      dsimp only
      split
      · rfl
      · split <;> rfl
    unfold MemoryInner.appendAll
    split
    · next heq => rw [← hone, heq]
    · next heq =>
      rw [heq] at hone
      exact (ih _).trans hone

theorem keysOn_step {op : Op} {n : Nat} (hacts : ∀ act ∈ op.acts, act.add = true → act.maxKeys ≤ n)
    (h : ∀ line, (m.keysOn line).length ≤ n) (line : LineId) : ((m.step op).keysOn line).length ≤ n := by
  have hfewer : ∀ {rows : List ReactionRow} {m' : MemoryInner}, rows.Sublist m.reactions →
      m'.reactions = rows → (m'.keysOn line).length ≤ n := by
    intro rows m' hs hm
    exact (keysOn_le fun r hr hline => ⟨r, hs.subset (hm ▸ hr), hline, rfl⟩).trans (h line)
  cases op with
  | appendAll lines => exact hfewer (.refl _) (reactions_appendAll m lines)
  | tombstone id =>
    simp only [MemoryInner.step, MemoryInner.tombstone]
    split
    · exact h line
    · exact hfewer List.filter_sublist rfl
  | prune keep now => exact hfewer List.filter_sublist rfl
  | deleteChannel channel => exact hfewer List.filter_sublist rfl
  | restoreSigned id form =>
    simp only [MemoryInner.step, MemoryInner.restoreSigned]
    split
    · exact h line
    · exact hfewer (.refl _) rfl
  | react act => exact keysOn_reactIn (hacts act (List.mem_singleton_self act)) h line
  | reactAll acts => exact keysOn_reactAll hacts h line
  | clearReactions channel id =>
    simp only [MemoryInner.step, MemoryInner.clearReactions]
    split
    · exact h line
    · exact hfewer List.filter_sublist rfl
  | forgetReactions who since => exact hfewer List.filter_sublist rfl
  | rekeyReactions from_ into =>
    refine (keysOn_le fun r' hr' hline => ?_).trans (h line)
    obtain ⟨r, hr, -, rfl⟩ := mem_rekeyReactions.mp hr'
    rw [moved_line] at hline
    exact ⟨r, hr, hline, (moved_key r).symm⟩

theorem keysOn_run {ops : List Op} {n : Nat}
    (hacts : ∀ op ∈ ops, ∀ act ∈ op.acts, act.add = true → act.maxKeys ≤ n)
    (h : ∀ line, (m.keysOn line).length ≤ n) (line : LineId) : ((m.run ops).keysOn line).length ≤ n := by
  induction ops generalizing m with
  | nil => exact h line
  | cons op ops ih =>
    rw [List.forall_mem_cons] at hacts
    exact ih hacts.2 (keysOn_step hacts.1 h)

end MemoryInner

end HxdNg.History
