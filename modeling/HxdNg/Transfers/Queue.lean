import HxdNg.Transfers.World

/-!
# What promotion does to the queue

* `TransferLimits.of`, `issuedFor`, `runningFor` : a limit, and what counts against it, for everyone or
  one person; `mayStart_eq`, `mayStart_mono` : who may start, from these;
* `promoteOne_cases` : what one turn of the loop can do;
* `Promoting` : what holds between two turns; `promoting_promote` : of the whole loop;
* `lastTold`, `heard_promote` : what a session was last told.
-/

namespace HxdNg.Transfers

open Assoc (Map)

/-! ## Counting -/

/-- The limit on a direction, everyone's or a person's. -/
def TransferLimits.of (l : TransferLimits) (dir : Direction) : Option String → Nat
  | none => l.total dir
  | some _ => l.perAccount dir

def covers (who : Option String) (person : String) : Bool := who.all fun p => person == p

def issuedFor (entries : Map Nat Entry) (dir : Direction) (who : Option String) : Nat :=
  count entries fun e => e.counts dir && covers who e.person

def runningFor (running : Map Nat Running) (dir : Direction) (who : Option String) : Nat :=
  count running fun r => r.direction == dir && covers who r.person

def used (entries : Map Nat Entry) (running : Map Nat Running) (dir : Direction)
    (who : Option String) : Nat := issuedFor entries dir who + runningFor running dir who

theorem mayStart_eq (l : TransferLimits) (entries : Map Nat Entry) (running : Map Nat Running)
    (dir : Direction) (person : String) :
    mayStart l entries running dir person =
      (under (l.of dir (some person)) (used entries running dir (some person)) &&
        under (l.of dir none) (used entries running dir none)) := by
  simp [mayStart, inUse, used, issuedFor, runningFor, covers, TransferLimits.of]

theorem under_mono {limit m n : Nat} (hmn : m ≤ n) (h : under limit n = true) :
    under limit m = true := by
  simp only [under, Bool.or_eq_true, beq_iff_eq, decide_eq_true_eq] at h ⊢
  omega

theorem mayStart_mono {l : TransferLimits} {E E' : Map Nat Entry} {R R' : Map Nat Running}
    {dir : Direction} {person : String} (hle : ∀ who, used E R dir who ≤ used E' R' dir who)
    (h : mayStart l E R dir person = false) : mayStart l E' R' dir person = false := by
  rw [Bool.eq_false_iff, mayStart_eq] at h ⊢
  intro h'
  rw [Bool.and_eq_true] at h'
  exact h (by rw [under_mono (hle _) h'.1, under_mono (hle _) h'.2]; rfl)

/-- One that may start leaves room for itself under every limit it falls under. -/
theorem lt_of_mayStart {l : TransferLimits} {E : Map Nat Entry} {R : Map Nat Running}
    {dir : Direction} {person : String} (h : mayStart l E R dir person = true)
    {who : Option String} (hwho : covers who person = true) (hlimit : l.of dir who ≠ 0) :
    used E R dir who < l.of dir who := by
  rw [mayStart_eq, Bool.and_eq_true] at h
  have hunder : under (l.of dir who) (used E R dir who) = true := by
    cases who with
    | none => exact h.2
    | some p =>
      obtain rfl : person = p := by simpa [covers] using hwho
      exact h.1
  simp only [under, Bool.or_eq_true, beq_iff_eq, decide_eq_true_eq] at hunder
  omega

theorem count_set {ν : Type} {m : Map Nat ν} {r : Nat} {v : ν} (v' : ν) (p : ν → Bool)
    (hget : m.get r = some v) :
    count (m.set r v') p + (if p v then 1 else 0) = count m p + if p v' then 1 else 0 := by
  have h := Assoc.countP_alter (fun kv : Nat × ν => p kv.2) r (fun _ => some v') m.entries
  rw [show Assoc.lookup m.entries r = some v from hget] at h
  exact h

theorem count_set_new {ν : Type} {m : Map Nat ν} {r : Nat} {v' : ν} {p : ν → Bool}
    (hget : m.get r = none) : count (m.set r v') p = count m p + if p v' then 1 else 0 := by
  have h := Assoc.countP_alter (fun kv : Nat × ν => p kv.2) r (fun _ => some v') m.entries
  rw [show Assoc.lookup m.entries r = none from hget] at h
  exact h

theorem count_drop {ν : Type} {m : Map Nat ν} {r : Nat} {v : ν} {p : ν → Bool}
    (hget : m.get r = some v) : count (m.drop r) p + (if p v then 1 else 0) = count m p := by
  have h := Assoc.countP_alter (fun kv : Nat × ν => p kv.2) r (fun _ => none) m.entries
  rw [show Assoc.lookup m.entries r = some v from hget] at h
  exact h

theorem count_drop_le {ν : Type} (m : Map Nat ν) (r : Nat) (p : ν → Bool) :
    count (m.drop r) p ≤ count m p := by
  have h := Assoc.countP_alter (fun kv : Nat × ν => p kv.2) r (fun _ => none) m.entries
  simp only [Assoc.weight, Option.any_none] at h
  exact le_trans (Nat.le_add_right _ _) (le_of_eq h)

theorem count_filter_le {ν : Type} (m : Map Nat ν) (q : Nat × ν → Bool) (p : ν → Bool) :
    count (m.filter q) p ≤ count m p :=
  List.filter_sublist.countP_le

/-! ## One turn -/

def Entry.start (reg : TransferRegistry) (now : Nat) (e : Entry) : Entry :=
  { e with queued := none, expires := now + reg.ttl }

def Entry.at_ (e : Entry) (position : Nat) : Entry := { e with queued := some position }

theorem Entry.at_self {e : Entry} {n : Nat} (h : e.queued = some n) : e.at_ n = e := by
  cases e
  cases h
  rfl

section Turn
variable {reg : TransferRegistry} {running : Map Nat Running} {now : Nat}

/-- Whether an entry that waits may start. -/
def Entry.mayStart (reg : TransferRegistry) (running : Map Nat Running) (entries : Map Nat Entry)
    (e : Entry) : Bool :=
  Transfers.mayStart reg.transfers entries running ((direction e.transfer).getD .down) e.person

inductive Turned (reg : TransferRegistry) (running : Map Nat Running) (now : Nat) (t : Turn) (r : Nat) :
    Turn → Prop
  | gone (hget : t.entries.get r = none) : Turned reg running now t r t
  | started {e : Entry} (hget : t.entries.get r = some e)
      (hmay : e.mayStart reg running t.entries = true) :
      Turned reg running now t r
        { t with
          entries := t.entries.set r (e.start reg now)
          told := t.told ++ [⟨e.transfer.principal, r, 0⟩] }
  | moved {e : Entry} (hget : t.entries.get r = some e)
      (hmay : e.mayStart reg running t.entries = false)
      (hnew : e.queued ≠ some (min (t.position + 1) maxPosition)) :
      Turned reg running now t r
        { entries := t.entries.set r (e.at_ (min (t.position + 1) maxPosition))
          waiting := t.waiting ++ [r]
          position := min (t.position + 1) maxPosition
          told := t.told ++ [⟨e.transfer.principal, r, min (t.position + 1) maxPosition⟩] }
  | stayed {e : Entry} (hget : t.entries.get r = some e)
      (hmay : e.mayStart reg running t.entries = false)
      (hsame : e.queued = some (min (t.position + 1) maxPosition)) :
      Turned reg running now t r
        { t with
          waiting := t.waiting ++ [r]
          position := min (t.position + 1) maxPosition }

theorem turned (t : Turn) (r : Nat) : Turned reg running now t r (promoteOne reg running now t r) := by
  unfold promoteOne
  cases hget : t.entries.get r with
  | none => exact .gone hget
  | some e =>
    dsimp only
    by_cases hmay : e.mayStart reg running t.entries = true
    · rw [if_pos (show mayStart .. = true from hmay)]
      exact .started hget hmay
    · rw [if_neg (show ¬ mayStart .. = true from hmay)]
      by_cases hsame : e.queued = some (min (t.position + 1) maxPosition)
      · rw [if_neg (not_not_intro hsame)]
        exact .stayed hget (Bool.eq_false_iff.2 hmay) hsame
      · rw [if_pos hsame]
        exact .moved hget (Bool.eq_false_iff.2 hmay) hsame

@[simp] theorem mayStart_start (E : Map Nat Entry) (e : Entry) :
    (e.start reg now).mayStart reg running E = e.mayStart reg running E := rfl

@[simp] theorem mayStart_at (E : Map Nat Entry) (e : Entry) (n : Nat) :
    (e.at_ n).mayStart reg running E = e.mayStart reg running E := rfl

theorem issuedFor_start {E : Map Nat Entry} {r : Nat} {e : Entry} (hget : E.get r = some e)
    (dir : Direction) (who : Option String) :
    issuedFor E dir who ≤ issuedFor (E.set r (e.start reg now)) dir who := by
  have h := count_set (e.start reg now) (fun e => e.counts dir && covers who e.person) hget
  have hle : (e.counts dir && covers who e.person) = true →
      ((e.start reg now).counts dir && covers who (e.start reg now).person) = true := by
    intro hc
    rw [Bool.and_eq_true] at hc ⊢
    refine ⟨?_, hc.2⟩
    have := hc.1
    simp only [Entry.counts, Bool.and_eq_true] at this ⊢
    exact ⟨rfl, this.2⟩
  show count E _ ≤ count (E.set r _) _
  split at h
  next hc => rw [if_pos (hle hc)] at h; omega
  next => omega

/-- Starting one counts it against the limits it falls under, and no others. -/
theorem issuedFor_start_le (reg : TransferRegistry) (now : Nat) {E : Map Nat Entry} {r : Nat} {e : Entry}
    (hget : E.get r = some e)
    (dir : Direction) (who : Option String) :
    issuedFor (E.set r (e.start reg now)) dir who ≤ issuedFor E dir who +
      if direction e.transfer = some dir ∧ covers who e.person = true then 1 else 0 := by
  have h := count_set (e.start reg now) (fun e => e.counts dir && covers who e.person) hget
  show count (E.set r _) _ ≤ count E _ + _
  by_cases hc : direction e.transfer = some dir ∧ covers who e.person = true
  · rw [if_pos hc]
    split at h <;> split at h <;> omega
  · have hno : ¬ ((e.start reg now).counts dir && covers who (e.start reg now).person) = true := by
      intro hs
      simp only [Entry.counts, Bool.and_eq_true, beq_iff_eq] at hs
      exact hc ⟨hs.1.2, hs.2⟩
    rw [if_neg hno] at h
    omega

theorem issuedFor_at {E : Map Nat Entry} {r : Nat} {e : Entry} (hget : E.get r = some e)
    (hqueued : e.queued.isSome = true) (n : Nat) (dir : Direction) (who : Option String) :
    issuedFor (E.set r (e.at_ n)) dir who = issuedFor E dir who := by
  have h := count_set (e.at_ n) (fun e => e.counts dir && covers who e.person) hget
  obtain ⟨k, hk⟩ := Option.isSome_iff_exists.1 hqueued
  have hno : e.counts dir = false := by simp [Entry.counts, hk]
  have hno' : (e.at_ n).counts dir = false := by simp [Entry.counts, Entry.at_]
  simp only [hno, hno', Bool.false_and, Bool.false_eq_true, if_false, Nat.add_zero] at h
  exact h

/-! ## The whole loop -/

/-- What holds once the loop has been through `done` of the queue, having begun from `E₀`. -/
structure Promoting (reg : TransferRegistry) (running : Map Nat Running) (now : Nat)
    (E₀ : Map Nat Entry) (done : List Nat) (t : Turn) : Prop where
  untouched : ∀ r, r ∉ done → t.entries.get r = E₀.get r
  missing : ∀ r, E₀.get r = none → t.entries.get r = none
  sub : t.waiting.Sublist done
  present : ∀ r ∈ t.waiting, ∃ e, E₀.get r = some e
  position : t.position = min t.waiting.length maxPosition
  fate : ∀ r ∈ done, ∀ e, E₀.get r = some e →
    (∃ i, t.waiting[i]? = some r ∧ t.entries.get r = some (e.at_ (min (i + 1) maxPosition))) ∨
      (r ∉ t.waiting ∧ t.entries.get r = some (e.start reg now) ∧
        ⟨e.transfer.principal, r, 0⟩ ∈ t.told)
  settled : ∀ r ∈ t.waiting, ∀ e, t.entries.get r = some e → e.mayStart reg running t.entries = false
  bound : ∀ dir who c, reg.transfers.of dir who ≠ 0 → c ≤ runningFor running dir who →
    issuedFor E₀ dir who + c ≤ reg.transfers.of dir who →
    issuedFor t.entries dir who + c ≤ reg.transfers.of dir who
  hailed : ∀ x ∈ t.told, ∃ e, E₀.get x.reference = some e

theorem promoting_start (reg : TransferRegistry) (running : Map Nat Running) (now : Nat)
    (E₀ : Map Nat Entry) : Promoting reg running now E₀ [] { entries := E₀ } where
  untouched _ _ := rfl
  missing _ h := h
  sub := List.Sublist.slnil
  present _ h := absurd h List.not_mem_nil
  position := rfl
  fate _ h := absurd h List.not_mem_nil
  settled _ h := absurd h List.not_mem_nil
  bound _ _ _ _ _ h := h
  hailed _ h := absurd h List.not_mem_nil

variable {E₀ : Map Nat Entry} {done : List Nat} {t : Turn} {r : Nat}

theorem Promoting.turn (h : Promoting reg running now E₀ done t) (hnew : r ∉ done)
    (hqueued : ∀ e, E₀.get r = some e → e.queued.isSome = true) :
    Promoting reg running now E₀ (done ++ [r]) (promoteOne reg running now t r) := by
  have hfresh : r ∉ t.waiting := fun hr => hnew (h.sub.subset hr)
  have hbase := h.untouched r hnew
  have hmono : ∀ {e : Entry} {E' : Map Nat Entry},
      (∀ dir who, issuedFor t.entries dir who ≤ issuedFor E' dir who) →
      e.mayStart reg running t.entries = false → e.mayStart reg running E' = false :=
    fun hle => mayStart_mono fun who => Nat.add_le_add_right (hle _ who) _
  have hhail : ∀ {e : Entry}, E₀.get r = some e → ∀ n : Nat,
      ∀ x ∈ t.told ++ [⟨e.transfer.principal, r, n⟩], ∃ e, E₀.get x.reference = some e := by
    intro e he n x hx
    rcases List.mem_append.1 hx with hx | hx
    · exact h.hailed x hx
    · rw [List.mem_singleton.1 hx]
      exact ⟨e, he⟩
  have hturn := @turned reg running now t r
  generalize promoteOne reg running now t r = t' at hturn ⊢
  cases hturn with
  | gone hget =>
    exact {
      untouched := fun k hk => h.untouched k fun hd => hk (List.mem_append_left _ hd)
      missing := h.missing
      sub := h.sub.trans (List.sublist_append_left ..)
      present := h.present
      position := h.position
      fate := fun k hk e he => by
        rcases List.mem_append.1 hk with hk | hk
        · exact h.fate k hk e he
        · obtain rfl := List.mem_singleton.1 hk
          rw [← hbase, hget] at he
          cases he
      settled := h.settled
      bound := h.bound
      hailed := h.hailed }
  | @started e hget hmay =>
    have he₀ : E₀.get r = some e := hbase ▸ hget
    exact {
      untouched := fun k hk => by
        have hne : k ≠ r := fun hkr => hk (hkr ▸ List.mem_append_right _ List.mem_cons_self)
        rw [Map.get_set, if_neg hne]
        exact h.untouched k fun hd => hk (List.mem_append_left _ hd)
      missing := fun k hk => by
        have hne : k ≠ r := fun hkr => by rw [hkr, he₀] at hk; cases hk
        rw [Map.get_set, if_neg hne]
        exact h.missing k hk
      sub := h.sub.trans (List.sublist_append_left ..)
      present := h.present
      position := h.position
      fate := fun k hk e' he' => by
        rcases List.mem_append.1 hk with hk | hk
        · have hne : k ≠ r := fun hkr => hnew (hkr ▸ hk)
          rw [Map.get_set, if_neg hne]
          refine (h.fate k hk e' he').imp id fun hs => ⟨hs.1, hs.2.1, ?_⟩
          exact List.mem_append_left _ hs.2.2
        · obtain rfl := List.mem_singleton.1 hk
          obtain rfl : e = e' := Option.some.inj (he₀.symm.trans he')
          refine .inr ⟨hfresh, by rw [Map.get_set, if_pos rfl], ?_⟩
          exact List.mem_append_right _ List.mem_cons_self
      settled := fun k hk e' he' => by
        have hne : k ≠ r := fun hkr => hfresh (hkr ▸ hk)
        rw [Map.get_set, if_neg hne] at he'
        exact hmono (fun dir who => issuedFor_start hget dir who) (h.settled k hk e' he')
      bound := fun dir who c hlimit hc hle => by
        have hold := h.bound dir who c hlimit hc hle
        have hstart := issuedFor_start_le reg now hget dir who
        by_cases hin : direction e.transfer = some dir ∧ covers who e.person = true
        · rw [if_pos hin] at hstart
          have hroom : used t.entries running dir who < reg.transfers.of dir who := by
            have hstarts := hmay
            rw [Entry.mayStart, hin.1] at hstarts
            exact lt_of_mayStart hstarts hin.2 hlimit
          unfold used at hroom
          exact le_trans (Nat.add_le_add_right hstart c) (by omega)
        · rw [if_neg hin] at hstart
          exact le_trans (Nat.add_le_add_right hstart c) hold
      hailed := hhail he₀ 0 }
  | @moved e hget hmay hnewpos =>
    have he₀ : E₀.get r = some e := hbase ▸ hget
    have hsame := issuedFor_at hget (hqueued e he₀) (min (t.position + 1) maxPosition)
    have hpos : min (t.position + 1) maxPosition = min (t.waiting.length + 1) maxPosition := by
      have := h.position
      omega
    exact {
      untouched := fun k hk => by
        have hne : k ≠ r := fun hkr => hk (hkr ▸ List.mem_append_right _ List.mem_cons_self)
        rw [Map.get_set, if_neg hne]
        exact h.untouched k fun hd => hk (List.mem_append_left _ hd)
      missing := fun k hk => by
        have hne : k ≠ r := fun hkr => by rw [hkr, he₀] at hk; cases hk
        rw [Map.get_set, if_neg hne]
        exact h.missing k hk
      sub := h.sub.append (List.Sublist.refl _)
      present := fun k hk => by
        rcases List.mem_append.1 hk with hk | hk
        · exact h.present k hk
        · exact ⟨e, List.mem_singleton.1 hk ▸ he₀⟩
      position := by rw [hpos, List.length_append]; rfl
      fate := fun k hk e' he' => by
        rcases List.mem_append.1 hk with hk | hk
        · have hne : k ≠ r := fun hkr => hnew (hkr ▸ hk)
          rw [Map.get_set, if_neg hne]
          refine (h.fate k hk e' he').imp ?_ fun hs => ⟨?_, hs.2.1, List.mem_append_left _ hs.2.2⟩
          · rintro ⟨i, hi, hg⟩
            exact ⟨i, by rw [List.getElem?_append_left (List.getElem?_eq_some_iff.1 hi).1]; exact hi, hg⟩
          · intro hin
            rcases List.mem_append.1 hin with hin | hin
            · exact hs.1 hin
            · exact hne (List.mem_singleton.1 hin)
        · obtain rfl := List.mem_singleton.1 hk
          obtain rfl : e = e' := Option.some.inj (he₀.symm.trans he')
          refine .inl ⟨t.waiting.length, by simp, ?_⟩
          rw [Map.get_set, if_pos rfl, hpos]
      settled := fun k hk e' he' => by
        refine hmono (fun dir who => le_of_eq (hsame dir who).symm) ?_
        by_cases hkr : k = r
        · rw [Map.get_set, if_pos hkr] at he'
          obtain rfl := Option.some.inj he'
          exact hmay
        · rw [Map.get_set, if_neg hkr] at he'
          rcases List.mem_append.1 hk with hk | hk
          · exact h.settled k hk e' he'
          · exact absurd (List.mem_singleton.1 hk) hkr
      bound := fun dir who c hlimit hc hle => by
        rw [hsame]
        exact h.bound dir who c hlimit hc hle
      hailed := hhail he₀ _ }
  | @stayed e hget hmay hsamepos =>
    have he₀ : E₀.get r = some e := hbase ▸ hget
    have hpos : min (t.position + 1) maxPosition = min (t.waiting.length + 1) maxPosition := by
      have := h.position
      omega
    exact {
      untouched := fun k hk => h.untouched k fun hd => hk (List.mem_append_left _ hd)
      missing := h.missing
      sub := h.sub.append (List.Sublist.refl _)
      present := fun k hk => by
        rcases List.mem_append.1 hk with hk | hk
        · exact h.present k hk
        · exact ⟨e, List.mem_singleton.1 hk ▸ he₀⟩
      position := by rw [hpos, List.length_append]; rfl
      fate := fun k hk e' he' => by
        rcases List.mem_append.1 hk with hk | hk
        · have hne : k ≠ r := fun hkr => hnew (hkr ▸ hk)
          refine (h.fate k hk e' he').imp ?_ fun hs => ⟨?_, hs.2⟩
          · rintro ⟨i, hi, hg⟩
            exact ⟨i, by rw [List.getElem?_append_left (List.getElem?_eq_some_iff.1 hi).1]; exact hi, hg⟩
          · intro hin
            rcases List.mem_append.1 hin with hin | hin
            · exact hs.1 hin
            · exact hne (List.mem_singleton.1 hin)
        · obtain rfl := List.mem_singleton.1 hk
          obtain rfl : e = e' := Option.some.inj (he₀.symm.trans he')
          refine .inl ⟨t.waiting.length, by simp, ?_⟩
          rw [hget, ← hpos, Entry.at_self hsamepos]
      settled := fun k hk e' he' => by
        rcases List.mem_append.1 hk with hk | hk
        · exact h.settled k hk e' he'
        · obtain rfl := List.mem_singleton.1 hk
          obtain rfl : e = e' := Option.some.inj (hget.symm.trans he')
          exact hmay
      bound := h.bound
      hailed := h.hailed }

theorem promoting_foldl (queue : List Nat) (hnodup : (done ++ queue).Nodup)
    (hqueued : ∀ r ∈ queue, ∀ e, E₀.get r = some e → e.queued.isSome = true)
    (h : Promoting reg running now E₀ done t) :
    Promoting reg running now E₀ (done ++ queue) (queue.foldl (promoteOne reg running now) t) := by
  induction queue generalizing done t with
  | nil =>
    rw [List.append_nil]
    exact h
  | cons r queue ih =>
    have hnew : r ∉ done := fun hr =>
      List.disjoint_of_nodup_append hnodup hr List.mem_cons_self
    rw [List.append_cons] at hnodup ⊢
    exact ih hnodup (fun k hk => hqueued k (List.mem_cons_of_mem _ hk))
      (h.turn hnew (hqueued r List.mem_cons_self))

/-- The loop's end, over a state's own queue. -/
def State.turns (reg : TransferRegistry) (now : Nat) (s : State) : Turn :=
  s.queue.foldl (promoteOne reg s.running now) { entries := s.entries }

theorem promoting_promote {s : State} (hnodup : s.queue.Nodup)
    (hqueued : ∀ r ∈ s.queue, ∀ e, s.entries.get r = some e → e.queued.isSome = true) :
    Promoting reg s.running now s.entries s.queue (s.turns reg now) :=
  @promoting_foldl reg s.running now s.entries [] _ s.queue hnodup hqueued
    (promoting_start reg s.running now s.entries)

end Turn

/-! ## What a session was last told -/

/-- The last position `p` was told for `r`, of what was told, the newest first. -/
def lastTold (told : List Told) (p : FilePrincipal) (r : Nat) : Option Nat :=
  (told.find? fun t => t.principal == p && t.reference == r).map Told.position

theorem lastTold_cons_self (p : FilePrincipal) (r n : Nat) (told : List Told) :
    lastTold (⟨p, r, n⟩ :: told) p r = some n := by
  simp [lastTold]

theorem lastTold_cons_other {x : Told} {r : Nat} (h : x.reference ≠ r) (p : FilePrincipal)
    (told : List Told) : lastTold (x :: told) p r = lastTold told p r := by
  simp [lastTold, h]

theorem lastTold_append_other {new : List Told} {r : Nat} (h : ∀ x ∈ new, x.reference ≠ r)
    (p : FilePrincipal) (told : List Told) : lastTold (new ++ told) p r = lastTold told p r := by
  induction new with
  | nil => rfl
  | cons x new ih =>
    rw [List.cons_append, lastTold_cons_other (h x List.mem_cons_self)]
    exact ih fun y hy => h y (List.mem_cons_of_mem _ hy)

/-- Every session was last told where its entries stand. -/
def Heard (entries : Map Nat Entry) (told : List Told) : Prop :=
  ∀ r e, entries.get r = some e → lastTold told e.transfer.principal r = some (e.queued.getD 0)

section Heard
variable {reg : TransferRegistry} {running : Map Nat Running} {now : Nat} {told : List Told}

theorem Heard.set {entries : Map Nat Entry} (h : Heard entries told) (r : Nat) (e : Entry) :
    Heard (entries.set r e) (⟨e.transfer.principal, r, e.queued.getD 0⟩ :: told) := by
  intro k e' hget
  rw [Map.get_set] at hget
  by_cases hk : k = r
  · rw [if_pos hk] at hget
    obtain rfl := Option.some.inj hget
    rw [hk]
    exact lastTold_cons_self ..
  · rw [if_neg hk] at hget
    rw [lastTold_cons_other (Ne.symm hk)]
    exact h k e' hget

theorem Heard.turn {t : Turn} (h : Heard t.entries (t.told.reverse ++ told)) (r : Nat) :
    Heard (promoteOne reg running now t r).entries
      ((promoteOne reg running now t r).told.reverse ++ told) := by
  have hturn := @turned reg running now t r
  generalize promoteOne reg running now t r = t' at hturn ⊢
  cases hturn with
  | gone hget => exact h
  | started hget hmay =>
    rw [List.reverse_append]
    exact h.set r _
  | moved hget hmay hnew =>
    rw [List.reverse_append]
    exact h.set r _
  | stayed hget hmay hsame => exact h

theorem Heard.promote {s : State} (h : Heard s.entries told) :
    Heard (promote reg now s).1.entries ((promote reg now s).2.reverse ++ told) := by
  show Heard (s.turns reg now).entries ((s.turns reg now).told.reverse ++ told)
  unfold State.turns
  have hstart : Heard (Turn.mk s.entries [] 0 []).entries ((Turn.mk s.entries [] 0 []).told.reverse ++
    told) := h
  generalize Turn.mk s.entries [] 0 [] = t at hstart ⊢
  induction s.queue generalizing t with
  | nil => exact hstart
  | cons r queue ih => exact ih _ (hstart.turn r)

end Heard

end HxdNg.Transfers
