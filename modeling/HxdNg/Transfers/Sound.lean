import HxdNg.Transfers.Queue

/-!
# What holds of the registry throughout

* `liveFor`, `World.countedFor` : the transfers that hold a place: claimed and not failed, or issued and
  not waiting;
* `Snapshot` : what an entry read earlier still says of the one that stands;
* `Sound` : the registry's invariant; `Fewer`, `Sound.promote` : entries and transfers go, and those
  waiting are promoted; `Sound.enter`, `Sound.spend`, `Sound.piece` : the other changes.
-/

namespace HxdNg.Transfers

open Assoc (Map)

/-- The transfers running whose claims have not failed. -/
def liveFor (running : Map Nat Running) (guards : Map Nat Guard) (dir : Direction)
    (who : Option String) : Nat :=
  running.entries.countP fun kv =>
    kv.2.direction == dir && covers who kv.2.person && guards.get kv.1 != some .failed

def World.countedFor (w : World) (dir : Direction) (who : Option String) : Nat :=
  issuedFor w.state.entries dir who + liveFor w.state.running w.guards dir who

theorem liveFor_le (running : Map Nat Running) (guards : Map Nat Guard) (dir : Direction)
    (who : Option String) : liveFor running guards dir who ≤ runningFor running dir who := by
  refine List.countP_mono_left fun kv _ h => ?_
  rw [Bool.and_eq_true] at h
  exact h.1

section Live
variable {running : Map Nat Running} {guards : Map Nat Guard} {r : Nat} {dir : Direction}
  {who : Option String}

theorem key_ne (hr : running.get r = none) {kv : Nat × Running} (hkv : kv ∈ running.entries) :
    kv.1 ≠ r := by
  rintro rfl
  have := Assoc.lookup_of_mem running.valid hkv
  rw [show Assoc.lookup running.entries kv.1 = none from hr] at this
  cases this

theorem liveFor_set (hr : running.get r = none) (run : Running) (g : Guard) :
    liveFor (running.set r run) (guards.set r g) dir who = liveFor running guards dir who +
      if run.direction = dir ∧ covers who run.person = true ∧ g ≠ .failed then 1 else 0 := by
  have h := Assoc.countP_alter (fun kv : Nat × Running => kv.2.direction == dir &&
    covers who kv.2.person && (guards.set r g).get kv.1 != some .failed) r (fun _ => some run)
    running.entries
  rw [show Assoc.lookup running.entries r = none from hr] at h
  have hsame : running.entries.countP (fun kv => kv.2.direction == dir && covers who kv.2.person &&
      (guards.set r g).get kv.1 != some .failed) = liveFor running guards dir who := by
    refine List.countP_congr fun kv hkv => ?_
    rw [Map.get_set, if_neg (key_ne hr hkv)]
  rw [hsame] at h
  have h' : liveFor (running.set r run) (guards.set r g) dir who = liveFor running guards dir who +
      if (run.direction == dir && covers who run.person &&
        (guards.set r g).get r != some .failed) = true then 1 else 0 := h
  rw [h', Map.get_set, if_pos rfl]
  congr 1
  simp only [Bool.and_eq_true, beq_iff_eq, bne_iff_ne, ne_eq, Option.some.injEq, and_assoc]

theorem liveFor_drop : liveFor (running.drop r) (guards.drop r) dir who ≤
    liveFor running guards dir who := by
  have hle := Assoc.countP_alter (fun kv : Nat × Running => kv.2.direction == dir &&
    covers who kv.2.person && guards.get kv.1 != some .failed) r (fun _ => none) running.entries
  simp only [Assoc.weight, Option.any_none] at hle
  refine le_trans (le_of_eq (List.countP_congr fun kv hkv => ?_))
    (le_trans (Nat.le_add_right _ _) (le_of_eq hle))
  have hne : kv.1 ≠ r := key_ne (by rw [Map.get_drop, if_pos rfl]) hkv
  rw [Map.get_drop, if_neg hne]

/-- Asked to stop, a transfer counts until it does. -/
theorem liveFor_cancel {run : Running} (hr : running.get r = some run) :
    liveFor (running.set r { run with cancel := true }) guards dir who =
      liveFor running guards dir who := by
  have h := Assoc.countP_alter (fun kv : Nat × Running => kv.2.direction == dir &&
    covers who kv.2.person && guards.get kv.1 != some .failed) r
    (fun _ => some { run with cancel := true }) running.entries
  rw [show Assoc.lookup running.entries r = some run from hr] at h
  exact Nat.add_right_cancel h

end Live

/-! ## The invariant -/

/-- What `p` read, of the entry `e` that stands at `r`. -/
def Snapshot (p : Presented) (r : Nat) (e : Entry) : Prop :=
  e.generation = p.entry.generation →
    r = p.preamble.reference ∧ e.transfer = p.entry.transfer ∧ e.person = p.entry.person ∧
      (e.queued.isSome = true → p.entry.queued.isSome = true ∧ e.expires = p.entry.expires)

/-- The presentation a call has read. -/
def Call.presented : Call → Option Presented
  | .read p => some p
  | .judged p _ _ => some p
  | .gathered _ _ => none

def genOf (s : State) (r : Nat) : Nat := ((s.entries.get r).map Entry.generation).getD 0

structure Sound (reg : TransferRegistry) (w : World) : Prop where
  entryZero : w.state.entries.get 0 = none
  runningZero : w.state.running.get 0 = none
  apart : ∀ r, w.state.entries.get r = none ∨ w.state.running.get r = none
  nodup : w.state.queue.Nodup
  queue : ∀ r, r ∈ w.state.queue ↔ ∃ e, w.state.entries.get r = some e ∧ e.queued.isSome = true
  down : ∀ r e, w.state.entries.get r = some e → e.queued.isSome = true →
    direction e.transfer = some .down
  guards : ∀ r, (w.guards.get r).isSome = (w.state.running.get r).isSome
  within : ∀ dir who, reg.transfers.of dir who ≠ 0 → w.countedFor dir who ≤ reg.transfers.of dir who
  settled : ∀ r ∈ w.state.queue, ∀ e, w.state.entries.get r = some e →
    e.mayStart reg w.state.running w.state.entries = false
  placed : (∀ r, w.guards.get r ≠ some .failed) → ∀ i r, w.state.queue[i]? = some r →
    ∃ e, w.state.entries.get r = some e ∧ e.queued = some (min (i + 1) maxPosition)
  heard : Heard w.state.entries w.past.told
  hailed : ∀ r g run, w.guards.get r = some (.transfer g) → w.state.running.get r = some run →
    lastTold w.past.told run.principal r = some 0
  order : (w.state.queue.map fun r => (r, genOf w.state r)).Sublist w.past.arrived
  drawn : ∀ r e, w.state.entries.get r = some e → e.generation ∈ w.past.drawn
  unique : ∀ r r' e e', w.state.entries.get r = some e → w.state.entries.get r' = some e' →
    e.generation = e'.generation → r = r'
  claimedDrawn : ∀ g ∈ w.past.claimed, g ∈ w.past.drawn
  claimedOnce : w.past.claimed.Nodup
  claimedGone : ∀ r e, w.state.entries.get r = some e → e.generation ∉ w.past.claimed
  calls : ∀ c call p, w.calls.get c = some call → call.presented = some p →
    p.entry.generation ∈ w.past.drawn ∧
      ∀ r e, w.state.entries.get r = some e → Snapshot p r e
  judged : ∀ c p now session, w.calls.get c = some (.judged p now session) →
    now < p.entry.expires → session = true → p.fromPeer = true → p.entry.queued = none

theorem Sound.absent {reg : TransferRegistry} {w : World} (h : Sound reg w) {r : Nat}
    (hr : w.state.entries.get r = none) : r ∉ w.state.queue := by
  intro hq
  obtain ⟨e, he, _⟩ := (h.queue r).1 hq
  rw [hr] at he
  cases he

theorem sound_start (reg : TransferRegistry) : Sound reg {} where
  entryZero := rfl
  runningZero := rfl
  apart _ := .inl rfl
  nodup := List.nodup_nil
  queue r := ⟨fun h => absurd h List.not_mem_nil, fun ⟨_, h, _⟩ => by cases h⟩
  down _ _ h := by cases h
  guards _ := rfl
  within _ _ _ := Nat.zero_le _
  settled _ h := absurd h List.not_mem_nil
  placed _ i r h := by cases h
  heard _ _ h := by cases h
  hailed _ _ _ h := by cases h
  order := List.Sublist.slnil
  drawn _ _ h := by cases h
  unique _ _ _ _ h := by cases h
  claimedDrawn _ h := absurd h List.not_mem_nil
  claimedOnce := List.nodup_nil
  claimedGone _ _ h := by cases h
  calls _ _ _ h := by cases h
  judged _ _ _ _ h := by cases h

/-! ## Entries go, and those waiting are promoted -/

/-- The entries of a state, but for some. -/
structure Fewer (s₀ s : State) : Prop where
  entries : ∀ r e, s₀.entries.get r = some e → s.entries.get r = some e
  issued : ∀ dir who, issuedFor s₀.entries dir who ≤ issuedFor s.entries dir who
  queue : s₀.queue = s.queue

section Promote
variable {reg : TransferRegistry} {w : World} {s₀ : State} {gs : Map Nat Guard} {now : Nat}

theorem Sound.promoting (h : Sound reg w) (now : Nat) (hf : Fewer s₀ w.state) :
    Promoting reg s₀.running now s₀.entries s₀.queue (s₀.turns reg now) := by
  refine promoting_promote (hf.queue ▸ h.nodup) fun r hr e he => ?_
  rw [hf.queue] at hr
  obtain ⟨e', he', hq⟩ := (h.queue r).1 hr
  obtain rfl : e' = e := Option.some.inj (he'.symm.trans (hf.entries r e he))
  exact hq

theorem Sound.promoted (h : Sound reg w) (hf : Fewer s₀ w.state) {r : Nat} {e : Entry}
    (he : (s₀.turns reg now).entries.get r = some e) :
    ∃ e₀, w.state.entries.get r = some e₀ ∧
      ((e = e₀ ∧ r ∉ w.state.queue) ∨
        (r ∈ w.state.queue ∧ r ∈ (s₀.turns reg now).waiting ∧ ∃ n, e = e₀.at_ n) ∨
        (r ∈ w.state.queue ∧ r ∉ (s₀.turns reg now).waiting ∧ e = e₀.start reg now)) := by
  have hp := h.promoting now hf
  cases he₀ : s₀.entries.get r with
  | none =>
    rw [hp.missing r he₀] at he
    cases he
  | some e₀ =>
    refine ⟨e₀, hf.entries r e₀ he₀, ?_⟩
    by_cases hr : r ∈ s₀.queue
    · rcases hp.fate r hr e₀ he₀ with ⟨i, hi, hget⟩ | ⟨hout, hget, _⟩
      · exact .inr (.inl ⟨hf.queue ▸ hr, List.mem_of_getElem? hi, _,
          Option.some.inj (he.symm.trans hget)⟩)
      · exact .inr (.inr ⟨hf.queue ▸ hr, hout, Option.some.inj (he.symm.trans hget)⟩)
    · rw [hp.untouched r hr, he₀] at he
      exact .inl ⟨(Option.some.inj he).symm, hf.queue ▸ hr⟩

theorem Sound.promote (h : Sound reg w) (hf : Fewer s₀ w.state)
    (hrun : ∀ r run, s₀.running.get r = some run → w.state.running.get r = some run)
    (hgs : ∀ r, (gs.get r).isSome = (s₀.running.get r).isSome)
    (hsame : ∀ r g, gs.get r = some g → w.guards.get r = some g)
    (hlive : ∀ dir who, liveFor s₀.running gs dir who ≤ liveFor w.state.running w.guards dir who) :
    Sound reg ({ w with guards := gs }.tell (promote reg now s₀)) := by
  have hp := h.promoting now hf
  have hback : ∀ {r e}, (s₀.turns reg now).entries.get r = some e →
      ∃ e₀, w.state.entries.get r = some e₀ ∧ e.generation = e₀.generation ∧
        e.transfer = e₀.transfer ∧ e.person = e₀.person ∧
        (e.queued.isSome = true → e₀.queued.isSome = true ∧ e.expires = e₀.expires) := by
    intro r e he
    obtain ⟨e₀, he₀, ⟨rfl, _⟩ | ⟨hq, _, n, rfl⟩ | ⟨_, _, rfl⟩⟩ := h.promoted hf he
    · exact ⟨e, he₀, rfl, rfl, rfl, fun hq => ⟨hq, rfl⟩⟩
    · obtain ⟨e', he', hq'⟩ := (h.queue r).1 hq
      obtain rfl : e' = e₀ := Option.some.inj (he'.symm.trans he₀)
      exact ⟨e', he₀, rfl, rfl, rfl, fun _ => ⟨hq', rfl⟩⟩
    · exact ⟨e₀, he₀, rfl, rfl, rfl, fun hq => by cases hq⟩
  have hqueue : ∀ r, r ∈ (s₀.turns reg now).waiting ↔
      ∃ e, (s₀.turns reg now).entries.get r = some e ∧ e.queued.isSome = true := by
    intro r
    constructor
    · intro hr
      obtain ⟨e₀, he₀⟩ := hp.present r hr
      rcases hp.fate r (hp.sub.subset hr) e₀ he₀ with ⟨i, hi, hget⟩ | ⟨hout, _⟩
      · exact ⟨_, hget, rfl⟩
      · exact absurd hr hout
    · rintro ⟨e, he, hq⟩
      obtain ⟨e₀, he₀, ⟨rfl, hout⟩ | ⟨_, hin, _⟩ | ⟨_, _, rfl⟩⟩ := h.promoted hf he
      · exact absurd ((h.queue r).2 ⟨e, he₀, hq⟩) hout
      · exact hin
      · cases hq
  exact {
    entryZero := by
      refine hp.missing 0 ?_
      cases he : s₀.entries.get 0 with
      | none => rfl
      | some e => exact absurd (hf.entries 0 e he) (by rw [h.entryZero]; exact fun h => by cases h)
    runningZero := by
      show s₀.running.get 0 = none
      cases hr : s₀.running.get 0 with
      | none => rfl
      | some run => exact absurd (hrun 0 run hr) (by rw [h.runningZero]; exact fun h => by cases h)
    apart := fun r => by
      show (s₀.turns reg now).entries.get r = none ∨ s₀.running.get r = none
      rcases h.apart r with hr | hr
      · refine .inl (hp.missing r ?_)
        cases he : s₀.entries.get r with
        | none => rfl
        | some e => rw [hf.entries r e he] at hr; cases hr
      · refine .inr ?_
        cases hrr : s₀.running.get r with
        | none => rfl
        | some run => rw [hrun r run hrr] at hr; cases hr
    nodup := hp.sub.nodup (hf.queue ▸ h.nodup)
    queue := hqueue
    down := fun r e he hq => by
      obtain ⟨e₀, he₀, _, ht, _, hq₀⟩ := hback he
      rw [ht]
      exact h.down r e₀ he₀ (hq₀ hq).1
    guards := hgs
    within := fun dir who hlimit => by
      refine hp.bound dir who _ hlimit (liveFor_le ..) ?_
      exact le_trans (Nat.add_le_add (hf.issued dir who) (hlive dir who)) (h.within dir who hlimit)
    settled := hp.settled
    placed := fun _ i r hin => by
      have hi : (s₀.turns reg now).waiting[i]? = some r := hin
      obtain ⟨e₀, he₀⟩ := hp.present r (List.mem_of_getElem? hi)
      rcases hp.fate r (hp.sub.subset (List.mem_of_getElem? hi)) e₀ he₀ with ⟨j, hj, hget⟩ | ⟨hout, _⟩
      · have hnodup := hp.sub.nodup (hf.queue ▸ h.nodup)
        obtain ⟨hlt, _⟩ := List.getElem?_eq_some_iff.1 hi
        obtain rfl := (List.getElem?_inj hlt hnodup).1 (hi.trans hj.symm)
        exact ⟨_, hget, rfl⟩
      · exact absurd (List.mem_of_getElem? hi) hout
    heard := by
      have hh : Heard s₀.entries w.past.told := fun r e he => h.heard r e (hf.entries r e he)
      exact hh.promote
    hailed := fun r g run hg hr => by
      refine (lastTold_append_other (fun x hx => ?_) _ _).trans
        (h.hailed r g run (hsame r _ hg) (hrun r run hr))
      rintro rfl
      obtain ⟨e, he⟩ := hp.hailed x (List.mem_reverse.1 hx)
      rcases h.apart x.reference with hn | hn
      · rw [hf.entries _ e he] at hn
        cases hn
      · rw [hrun _ run hr] at hn
        cases hn
    order := by
      have hgen : ∀ r ∈ (s₀.turns reg now).waiting,
          (r, ((((s₀.turns reg now).entries.get r).map Entry.generation).getD 0)) =
            (r, genOf w.state r) := by
        intro r hr
        obtain ⟨e, he, _⟩ := (hqueue r).1 hr
        obtain ⟨e₀, he₀, hg, _⟩ := hback he
        rw [genOf, he, he₀]
        exact congrArg (Prod.mk r) hg
      show ((s₀.turns reg now).waiting.map fun r =>
        (r, (((s₀.turns reg now).entries.get r).map Entry.generation).getD 0)).Sublist w.past.arrived
      rw [List.map_congr_left hgen]
      exact ((hf.queue ▸ hp.sub).map _).trans h.order
    drawn := fun r e he => by
      obtain ⟨e₀, he₀, hg, _⟩ := hback he
      rw [hg]
      exact h.drawn r e₀ he₀
    unique := fun r r' e e' he he' hg => by
      obtain ⟨e₀, he₀, hg₀, _⟩ := hback he
      obtain ⟨e₁, he₁, hg₁, _⟩ := hback he'
      exact h.unique r r' e₀ e₁ he₀ he₁ (by rw [← hg₀, ← hg₁, hg])
    claimedDrawn := h.claimedDrawn
    claimedOnce := h.claimedOnce
    claimedGone := fun r e he => by
      obtain ⟨e₀, he₀, hg, _⟩ := hback he
      rw [hg]
      exact h.claimedGone r e₀ he₀
    calls := fun c call p hc hcall => by
      refine ⟨(h.calls c call p hc hcall).1, fun r e he hg => ?_⟩
      obtain ⟨e₀, he₀, hg₀, ht, hper, hq⟩ := hback he
      obtain ⟨h1, h2, h3, h4⟩ := (h.calls c call p hc hcall).2 r e₀ he₀ (hg₀.symm.trans hg)
      exact ⟨h1, ht.trans h2, hper.trans h3, fun hqe =>
        ⟨(h4 (hq hqe).1).1, (hq hqe).2.trans (h4 (hq hqe).1).2⟩⟩
    judged := h.judged }

end Promote

/-! ## A reference is issued -/

theorem allocate_free {free : Nat → Bool} {draws : List (Option Nat)} {r : Nat}
    (h : allocate free draws = some r) : free r = true := by
  unfold allocate at h
  cases hf : (draws.take 64).find? fun d => d.all free with
  | none => rw [hf] at h; cases h
  | some d =>
    rw [hf] at h
    cases d with
    | none => cases h
    | some r' =>
      obtain rfl := Option.some.inj h
      exact List.find?_some (p := fun d : Option Nat => d.all free) hf

theorem unused_iff {s : State} {r : Nat} :
    s.unused r = true ↔ r ≠ 0 ∧ s.entries.get r = none ∧ s.running.get r = none := by
  simp [State.unused, and_assoc]

/-- Where a transfer would wait, and why it would. -/
theorem place_ok {reg : TransferRegistry} {s : State} {t : PreparedTransfer} {person : String}
    {queued : Option Nat} (h : reg.place s t person = .ok queued) :
    (queued = none ∧ ∀ dir, direction t = some dir →
        mayStart reg.transfers s.entries s.running dir person = true) ∨
      (queued = some (min (s.queue.length + 1) maxPosition) ∧ direction t = some .down ∧
        mayStart reg.transfers s.entries s.running .down person = false) := by
  unfold TransferRegistry.place at h
  cases hdir : direction t with
  | none =>
    rw [hdir] at h
    exact .inl ⟨(Except.ok.inj h).symm, fun _ hd => by cases hd⟩
  | some dir =>
    rw [hdir] at h
    dsimp only at h
    by_cases hmay : mayStart reg.transfers s.entries s.running dir person = true
    · rw [if_pos hmay] at h
      refine .inl ⟨(Except.ok.inj h).symm, fun d hd => ?_⟩
      rw [← Option.some.inj hd]
      exact hmay
    · rw [if_neg hmay] at h
      by_cases hup : dir = .up
      · rw [if_pos hup] at h
        cases h
      · rw [if_neg hup] at h
        have hdown : dir = .down := by
          cases dir with
          | down => rfl
          | up => exact absurd rfl hup
        subst hdown
        split at h
        · cases h
        · exact .inr ⟨(Except.ok.inj h).symm, rfl, Bool.eq_false_iff.2 hmay⟩

section Enter
variable {reg : TransferRegistry} {w : World} {r : Nat} {e : Entry}

/-- An entry made under a reference nobody holds, with a generation never drawn, in its place. -/
theorem Sound.enter (h : Sound reg w) (hr : w.state.unused r = true)
    (hgen : e.generation ∉ w.past.drawn)
    (hplace : reg.place w.state e.transfer e.person = .ok e.queued) :
    Sound reg { w with
      state := w.state.enter r e
      past := { w.past with
        drawn := e.generation :: w.past.drawn
        arrived := if e.queued.getD 0 = 0 then w.past.arrived
          else w.past.arrived ++ [(r, e.generation)]
        told := ⟨e.transfer.principal, r, e.queued.getD 0⟩ :: w.past.told } } := by
  obtain ⟨hzero, hentry, hrunning⟩ := unused_iff.1 hr
  have hout : r ∉ w.state.queue := h.absent hentry
  have hother : ∀ {k}, k ≠ r → (w.state.enter r e).entries.get k = w.state.entries.get k := by
    intro k hk
    show (w.state.entries.set r e).get k = _
    rw [Map.get_set, if_neg hk]
  have hself : (w.state.enter r e).entries.get r = some e := by
    show (w.state.entries.set r e).get r = _
    rw [Map.get_set, if_pos rfl]
  have hcount : ∀ dir who, issuedFor (w.state.entries.set r e) dir who =
      issuedFor w.state.entries dir who + if (e.counts dir && covers who e.person) = true then 1 else 0 :=
    fun _ _ => count_set_new hentry
  have hplaced := place_ok hplace
  have hmem : ∀ {k}, k ∈ (w.state.enter r e).queue ↔
      k ∈ w.state.queue ∨ (k = r ∧ e.queued.isSome = true) := by
    intro k
    show k ∈ (if e.queued.isSome then w.state.queue ++ [r] else w.state.queue) ↔ _
    cases e.queued with
    | none => simp
    | some n => simp
  exact {
    entryZero := (hother (Ne.symm hzero)).trans h.entryZero
    runningZero := h.runningZero
    apart := fun k => by
      by_cases hk : k = r
      · rw [hk]
        exact .inr hrunning
      · rw [hother hk]
        exact h.apart k
    nodup := by
      show (if e.queued.isSome then w.state.queue ++ [r] else w.state.queue).Nodup
      split
      · exact h.nodup.append (List.nodup_singleton r) fun k hk hkr =>
          hout (List.mem_singleton.1 hkr ▸ hk)
      · exact h.nodup
    queue := fun k => by
      rw [hmem]
      by_cases hk : k = r
      · subst hk
        rw [hself]
        constructor
        · rintro (hq | ⟨_, hq⟩)
          · exact absurd hq hout
          · exact ⟨e, rfl, hq⟩
        · rintro ⟨e', he', hq⟩
          rw [Option.some.inj he']
          exact .inr ⟨rfl, hq⟩
      · rw [hother hk, ← h.queue k]
        simp [hk]
    down := fun k e' he' hq => by
      by_cases hk : k = r
      · rw [hk, hself] at he'
        obtain rfl := Option.some.inj he'
        rcases hplaced with ⟨hnone, _⟩ | ⟨_, hdown, _⟩
        · rw [hnone] at hq
          cases hq
        · exact hdown
      · exact h.down k e' (hother hk ▸ he') hq
    guards := h.guards
    within := fun dir who hlimit => by
      have hold := h.within dir who hlimit
      show issuedFor (w.state.entries.set r e) dir who +
        liveFor w.state.running w.guards dir who ≤ _
      rw [hcount]
      split
      next hc =>
        simp only [Entry.counts, Bool.and_eq_true, beq_iff_eq] at hc
        obtain ⟨⟨hnone, hdir⟩, hwho⟩ := hc
        rcases hplaced with ⟨_, hmay⟩ | ⟨hsome, _⟩
        · have hroom := lt_of_mayStart (hmay dir hdir) hwho hlimit
          have := liveFor_le w.state.running w.guards dir who
          unfold used at hroom
          omega
        · rw [hnone] at hsome
          cases hsome
      next => exact hold
    settled := fun k hk e' he' => by
      have hmono : ∀ {e' : Entry}, e'.mayStart reg w.state.running w.state.entries = false →
          e'.mayStart reg w.state.running (w.state.entries.set r e) = false := by
        intro e' hm
        refine mayStart_mono (fun who => Nat.add_le_add_right ?_ _) hm
        rw [hcount]
        exact Nat.le_add_right _ _
      by_cases hkr : k = r
      · rw [hkr, hself] at he'
        obtain rfl := Option.some.inj he'
        rcases hmem.1 hk with hq | ⟨_, hq⟩
        · exact absurd (hkr ▸ hq) hout
        · rcases hplaced with ⟨hnone, _⟩ | ⟨_, hdown, hmay⟩
          · rw [hnone] at hq
            cases hq
          · apply hmono
            show mayStart _ _ _ ((direction e.transfer).getD .down) _ = false
            rw [hdown]
            exact hmay
      · rcases hmem.1 hk with hq | ⟨hkr', _⟩
        · exact hmono (h.settled k hq e' (hother hkr ▸ he'))
        · exact absurd hkr' hkr
    placed := fun hquiet i k hi => by
      have hold : ∀ {j : Nat}, w.state.queue[j]? = some k →
          ∃ e', (w.state.enter r e).entries.get k = some e' ∧
            e'.queued = some (min (j + 1) maxPosition) := by
        intro j hj
        have hk : k ≠ r := fun hkr => hout (hkr ▸ List.mem_of_getElem? hj)
        rw [hother hk]
        exact h.placed hquiet j k hj
      have hi' : (if e.queued.isSome then w.state.queue ++ [r] else w.state.queue)[i]? = some k := hi
      rcases hplaced with ⟨hnone, _⟩ | ⟨hsome, _⟩
      · rw [hnone] at hi'
        exact hold hi'
      · rw [hsome, Option.isSome_some, if_pos rfl] at hi'
        by_cases hlt : i < w.state.queue.length
        · rw [List.getElem?_append_left hlt] at hi'
          exact hold hi'
        · rw [List.getElem?_append_right (Nat.le_of_not_lt hlt)] at hi'
          obtain ⟨hone, hk⟩ := List.getElem?_eq_some_iff.1 hi'
          have hlen : i = w.state.queue.length := by
            rw [List.length_singleton] at hone
            omega
          have hkr : k = r := by rw [← hk]; exact List.getElem_singleton ..
          exact ⟨e, hkr ▸ hself, by rw [hsome, hlen]⟩
    heard := h.heard.set r e
    hailed := fun k g run hg hrun => by
      have hne : r ≠ k := by
        rintro rfl
        have : w.state.running.get r = some run := hrun
        rw [hrunning] at this
        cases this
      rw [lastTold_cons_other hne]
      exact h.hailed k g run hg hrun
    order := by
      have hgens : w.state.queue.map (fun k => (k, genOf (w.state.enter r e) k)) =
          w.state.queue.map fun k => (k, genOf w.state k) := by
        refine List.map_congr_left fun k hk => ?_
        rw [genOf, hother fun hkr => hout (hkr ▸ hk), genOf]
      show ((if e.queued.isSome then w.state.queue ++ [r] else w.state.queue).map fun k =>
        (k, genOf (w.state.enter r e) k)).Sublist (if e.queued.getD 0 = 0 then w.past.arrived
          else w.past.arrived ++ [(r, e.generation)])
      rcases hplaced with ⟨hnone, _⟩ | ⟨hsome, _⟩
      · rw [hnone, Option.getD_none, if_pos rfl]
        show (w.state.queue.map _).Sublist _
        rw [hgens]
        exact h.order
      · have hpos : min (w.state.queue.length + 1) maxPosition ≠ 0 := by
          unfold maxPosition
          omega
        rw [hsome, Option.isSome_some, if_pos rfl, Option.getD_some, if_neg hpos, List.map_append,
          hgens]
        refine h.order.append ?_
        rw [List.map_singleton, genOf, hself]
        exact List.Sublist.refl _
    drawn := fun k e' he' => by
      by_cases hk : k = r
      · rw [hk, hself] at he'
        rw [Option.some.inj he']
        exact List.mem_cons_self
      · exact List.mem_cons_of_mem _ (h.drawn k e' (hother hk ▸ he'))
    unique := fun k k' e₁ e₂ he₁ he₂ hg => by
      by_cases hk : k = r
      · by_cases hk' : k' = r
        · rw [hk, hk']
        · rw [hk, hself] at he₁
          obtain rfl := Option.some.inj he₁
          exact absurd (hg ▸ h.drawn k' e₂ (hother hk' ▸ he₂)) hgen
      · by_cases hk' : k' = r
        · rw [hk', hself] at he₂
          obtain rfl := Option.some.inj he₂
          exact absurd (hg ▸ h.drawn k e₁ (hother hk ▸ he₁)) hgen
        · exact h.unique k k' e₁ e₂ (hother hk ▸ he₁) (hother hk' ▸ he₂) hg
    claimedDrawn := fun g hg => List.mem_cons_of_mem _ (h.claimedDrawn g hg)
    claimedOnce := h.claimedOnce
    claimedGone := fun k e' he' hc => by
      by_cases hk : k = r
      · rw [hk, hself] at he'
        obtain rfl := Option.some.inj he'
        exact hgen (h.claimedDrawn _ hc)
      · exact h.claimedGone k e' (hother hk ▸ he') hc
    calls := fun c call p hc hcall => by
      obtain ⟨hdrawn, hsnap⟩ := h.calls c call p hc hcall
      refine ⟨List.mem_cons_of_mem _ hdrawn, fun k e' he' hg => ?_⟩
      by_cases hk : k = r
      · rw [hk, hself] at he'
        obtain rfl := Option.some.inj he'
        exact absurd (hg ▸ hdrawn) hgen
      · exact hsnap k e' (hother hk ▸ he') hg
    judged := h.judged }

end Enter

/-! ## A reference is spent -/

def spentGuard (claimed : Bool) (generation : Nat) : Guard :=
  if claimed then .transfer generation else .failed

section Spend
variable {reg : TransferRegistry} {w : World} {call judgedAt : Nat} {p : Presented} {session : Bool}
  {e : Entry}

/-- The reference presented is spent, by a claim that holds only if it did not wait. -/
theorem Sound.spend (h : Sound reg w) (hcall : w.calls.get call = some (.judged p judgedAt session))
    (he : w.state.entries.get p.preamble.reference = some e)
    (hgen : e.generation = p.entry.generation) (claimed : Bool)
    (hclaimed : claimed = true → p.entry.queued = none) :
    Sound reg { w with
      calls := w.calls.drop call
      state := w.state.spend p.preamble.reference p.entry
      guards := if (direction p.entry.transfer).isSome then
        w.guards.set p.preamble.reference (spentGuard claimed p.entry.generation) else w.guards
      past := { w.past with
        claimed := if claimed then p.entry.generation :: w.past.claimed else w.past.claimed } } := by
  obtain ⟨_, ht, hperson, hqueued⟩ := (h.calls call _ p hcall rfl).2 _ e he hgen
  set r := p.preamble.reference with hr
  have hrunning : w.state.running.get r = none := by
    rcases h.apart r with hn | hn
    · rw [he] at hn
      cases hn
    · exact hn
  have hsub : ∀ {k e'}, (w.state.spend r p.entry).entries.get k = some e' →
      k ≠ r ∧ w.state.entries.get k = some e' := by
    intro k e' hk
    have hk' : (w.state.entries.drop r).get k = some e' := hk
    rw [Map.get_drop] at hk'
    by_cases hkr : k = r
    · rw [if_pos hkr] at hk'
      cases hk'
    · rw [if_neg hkr] at hk'
      exact ⟨hkr, hk'⟩
  have hkeep : ∀ {k}, k ≠ r → (w.state.spend r p.entry).entries.get k = w.state.entries.get k := by
    intro k hk
    show (w.state.entries.drop r).get k = _
    rw [Map.get_drop, if_neg hk]
  -- A transfer that neither runs nor waits is a banner, which counts against no limit.
  have hbanner : direction p.entry.transfer = none → e.queued = none := by
    intro hnone
    cases hq : e.queued with
    | none => rfl
    | some n =>
      have := h.down r e he (by rw [hq]; rfl)
      rw [ht, hnone] at this
      cases this
  have hcount : ∀ dir who, issuedFor (w.state.entries.drop r) dir who +
      (if (e.counts dir && covers who e.person) = true then 1 else 0) =
        issuedFor w.state.entries dir who := fun _ _ => count_drop he
  have hqueue : ∀ {k}, k ∈ (w.state.spend r p.entry).queue ↔ k ∈ w.state.queue ∧ k ≠ r := by
    intro k
    show k ∈ w.state.queue.filter (· ≠ r) ↔ _
    simp [List.mem_filter]
  have hrun : ∀ k, (w.state.spend r p.entry).running.get k =
      if k = r then (direction p.entry.transfer).map fun dir =>
        ⟨dir, p.entry.transfer.principal, p.entry.person, false⟩
      else w.state.running.get k := by
    intro k
    unfold State.spend
    cases direction p.entry.transfer with
    | none =>
      by_cases hk : k = r
      · rw [if_pos hk, hk]
        exact hrunning
      · rw [if_neg hk]
    | some dir => exact Map.get_set ..
  have hguard : ∀ k, (if (direction p.entry.transfer).isSome then
      w.guards.set r (spentGuard claimed p.entry.generation) else w.guards).get k =
      if k = r then (direction p.entry.transfer).map fun _ => spentGuard claimed p.entry.generation
      else w.guards.get k := by
    intro k
    cases direction p.entry.transfer with
    | none =>
      by_cases hk : k = r
      · rw [if_pos hk, hk]
        have := h.guards r
        rw [hrunning] at this
        exact Option.isNone_iff_eq_none.1 (Option.isSome_eq_false_iff.1 this)
      · rw [if_neg hk]
        rfl
    | some dir => exact Map.get_set ..
  have hlive : ∀ dir who, liveFor (w.state.spend r p.entry).running
      (if (direction p.entry.transfer).isSome then
        w.guards.set r (spentGuard claimed p.entry.generation) else w.guards) dir who =
      liveFor w.state.running w.guards dir who +
        if direction p.entry.transfer = some dir ∧ covers who p.entry.person = true ∧
          claimed = true then 1 else 0 := by
    intro dir who
    unfold State.spend
    cases hdir : direction p.entry.transfer with
    | none =>
      show liveFor w.state.running w.guards dir who = _
      rw [if_neg fun hc => by cases hc.1]
      rfl
    | some d =>
      refine (liveFor_set hrunning _ _).trans ?_
      congr 1
      cases claimed <;> simp [spentGuard]
  have hrunFor : ∀ dir who, runningFor (w.state.spend r p.entry).running dir who =
      runningFor w.state.running dir who +
        if direction p.entry.transfer = some dir ∧ covers who p.entry.person = true then 1 else 0 := by
    intro dir who
    unfold State.spend
    cases hdir : direction p.entry.transfer with
    | none =>
      rw [if_neg fun hc => by cases hc.1]
      rfl
    | some d =>
      refine (count_set_new hrunning).trans ?_
      congr 1
      simp
  have hqnone : claimed = true → e.queued = none := by
    intro hc
    cases hq : e.queued with
    | none => rfl
    | some n =>
      have := (hqueued (by rw [hq]; rfl)).1
      rw [hclaimed hc] at this
      cases this
  exact {
    entryZero := by
      cases hz : (w.state.spend r p.entry).entries.get 0 with
      | none => rfl
      | some e' =>
        have := (hsub hz).2
        rw [h.entryZero] at this
        cases this
    runningZero := by
      have hr0 : r ≠ 0 := by
        intro h0
        rw [h0, h.entryZero] at he
        cases he
      exact (hrun 0).trans ((if_neg (Ne.symm hr0)).trans h.runningZero)
    apart := fun k => by
      show (w.state.spend r p.entry).entries.get k = none ∨ (w.state.spend r p.entry).running.get k = none
      by_cases hk : k = r
      · refine .inl ?_
        cases hz : (w.state.spend r p.entry).entries.get k with
        | none => rfl
        | some e' => exact absurd hk (hsub hz).1
      · rw [hkeep hk, hrun, if_neg hk]
        exact h.apart k
    nodup := h.nodup.filter _
    queue := fun k => by
      rw [hqueue, h.queue k]
      constructor
      · rintro ⟨⟨e', he', hq⟩, hk⟩
        exact ⟨e', (hkeep hk).trans he', hq⟩
      · rintro ⟨e', he', hq⟩
        exact ⟨⟨e', (hsub he').2, hq⟩, (hsub he').1⟩
    down := fun k e' he' => h.down k e' (hsub he').2
    guards := fun k => by
      show (Map.get (if _ then _ else _) k).isSome = ((w.state.spend r p.entry).running.get k).isSome
      rw [hguard, hrun]
      by_cases hk : k = r
      · rw [if_pos hk, if_pos hk, Option.isSome_map, Option.isSome_map]
      · rw [if_neg hk, if_neg hk]
        exact h.guards k
    within := fun dir who hlimit => by
      have hold := h.within dir who hlimit
      have hdrop := hcount dir who
      refine (congrArg (issuedFor (w.state.entries.drop r) dir who + ·) (hlive dir who)).trans_le ?_
      unfold World.countedFor at hold
      by_cases hc : direction p.entry.transfer = some dir ∧ covers who p.entry.person = true ∧
          claimed = true
      · have hcounts : (e.counts dir && covers who e.person) = true := by
          rw [Entry.counts, hqnone hc.2.2, ht, hperson, hc.1, hc.2.1]
          simp
        rw [if_pos hcounts] at hdrop
        rw [if_pos hc]
        omega
      · rw [if_neg hc]
        omega
    settled := fun k hk e' he' => by
      refine mayStart_mono (fun who => ?_) (h.settled k (hqueue.1 hk).1 e' (hsub he').2)
      generalize (direction e'.transfer).getD .down = dir
      have hdrop := hcount dir who
      have hr' := hrunFor dir who
      show used w.state.entries w.state.running dir who ≤
        issuedFor (w.state.entries.drop r) dir who + runningFor _ dir who
      rw [hr']
      unfold used
      split at hdrop
      next hc =>
        have hin : direction p.entry.transfer = some dir ∧ covers who p.entry.person = true := by
          simp only [Entry.counts, Bool.and_eq_true, beq_iff_eq] at hc
          exact ⟨ht ▸ hc.1.2, hperson ▸ hc.2⟩
        rw [if_pos hin]
        omega
      next => omega
    placed := fun hquiet i k hi => by
      have hq : e.queued = none := by
        cases hdir : direction p.entry.transfer with
        | none => exact hbanner hdir
        | some d =>
          refine hqnone ?_
          have := hquiet r
          dsimp only at this
          rw [hguard, if_pos rfl, hdir, Option.map_some] at this
          cases claimed with
          | true => rfl
          | false => exact absurd rfl this
      have hout : r ∉ w.state.queue := by
        intro hin
        obtain ⟨e', he', hq'⟩ := (h.queue r).1 hin
        rw [Option.some.inj (he'.symm.trans he), hq] at hq'
        cases hq'
      have hsame : w.state.queue.filter (· ≠ r) = w.state.queue :=
        List.filter_eq_self.2 fun k hk => decide_eq_true fun hkr => hout (hkr ▸ hk)
      have hi' : (w.state.queue.filter (· ≠ r))[i]? = some k := hi
      rw [hsame] at hi'
      have hold : ∀ k, w.guards.get k ≠ some .failed := by
        intro k hg
        by_cases hk : k = r
        · have := h.guards k
          rw [hg, hk, hrunning] at this
          cases this
        · refine hquiet k ?_
          dsimp only
          rw [hguard, if_neg hk]
          exact hg
      obtain ⟨e', he', hpos⟩ := h.placed hold i k hi'
      have hk : k ≠ r := fun hkr => hout (hkr ▸ List.mem_of_getElem? hi')
      exact ⟨e', (hkeep hk).trans he', hpos⟩
    heard := fun k e' he' => h.heard k e' (hsub he').2
    hailed := fun k g run hg hrun' => by
      have hg' := (hguard k).symm.trans hg
      have hr' := (hrun k).symm.trans hrun'
      by_cases hk : k = r
      · rw [if_pos hk] at hg' hr'
        cases hdir : direction p.entry.transfer with
        | none => rw [hdir] at hg'; cases hg'
        | some d =>
          rw [hdir, Option.map_some] at hg' hr'
          have hc : claimed = true := by
            cases claimed with
            | true => rfl
            | false => cases hg'
          have hheard := h.heard r e he
          rw [hqnone hc, ht] at hheard
          rw [← Option.some.inj hr', hk]
          exact hheard
      · rw [if_neg hk] at hg' hr'
        exact h.hailed k g run hg' hr'
    order := by
      have hgens : (w.state.queue.filter (· ≠ r)).map (fun k =>
          (k, genOf (w.state.spend r p.entry) k)) =
          (w.state.queue.filter (· ≠ r)).map fun k => (k, genOf w.state k) := by
        refine List.map_congr_left fun k hk => ?_
        rw [genOf, hkeep (of_decide_eq_true (List.mem_filter.1 hk).2), genOf]
      show ((w.state.queue.filter (· ≠ r)).map fun k =>
        (k, genOf (w.state.spend r p.entry) k)).Sublist w.past.arrived
      rw [hgens]
      exact (List.filter_sublist.map _).trans h.order
    drawn := fun k e' he' => h.drawn k e' (hsub he').2
    unique := fun k k' e₁ e₂ h₁ h₂ => h.unique k k' e₁ e₂ (hsub h₁).2 (hsub h₂).2
    claimedDrawn := fun g hg => by
      have hg' : g ∈ if claimed then p.entry.generation :: w.past.claimed else w.past.claimed := hg
      split at hg'
      · rcases List.mem_cons.1 hg' with rfl | hg'
        · exact hgen ▸ h.drawn r e he
        · exact h.claimedDrawn g hg'
      · exact h.claimedDrawn g hg'
    claimedOnce := by
      show (if claimed then p.entry.generation :: w.past.claimed else w.past.claimed).Nodup
      split
      · exact List.nodup_cons.2 ⟨hgen ▸ h.claimedGone r e he, h.claimedOnce⟩
      · exact h.claimedOnce
    claimedGone := fun k e' he' hc => by
      have hc' : e'.generation ∈ if claimed then p.entry.generation :: w.past.claimed
        else w.past.claimed := hc
      split at hc'
      · rcases List.mem_cons.1 hc' with heq | hc'
        · exact (hsub he').1 (h.unique k r e' e (hsub he').2 he (heq.trans hgen.symm))
        · exact h.claimedGone k e' (hsub he').2 hc'
      · exact h.claimedGone k e' (hsub he').2 hc'
    calls := fun c call' p' hc hp' => by
      have hc' := Map.get_drop (m := w.calls) call c
      rw [show (w.calls.drop call).get c = some call' from hc] at hc'
      split at hc'
      · cases hc'
      · obtain ⟨hdrawn, hsnap⟩ := h.calls c call' p' hc'.symm hp'
        exact ⟨hdrawn, fun k e' he' => hsnap k e' (hsub he').2⟩
    judged := fun c p' now session' hc => by
      have hc' := Map.get_drop (m := w.calls) call c
      rw [show (w.calls.drop call).get c = some (.judged p' now session') from hc] at hc'
      split at hc'
      · cases hc'
      · exact h.judged c p' now session' hc'.symm }

end Spend

end HxdNg.Transfers
