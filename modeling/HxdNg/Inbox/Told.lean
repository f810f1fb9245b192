import HxdNg.Inbox.Window

/-!
# What a sender is told

The events of two runs that differ in their readings, as one account's session hears them of the private
messages that account sent.

* `flatMap_chunks` : cutting a list in chunks, a tail that says nothing adds nothing;
* `hearing`, `toldOf_pmTell` : a change is told as each session hears it;
* `toldOf_react`, `toldOf_forget` : a call tells the sender the same in both runs, while it finds no
  message open that was found ended before;
* `window_tells_nothing` : what holds of whole runs.
-/

namespace HxdNg.Inbox

open Relationships History Assoc

/-! ## Chunks -/

section Chunks
variable {α β γ : Type*} {k : Nat}

theorem chunks_nil (fuel : Nat) : chunks k fuel ([] : List α) = [] := by
  cases fuel <;> rfl

theorem chunks_succ {fuel : Nat} {xs : List α} (h : xs ≠ []) :
    chunks k (fuel + 1) xs = xs.take k :: chunks k fuel (xs.drop k) := by
  rw [chunks, if_neg (by simpa using h)]

theorem chunks_map (f : α → β) (fuel : Nat) (xs : List α) :
    chunks k fuel (xs.map f) = (chunks k fuel xs).map (·.map f) := by
  induction fuel generalizing xs with
  | zero => rfl
  | succ fuel ih =>
    by_cases hxs : xs = []
    · rw [hxs, List.map_nil, chunks_nil, chunks_nil, List.map_nil]
    · rw [chunks_succ hxs, chunks_succ (by simpa using hxs), List.map_cons, ← List.map_take, ← List.map_drop, ih]

theorem mem_of_mem_chunks {fuel : Nat} {xs c : List α} {x : α} (hc : c ∈ chunks k fuel xs) (hx : x ∈ c) :
    x ∈ xs := by
  induction fuel generalizing xs with
  | zero => cases hc
  | succ fuel ih =>
    by_cases hxs : xs = []
    · rw [hxs, chunks_nil] at hc
      cases hc
    · rw [chunks_succ hxs] at hc
      rcases List.mem_cons.mp hc with rfl | hc
      · exact List.mem_of_mem_take hx
      · exact List.mem_of_mem_drop (ih hc)

/-- A tail that says nothing adds nothing, whatever chunk it ends in. -/
theorem flatMap_chunks {F : List α → List γ} {quiet : α → Prop} (hk : 0 < k) (hnil : F [] = [])
    (hF : ∀ xs ys, (∀ y ∈ ys, quiet y) → F (xs ++ ys) = F xs) {xs ys : List α} (hq : ∀ y ∈ ys, quiet y)
    {fuel fuel' : Nat} (hfuel : xs.length ≤ fuel) (hfuel' : xs.length ≤ fuel') :
    (chunks k fuel (xs ++ ys)).flatMap F = (chunks k fuel' xs).flatMap F := by
  induction fuel generalizing xs ys fuel' with
  | zero =>
    rw [List.eq_nil_of_length_eq_zero (Nat.le_zero.mp hfuel), chunks_nil]
    rfl
  | succ fuel ih =>
    by_cases hxs : xs = []
    · subst hxs
      rw [chunks_nil, List.nil_append, List.flatMap_nil, List.flatMap_eq_nil_iff]
      intro c hc
      exact (hF [] c fun y hy => hq y (mem_of_mem_chunks hc hy)).trans hnil
    · have hpos : 0 < xs.length := List.length_pos_iff.mpr hxs
      obtain ⟨fuel', rfl⟩ : ∃ f, fuel' = f + 1 := ⟨fuel' - 1, by omega⟩
      rw [chunks_succ hxs, chunks_succ (by simp [hxs]), List.flatMap_cons, List.flatMap_cons,
        List.take_append, List.drop_append, hF _ _ fun y hy => hq y (List.mem_of_mem_take hy)]
      congr 1
      refine ih (fun y hy => hq y (List.mem_of_mem_drop hy)) ?_ ?_
      · rw [List.length_drop]
        omega
      · rw [List.length_drop]
        omega

end Chunks

/-! ## What a session hears -/

section Hearing
variable {uid : Nat} {mine : MessageRef → Bool} {who : Mailbox} {openSince : SystemTime}

/-- One message of `mine` as a session of `who` hears it. -/
def hearing (mine : MessageRef → Bool) (who : Mailbox) (openSince : SystemTime) (m : MessageState)
    (s : UserSession) : Option Summary :=
  if s.mailbox = who ∧ mine m.reference ∧ pmHears s m openSince then
    some (m.summary (Inner.reactorKey who)) else none

/-- The events of one change to the sessions `uid` names, from what each hears. -/
def heard (roster : List UserSession) (uid : Nat) (except : Option Nat)
    (states : List (UserSession → Option Summary)) : List (List Summary) :=
  ((roster.filter fun s => except ≠ some s.uid ∧ s.uid = uid).map fun s => states.filterMap (· s)).filter
    (· ≠ [])

theorem toldOf_append (e₁ e₂ : List ReactionsChanged) :
    toldOf uid mine (e₁ ++ e₂) = toldOf uid mine e₁ ++ toldOf uid mine e₂ := by
  simp only [toldOf, List.filter_append, List.map_append]

theorem toldOf_flatMap {α : Type*} (f : α → List ReactionsChanged) (xs : List α) :
    toldOf uid mine (xs.flatMap f) = xs.flatMap fun x => toldOf uid mine (f x) := by
  induction xs with
  | nil => rfl
  | cons x xs ih => rw [List.flatMap_cons, List.flatMap_cons, toldOf_append, ih]

/-- The changes a session of `who` hears, and which of them are of `mine`. -/
theorem filter_summaries (mine : MessageRef → Bool) (openSince : SystemTime) {s : UserSession} (hs : s.mailbox = who) (states : List MessageState) :
    ((states.filter fun m => pmHears s m openSince).map fun m =>
        m.summary (Inner.reactorKey s.mailbox)).filter (fun c => mine c.target) =
      (states.map (hearing mine who openSince)).filterMap (· s) := by
  induction states with
  | nil => rfl
  | cons m states ih =>
    rw [List.map_cons, List.filterMap_cons, ← ih, List.filter_cons]
    cases hhears : pmHears s m openSince <;> cases hmine : mine m.reference <;>
      simp [hearing, hs, hhears, hmine, MessageState.summary]

theorem toldOf_singleton (e : ReactionsChanged) :
    toldOf uid mine [e] = if e.uid = uid ∧ e.changes.filter (fun c => mine c.target) ≠ [] then
      [e.changes.filter fun c => mine c.target] else [] := by
  unfold toldOf
  by_cases huid : e.uid = uid
  · rw [List.filter_cons, if_pos (by simpa using huid), List.filter_nil, List.map_singleton, List.filter_cons,
      List.filter_nil]
    exact if_congr (by simp [huid]) rfl rfl
  · rw [List.filter_cons, if_neg (by simpa using huid), if_neg fun h => huid h.1]
    rfl

/-- The event of a change to one session. -/
def pmTellOne (states : List MessageState) (openSince : SystemTime) (except : Option Nat)
    (s : UserSession) : List ReactionsChanged :=
  if except = some s.uid ∨ (states.filter fun m => pmHears s m openSince) = [] then []
  else [⟨s.uid, (states.filter fun m => pmHears s m openSince).map fun m =>
    m.summary (Inner.reactorKey s.mailbox)⟩]

theorem pmTell_cons (s : UserSession) (roster : List UserSession) (states : List MessageState)
    (except : Option Nat) : pmTell (s :: roster) states openSince except =
      pmTellOne states openSince except s ++ pmTell roster states openSince except := by
  unfold pmTell pmTellOne
  by_cases hexcept : except = some s.uid
  · rw [List.filter_cons, if_neg (by simpa using hexcept), if_pos (.inl hexcept), List.nil_append]
  · rw [List.filter_cons, if_pos (by simpa using hexcept), List.filterMap_cons]
    generalize states.filter (fun m => pmHears s m openSince) = told
    cases told with
    | nil =>
      have hquiet : except = some s.uid ∨ ([] : List MessageState) = [] := .inr rfl
      rw [if_pos hquiet]
      rfl
    | cons m told =>
      have htold : ¬ (except = some s.uid ∨ m :: told = []) := by simp [hexcept]
      rw [if_neg htold]
      rfl

theorem heard_cons (s : UserSession) (roster : List UserSession) (except : Option Nat)
    (states : List (UserSession → Option Summary)) : heard (s :: roster) uid except states =
      (if (except ≠ some s.uid ∧ s.uid = uid) ∧ states.filterMap (· s) ≠ [] then [states.filterMap (· s)]
        else []) ++ heard roster uid except states := by
  unfold heard
  by_cases htold : except ≠ some s.uid ∧ s.uid = uid
  · rw [List.filter_cons, if_pos (by simpa using htold), List.map_cons, List.filter_cons]
    by_cases hempty : states.filterMap (· s) = []
    · rw [if_neg (by simpa using hempty), if_neg fun h => h.2 hempty, List.nil_append]
    · rw [if_pos (by simpa using hempty), if_pos ⟨htold, hempty⟩]
      rfl
  · rw [List.filter_cons, if_neg (by simpa using htold), if_neg fun h => htold h.1, List.nil_append]

theorem toldOf_pmTell {roster : List UserSession} (hroster : ∀ s ∈ roster, s.uid = uid → s.mailbox = who)
    (states : List MessageState) (except : Option Nat) :
    toldOf uid mine (pmTell roster states openSince except) =
      heard roster uid except (states.map (hearing mine who openSince)) := by
  induction roster with
  | nil => rfl
  | cons s roster ih =>
    rw [pmTell_cons, heard_cons, toldOf_append, ih fun x hx => hroster x (List.mem_cons_of_mem _ hx)]
    congr 1
    unfold pmTellOne
    by_cases hexcept : except = some s.uid
    · rw [if_pos (.inl hexcept), if_neg fun h => h.1.1 hexcept]
      rfl
    by_cases huid : s.uid = uid
    · have hsum := filter_summaries mine openSince
        (hroster s List.mem_cons_self huid) states
      rw [← hsum]
      split
      · next hno =>
        rw [hno.resolve_left hexcept]
        simp [toldOf]
      · rw [toldOf_singleton]
        exact if_congr (and_congr_left' ⟨fun h => ⟨hexcept, h⟩, And.right⟩) rfl rfl
    · have hother : ¬ ((except ≠ some s.uid ∧ s.uid = uid) ∧
          (states.map (hearing mine who openSince)).filterMap (· s) ≠ []) := fun h => huid h.1.2
      rw [if_neg hother]
      split
      · rfl
      · rw [toldOf_singleton, if_neg fun h => huid h.1]

end Hearing

section Runs
variable {policy : ReactionPolicy} {unread read : Duration} {calls : List Call} {s s₁ s₂ : Inner}
  {r : MessageRef} {op : Call} {uid : Nat} {mine : MessageRef → Bool} {who : Mailbox}
  {openSince : SystemTime}

/-- A message's state without what a reading changes. -/
def MessageState.core (m : MessageState) : MessageState := { m with delivered := true, row := true }

/-- One who is not the recipient hears as the sender does. -/
theorem pmHears_of_not_recipient {m : MessageState} {s : UserSession} (h : is m.recipient s.mailbox = false) :
    pmHears s m openSince = (pmReader s &&
      (openSince ≤ m.sentAt && m.sender.any fun p => p.matches s.login s.identity)) := by
  have hcomm : m.recipient.matches s.login s.identity = is m.recipient s.mailbox := by
    have hflip : m.recipient.matches s.login s.identity = is s.mailbox m.recipient := rfl
    rw [hflip, Bool.eq_iff_iff, is_iff, is_iff]
    exact eq_comm
  unfold pmHears
  dsimp only
  rw [if_neg (by rw [hcomm, h]; exact Bool.false_ne_true)]

/-- A sender hears of its own message by neither the row nor the mark that it was handed over. -/
theorem hearing_core {m : MessageState} (h : mine m.reference = true → is m.recipient who = false) :
    hearing mine who openSince m.core = hearing mine who openSince m := by
  funext s
  refine if_congr (and_congr_right fun hs => and_congr_right fun hmine => ?_) rfl rfl
  have hother : is m.recipient s.mailbox = false := hs ▸ h hmine
  rw [pmHears_of_not_recipient hother, pmHears_of_not_recipient (m := m.core) hother]
  rfl

/-- Past the window it hears nothing of it. -/
theorem hearing_closed {m : MessageState} (h : mine m.reference = true → is m.recipient who = false)
    (hclosed : m.sentAt < openSince) (s : UserSession) : hearing mine who openSince m s = none := by
  refine if_neg fun ⟨hs, hmine, hhears⟩ => ?_
  rw [pmHears_of_not_recipient (hs ▸ h hmine), decide_eq_false (not_le.mpr hclosed), Bool.false_and,
    Bool.and_false] at hhears
  cases hhears

theorem heard_quiet {roster : List UserSession} {except : Option Nat}
    {xs ys : List (UserSession → Option Summary)} (h : ∀ y ∈ ys, ∀ s, y s = none) :
    heard roster uid except (xs ++ ys) = heard roster uid except xs := by
  have hnone : ∀ s, ys.filterMap (· s) = [] := fun s => List.filterMap_eq_nil_iff.mpr fun y hy => h y hy s
  simp only [heard, List.filterMap_append, hnone, List.append_nil]

theorem state_eq (s : Inner) (r : MessageRef) : (s.state r).map MessageState.core =
    (s.kept r).map fun t => ⟨r, t.recipient, t.sender, t.sentAt, true, true,
      (shownOf (s.rows r) none).keys,
      (s.rows r).filterMap fun x => (ReactionKey.unpack x.1).map (x.2, ·)⟩ := by
  obtain ⟨delivered, heq⟩ := parties_eq (s := s) (r := r)
  simp only [Inner.state, heq]
  cases s.kept r <;> rfl

theorem state_congr (hkept : s₁.kept r = s₂.kept r) (hon : s₁.on r = s₂.on r) :
    (s₁.state r).map MessageState.core = (s₂.state r).map MessageState.core := by
  have hrows : s₁.rows r = s₂.rows r := by rw [Inner.rows, Inner.rows, hon]
  rw [state_eq, state_eq, hkept, hrows]

theorem state_eq_some {st : MessageState} (h : s.state r = some st) : st.reference = r ∧
    ∃ t, s.kept r = some t ∧ t.recipient = st.recipient ∧ t.sentAt = st.sentAt := by
  have hcore := state_eq s r
  rw [h] at hcore
  cases hk : s.kept r with
  | none =>
    rw [hk] at hcore
    cases hcore
  | some t =>
    rw [hk] at hcore
    have hcore := Option.some.inj hcore
    simp only [MessageState.core, MessageState.mk.injEq] at hcore
    exact ⟨hcore.1, t, rfl, hcore.2.1.symm, hcore.2.2.2.1.symm⟩

/-- The messages of `mine` were sent to others than `who`. -/
def ToOthers (calls : List Call) (mine : MessageRef → Bool) (who : Mailbox) : Prop :=
  ∀ op ∈ calls, ∀ r m, op.pushes = some (r, m) → mine r = true → is m.recipient who = false

/-! ## A reaction -/

/-- The message a reaction tells of, as it then stands. -/
def reactTold (policy : ReactionPolicy) (unread : Duration) (s : Inner) (roster : List UserSession)
    (a : PmReaction) : Option MessageState :=
  (a.comes policy unread s roster).bind fun act => (s.reacted act).state a.reference

theorem react_told (s : Inner) (roster : List UserSession) (a : PmReaction) :
    (perform policy unread read s (.react roster a)).1 =
      pmTell roster (reactTold policy unread s roster a).toList (pmOpenSince a.now unread) (some a.uid) := by
  have hnil : pmTell roster [] (pmOpenSince a.now unread) (some a.uid) = [] :=
    List.filterMap_eq_nil_iff.mpr fun _ _ => rfl
  rw [react_eq, reactTold]
  cases a.comes policy unread s roster with
  | none => exact hnil.symm
  | some act =>
    rw [Option.elim_some, Option.bind_some]
    cases (s.reacted act).state a.reference with
    | none => exact hnil.symm
    | some st => rfl

theorem not_shut_of_found {p : Call} {m : NewMessage}
    (hnodup : ((calls.filterMap Call.pushes).map Prod.fst).Nodup) (hp : p ∈ calls)
    (hpush : p.pushes = some (r, m)) (hopen : op.FindsOpen unread m.sentAt)
    (hended : ¬ op.FindsEnded unread m.sentAt) (hno : ¬ Reopened unread (calls ++ [op])) :
    ¬ Shut unread (calls ++ [op]) r := by
  rintro ⟨p', a, m', hsub, hp', ha⟩
  rcases (sublist_concat : ([p'] ++ [a]).Sublist (calls ++ [op]) ↔ _).mp hsub with hearlier | ⟨hlast, rfl⟩
  · exact not_shut_of_open hnodup hp hpush hopen hno ⟨p', a, m', hearlier, hp', ha⟩
  · rw [pushes_unique hnodup hp (List.singleton_sublist.mp hlast) hpush hp'] at hended
    exact hended ha

theorem toldOf_react (h : Alike unread calls s₁ s₂) (h₁ : Sound unread calls s₁)
    (h₂ : Sound unread calls s₂) (hnodup : ((calls.filterMap Call.pushes).map Prod.fst).Nodup)
    (hmine : ToOthers calls mine who) {roster : List UserSession} {a : PmReaction}
    (hroster : ∀ s ∈ roster, s.uid = uid → s.mailbox = who)
    (hno : ¬ Reopened unread (calls ++ [.react roster a])) :
    toldOf uid mine (perform policy unread read s₁ (.react roster a)).1 =
      toldOf uid mine (perform policy unread read s₂ (.react roster a)).1 := by
  rw [react_told, react_told, toldOf_pmTell hroster, toldOf_pmTell hroster]
  have hfrom : ∀ {s st}, Sound unread calls s → st ∈ reactTold policy unread s roster a →
      (mine st.reference = true → is st.recipient who = false) ∧
        ∃ p ∈ calls, ∃ m, p.pushes = some (a.reference, m) ∧ m.sentAt = st.sentAt := by
    intro s st hs hst
    obtain ⟨act, -, hst⟩ := Option.bind_eq_some_iff.mp hst
    obtain ⟨href, t, hk, hrecip, hsent⟩ := state_eq_some hst
    obtain ⟨p, hp, m, hm, hmrecip, -, hmsent, -⟩ := hs.pushed t _ hk
    refine ⟨fun hr => ?_, p, hp, m, hm, hmsent.trans hsent⟩
    rw [← hrecip, ← hmrecip]
    exact hmine p hp a.reference m hm (href ▸ hr)
  by_cases hopen : ∃ p ∈ calls, ∃ m, p.pushes = some (a.reference, m) ∧ pmOpenSince a.now unread ≤ m.sentAt
  · obtain ⟨p, hp, m, hm, hle⟩ := hopen
    have hfinds : (Call.react roster a).FindsOpen unread m.sentAt := hle
    have hshut := not_shut_of_found hnodup hp hm hfinds (not_lt.mpr hle) hno
    have hcomes : a.comes policy unread s₁ roster = a.comes policy unread s₂ roster := h.comes h₂ hshut
    have hbefore : ¬ Shut unread calls a.reference := fun hs => hshut (hs.mono _)
    have hcore : (reactTold policy unread s₁ roster a).map MessageState.core =
        (reactTold policy unread s₂ roster a).map MessageState.core := by
      unfold reactTold
      rw [hcomes]
      cases a.comes policy unread s₂ roster with
      | none => rfl
      | some act =>
        refine state_congr (h.kept _ fun he => hbefore he.shut) ?_
        have hafter : (s₁.afterAct (some act)).on a.reference = (s₂.afterAct (some act)).on a.reference :=
          on_afterAct_congr (h.on _ hbefore)
        exact hafter
    have hhear : ∀ {s : Inner}, Sound unread calls s →
        (reactTold policy unread s roster a).toList.map (hearing mine who (pmOpenSince a.now unread)) =
          ((reactTold policy unread s roster a).map MessageState.core).toList.map
            (hearing mine who (pmOpenSince a.now unread)) := by
      intro s hs
      cases hst : reactTold policy unread s roster a with
      | none => rfl
      | some st => exact congrArg (fun x => [x]) (hearing_core (hfrom hs hst).1).symm
    rw [hhear h₁, hhear h₂, hcore]
  · have hquiet : ∀ {s : Inner}, Sound unread calls s →
        heard roster uid (some a.uid) ((reactTold policy unread s roster a).toList.map
          (hearing mine who (pmOpenSince a.now unread))) = heard roster uid (some a.uid) [] := by
      intro s hs
      refine (heard_quiet fun y hy x => ?_ : heard roster uid _ ([] ++ _) = _)
      obtain ⟨st, hst, rfl⟩ := List.mem_map.mp hy
      obtain ⟨hmine, p, hp, m, hm, hsent⟩ := hfrom hs (Option.mem_toList.mp hst)
      refine hearing_closed hmine (not_le.mp fun hle => hopen ⟨p, hp, m, hm, ?_⟩) x
      rw [hsent]
      exact hle
    rw [hquiet h₁, hquiet h₂]

/-! ## A purge -/

/-- What an announcement of `refs` tells from. -/
def announced (s : Inner) (refs : List MessageRef) : List MessageState :=
  newestFirst ((sortBy (·.val) refs).dedup.filterMap s.state)

theorem mem_announced {refs : List MessageRef} {st : MessageState} :
    st ∈ announced s refs ↔ ∃ r ∈ refs, s.state r = some st := by
  simp [announced, newestFirst, List.mem_filterMap]

theorem reference_of_state {st : MessageState} (h : s.state r = some st) : st.reference = r :=
  (state_eq_some h).1

def newestKey (m : MessageState) : OrderDual (Lex (SystemTime × List UInt8)) :=
  OrderDual.toDual (toLex (m.sentAt, m.reference.val))

theorem announced_strict (s : Inner) (refs : List MessageRef) :
    (announced s refs).Pairwise fun a b => newestKey a < newestKey b := by
  refine pairwise_lt_sortBy ?_
  have hrefs : (((sortBy (·.val) refs).dedup.filterMap s.state).map (·.reference)).Nodup := by
    have hsub : (((sortBy (·.val) refs).dedup.filterMap s.state).map (·.reference)).Sublist
        (sortBy (·.val) refs).dedup := by
      generalize (sortBy (fun r : MessageRef => r.val) refs).dedup = l
      induction l with
      | nil => exact List.Sublist.slnil
      | cons r l ih =>
        cases hr : s.state r with
        | none =>
          rw [List.filterMap_cons_none hr]
          exact ih.cons r
        | some st =>
          rw [List.filterMap_cons_some hr, List.map_cons, reference_of_state hr]
          exact ih.cons_cons r
    exact (List.nodup_dedup _).sublist hsub
  refine List.Nodup.of_map (fun k => (ofLex (OrderDual.ofDual k)).2) ?_
  rw [List.map_map]
  have hval := hrefs.map Subtype.val_injective
  rw [List.map_map] at hval
  exact hval

/-- A list in which what passes comes first is what passes and then the rest. -/
theorem filter_append_of_pairwise {α : Type*} {p : α → Bool} {l : List α}
    (h : l.Pairwise fun a b => p b = true → p a = true) :
    l.filter p ++ l.filter (fun x => !p x) = l := by
  induction l with
  | nil => rfl
  | cons x l ih =>
    obtain ⟨hx, hl⟩ := List.pairwise_cons.mp h
    cases hp : p x with
    | true => rw [List.filter_cons_of_pos hp, List.filter_cons_of_neg (by simp [hp]), List.cons_append, ih hl]
    | false =>
      have hnone : l.filter p = [] :=
        List.filter_eq_nil_iff.mpr fun y hy hpy => Bool.false_ne_true (hp.symm.trans (hx y hy hpy))
      have hrest : l.filter (fun x => !p x) = l := by
        simpa [hnone] using ih hl
      rw [List.filter_cons_of_neg (by simp [hp]), List.filter_cons_of_pos (by simp [hp]), hnone, hrest]
      rfl

theorem announced_eq (s : Inner) (refs : List MessageRef) (openSince : SystemTime) :
    announced s refs = (announced s refs).filter (fun m => openSince ≤ m.sentAt) ++
      (announced s refs).filter fun m => !decide (openSince ≤ m.sentAt) := by
  refine (filter_append_of_pairwise ((announced_strict s refs).imp fun {a b} hlt hb => ?_)).symm
  have hle : b.sentAt ≤ a.sentAt := by
    rcases (Prod.Lex.toLex_lt_toLex.mp (OrderDual.toDual_lt_toDual.mp hlt)) with hlt | ⟨heq, -⟩
    · exact hlt.le
    · exact heq.le
  exact decide_eq_true ((of_decide_eq_true hb).trans hle)

/-- What one purge takes of the reactions on a message, by what is on it. -/
theorem mem_lost {w : Mailbox} {since : SystemTime} :
    r ∈ (s.forgetMessageReactions w since).1 ↔
      ∃ x ∈ s.on r, x.reactor = Inner.reactorKey w ∧ since ≤ x.at_ := by
  simp only [Inner.forgetMessageReactions, mem_sortBy, List.mem_eraseDups, List.mem_map, List.mem_filter,
    Inner.on, decide_eq_true_eq]
  constructor
  · rintro ⟨x, ⟨hx, hgone⟩, rfl⟩
    exact ⟨x, ⟨hx, rfl⟩, hgone⟩
  · rintro ⟨x, ⟨hx, rfl⟩, hgone⟩
    exact ⟨x, ⟨hx, hgone⟩, rfl⟩

/-- The messages of a purge the sender's window is open for. -/
def openLost (unread : Duration) (s : Inner) (w : Mailbox) (within : Duration) (now told : SystemTime) :
    List MessageState :=
  (announced (s.forgetMessageReactions w (backFrom now within)).2
    (s.forgetMessageReactions w (backFrom now within)).1).filter fun m => pmOpenSince told unread ≤ m.sentAt

section Purge
variable {roster : List UserSession} {w : Mailbox} {within : Duration} {now told : SystemTime}

theorem mem_openLost {m : MessageState} : m ∈ openLost unread s w within now told ↔
    (∃ r, (∃ x ∈ s.on r, x.reactor = Inner.reactorKey w ∧ backFrom now within ≤ x.at_) ∧
      (s.forgetMessageReactions w (backFrom now within)).2.state r = some m) ∧
    pmOpenSince told unread ≤ m.sentAt := by
  simp only [openLost, List.mem_filter, mem_announced, mem_lost, decide_eq_true_eq]

/-- What the purge finds open in one run it finds in the other. -/
theorem openLost_core_subset (h : Alike unread calls s₁ s₂) (h₁ : Sound unread calls s₁)
    (hnodup : ((calls.filterMap Call.pushes).map Prod.fst).Nodup)
    (hno : ¬ Reopened unread (calls ++ [.forget roster w within now told])) {m : MessageState}
    (hm : m ∈ (openLost unread s₁ w within now told).map MessageState.core) :
    m ∈ (openLost unread s₂ w within now told).map MessageState.core := by
  obtain ⟨st, hst, rfl⟩ := List.mem_map.mp hm
  obtain ⟨⟨r, hlost, hstate⟩, hopen⟩ := mem_openLost.mp hst
  obtain ⟨-, t, hk, -, hsent⟩ := state_eq_some hstate
  obtain ⟨p, hp, m, hpush, -, -, hmsent, -⟩ := h₁.pushed t r hk
  have hfinds : (Call.forget roster w within now told).FindsOpen unread m.sentAt := by
    show pmOpenSince told unread ≤ m.sentAt
    rw [hmsent, hsent]
    exact hopen
  have hshut := not_shut_of_open hnodup hp hpush hfinds hno
  have hon : (s₁.forgetMessageReactions w (backFrom now within)).2.on r =
      (s₂.forgetMessageReactions w (backFrom now within)).2.on r := by
    rw [on_forget, on_forget, h.on r hshut]
  have hkept : (s₁.forgetMessageReactions w (backFrom now within)).2.kept r =
      (s₂.forgetMessageReactions w (backFrom now within)).2.kept r := h.kept r fun he => hshut he.shut
  have hcore := state_congr hkept hon
  rw [hstate] at hcore
  obtain ⟨st', hst', hst'core⟩ := Option.map_eq_some_iff.mp hcore.symm
  refine List.mem_map.mpr ⟨st', mem_openLost.mpr ⟨⟨r, h.on r hshut ▸ hlost, hst'⟩, ?_⟩, hst'core⟩
  show pmOpenSince told unread ≤ st'.core.sentAt
  rw [hst'core]
  exact hopen

theorem openLost_core (h : Alike unread calls s₁ s₂) (h₁ : Sound unread calls s₁)
    (h₂ : Sound unread calls s₂) (hnodup : ((calls.filterMap Call.pushes).map Prod.fst).Nodup)
    (hno : ¬ Reopened unread (calls ++ [.forget roster w within now told])) :
    (openLost unread s₁ w within now told).map MessageState.core =
      (openLost unread s₂ w within now told).map MessageState.core := by
  have hstrict : ∀ s : Inner, ((openLost unread s w within now told).map MessageState.core).Pairwise
      fun a b => newestKey a < newestKey b := fun s =>
    List.pairwise_map.mpr ((announced_strict _ _).filter _)
  refine eq_of_perm_of_strict newestKey ?_ (hstrict s₁) (hstrict s₂)
  refine (List.perm_ext_iff_of_nodup (nodup_map_of_strict (hstrict s₁)).of_map
    (nodup_map_of_strict (hstrict s₂)).of_map).mpr fun m => ⟨?_, ?_⟩
  · exact openLost_core_subset h h₁ hnodup hno
  · exact openLost_core_subset h.symm h₂ hnodup hno

/-- What the sender is told of a purge is read off the messages open for it. -/
theorem toldOf_openLost (h : Sound unread calls s) (hmine : ToOthers calls mine who)
    (hroster : ∀ s ∈ roster, s.uid = uid → s.mailbox = who) :
    toldOf uid mine (perform policy unread read s (.forget roster w within now told)).1 =
      (chunks pmTold (openLost unread s w within now told).length
        ((((openLost unread s w within now told).map MessageState.core).map
          (hearing mine who (pmOpenSince told unread))).take policy.liveWindow)).flatMap
        (heard roster uid none) := by
  have hother : ∀ st ∈ announced (s.forgetMessageReactions w (backFrom now within)).2
      (s.forgetMessageReactions w (backFrom now within)).1,
      mine st.reference = true → is st.recipient who = false := by
    intro st hst hm
    obtain ⟨r, -, hstate⟩ := mem_announced.mp hst
    obtain ⟨href, t, hk, hrecip, -⟩ := state_eq_some hstate
    obtain ⟨p, hp, m, hpush, hmrecip, -⟩ := h.pushed t r hk
    rw [← hrecip, ← hmrecip]
    exact hmine p hp r m hpush (href ▸ hm)
  have hcore : ((openLost unread s w within now told).map MessageState.core).map
      (hearing mine who (pmOpenSince told unread)) =
        (openLost unread s w within now told).map (hearing mine who (pmOpenSince told unread)) := by
    rw [List.map_map]
    exact List.map_congr_left fun st hst => hearing_core (hother st (List.mem_filter.mp hst).1)
  obtain ⟨closed, hsplit, hquiet⟩ : ∃ closed, announced (s.forgetMessageReactions w (backFrom now within)).2
      (s.forgetMessageReactions w (backFrom now within)).1 =
        openLost unread s w within now told ++ closed ∧
      ∀ y ∈ closed, ∀ x, hearing mine who (pmOpenSince told unread) y x = none := by
    refine ⟨_, announced_eq _ _ (pmOpenSince told unread), fun y hy => ?_⟩
    obtain ⟨hy, hclosed⟩ := List.mem_filter.mp hy
    exact hearing_closed (hother y hy) (not_le.mp (by simpa using hclosed))
  have hevents : toldOf uid mine (perform policy unread read s (.forget roster w within now told)).1 =
      (chunks pmTold ((announced (s.forgetMessageReactions w (backFrom now within)).2
        (s.forgetMessageReactions w (backFrom now within)).1).take policy.liveWindow).length
        ((announced (s.forgetMessageReactions w (backFrom now within)).2
          (s.forgetMessageReactions w (backFrom now within)).1).take policy.liveWindow)).flatMap
        fun c => heard roster uid none (c.map (hearing mine who (pmOpenSince told unread))) := by
    refine (toldOf_flatMap _ _).trans ?_
    exact congrArg (fun f => List.flatMap f _) (funext fun c => toldOf_pmTell hroster c none)
  have hF : ∀ xs ys : List MessageState, (∀ y ∈ ys, ∀ x, hearing mine who (pmOpenSince told unread) y x = none) →
      heard roster uid none ((xs ++ ys).map (hearing mine who (pmOpenSince told unread))) =
        heard roster uid none (xs.map (hearing mine who (pmOpenSince told unread))) := by
    intro xs ys hys
    rw [List.map_append]
    refine heard_quiet fun y hy => ?_
    obtain ⟨st, hst, rfl⟩ := List.mem_map.mp hy
    exact hys st hst
  have hnil : heard roster uid none (([] : List MessageState).map
      (hearing mine who (pmOpenSince told unread))) = [] := by
    simp [heard]
  have hpos : 0 < pmTold := by decide
  rw [hevents, hcore, hsplit, List.take_append, List.length_append,
    ← List.map_take, chunks_map, List.flatMap_map]
  exact flatMap_chunks (F := fun c => heard roster uid none (c.map
      (hearing mine who (pmOpenSince told unread)))) hpos hnil hF
    (fun y hy => hquiet y (List.mem_of_mem_take hy)) (Nat.le_add_right _ _) (List.length_take_le' _ _)

end Purge

/-! ## Whole runs -/

/-- The sessions there are as a call tells of what it changed. -/
def Call.roster : Call → List UserSession
  | .react roster _ => roster
  | .forget roster _ _ _ _ => roster
  | _ => []

/-- `uid` names sessions of `who` only. -/
def SessionOf (calls : List Call) (uid : Nat) (who : Mailbox) : Prop :=
  ∀ op ∈ calls, ∀ s ∈ op.roster, s.uid = uid → s.mailbox = who

theorem toldOf_perform (h : Alike unread calls s₁ s₂) (h₁ : Sound unread calls s₁) (h₂ : Sound unread calls s₂)
    (hnodup : ((calls.filterMap Call.pushes).map Prod.fst).Nodup) (hmine : ToOthers calls mine who)
    (hroster : ∀ s ∈ op.roster, s.uid = uid → s.mailbox = who) (hno : ¬ Reopened unread (calls ++ [op])) :
    toldOf uid mine (perform policy unread read s₁ op).1 =
      toldOf uid mine (perform policy unread read s₂ op).1 := by
  cases op with
  | react roster a => exact toldOf_react h h₁ h₂ hnodup hmine hroster hno
  | forget roster w within now told =>
    have hroster : ∀ s ∈ roster, s.uid = uid → s.mailbox = who := hroster
    rw [toldOf_openLost h₁ hmine hroster, toldOf_openLost h₂ hmine hroster]
    have hcore := openLost_core h h₁ h₂ hnodup hno
    have hlength := congrArg List.length hcore
    rw [List.length_map, List.length_map] at hlength
    rw [hcore, hlength]
  | push relations m cap drawn => rfl
  | markHanded ids => rfl
  | receiptTold id => rfl
  | markDelivered ids at_ what => rfl
  | markRead relations to_ upTo at_ => rfl
  | prune now => rfl
  | ask now => rfl

theorem Reopened.mono (h : Reopened unread calls) (op : Call) : Reopened unread (calls ++ [op]) :=
  let ⟨p, a, b, m, hsub, rest⟩ := h
  ⟨p, a, b, m, hsub.trans (List.sublist_append_left _ _), rest⟩

theorem toldOf_run {e₁ e₂ : List ReactionsChanged} (h : Twin policy unread read calls (e₁, s₁) (e₂, s₂))
    (hnodup : ((calls.filterMap Call.pushes).map Prod.fst).Nodup) (hmine : ToOthers calls mine who)
    (hsessions : SessionOf calls uid who) (hno : ¬ Reopened unread calls) :
    toldOf uid mine e₁ = toldOf uid mine e₂ := by
  generalize hx : (e₁, s₁) = x₁ at h
  generalize hy : (e₂, s₂) = x₂ at h
  induction h generalizing e₁ s₁ e₂ s₂ with
  | nil =>
    obtain ⟨rfl, -⟩ := Prod.mk.inj hx
    obtain ⟨rfl, -⟩ := Prod.mk.inj hy
    rfl
  | both h op hcap₁ hcap₂ ih =>
    obtain ⟨rfl, -⟩ := Prod.mk.inj hx
    obtain ⟨rfl, -⟩ := Prod.mk.inj hy
    have hbefore := hnodup
    rw [List.filterMap_append, List.map_append, List.nodup_append] at hbefore
    have hmineBefore : ToOthers _ mine who := fun p hp => hmine p (List.mem_append_left _ hp)
    have hsessionsBefore : SessionOf _ uid who := fun p hp => hsessions p (List.mem_append_left _ hp)
    obtain ⟨h₁, h₂, halike⟩ := alike_run h hbefore.1
    have htold := ih hbefore.1 hmineBefore hsessionsBefore (fun he => hno (he.mono op)) rfl rfl
    have hroster := hsessions op (List.mem_append_right _ (List.mem_singleton_self op))
    rw [toldOf_append, toldOf_append, htold,
      toldOf_perform halike h₁ h₂ hbefore.1 hmineBefore hroster hno]
  | left h op hreads ih =>
    obtain ⟨rfl, -⟩ := Prod.mk.inj hx
    obtain ⟨rfl, -⟩ := Prod.mk.inj hy
    exact ih hnodup hmine hsessions hno rfl rfl
  | right h op hreads ih =>
    obtain ⟨rfl, -⟩ := Prod.mk.inj hx
    obtain ⟨rfl, -⟩ := Prod.mk.inj hy
    exact ih hnodup hmine hsessions hno rfl rfl

theorem sentBy_iff : sentBy calls who r = true ↔ ∃ op ∈ calls, ∃ m, op.pushes = some (r, m) ∧
    m.kind = .message ∧ m.friendship = none ∧ m.sender.any (is · who) = true ∧ is m.recipient who = false := by
  simp only [sentBy, List.any_eq_true, Option.any_eq_true, Bool.and_eq_true, decide_eq_true_eq,
    Option.isNone_iff_eq_none, Bool.not_eq_true']
  constructor
  · rintro ⟨op, hop, ⟨x, m⟩, hm, ⟨⟨⟨rfl, hkind⟩, hfriend⟩, hsender⟩, hother⟩
    exact ⟨op, hop, m, hm, hkind, hfriend, hsender, hother⟩
  · rintro ⟨op, hop, m, hm, hkind, hfriend, hsender, hother⟩
    exact ⟨op, hop, (r, m), hm, ⟨⟨⟨rfl, hkind⟩, hfriend⟩, hsender⟩, hother⟩

theorem toOthers_sentBy (hnodup : ((calls.filterMap Call.pushes).map Prod.fst).Nodup) :
    ToOthers calls (sentBy calls who) who := by
  intro op hop r m hm hr
  obtain ⟨p, hp, m', hm', -, -, -, hother⟩ := sentBy_iff.mp hr
  rw [pushes_unique hnodup hop hp hm hm']
  exact hother

/-- Past its window a sender does not see a message of its own. -/
theorem Sound.seen_closed (h : Sound unread calls s)
    (hnodup : ((calls.filterMap Call.pushes).map Prod.fst).Nodup) {p : Call} {m : NewMessage} (hp : p ∈ calls)
    (hm : p.pushes = some (r, m)) (hother : is m.recipient who = false) (hclosed : m.sentAt < openSince) :
    s.seen r who openSince = none := by
  rw [seen_eq]
  cases hk : s.kept r with
  | none => rfl
  | some t =>
    obtain ⟨p', hp', m', hm', hrecip, -, hsent, -⟩ := h.pushed t r hk
    obtain rfl := pushes_unique hnodup hp hp' hm hm'
    exact seenBy_ended (hsent ▸ hclosed) (hrecip ▸ hother)

/-- Inside it, it sees it by row and by stub alike. -/
theorem Alike.seen_open (h : Alike unread calls s₁ s₂) (h₂ : Sound unread calls s₂)
    (hnodup : ((calls.filterMap Call.pushes).map Prod.fst).Nodup) {p : Call} {m : NewMessage} (hp : p ∈ calls)
    (hm : p.pushes = some (r, m)) (hopen : openSince ≤ m.sentAt) (hshut : ¬ Shut unread calls r) :
    s₁.seen r who openSince = s₂.seen r who openSince := by
  rw [seen_eq, seen_eq, h.kept r fun he => hshut he.shut]
  cases hk : s₂.kept r with
  | none => rfl
  | some t =>
    obtain ⟨p', hp', m', hm', -, -, hsent, -⟩ := h₂.pushed t r hk
    obtain rfl := pushes_unique hnodup hp hp' hm hm'
    exact seenBy_open (hsent ▸ hopen) _ _

end Runs

/-! A message read by its recipient, or left unread, and a prune. -/

section Trial

def greeting : Call :=
  .push (fun _ => true) { sent ⟨"dave", none⟩ none with guid := none } 9 (.ok (refOf 1))

def readBy (now : SystemTime) : Call := .markRead (fun _ => true) ⟨"dave", none⟩ 9 now

def bounds : ReactionPolicy := ⟨4, 4, 100⟩

/-- The run with the message read at 5, and the one without, each pruned at `now`. -/
theorem twin_greeting (now : SystemTime) (unread read : Duration) :
    Twin bounds unread read [greeting, .prune now]
      ([], (perform bounds unread read (perform bounds unread read (perform bounds unread read {} greeting).2
        (readBy 5)).2 (.prune now)).2)
      ([], (perform bounds unread read (perform bounds unread read {} greeting).2 (.prune now)).2) := by
  have hcap : greeting.UnderCap {} := by
    show (({} : Inner).push (fun _ => true) { sent ⟨"dave", none⟩ none with guid := none } 9
      (.ok (refOf 1))).1 ≠ .ok .full
    decide
  have hreads : (readBy 5).ReadsPrivate (perform bounds unread read {} greeting).2 := by
    intro m hm _
    rw [show (perform bounds unread read {} greeting).2.msgs =
      [Inner.stored {} { sent ⟨"dave", none⟩ none with guid := none } (refOf 1)] from rfl,
      List.mem_singleton] at hm
    rw [hm]
    rfl
  exact .both (.left (.both .nil greeting hcap hcap) (readBy 5) hreads) (.prune now) trivial trivial

end Trial

end HxdNg.Inbox
