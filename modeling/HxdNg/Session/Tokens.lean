import HxdNg.Session.Registry

/-!
# What a resume token opens

* `Issued` : an id and a token answered by one call of `issue`, and the session it looked up;
* `World.Sound` : every entry, and every call under way, holds what one call of `issue` gave it;
* `World.Sound.step`, `World.after_sound` : so it is over every interleaving;
* `token_opens_its_session` : what that says of an answer of `validate`, and of a removal.
-/

namespace HxdNg.Session

open Roster Assoc

/-- `id` and `token` were answered by one call of `issue`, which found `uid`'s session of `serial`. -/
def Issued (events : List Event) (id : SessionId) (token : Token) (uid : Uid) (serial : Nat) : Prop :=
  ∃ c, .issued c id token ∈ events ∧ .looked c uid serial ∈ events

theorem Issued.mono {es es' : List Event} (hsub : es ⊆ es') {id : SessionId} {token : Token}
    {uid : Uid} {serial : Nat} (h : Issued es id token uid serial) : Issued es' id token uid serial :=
  h.imp fun _ h => ⟨hsub h.1, hsub h.2⟩

namespace World

variable (sha256 : Token → Bytes 32)

/-- `id` was issued for a session that is gone. -/
def Stale (w : World) (id : SessionId) : Prop :=
  ∃ token uid serial, Issued w.events id token uid serial ∧ Dead w.roster uid serial

/-- What a call under way holds. -/
def Holds (w : World) (c : Nat) : Call → Prop
  | .looked uid serial => .looked c uid serial ∈ w.events
  | .numbered uid serial raw id => .looked c uid serial ∈ w.events ∧ .drawn (tokenOf raw) ∈ w.events ∧
      (∃ n ≤ w.counter, id = sessionId n) ∧ ∀ c' token, .issued c' id token ∉ w.events
  | .matched id token uid serial => .presented id token ∈ w.events ∧
      ∃ token', Issued w.events id token' uid serial ∧ .drawn token' ∈ w.events ∧
        sha256 token' = sha256 token
  | .stale id => w.Stale id
  | .checking left stale => (∀ x ∈ left, ∃ token, Issued w.events x.1 token x.2.1 x.2.2) ∧
      ∀ id ∈ stale, w.Stale id
  | .done => True

structure Sound (w : World) : Prop where
  given : ∀ uid, uid ∈ w.roster.users → w.roster.serial uid ≤ w.roster.lastSerial
  valid : Assoc.Valid w.entries
  entries : ∀ id e, lookup w.entries id = some e → ∃ token,
    Issued w.events id token e.uid e.serial ∧ .drawn token ∈ w.events ∧ e.tokenHash = sha256 token
  once : ∀ c uid serial uid' serial', .looked c uid serial ∈ w.events →
    .looked c uid' serial' ∈ w.events → uid' = uid ∧ serial' = serial
  ids : ∀ id c token c' token', .issued c id token ∈ w.events → .issued c' id token' ∈ w.events →
    c' = c ∧ token' = token
  numbers : ∀ c id token, .issued c id token ∈ w.events → ∃ n ≤ w.counter, id = sessionId n
  past : ∀ c uid serial, .looked c uid serial ∈ w.events →
    serial ≤ w.roster.lastSerial ∧ w.calls c ≠ none
  calls : ∀ c call, w.calls c = some call → w.Holds sha256 c call
  apart : ∀ c c' uid serial raw id uid' serial' raw', w.calls c = some (.numbered uid serial raw id) →
    w.calls c' = some (.numbered uid' serial' raw' id) → c' = c

variable {sha256} {w : World}

theorem Sound.issued_unique (h : w.Sound sha256) {id : SessionId} {token token' : Token} {uid uid' : Uid}
    {serial serial' : Nat} (hi : Issued w.events id token uid serial)
    (hi' : Issued w.events id token' uid' serial') :
    token' = token ∧ uid' = uid ∧ serial' = serial := by
  obtain ⟨c, hid, hl⟩ := hi
  obtain ⟨c', hid', hl'⟩ := hi'
  obtain ⟨rfl, htok⟩ := h.ids id c token c' token' hid hid'
  exact ⟨htok, h.once _ _ _ _ _ hl hl'⟩

/-- What a call holds it holds later, unless its id is answered by another. -/
theorem Holds.mono {w' : World} (hr : Later w.roster w'.roster) (hsub : w.events ⊆ w'.events)
    (hcount : w.counter ≤ w'.counter) {c : Nat} {call : Call}
    (hnew : ∀ c' id token, .issued c' id token ∈ w'.events → .issued c' id token ∈ w.events ∨
      ∀ uid serial raw, call ≠ .numbered uid serial raw id)
    (h : w.Holds sha256 c call) : w'.Holds sha256 c call := by
  have hstale : ∀ id, w.Stale id → w'.Stale id := by
    rintro id ⟨token, uid, serial, hi, hd⟩
    exact ⟨token, uid, serial, hi.mono hsub, hr.dead hd⟩
  cases call with
  | looked uid serial => exact hsub h
  | numbered uid serial raw id =>
    obtain ⟨hl, hd, ⟨n, hn, rfl⟩, hno⟩ := h
    refine ⟨hsub hl, hsub hd, ⟨n, hn.trans hcount, rfl⟩, fun c' token hin => ?_⟩
    rcases hnew c' _ token hin with hin | hne
    · exact hno c' token hin
    · exact hne _ _ _ rfl
  | matched id token uid serial =>
    obtain ⟨hp, token', hi, hd, hs⟩ := h
    exact ⟨hsub hp, token', hi.mono hsub, hsub hd, hs⟩
  | stale id => exact hstale id h
  | checking left stale =>
    exact ⟨fun x hx => (h.1 x hx).imp fun _ hi => hi.mono hsub, fun id hid => hstale id (h.2 id hid)⟩
  | done => trivial

theorem Sound.later (h : w.Sound sha256) {r : RosterInner} (hr : Later w.roster r) :
    Sound sha256 { w with roster := r } :=
  { h with
    given := hr.given
    past := fun c uid serial hl => ⟨(h.past c uid serial hl).1.trans hr.last, (h.past c uid serial hl).2⟩
    calls := fun c call hc => @Holds.mono sha256 w { w with roster := r } hr (List.Subset.refl _) le_rfl c call
      (fun _ _ _ hin => .inl hin) (h.calls c call hc) }

theorem Later.refl (h : w.Sound sha256) : Later w.roster w.roster :=
  Later.of_users h.given (Finset.Subset.refl _) rfl rfl

theorem Sound.advance (h : w.Sound sha256) {w' : World} {c : Nat} {call : Call} (es : List Event)
    (hr : w'.roster = w.roster) (hev : w'.events = w.events ++ es) (hcount : w.counter ≤ w'.counter)
    (hcalls : w'.calls = Function.update w.calls c (some call))
    (hvalid : Assoc.Valid w'.entries)
    (hentries : ∀ id e, lookup w'.entries id = some e → lookup w.entries id = some e ∨
      ∃ token, Issued w'.events id token e.uid e.serial ∧ .drawn token ∈ w'.events ∧
        e.tokenHash = sha256 token)
    (hlooked : ∀ c' uid serial, .looked c' uid serial ∈ es → c' = c ∧ w.calls c = none ∧
      serial ≤ w.roster.lastSerial ∧ ∀ e ∈ es, e = .looked c' uid serial)
    (hissued : ∀ c' id token, .issued c' id token ∈ es → c' = c ∧
      (∃ uid serial raw, w.calls c = some (.numbered uid serial raw id)) ∧
      ∀ e ∈ es, e = .issued c' id token)
    (hapart : ∀ c' uid serial raw id uid' serial' raw', call = .numbered uid serial raw id →
      w.calls c' ≠ some (.numbered uid' serial' raw' id))
    (hholds : w'.Holds sha256 c call) : w'.Sound sha256 := by
  have hsub : w.events ⊆ w'.events := hev ▸ List.subset_append_left _ _
  have hmem : ∀ {e}, e ∈ w'.events → e ∈ w.events ∨ e ∈ es := fun he => by
    rw [hev] at he
    exact List.mem_append.mp he
  have hold : ∀ c', c' ≠ c → w'.calls c' = w.calls c' := fun c' hne => by
    rw [hcalls, Function.update_of_ne hne]
  have hself : w'.calls c = some call := by rw [hcalls, Function.update_self]
  -- An id a call of `issue` took is not answered yet.
  have hunissued : ∀ {c uid serial raw id}, w.calls c = some (.numbered uid serial raw id) →
      ∀ c' token, .issued c' id token ∉ w.events := fun {c uid serial raw id} hc =>
    (h.calls c _ hc).2.2.2
  refine ⟨?_, hvalid, fun id e he => ?_, ?_, ?_, ?_, ?_, ?_, ?_⟩
  · rw [hr]
    exact h.given
  · rcases hentries id e he with he | he
    · obtain ⟨token, hi, hd, ht⟩ := h.entries id e he
      exact ⟨token, hi.mono hsub, hsub hd, ht⟩
    · exact he
  · intro c₁ uid serial uid' serial' hl hl'
    rcases hmem hl with hl | hl <;> rcases hmem hl' with hl' | hl'
    · exact h.once c₁ _ _ _ _ hl hl'
    · obtain ⟨rfl, hnone, -⟩ := hlooked _ _ _ hl'
      exact absurd hnone (h.past _ _ _ hl).2
    · obtain ⟨rfl, hnone, -⟩ := hlooked _ _ _ hl
      exact absurd hnone (h.past _ _ _ hl').2
    · have := (hlooked _ _ _ hl).2.2.2 _ hl'
      cases this
      exact ⟨rfl, rfl⟩
  · intro id c₁ token c₂ token' hi hi'
    rcases hmem hi with hi | hi <;> rcases hmem hi' with hi' | hi'
    · exact h.ids id _ _ _ _ hi hi'
    · obtain ⟨-, ⟨uid, serial, raw, hnum⟩, -⟩ := hissued _ _ _ hi'
      exact absurd hi (hunissued hnum _ _)
    · obtain ⟨-, ⟨uid, serial, raw, hnum⟩, -⟩ := hissued _ _ _ hi
      exact absurd hi' (hunissued hnum _ _)
    · have := (hissued _ _ _ hi).2.2 _ hi'
      cases this
      exact ⟨rfl, rfl⟩
  · intro c₁ id token hi
    rcases hmem hi with hi | hi
    · obtain ⟨n, hn, rfl⟩ := h.numbers _ _ _ hi
      exact ⟨n, hn.trans hcount, rfl⟩
    · obtain ⟨-, ⟨uid, serial, raw, hnum⟩, -⟩ := hissued _ _ _ hi
      obtain ⟨n, hn, rfl⟩ := (h.calls c _ hnum).2.2.1
      exact ⟨n, hn.trans hcount, rfl⟩
  · intro c₁ uid serial hl
    rw [hr]
    rcases hmem hl with hl | hl
    · obtain ⟨hle, hne⟩ := h.past _ _ _ hl
      refine ⟨hle, ?_⟩
      by_cases hc : c₁ = c
      · rw [hc, hself]
        exact fun hcon => by cases hcon
      · rw [hold _ hc]
        exact hne
    · obtain ⟨rfl, -, hle, -⟩ := hlooked _ _ _ hl
      refine ⟨hle, ?_⟩
      rw [hself]
      exact fun hcon => by cases hcon
  · intro c₁ call₁ hc₁
    by_cases hc : c₁ = c
    · rw [hc, hself] at hc₁
      cases hc₁
      rw [hc]
      exact hholds
    · rw [hold _ hc] at hc₁
      refine Holds.mono (w := w) (by rw [hr]; exact Later.refl h) hsub hcount (fun c' id token hi => ?_) (h.calls _ _ hc₁)
      rcases hmem hi with hi | hi
      · exact .inl hi
      · obtain ⟨-, ⟨uid, serial, raw, hnum⟩, -⟩ := hissued _ _ _ hi
        refine .inr fun uid' serial' raw' heq => hc ?_
        rw [heq] at hc₁
        exact h.apart c c₁ _ _ _ id _ _ _ hnum hc₁
  · intro c₁ c₂ uid serial raw id uid' serial' raw' h₁ h₂
    by_cases hc₁ : c₁ = c <;> by_cases hc₂ : c₂ = c
    · rw [hc₁, hc₂]
    · rw [hc₁, hself] at h₁
      rw [hold _ hc₂] at h₂
      exact absurd h₂ (hapart c₂ _ _ _ id _ _ _ (Option.some.inj h₁))
    · rw [hc₂, hself] at h₂
      rw [hold _ hc₁] at h₁
      exact absurd h₁ (hapart c₁ _ _ _ id _ _ _ (Option.some.inj h₂))
    · rw [hold _ hc₁] at h₁
      rw [hold _ hc₂] at h₂
      exact h.apart c₁ c₂ _ _ _ id _ _ _ h₁ h₂

/-- A call goes on, with nothing shown that others hold to and entries no more than there were. -/
theorem Sound.quiet (h : w.Sound sha256) {w' : World} {c : Nat} {call : Call} (es : List Event)
    (hr : w'.roster = w.roster) (hev : w'.events = w.events ++ es) (hcount : w'.counter = w.counter)
    (hcalls : w'.calls = Function.update w.calls c (some call)) (hvalid : Assoc.Valid w'.entries)
    (hentries : ∀ id e, lookup w'.entries id = some e → lookup w.entries id = some e)
    (hes : ∀ e ∈ es, (∀ c uid serial, e ≠ .looked c uid serial) ∧ ∀ c id token, e ≠ .issued c id token)
    (hnum : ∀ uid serial raw id, call ≠ .numbered uid serial raw id)
    (hholds : w'.Holds sha256 c call) : w'.Sound sha256 :=
  h.advance es hr hev hcount.ge hcalls hvalid (fun id e he => .inl (hentries id e he))
    (fun _ _ _ hl => absurd rfl ((hes _ hl).1 _ _ _))
    (fun _ _ _ hi => absurd rfl ((hes _ hi).2 _ _ _))
    (fun _ _ _ _ _ _ _ _ heq => absurd heq (hnum _ _ _ _)) hholds

theorem Sound.issue (h : w.Sound sha256) {c : Nat} (hc : w.calls c = none) (uid : Uid) :
    (w.issue c uid).Sound sha256 := by
  unfold World.issue
  cases hs : sessionSerial w.roster uid with
  | none =>
    exact h.quiet [] rfl (List.append_nil _).symm rfl rfl h.valid (fun _ _ he => he)
      nofun nofun trivial
  | some serial =>
    obtain ⟨hin, rfl⟩ := sessionSerial_eq_some.mp hs
    refine h.advance [.looked c uid _] rfl rfl le_rfl rfl h.valid (fun _ _ he => .inl he)
      (fun c' u s hl => ?_) (fun c' id token hi => ?_) nofun
      (List.mem_append_right _ (List.mem_singleton_self _))
    · cases List.mem_singleton.mp hl
      exact ⟨rfl, hc, h.given uid hin, fun e he => List.mem_singleton.mp he⟩
    · cases List.mem_singleton.mp hi

theorem Sound.validate (h : w.Sound sha256) {c : Nat} (id : SessionId) (token : Token) :
    (w.validate sha256 c id token).Sound sha256 := by
  have hes : ∀ e ∈ [Event.presented id token], (∀ c uid serial, e ≠ .looked c uid serial) ∧
      ∀ c id token, e ≠ .issued c id token := by
    intro e he
    rw [List.mem_singleton.mp he]
    exact ⟨nofun, nofun⟩
  have hdone : Sound sha256 ((w.shows (.presented id token)).call c .done) :=
    h.quiet _ rfl rfl rfl rfl h.valid (fun _ _ he => he) hes nofun trivial
  unfold World.validate
  dsimp only
  cases hl : lookup (w.shows (.presented id token)).entries id with
  | none => exact hdone
  | some e =>
    dsimp only
    by_cases heq : constantTimeEq e.tokenHash (sha256 token) = true
    · rw [if_pos heq]
      obtain ⟨token', hi, hd, ht⟩ := h.entries id e hl
      refine h.quiet _ rfl rfl rfl rfl h.valid (fun _ _ he => he) hes
        nofun ⟨?_, token', ?_, ?_, ?_⟩
      · exact List.mem_append_right _ (List.mem_singleton_self _)
      · exact hi.mono (List.subset_append_left _ _)
      · exact List.mem_append_left _ hd
      · rw [← ht]
        exact (constantTimeEq_iff _ _).mp heq
    · rw [if_neg heq]
      exact hdone

theorem Sound.prune (h : w.Sound sha256) (c : Nat) : (w.prune c).Sound sha256 := by
  refine h.quiet [] rfl (List.append_nil _).symm rfl rfl h.valid (fun _ _ he => he)
    nofun nofun ⟨fun x hx => ?_, fun _ hid => by
      cases hid⟩
  obtain ⟨p, hp, rfl⟩ := List.mem_map.mp hx
  obtain ⟨token, hi, -⟩ := h.entries p.1 p.2 (lookup_of_mem h.valid hp)
  exact ⟨token, hi⟩

/-- What is left once `ids` are removed. -/
theorem erase_all {es : List (SessionId × Entry)} (hv : Assoc.Valid es) (ids : List SessionId) :
    Assoc.Valid (ids.foldl (fun es id => erase id es) es) ∧
      ∀ id, lookup (ids.foldl (fun es id => erase id es) es) id =
        if id ∈ ids then none else lookup es id := by
  induction ids generalizing es with
  | nil => exact ⟨hv, fun id => rfl⟩
  | cons i ids ih =>
    obtain ⟨hv', hl⟩ := ih (valid_alter hv i fun _ => none)
    refine ⟨hv', fun id => (hl id).trans ?_⟩
    rw [show lookup (alter i (fun _ => none) es) id = _ from lookup_erase hv i id]
    by_cases hi : id = i <;> by_cases his : id ∈ ids <;> simp [hi, his]

theorem Sound.next (h : w.Sound sha256) {c : Nat} {call : Call} (hc : w.calls c = some call)
    (raw : Option (Bytes 32)) : (w.next sha256 c raw call).Sound sha256 := by
  have hholds := h.calls c call hc
  -- A step that shows nothing.
  have hsilent : ∀ {entries : List (SessionId × Entry)} {call' : Call}, Assoc.Valid entries →
      (∀ id e, lookup entries id = some e → lookup w.entries id = some e) →
      (∀ uid serial raw id, call' ≠ .numbered uid serial raw id) → w.Holds sha256 c call' →
      Sound sha256 ({ w with entries }.call c call') := by
    intro entries call' hv he hnum hh
    refine h.quiet [] rfl (List.append_nil _).symm rfl rfl hv he nofun hnum
      (Holds.mono (w := w) ?_ (List.Subset.refl _) le_rfl (fun _ _ _ hi => .inl hi) hh)
    exact Later.refl h
  cases call with
  | looked uid serial =>
    cases raw with
    | none =>
      exact hsilent h.valid (fun _ _ he => he) nofun trivial
    | some raw =>
      -- The number is new: no id was made of it.
      have hnew : ∀ n ≤ w.counter, sessionId (w.counter + 1) ≠ sessionId n := fun n hn heq => by
        have := sessionId_injective heq
        omega
      refine h.advance [.drawn (tokenOf raw)] rfl rfl (Nat.le_succ _) rfl h.valid
        (fun _ _ he => .inl he) (fun _ _ _ hl => by cases List.mem_singleton.mp hl)
        (fun _ _ _ hi => by cases List.mem_singleton.mp hi) ?_ ⟨?_, ?_, ⟨_, le_rfl, rfl⟩, ?_⟩
      · intro c' _ _ _ id uid' serial' raw' heq hnum
        cases heq
        obtain ⟨n, hn, heq⟩ := (h.calls c' _ hnum).2.2.1
        exact hnew n hn heq
      · exact List.mem_append_left _ hholds
      · exact List.mem_append_right _ (List.mem_singleton_self _)
      · intro c' token hi
        rcases List.mem_append.mp hi with hi | hi
        · obtain ⟨n, hn, heq⟩ := h.numbers _ _ _ hi
          exact hnew n hn heq
        · cases List.mem_singleton.mp hi
  | numbered uid serial raw' id =>
    obtain ⟨hl, hd, -, -⟩ := hholds
    refine h.advance [.issued c id (tokenOf raw')] rfl rfl le_rfl rfl
      (valid_alter h.valid _ _) (fun id' e he => ?_) (fun _ _ _ hl => by
        cases List.mem_singleton.mp hl) (fun c' id' token hi => ?_)
      nofun trivial
    · rw [show lookup (World.next sha256 w c raw (.numbered uid serial raw' id)).entries id' = _ from
          lookup_insert h.valid id _ id'] at he
      by_cases hid : id' = id
      · rw [if_pos hid] at he
        cases he
        refine .inr ⟨tokenOf raw', ⟨c, ?_, ?_⟩, ?_, rfl⟩
        · rw [hid]
          exact List.mem_append_right _ (List.mem_singleton_self _)
        · exact List.mem_append_left _ hl
        · exact List.mem_append_left _ hd
      · rw [if_neg hid] at he
        exact .inl he
    · cases List.mem_singleton.mp hi
      exact ⟨rfl, ⟨uid, serial, raw', hc⟩, fun e he => List.mem_singleton.mp he⟩
  | matched id token uid serial =>
    obtain ⟨hp, token', hi, -, -⟩ := hholds
    show Sound sha256 (if sessionSerial w.roster uid = some serial then _ else _)
    by_cases hs : sessionSerial w.roster uid = some serial
    · rw [if_pos hs]
      refine h.quiet [.validated c id token uid] rfl rfl rfl rfl h.valid (fun _ _ he => he)
        (fun e he => ?_) nofun trivial
      rw [List.mem_singleton.mp he]
      exact ⟨nofun, nofun⟩
    · rw [if_neg hs]
      obtain ⟨c', hid, hlook⟩ := hi
      exact hsilent h.valid (fun _ _ he => he) nofun
        ⟨token', uid, serial, ⟨c', hid, hlook⟩, (h.past _ _ _ hlook).1, hs⟩
  | stale id =>
    refine hsilent (valid_alter h.valid id _) (fun id' e he => ?_) nofun
      trivial
    rw [show lookup _ id' = _ from lookup_erase h.valid id id'] at he
    by_cases hid : id' = id
    · rw [if_pos hid] at he
      cases he
    · rwa [if_neg hid] at he
  | checking left stale =>
    cases left with
    | nil =>
      obtain ⟨hv, hl⟩ := erase_all h.valid stale
      refine hsilent hv (fun id' e he => ?_) nofun trivial
      rw [hl] at he
      by_cases hid : id' ∈ stale
      · rw [if_pos hid] at he
        cases he
      · rwa [if_neg hid] at he
    | cons x left =>
      obtain ⟨id, uid, serial⟩ := x
      obtain ⟨hleft, hstale⟩ := hholds
      refine hsilent h.valid (fun _ _ he => he) nofun
        ⟨fun x hx => hleft x (List.mem_cons_of_mem _ hx), fun id' hid => ?_⟩
      split at hid
      · exact hstale id' hid
      · rename_i hs
        rcases List.mem_append.mp hid with hid | hid
        · exact hstale id' hid
        · rw [List.mem_singleton.mp hid]
          obtain ⟨token, c', hi, hlook⟩ := hleft _ (List.mem_cons_self ..)
          exact ⟨token, uid, serial, ⟨c', hi, hlook⟩, (h.past _ _ _ hlook).1, hs⟩
  | done => exact h

theorem Sound.step (h : w.Sound sha256) (op : Op) : (w.step sha256 op).Sound sha256 := by
  have hstart : ∀ c w', (w.calls c = none → Sound sha256 w') → Sound sha256 (w.start c w') := by
    intro c w' hw'
    unfold World.start
    cases hc : w.calls c with
    | some call => exact h
    | none => exact hw' hc
  cases op with
  | attach now refused => exact h.later (Later.attach h.given now refused)
  | endSession now uid => exact h.later (Later.endSession h.given now uid)
  | ghostAttach now fails => exact h.later (Later.ghostAttach h.given now fails)
  | ghostPart now uid => exact h.later (Later.ghostPart h.given now uid)
  | issue c uid => exact hstart c _ fun hc => h.issue hc uid
  | validate c id token => exact hstart c _ fun _ => h.validate id token
  | prune c => exact hstart c _ fun _ => h.prune c
  | next c raw =>
    show Sound sha256 ((w.calls c).elim w (w.next sha256 c raw))
    cases hc : w.calls c with
    | none => exact h
    | some call => exact h.next hc raw
  | remove id =>
    refine { h with valid := valid_alter h.valid id _, entries := fun id' e he => ?_, calls := ?_ }
    · rw [show lookup (w.step sha256 (.remove id)).entries id' = _ from
        lookup_erase h.valid id id'] at he
      by_cases hid : id' = id
      · rw [if_pos hid] at he
        cases he
      · rw [if_neg hid] at he
        exact h.entries id' e he
    · intro c call hc
      exact Holds.mono (w := w) (Later.refl h) (List.Subset.refl _) le_rfl (fun _ _ _ hi => .inl hi)
        (h.calls c call hc)

theorem sound_empty : Sound sha256 {} where
  given uid hin := by cases hin
  valid := List.nodup_nil
  entries id e he := by cases he
  once c uid serial uid' serial' hl := by cases hl
  ids id c token c' token' hi := by cases hi
  numbers c id token hi := by cases hi
  past c uid serial hl := by cases hl
  calls c call hc := by cases hc
  apart c c' uid serial raw id uid' serial' raw' hc := by cases hc

/-- Every interleaving comes to a sound world. -/
theorem after_sound (sha256 : Token → Bytes 32) (ops : List Op) : (after sha256 ops).Sound sha256 := by
  unfold after
  have hall : ∀ (ops : List Op) (w : World), w.Sound sha256 →
      (ops.foldl (World.step sha256) w).Sound sha256 := by
    intro ops
    induction ops with
    | nil => exact fun w hw => hw
    | cons op ops ih => exact fun w hw => ih _ (hw.step op)
  exact hall ops {} sound_empty

end World

/-! ## What validates, and what is dropped -/

/-- The tokens drawn or presented so far. -/
def tokens (events : List Event) : Set Token :=
  {token | .drawn token ∈ events ∨ ∃ id, .presented id token ∈ events}

/-- What one call that is not the removal itself leaves of an entry whose session exists. -/
theorem World.Sound.kept {sha256 : Token → Bytes 32} {w : World} (h : w.Sound sha256) (op : Op)
    (hop : ∀ id, op ≠ .remove id) {id : SessionId} {e : Entry} (he : lookup w.entries id = some e)
    (hs : sessionSerial w.roster e.uid = some e.serial) :
    lookup (w.step sha256 op).entries id = some e := by
  -- An id that is stale was issued for another session than this entry's, which cannot be.
  have hnot : ¬w.Stale id := by
    rintro ⟨token, uid, serial, hi, hd⟩
    obtain ⟨token', hi', -, -⟩ := h.entries id e he
    obtain ⟨-, huid, hserial⟩ := h.issued_unique hi' hi
    rw [huid, hserial] at hd
    exact hd.2 hs
  have hstart : ∀ c w', w'.entries = w.entries → lookup (w.start c w').entries id = some e := by
    intro c w' hw'
    unfold World.start
    split
    · exact he
    · rw [hw']
      exact he
  cases op with
  | attach | endSession | ghostAttach | ghostPart => exact he
  | issue c uid =>
    refine hstart c _ ?_
    unfold World.issue
    split <;> rfl
  | validate c id' token =>
    refine hstart c _ ?_
    unfold World.validate
    dsimp only
    split
    · rfl
    · split <;> rfl
  | prune c => exact hstart c _ rfl
  | remove id' => exact absurd rfl (hop id')
  | next c raw =>
    show lookup ((w.calls c).elim w (w.next sha256 c raw)).entries id = some e
    cases hc : w.calls c with
    | none => exact he
    | some call =>
      have hholds := h.calls c call hc
      show lookup (w.next sha256 c raw call).entries id = some e
      cases call with
      | looked uid serial => cases raw <;> exact he
      | numbered uid serial raw' id' =>
        refine (lookup_insert h.valid id' _ id).trans ?_
        rw [if_neg]
        · exact he
        · rintro rfl
          obtain ⟨token, ⟨c', hi, -⟩, -⟩ := h.entries _ e he
          exact hholds.2.2.2 c' token hi
      | matched id' token uid serial =>
        show lookup (if sessionSerial w.roster uid = some serial then _ else _ : World).entries id = _
        split <;> exact he
      | stale id' =>
        refine (lookup_erase h.valid id' id).trans ?_
        rw [if_neg]
        · exact he
        · rintro rfl
          exact hnot hholds
      | checking left stale =>
        cases left with
        | nil =>
          refine ((World.erase_all h.valid stale).2 id).trans ?_
          rw [if_neg fun hin => hnot (hholds.2 id hin)]
          exact he
        | cons x left => exact he
      | done => exact he

/-- What a step that shows an event had before it. -/
def Shown (w : World) : Event → Prop
  | .looked _ uid serial => sessionSerial w.roster uid = some serial
  | .validated c id token uid => ∃ serial, w.calls c = some (.matched id token uid serial) ∧
      sessionSerial w.roster uid = some serial
  | _ => True

/-- A step shows one event, or none. -/
theorem World.step_shows (sha256 : Token → Bytes 32) (w : World) (op : Op) :
    (w.step sha256 op).events = w.events ∨
      ∃ e, (w.step sha256 op).events = w.events ++ [e] ∧ Shown w e := by
  have hstart : ∀ c w', (w'.events = w.events ∨ ∃ e, w'.events = w.events ++ [e] ∧ Shown w e) →
      (w.start c w').events = w.events ∨ ∃ e, (w.start c w').events = w.events ++ [e] ∧ Shown w e := by
    intro c w' hw'
    unfold World.start
    split
    · exact .inl rfl
    · exact hw'
  cases op with
  | attach | endSession | ghostAttach | ghostPart | remove => exact .inl rfl
  | issue c uid =>
    refine hstart c _ ?_
    unfold World.issue
    cases hs : sessionSerial w.roster uid with
    | none => exact .inl rfl
    | some serial => exact .inr ⟨_, rfl, hs⟩
  | validate c id token =>
    refine hstart c _ (.inr ⟨.presented id token, ?_, trivial⟩)
    unfold World.validate
    dsimp only
    split
    · rfl
    · split <;> rfl
  | prune c => exact hstart c _ (.inl rfl)
  | next c raw =>
    show ((w.calls c).elim w (w.next sha256 c raw)).events = w.events ∨
      ∃ e, ((w.calls c).elim w (w.next sha256 c raw)).events = w.events ++ [e] ∧ Shown w e
    cases hc : w.calls c with
    | none => exact .inl rfl
    | some call =>
      match call with
      | .looked _ _ =>
        cases raw with
        | none => exact .inl rfl
        | some raw => exact .inr ⟨_, rfl, trivial⟩
      | .numbered _ _ _ _ => exact .inr ⟨_, rfl, trivial⟩
      | .matched id token uid serial =>
        by_cases hs : sessionSerial w.roster uid = some serial
        · refine .inr ⟨.validated c id token uid, ?_, serial, hc, hs⟩
          exact congrArg World.events (if_pos hs)
        · have hstale : w.next sha256 c raw (.matched id token uid serial) = w.call c (.stale id) :=
            if_neg hs
          exact .inl (show (w.next sha256 c raw (.matched id token uid serial)).events = _ by
            rw [hstale]; rfl)
      | .stale _ | .checking [] _ | .checking (_ :: _) _ | .done => exact .inl rfl

theorem World.shown_of_step {sha256 : Token → Bytes 32} {w : World} {op : Op} {e : Event}
    (h : (w.step sha256 op).events = w.events ++ [e]) : Shown w e := by
  rcases w.step_shows sha256 op with hsame | ⟨e', heq, hshown⟩
  · have := congrArg List.length (hsame.symm.trans h)
    simp at this
  · have : e' = e := by simpa using heq.symm.trans h
    exact this ▸ hshown

/-- A resume token opens only the session it was issued for. Whatever comes between the steps of the
calls, an answer of `validate` names an id and a token that one call of `issue` answered, and the
session that call found is the one there now; and no step but a removal that was asked for takes the
entry of a session that exists. -/
theorem token_opens_its_session (sha256 : Token → Bytes 32) (ops : List Op) (op : Op)
    (hsha : Set.InjOn sha256 (tokens (World.after sha256 ops).events)) :
    let w := World.after sha256 ops
    (∀ c id token uid, (w.step sha256 op).events = w.events ++ [.validated c id token uid] →
      ∃ c' serial, .issued c' id token ∈ w.events ∧ .looked c' uid serial ∈ w.events ∧
        sessionSerial w.roster uid = some serial) ∧
    (∀ c uid serial, (w.step sha256 op).events = w.events ++ [.looked c uid serial] →
      sessionSerial w.roster uid = some serial) ∧
    ((∀ id, op ≠ .remove id) → ∀ id e, lookup w.entries id = some e →
      sessionSerial w.roster e.uid = some e.serial →
      lookup (w.step sha256 op).entries id = some e) := by
  intro w
  have h : w.Sound sha256 := World.after_sound sha256 ops
  refine ⟨fun c id token uid heq => ?_, fun c uid serial heq => World.shown_of_step heq,
    fun hop id e he hs => h.kept op hop he hs⟩
  obtain ⟨serial, hc, hs⟩ := World.shown_of_step heq
  obtain ⟨hp, drawn, ⟨c₀, hi, hl⟩, hd, ht⟩ := h.calls c _ hc
  have hsame : drawn = token := hsha (.inl hd) (.inr ⟨id, hp⟩) ht
  exact ⟨c₀, serial, hsame ▸ hi, hl, hs⟩

/-- SHA-256 of the token drawn as zeros, and of another text. -/
def sha256OfZeros (token : Token) : Bytes 32 :=
  if token = List.replicate 64 48 then ⟨[96, 224, 91, 209, 177, 149, 175, 47, 148, 17, 47, 167, 25, 122, 92, 136, 40, 144, 88, 132,
    12, 231, 198, 223, 150, 147, 117, 107, 198, 37, 15, 85], rfl⟩
  else if token = [48, 48] then ⟨[241, 83, 67, 146, 39, 155, 221, 191, 157, 67, 221, 232, 112, 28, 181, 190, 20, 184, 47, 118,
    236, 102, 7, 191, 141, 106, 213, 87, 246, 15, 48, 78], rfl⟩
  else Bytes.replicate 32 0

/-- A session is given a token, which is presented after another that does not match. -/
def zeroToken : List Op :=
  [.attach 0 false, .issue 0 1, .next 0 (some (Bytes.replicate 32 0)), .next 0 none,
    .validate 1 (sessionId 1) [48, 48], .validate 2 (sessionId 1) (tokenOf (Bytes.replicate 32 0))]

theorem token_opens_its_session_zeros :
    .validated 2 (sessionId 1) (tokenOf (Bytes.replicate 32 0)) 1 ∈
        (World.after sha256OfZeros (zeroToken ++ [.next 2 none])).events ∧
      ∃ c' serial,
        .issued c' (sessionId 1) (tokenOf (Bytes.replicate 32 0)) ∈
          (World.after sha256OfZeros zeroToken).events ∧
        .looked c' 1 serial ∈ (World.after sha256OfZeros zeroToken).events ∧
        sessionSerial (World.after sha256OfZeros zeroToken).roster 1 = some serial := by
  have hevents : (World.after sha256OfZeros zeroToken).events =
      [.looked 0 1 1, .drawn (tokenOf (Bytes.replicate 32 0)),
        .issued 0 (sessionId 1) (tokenOf (Bytes.replicate 32 0)), .presented (sessionId 1) [48, 48],
        .presented (sessionId 1) (tokenOf (Bytes.replicate 32 0))] := by decide +kernel
  have hshown : ((World.after sha256OfZeros zeroToken).step sha256OfZeros (.next 2 none)).events =
      (World.after sha256OfZeros zeroToken).events ++
        [.validated 2 (sessionId 1) (tokenOf (Bytes.replicate 32 0)) 1] := by decide +kernel
  have hsha : Set.InjOn sha256OfZeros (tokens (World.after sha256OfZeros zeroToken).events) := by
    have htwo : ∀ token ∈ tokens (World.after sha256OfZeros zeroToken).events,
        token = tokenOf (Bytes.replicate 32 0) ∨ token = [48, 48] := by
      rintro token (h | ⟨id, h⟩) <;> rw [hevents] at h <;> simp at h
      · exact .inl h
      · exact h.elim (fun h => .inr h.2) fun h => .inl h.2
    intro a ha b hb heq
    rcases htwo a ha with rfl | rfl <;> rcases htwo b hb with rfl | rfl
    · rfl
    · exact absurd heq (by decide +kernel)
    · exact absurd heq (by decide +kernel)
    · rfl
  refine ⟨?_, (token_opens_its_session sha256OfZeros zeroToken (.next 2 none) hsha).1 2 (sessionId 1)
    (tokenOf (Bytes.replicate 32 0)) 1 hshown⟩
  have hlast : World.after sha256OfZeros (zeroToken ++ [.next 2 none]) =
      (World.after sha256OfZeros zeroToken).step sha256OfZeros (.next 2 none) := by
    unfold World.after
    rw [List.foldl_append]
    rfl
  rw [hlast, hshown]
  exact List.mem_append_right _ (List.mem_singleton_self _)

end HxdNg.Session
