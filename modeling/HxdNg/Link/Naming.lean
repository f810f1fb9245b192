import HxdNg.Link.Tree

/-!
# By the time a link is established its peer has named all it shows

* `Unproven` : a server behind a link that the peer, back since, has not named;
* `Naming` : how far a session is with them, from its Hello to its snapshot;
* `Proven` : every link's; `proven_step` : every step keeps it; `established_named` : over every run.
-/

namespace HxdNg.Link

open Assoc (Map)

/-- Every server behind a link has been named since the peer's Hello. -/
def Live.Named (l : Live) (unnamed : List ServerId) : Prop := ∀ id ∈ unnamed, l.servers.get id = none

/-- A call made while a peer's Link Servers arrives. -/
def Call.naming : Call → Bool
  | .relayOpen | .settle => true
  | .take _ establishing | .accept _ _ establishing => establishing
  | _ => false

/-- What a link shows that its peer has not named is still to be confirmed, or about to go. -/
inductive Naming (t : Session) (l : Live) (unnamed : List ServerId) : Prop where
  | arriving (hphase : t.phase ≠ .established) (hcalls : ∀ c ∈ t.calls, c.naming = true)
      (hwait : ∀ id ∈ unnamed, (l.servers.get id).isSome → id ∈ l.unconfirmed)
  | forgetting (ids : List ServerId) (hphase : t.phase ≠ .established)
      (hcalls : t.calls = ids.map (Call.forget · none) ++ [Call.subscribe])
      (hwait : ∀ id ∈ unnamed, (l.servers.get id).isSome → id ∈ ids)
  | named (hnamed : l.Named unnamed)
  | closing (hphase : t.phase = .closing ∨ t.phase = .ended) (hcalls : t.calls = [])

/-- Every live link's session. -/
def Proven (w : World) : Prop :=
  ∀ n l t, w.state.view.get n = some l → w.sessions.get l.generation = some t →
    Naming t l (w.unnamed n)

section Naming
variable {t t' : Session} {l l' : Live} {unnamed : List ServerId} {c : Call} {later : List Call}

theorem Naming.congr (h : Naming t l unnamed) (hphase : t'.phase = t.phase)
    (hcalls : t'.calls = t.calls) : Naming t' l unnamed := by
  cases h with
  | arriving h1 h2 h3 => exact .arriving (hphase ▸ h1) (hcalls ▸ h2) h3
  | forgetting ids h1 h2 h3 => exact .forgetting ids (hphase ▸ h1) (hcalls.trans h2) h3
  | named h1 => exact .named h1
  | closing h1 h2 => exact .closing (hphase ▸ h1) (hcalls.trans h2)

theorem naming_closing (t : Session) (l : Live) (unnamed : List ServerId) :
    Naming t.closing l unnamed := .closing (.inl rfl) rfl

/-- Calls that come only after are made when all is named. -/
theorem Naming.past (h : Naming t l unnamed) (hcalls : t.calls = c :: later)
    (hnaming : c.naming = false) (hforget : ∀ id, c ≠ .forget id none) (hsubscribe : c ≠ .subscribe) :
    l.Named unnamed := by
  cases h with
  | arriving _ h2 _ =>
    have hc := h2 c (hcalls ▸ List.mem_cons_self)
    rw [hnaming] at hc
    cases hc
  | forgetting ids _ h2 _ =>
    rw [hcalls] at h2
    cases ids with
    | nil => exact absurd (List.cons.inj h2).1 hsubscribe
    | cons id ids => exact absurd (List.cons.inj h2).1 (hforget id)
  | named h1 => exact h1
  | closing _ h2 =>
    rw [hcalls] at h2
    cases h2

/-- A call while the peer is naming its servers: it goes on to others like it, unless all is named. -/
theorem Naming.during (h : Naming t l unnamed) (hcalls : t.calls = c :: later)
    (hnaming : c.naming = true) : l.Named unnamed ∨
      (t.phase ≠ .established ∧ (∀ c ∈ later, c.naming = true) ∧
        ∀ id ∈ unnamed, (l.servers.get id).isSome → id ∈ l.unconfirmed) := by
  cases h with
  | arriving h1 h2 h3 =>
    exact .inr ⟨h1, fun c hc => h2 c (hcalls ▸ List.mem_cons_of_mem _ hc), h3⟩
  | forgetting ids _ h2 _ =>
    rw [hcalls] at h2
    have hfalse : c.naming = false := by
      cases ids with
      | nil => rw [(List.cons.inj h2).1]; rfl
      | cons id ids => rw [(List.cons.inj h2).1]; rfl
    rw [hnaming] at hfalse
    cases hfalse
  | named h1 => exact .inl h1
  | closing _ h2 =>
    rw [hcalls] at h2
    cases h2

end Naming

section Proven
variable {cfg : Setup} {w w' : World} {g : Nat} {t t' : Session} {c : Call} {later : List Call}
  {l : Live}

/-- A step of one session, on its own link. -/
theorem Proven.act (h : Proven w) (hf : Fitted w) (ht : w.sessions.get g = some t)
    (hsessions : w'.sessions = w.sessions.set g t')
    (hother : ∀ n, n ≠ t.entry.name →
      w'.state.view.get n = w.state.view.get n ∧ w'.unnamed n = w.unnamed n)
    (hown : ∀ l, w'.state.view.get t.entry.name = some l →
      (l.generation = g ∧ Naming t' l (w'.unnamed t.entry.name)) ∨
      (l.generation ≠ g ∧ w.state.view.get t.entry.name = some l ∧
        w'.unnamed t.entry.name = w.unnamed t.entry.name)) : Proven w' := by
  intro n l t'' hl ht''
  rw [hsessions, Map.get_set] at ht''
  have hold : l.generation ≠ g → w.state.view.get n = some l → w'.unnamed n = w.unnamed n →
      Naming t'' l (w'.unnamed n) := by
    intro hg hl hunnamed
    rw [if_neg hg] at ht''
    rw [hunnamed]
    exact h n l t'' hl ht''
  by_cases hn : n = t.entry.name
  · subst hn
    rcases hown l hl with ⟨hg, hnaming⟩ | ⟨hg, hl, hunnamed⟩
    · rw [if_pos hg] at ht''
      obtain rfl := Option.some.inj ht''
      exact hnaming
    · exact hold hg hl hunnamed
  · obtain ⟨hview, hunnamed⟩ := hother n hn
    rw [hview] at hl
    exact hold (fun hg => hn (hf.name ht hl hg)) hl hunnamed

/-- A step of one session that leaves the tables as they are. -/
theorem Proven.quiet (h : Proven w) (hf : Fitted w) (ht : w.sessions.get g = some t)
    (hsessions : w'.sessions = w.sessions.set g t') (hview : w'.state.view = w.state.view)
    (hunnamed : w'.unnamed = w.unnamed)
    (hnaming : ∀ l, Naming t l (w.unnamed t.entry.name) → Naming t' l (w.unnamed t.entry.name)) :
    Proven w' := by
  refine h.act hf ht hsessions (fun n _ => ⟨by rw [hview], by rw [hunnamed]⟩) fun l hl => ?_
  rw [hview] at hl
  rw [hunnamed]
  by_cases hg : l.generation = g
  · exact .inl ⟨hg, hnaming l (h _ l t hl (by rw [hg]; exact ht))⟩
  · exact .inr ⟨hg, hl, rfl⟩

/-- A step of one session that changes its link. -/
theorem Proven.change (h : Proven w) (hf : Fitted w) {l l' : Live} (ht : w.sessions.get g = some t)
    (hsessions : w'.sessions = w.sessions.set g t') (hc : w.state.current t.entry.name g = some l)
    (hview : w'.state.view = w.state.view.set t.entry.name l') (hl' : l'.generation = l.generation)
    (hunnamed : ∀ n, n ≠ t.entry.name → w'.unnamed n = w.unnamed n)
    (hnaming : Naming t l.learned (w.unnamed t.entry.name) →
      Naming t' l' (w'.unnamed t.entry.name)) : Proven w' := by
  refine h.act hf ht hsessions (fun n hn => ⟨?_, hunnamed n hn⟩) fun l'' hl'' => ?_
  · rw [hview, Map.get_set, if_neg hn]
  · rw [hview, Map.get_set, if_pos rfl] at hl''
    obtain rfl := Option.some.inj hl''
    have hg := (current_eq_some hc).2
    refine .inl ⟨hl'.trans hg, hnaming (h _ l.learned t (view_of_current hc) ?_)⟩
    rw [learned_generation, hg]
    exact ht

theorem Proven.still (h : Proven w) (hview : w'.state.view = w.state.view)
    (hsessions : w'.sessions = w.sessions) (hunnamed : w'.unnamed = w.unnamed) : Proven w' := by
  intro n l t hl ht
  rw [hview] at hl
  rw [hsessions] at ht
  rw [hunnamed]
  exact h n l t hl ht

/-- A session that sends, or waits. -/
theorem Proven.sent (h : Proven w) (hf : Fitted w) (ht : w.sessions.get g = some t)
    (hsessions : w'.sessions = w.sessions.set g t') (hphase : t'.phase = t.phase)
    (hcalls : t'.calls = t.calls) (hview : w'.state.view = w.state.view)
    (hunnamed : w'.unnamed = w.unnamed) : Proven w' :=
  h.quiet hf ht hsessions hview hunnamed fun _ hn => hn.congr hphase hcalls

/-- A call made only once all is named, and that names nothing. -/
theorem Proven.after (h : Proven w) (hf : Fitted w) (ht : w.sessions.get g = some t)
    (hcalls : t.calls = c :: later) (hnaming : c.naming = false)
    (hforget : ∀ id, c ≠ .forget id none) (hsubscribe : c ≠ .subscribe)
    (hsessions : w'.sessions = w.sessions.set g t') (hunnamed : w'.unnamed = w.unnamed)
    (hview : w'.state.view = w.state.view ∨ ∃ l l', w.state.current t.entry.name g = some l ∧
      w'.state.view = w.state.view.set t.entry.name l' ∧ l'.generation = l.generation ∧
      ∀ id, l.servers.get id = none → l'.servers.get id = none) : Proven w' := by
  rcases hview with hview | ⟨l, l', hc, hview, hgen, hservers⟩
  · exact h.quiet hf ht hsessions hview hunnamed fun _ hn =>
      .named (hn.past hcalls hnaming hforget hsubscribe)
  · refine h.change hf ht hsessions hc hview hgen (fun n _ => by rw [hunnamed]) fun hn => ?_
    rw [hunnamed]
    exact .named fun id hid => hservers id (hn.past hcalls hnaming hforget hsubscribe id hid)

/-! ### A session's calls -/

theorem proven_greet (h : Proven w) (hf : Fitted w) (ht : w.sessions.get g = some t) (hello : Hello)
    (hcalls : t.calls = .greet hello :: later) (draw : Option UInt16) :
    Proven (w.perform cfg g { t with calls := later } draw (.greet hello)) := by
  unfold World.perform
  cases hok : acceptServer cfg.toConfig w.state t.entry.name g hello.server true with
  | error why =>
    dsimp only
    rw [hok]
    exact h.quiet hf ht rfl rfl rfl fun l _ => naming_closing _ l _
  | ok s =>
    dsimp only
    rw [hok]
    obtain ⟨l, hl⟩ := accepted_of_ok hok
    obtain ⟨-, hfits⟩ := hf.current ht hl.current
    have hbare : l.learned.Bare := by
      cases hfits.stage with
      | hello _ hbare _ _ => exact hbare
      | greeted _ hbare _ _ _ _ => exact hbare
      | opened _ hearly _ =>
        have := hearly (.greet hello) (hcalls ▸ List.mem_cons_self)
        cases this
      | closing _ hcalls' =>
        rw [hcalls] at hcalls'
        cases hcalls'
    have hservers : l.servers = Map.empty := hbare.servers
    refine h.change hf ht rfl hl.current hl.view_eq rfl
      (fun n hn => Function.update_of_ne hn _ _) fun _ => .named fun id _ => ?_
    rw [Bool.true_or]
    show l.servers.get id = none
    rw [hservers]
    rfl

theorem unconfirmed_back (l : Live) (held : Held) (epoch : Epoch) (features : UInt32) :
    (l.back (some held) epoch features).unconfirmed = held.servers.keys := by
  unfold Live.back
  dsimp only [Option.elim]
  split <;> rfl

theorem proven_resume (h : Proven w) (hf : Fitted w) (ht : w.sessions.get g = some t) (hello : Hello)
    (hcalls : t.calls = .resume hello :: later) (draw : Option UInt16) :
    Proven (w.perform cfg g { t with calls := later } draw (.resume hello)) := by
  unfold World.perform
  dsimp only
  rcases resume_eq w.state t.entry.name g hello.server.id hello.epoch t.features with
    ⟨hnone, heq⟩ | ⟨l, hc, hview, -, -, -⟩
  · rw [heq]
    refine h.act hf ht rfl (fun n _ => ⟨rfl, rfl⟩) fun l hl => .inr ⟨?_, hl, rfl⟩
    exact generation_of_current_none hnone hl
  · obtain ⟨-, hfits⟩ := hf.current ht hc
    have hstage : l.learned.Bare ∧ t.phase = .hello := by
      cases hfits.stage with
      | hello hphase hbare _ _ => exact ⟨hbare, hphase⟩
      | greeted hphase hbare _ _ _ _ => exact ⟨hbare, hphase⟩
      | opened _ hearly _ =>
        have := hearly (.resume hello) (hcalls ▸ List.mem_cons_self)
        cases this
      | closing _ hcalls' =>
        rw [hcalls] at hcalls'
        cases hcalls'
    obtain ⟨hbare, hphase⟩ := hstage
    obtain ⟨hgen', -, -, -⟩ := back_frame l.learned
      ((w.state.held.get t.entry.name).filter fun h => !h.lost hello.server.id t.features)
      hello.epoch t.features
    refine h.change hf ht rfl hc hview hgen' (fun _ _ => rfl) fun _ => .arriving ?_ ?_ ?_
    · rw [show ({ t with calls := [Call.relayOpen] } : Session).phase = t.phase from rfl, hphase]
      nofun
    · intro c hmem
      rw [List.mem_singleton.1 hmem]
      rfl
    · intro id _ hsome
      cases hheld : (w.state.held.get t.entry.name).filter fun h =>
          !h.lost hello.server.id t.features with
      | none =>
        rw [hheld] at hsome
        have hsome' : (l.learned.servers.get id).isSome := hsome
        rw [hbare.servers] at hsome'
        cases hsome'
      | some held =>
        rw [hheld, servers_back, hbare.servers, Map.extend_empty] at hsome
        rw [unconfirmed_back]
        exact Map.mem_keys_iff.2 hsome

/-- A call while the peer is naming its servers that leaves the tables as they are. -/
theorem Proven.pass (h : Proven w) (hf : Fitted w) (ht : w.sessions.get g = some t)
    (hcalls : t.calls = c :: later) (hnaming : c.naming = true)
    (hsessions : w'.sessions = w.sessions.set g t') (hview : w'.state.view = w.state.view)
    (hunnamed : w'.unnamed = w.unnamed) (hphase : t'.phase = .established → t.phase = .established)
    (hnext : ∀ c ∈ t'.calls, c.naming = true ∨ c ∈ later) : Proven w' := by
  refine h.quiet hf ht hsessions hview hunnamed fun l hn => ?_
  rcases hn.during hcalls hnaming with hnamed | ⟨hp, hlater, hwait⟩
  · exact .named hnamed
  · exact .arriving (fun he => hp (hphase he)) (fun c hc => (hnext c hc).elim id (hlater c)) hwait

theorem proven_take (h : Proven w) (hf : Fitted w) (ht : w.sessions.get g = some t)
    (group : ServerGroup) (establishing : Bool)
    (hcalls : t.calls = .take group establishing :: later) (draw : Option UInt16) :
    Proven (w.perform cfg g { t with calls := later } draw (.take group establishing)) := by
  have hnext : ∀ calls : List Call,
      (∀ c ∈ calls, c ∈ later ∨ ∃ known, c = .accept group known establishing) →
      Proven (w.putSession g { t with calls := calls }) := by
    intro calls hnext
    cases establishing with
    | false =>
      exact h.after hf ht hcalls rfl nofun nofun rfl rfl (.inl rfl)
    | true =>
      refine h.pass hf ht hcalls rfl rfl rfl rfl id fun c hc => ?_
      rcases hnext c hc with hc | ⟨known, rfl⟩
      · exact .inr hc
      · exact .inl rfl
  have hskip : Proven (w.putSession g { t with calls := later }) := hnext later fun c hc => .inl hc
  unfold World.perform
  dsimp only
  split
  · exact hskip
  split
  · exact hskip
  split
  · exact hskip
  refine hnext _ fun c hc => ?_
  rcases List.mem_cons.1 hc with rfl | hc
  · exact .inr ⟨_, rfl⟩
  · exact .inl hc

/-- A server accepted has been named, and no other comes to be shown. -/
theorem named_admitted {l : Live} {unnamed : List ServerId} (hn : l.Named unnamed)
    (group : ServerGroup) (own : Bool) :
    (l.admitted group own).Named (unnamed.filter fun id => id != group.id) := by
  intro id hid
  obtain ⟨hmem, hne⟩ := List.mem_filter.1 hid
  cases own with
  | true => exact hn id hmem
  | false =>
    show (l.servers.set group.id group).get id = none
    rw [Map.get_set, if_neg (bne_iff_ne.1 hne)]
    exact hn id hmem

theorem wait_admitted {l : Live} {unnamed : List ServerId}
    (hwait : ∀ id ∈ unnamed, (l.servers.get id).isSome → id ∈ l.unconfirmed) (group : ServerGroup)
    (own : Bool) : ∀ id ∈ unnamed.filter (fun id => id != group.id),
      ((l.admitted group own).servers.get id).isSome → id ∈ (l.admitted group own).unconfirmed := by
  intro id hid hsome
  obtain ⟨hmem, hne⟩ := List.mem_filter.1 hid
  have hold : (l.servers.get id).isSome := by
    cases own with
    | true => exact hsome
    | false =>
      have hsome' : ((l.servers.set group.id group).get id).isSome := hsome
      rw [Map.get_set, if_neg (bne_iff_ne.1 hne)] at hsome'
      exact hsome'
  have hin : id ∈ l.unconfirmed.filter fun id => id != group.id :=
    List.mem_filter.2 ⟨hwait id hmem hold, hne⟩
  cases own <;> exact hin

theorem proven_accept (h : Proven w) (hf : Fitted w) (ht : w.sessions.get g = some t)
    (group : ServerGroup) (known establishing : Bool)
    (hcalls : t.calls = .accept group known establishing :: later) (draw : Option UInt16) :
    Proven (w.perform cfg g { t with calls := later } draw (.accept group known establishing)) := by
  unfold World.perform
  dsimp only
  cases hok : acceptServer cfg.toConfig w.state t.entry.name g group false with
  | error why =>
    dsimp only
    by_cases hclose : (establishing || why == .loop) = true
    · rw [if_pos hclose]
      exact h.quiet hf ht rfl rfl rfl fun l _ => naming_closing _ l _
    · rw [if_neg hclose]
      rw [Bool.or_eq_true, not_or, Bool.not_eq_true] at hclose
      rw [hclose.1] at hcalls
      split <;> exact h.after hf ht hcalls rfl nofun nofun rfl rfl (.inl rfl)
  | ok s =>
    dsimp only
    obtain ⟨l, hl⟩ := accepted_of_ok hok
    have hgen : (l.learned.admitted group
        (false || l.peer.any fun q => q.id == group.id)).generation = l.generation := by
      unfold Live.admitted
      dsimp only
      split <;> rfl
    refine h.change hf ht rfl hl.current hl.view_eq hgen (fun n hn => Function.update_of_ne hn _ _)
      fun hn => ?_
    dsimp only [World.putSession]
    rw [Function.update_self]
    by_cases he : establishing = true
    · rcases hn.during hcalls he with hnamed | ⟨hp, hlater, hwait⟩
      · exact .named (named_admitted hnamed group _)
      · exact .arriving hp hlater (wait_admitted hwait group _)
    · exact .named (named_admitted
        (hn.past hcalls (Bool.not_eq_true _ ▸ he) nofun nofun) group _)

/-- A server forgotten is no longer shown. -/
theorem proven_forget (h : Proven w) (hf : Fitted w) (ht : w.sessions.get g = some t) (id : ServerId)
    (came : Option (List Field)) (hcalls : t.calls = .forget id came :: later)
    (draw : Option UInt16) :
    Proven (w.perform cfg g { t with calls := later } draw (.forget id came)) := by
  -- It goes, or was not shown.
  have hgo : ∀ {l l' : Live} {unnamed : List ServerId}, Naming t l unnamed →
      (∀ k, l'.servers.get k = if k = id then none else l.servers.get k) →
      Naming { t with calls := later } l' unnamed := by
    intro l l' unnamed hn hservers
    have hless : l.Named unnamed → l'.Named unnamed := by
      intro hn k hk
      rw [hservers, hn k hk, ite_self]
    cases hn with
    | arriving _ h2 _ =>
      have := h2 _ (hcalls ▸ List.mem_cons_self)
      cases this
    | forgetting ids h1 h2 h3 =>
      rw [hcalls] at h2
      cases ids with
      | nil => cases (List.cons.inj h2).1
      | cons k ids =>
        obtain ⟨hk, hrest⟩ := List.cons.inj h2
        obtain ⟨rfl, -⟩ := Call.forget.inj hk
        refine .forgetting ids h1 hrest fun k hk hsome => ?_
        rw [hservers] at hsome
        split at hsome
        · cases hsome
        next hne => exact (List.mem_cons.1 (h3 k hk hsome)).resolve_left hne
    | named h1 => exact .named (hless h1)
    | closing _ h2 =>
      rw [hcalls] at h2
      cases h2
  unfold World.perform
  dsimp only
  cases hc : w.state.current t.entry.name g with
  | none =>
    have heq : forgetServer w.state t.entry.name g id came = (w.state, []) := by
      rw [forgetServer, hc]
    rw [heq]
    refine h.act hf ht rfl (fun n _ => ⟨rfl, rfl⟩) fun l hl => .inr ⟨?_, hl, rfl⟩
    exact generation_of_current_none hc hl
  | some l =>
    rcases forgetServer_eq w.state t.entry.name g id came with
      ⟨heq, hnone⟩ | ⟨l', hcur, -, hview, -, -, -⟩
    · rw [heq]
      have hself : w.state.view = w.state.view.set t.entry.name l.learned :=
        (Map.set_self (view_of_current hc)).symm
      refine h.change hf ht rfl hc hself rfl (fun _ _ => rfl) fun hn => hgo hn fun k => ?_
      split
      next hk =>
        rw [hk]
        exact hnone l hc
      next => rfl
    · rw [hc] at hcur
      obtain rfl := Option.some.inj hcur
      exact h.change hf ht rfl hc hview rfl (fun _ _ => rfl) fun hn => hgo hn fun k => Map.get_drop _ _

theorem proven_settle (h : Proven w) (hf : Fitted w) (ht : w.sessions.get g = some t)
    (hcalls : t.calls = .settle :: later) (draw : Option UInt16) :
    Proven (w.perform cfg g { t with calls := later } draw .settle) := by
  unfold World.perform
  dsimp only
  rcases settle_eq w.state t.entry.name g with ⟨hnone, heq⟩ | ⟨l, hcur, hview, -, -, hgone⟩
  · rw [heq]
    refine h.act hf ht rfl (fun n _ => ⟨rfl, rfl⟩) fun l hl => .inr ⟨?_, hl, rfl⟩
    exact generation_of_current_none hnone hl
  · refine h.change hf ht rfl hcur hview rfl (fun _ _ => rfl) fun hn => ?_
    rcases hn.during hcalls rfl with hnamed | ⟨hp, -, hwait⟩
    · exact .named hnamed
    · refine .forgetting l.unconfirmed hp ?_ hwait
      rw [hgone]

theorem proven_subscribe (h : Proven w) (hf : Fitted w) (ht : w.sessions.get g = some t)
    (hcalls : t.calls = .subscribe :: later) (draw : Option UInt16) :
    Proven (w.perform cfg g { t with calls := later } draw .subscribe) := by
  have hq := quiet_subscribe w.state t.entry.name g
  unfold World.perform
  dsimp only
  rcases hs : subscribe w.state t.entry.name g with ⟨s, _ | taken⟩
  · exact h.quiet hf ht rfl rfl rfl fun l _ => naming_closing _ l _
  · rw [hs] at hq
    refine h.quiet hf ht rfl hq.view rfl fun l hn => ?_
    cases hn with
    | arriving _ h2 _ =>
      have := h2 _ (hcalls ▸ List.mem_cons_self)
      cases this
    | forgetting ids _ h2 h3 =>
      rw [hcalls] at h2
      -- All there was to forget is forgotten.
      cases ids with
      | nil =>
        refine .named fun id hid => ?_
        by_contra hsome
        exact List.not_mem_nil (h3 id hid (Option.isSome_iff_ne_none.2 hsome))
      | cons id ids => cases (List.cons.inj h2).1
    | named h1 => exact .named h1
    | closing _ h2 =>
      rw [hcalls] at h2
      cases h2

theorem proven_applyUser (h : Proven w) (hf : Fitted w) (ht : w.sessions.get g = some t)
    (u : UserGroup) (hcalls : t.calls = .applyUser u :: later) (draw : Option UInt16) :
    Proven (w.perform cfg g { t with calls := later } draw (.applyUser u)) := by
  unfold World.perform
  dsimp only
  generalize hok : applyUser w.state t.entry.name g u
    ((w.peers.find? fun p => p.name == t.entry.name).elim 0 PeerEntry.ghosts) cfg.maxGhosts
    w.core.length (draw.filter fun uid => !w.core.contains uid) = r
  rcases r with why | ⟨s, given⟩
  · exact h.after hf ht hcalls rfl nofun nofun rfl rfl (.inl rfl)
  · obtain ⟨l, uid, hcur, -, hview, -⟩ := applyUser_eq hok
    cases given <;> exact h.after hf ht hcalls rfl nofun nofun rfl rfl
      (.inr ⟨l, _, hcur, hview, rfl, fun _ hid => hid⟩)

theorem proven_asked (h : Proven w) (hf : Fitted w) (ht : w.sessions.get g = some t)
    (hcalls : t.calls = c :: later) (hnaming : c.naming = false)
    (hforget : ∀ id, c ≠ .forget id none) (hsubscribe : c ≠ .subscribe) (task : UInt32)
    (sent : Asker → Option (Except Reason State))
    (hsent : ∀ asker s, sent asker = some (.ok s) → Quiet w.state s) :
    Proven (w.asked g { t with calls := later } task sent) := by
  unfold World.asked
  dsimp only
  split
  next s hs =>
    exact h.after hf ht hcalls hnaming hforget hsubscribe rfl rfl (.inl (hsent _ s hs).view)
  next => exact h.after hf ht hcalls hnaming hforget hsubscribe rfl rfl (.inl rfl)

theorem proven_go (h : Proven w) (hf : Fitted w) (g : Nat) (draw : Option UInt16) :
    Proven (w.go cfg g draw) := by
  unfold World.go
  cases ht : w.sessions.get g with
  | none => exact h
  | some t =>
    dsimp only
    cases hcalls : t.calls with
    | nil => exact h
    | cons call later =>
      dsimp only
      cases call with
      | greet hello => exact proven_greet h hf ht hello hcalls draw
      | resume hello => exact proven_resume h hf ht hello hcalls draw
      | relayOpen =>
        have hq := quiet_relayOpen w.state t.entry.name g
        refine h.pass hf ht hcalls rfl rfl hq.view rfl (fun hp => ?_) fun c hc => .inr hc
        cases hp
      | take group establishing => exact proven_take h hf ht group establishing hcalls draw
      | accept group known establishing =>
        exact proven_accept h hf ht group known establishing hcalls draw
      | forget id came => exact proven_forget h hf ht id came hcalls draw
      | settle => exact proven_settle h hf ht hcalls draw
      | subscribe => exact proven_subscribe h hf ht hcalls draw
      | snapshot taken => exact h.after hf ht hcalls rfl nofun nofun rfl rfl (.inl rfl)
      | claimStale groups =>
        refine h.after hf ht hcalls rfl nofun nofun rfl rfl ?_
        rcases claimStale_eq w.state t.entry.name g groups with heq | ⟨l, hcur, hview, -⟩
        · exact .inl (congrArg (fun r : State × List Slot => r.1.view) heq)
        · obtain ⟨ghosts, stale, heq⟩ := claims_frame l.learned groups
          refine .inr ⟨l, _, hcur, hview, ?_, fun id hid => ?_⟩
          · rw [heq]
            rfl
          · rw [heq]
            exact hid
      | unlisted groups => exact h.after hf ht hcalls rfl nofun nofun rfl rfl (.inl rfl)
      | userGone id came =>
        refine h.after hf ht hcalls rfl nofun nofun rfl rfl ?_
        rcases userGone_eq w.state t.entry.name g id came with heq | ⟨l, slot, hcur, -, hview, -⟩
        · exact .inl (congrArg (fun r : State × List Slot => r.1.view) heq)
        · exact .inr ⟨l, _, hcur, hview, rfl, fun _ hid => hid⟩
      | applyUser u => exact proven_applyUser h hf ht u hcalls draw
      | chat id fields =>
        unfold World.perform
        dsimp only
        cases hok : chat w.state t.entry.name g id fields with
        | error why => exact h.after hf ht hcalls rfl nofun nofun rfl rfl (.inl rfl)
        | ok s =>
          exact h.after hf ht hcalls rfl nofun nofun rfl rfl (.inl (quiet_chat hok).view)
      | forward target request feature sender =>
        exact proven_asked h hf ht hcalls rfl nofun nofun _ _ fun _ _ hs => quiet_forward hs
      | requester id request =>
        unfold World.perform
        dsimp only
        split <;> exact h.after hf ht hcalls rfl nofun nofun rfl rfl (.inl rfl)
      | requestFor home request =>
        have hquiet : ∀ asker s, some ((requestFor w.state home request.ty request.fields
            (some t.entry.name) asker).mapError reasonOf) = some (Except.ok s) → Quiet w.state s :=
          fun _ _ hs => quiet_requestFor (mapError_eq_ok.1 (Option.some.inj hs))
        exact proven_asked h hf ht hcalls rfl nofun nofun request.trans _ hquiet

/-! ### Everything else -/

theorem proven_deliver (h : Proven w) (hf : Fitted w) (asker : Asker) (error : Bool)
    (fields : List Field) : Proven (w.deliver asker error fields) := by
  unfold World.deliver
  split
  · cases asker with
    | here n => exact h.still rfl rfl rfl
    | link g task n =>
      dsimp only
      cases ht : w.sessions.get g with
      | none => exact h.still rfl rfl rfl
      | some t =>
        dsimp only
        split
        · exact h.still rfl rfl rfl
        · exact h.sent hf ht rfl rfl rfl rfl rfl
  · exact h

/-- A part of the peer's Link Servers, or its Hello, names servers; later frames find all named. -/
theorem naming_read {unnamed : List ServerId} (hn : Naming t l unnamed) (ht : t.calls = [])
    (hphase : t.phase = .hello → l.Named unnamed) (ofKey : Bytes 32 → ServerId) (f : Frame) :
    Naming (t.read ofKey f) l unnamed := by
  cases hn with
  | named h1 => exact .named h1
  | closing h1 h2 =>
    unfold Session.read
    split
    · exact .closing h1 h2
    rcases h1 with h1 | h1
    · rw [h1]
      exact .closing (.inl h1) h2
    · rw [h1]
      exact .closing (.inr h1) h2
  | forgetting ids _ h2 _ =>
    rw [ht] at h2
    cases ids <;> cases h2
  | arriving h1 h2 h3 =>
    unfold Session.read
    split
    · exact .arriving h1 h2 h3
    cases hp : t.phase with
    | hello => exact .named (hphase hp)
    | established => exact absurd hp h1
    | closing => exact .closing (.inl hp) ht
    | ended => exact .closing (.inr hp) ht
    | servers =>
      dsimp only
      split
      · exact naming_closing t l unnamed
      unfold Session.readServers
      split
      · exact naming_closing t l unnamed
      cases ServerGroup.parseAll f.fields with
      | error e => exact naming_closing t l unnamed
      | ok groups =>
        refine .arriving h1 (fun c hc => ?_) h3
        rcases List.mem_append.1 hc with hc | hc
        · obtain ⟨group, -, rfl⟩ := List.mem_map.1 hc
          rfl
        · split at hc
          · exact (List.not_mem_nil hc).elim
          · rw [List.mem_singleton.1 hc]
            rfl

theorem proven_read (h : Proven w) (hf : Fitted w) (g : Nat) (f : Frame) :
    Proven (w.read cfg g f) := by
  unfold World.read
  cases hfound : (w.sessions.get g).filter fun t => t.calls.isEmpty with
  | none => exact h
  | some t =>
    obtain ⟨ht, hempty⟩ := Option.filter_eq_some_iff.1 hfound
    have hcalls : t.calls = [] := List.isEmpty_iff.1 hempty
    dsimp only
    split
    · cases (t.pending.get f.trans).filter fun _ => t.phase == .established with
      | none => exact h
      | some asker =>
        have hsent : Proven (w.putSession g { t with pending := t.pending.drop f.trans }) :=
          h.sent hf ht rfl rfl rfl rfl rfl
        have hfitted : Fitted (w.putSession g { t with pending := t.pending.drop f.trans }) :=
          hf.quiet ht rfl rfl (Quiet.refl _) fun _ _ _ hl => hl.congr rfl rfl rfl rfl
        exact proven_deliver hsent hfitted _ _ _
    · refine h.act hf ht rfl (fun n _ => ⟨rfl, rfl⟩) fun l hl => ?_
      by_cases hg : l.generation = g
      · refine .inl ⟨hg, naming_read (h _ l t hl (by rw [hg]; exact ht)) hcalls (fun hp => ?_) _ f⟩
        obtain ⟨t', ht', -, hfits⟩ := hf.session _ l hl
        rw [hg, ht] at ht'
        obtain rfl := Option.some.inj ht'
        have hbare : l.servers = Map.empty := by
          cases hfits.stage with
          | hello _ hbare _ _ => exact hbare.servers
          | greeted _ hbare _ _ _ _ => exact hbare.servers
          | opened _ _ h3 =>
            have := h3 hp
            rw [hcalls] at this
            cases this
          | closing h1 _ =>
            rw [hp] at h1
            rcases h1 with h1 | h1 <;> cases h1
        intro id _
        rw [hbare]
        rfl
      · exact .inr ⟨hg, hl, rfl⟩

theorem proven_ask (h : Proven w) (hf : Fitted w) (g : Nat) : Proven (w.ask g) := by
  unfold World.ask
  cases hs : w.sending g with
  | none => exact h
  | some found =>
    obtain ⟨t, c⟩ := found
    obtain ⟨ht, -⟩ := sending_some hs
    dsimp only
    cases c.requests with
    | nil => exact h
    | cons r rest =>
      dsimp only
      split
      · exact h.sent hf ht rfl rfl rfl rfl rfl
      · have hsent : Proven (World.putSession
            { w with state := { w.state with
              channels := w.state.channels.set g { c with requests := rest } } } g
            { t with pending := t.pending.filter fun kv => w.waiting.contains kv.2 }) :=
          h.sent hf ht rfl rfl rfl rfl rfl
        have hfitted : Fitted (World.putSession
            { w with state := { w.state with
              channels := w.state.channels.set g { c with requests := rest } } } g
            { t with pending := t.pending.filter fun kv => w.waiting.contains kv.2 }) :=
          hf.quiet ht rfl rfl ⟨rfl, rfl, rfl⟩ fun _ _ _ hl => hl.congr rfl rfl rfl rfl
        exact proven_deliver hsent hfitted _ _ _

theorem proven_finish (h : Proven w) (hf : Fitted w) (g : Nat) (interrupted : Bool) :
    Proven (w.finish g interrupted) := by
  unfold World.finish
  cases hfound : (w.sessions.get g).filter fun t => t.phase != .ended with
  | none => exact h
  | some t =>
    obtain ⟨ht, -⟩ := Option.filter_eq_some_iff.1 hfound
    dsimp only
    rcases unregister_eq w.state t.entry.name g interrupted with
      ⟨hnone, heq⟩ | ⟨l, hcur, hview, -, -, -⟩
    · rw [heq]
      refine h.act hf ht rfl (fun n _ => ⟨rfl, rfl⟩) fun l hl => .inr ⟨?_, hl, rfl⟩
      exact generation_of_current_none hnone hl
    · refine h.act hf ht rfl (fun n hn => ⟨?_, rfl⟩) fun l' hl' => ?_
      · show (unregister w.state t.entry.name g interrupted).1.view.get n = _
        rw [hview, Map.get_drop, if_neg hn]
      · have hl'' : (unregister w.state t.entry.name g interrupted).1.view.get t.entry.name =
            some l' := hl'
        rw [hview, Map.get_drop, if_pos rfl] at hl''
        cases hl''

theorem proven_start (h : Proven w) (hf : Fitted w) (entry : PeerEntry) :
    Proven (step cfg w (.start entry)) := by
  obtain ⟨hview, -⟩ := register_eq w.state entry.name
  intro n l t hl ht
  have hl' : (register w.state entry.name).1.view.get n = some l := hl
  have ht' : (w.sessions.set (w.state.generation + 1) { entry := entry }).get l.generation =
      some t := ht
  rw [hview] at hl'
  rcases Map.get_set_cases hl' with ⟨-, rfl⟩ | ⟨-, hl'⟩
  · exact .named fun id _ => rfl
  · rcases Map.get_set_cases ht' with ⟨hg, -⟩ | ⟨-, ht'⟩
    · obtain ⟨t', ht', -, -⟩ := hf.session n l hl'
      have := hf.bound _ _ ht'
      omega
    · exact h n l t hl' ht'

theorem view_forgetHeld (s : State) (peers : List String) : (forgetHeld s peers).1.view = s.view := by
  induction peers generalizing s with
  | nil => rfl
  | cons name peers ih => exact (ih (giveUp s name).1).trans (giveUp_eq s name).1

theorem proven_step (h : Proven w) (hf : Fitted w) (op : Op) : Proven (step cfg w op) := by
  cases op with
  | start entry => exact proven_start h hf entry
  | read g f => exact proven_read h hf g f
  | go g draw => exact proven_go h hf g draw
  | pass g =>
    show Proven (w.pass g)
    unfold World.pass
    cases hs : w.sending g with
    | none => exact h
    | some found =>
      obtain ⟨ht, -⟩ := sending_some hs
      dsimp only
      cases found.2.relays with
      | nil => exact h
      | cons r rest => exact h.sent hf ht rfl rfl rfl rfl rfl
  | ask g => exact proven_ask h hf g
  | ping g =>
    show Proven ((w.sessions.get g).elim w _)
    cases ht : w.sessions.get g with
    | none => exact h
    | some t => exact h.sent hf ht rfl rfl rfl rfl rfl
  | finish g interrupted => exact proven_finish h hf g interrupted
  | expire p g => exact h.still (expire_eq w.state p g).1 rfl rfl
  | part i =>
    show Proven (w.part i)
    unfold World.part
    cases w.leaving[i]? <;> exact h.still rfl rfl rfl
  | suspend peers =>
    have hq := quiet_mapVals w.state (fun name l => if name ∈ peers then l.tell .suspended else l)
      fun n l => by
        split
        · exact learned_tell _ _
        · rfl
    exact h.still ((view_forgetHeld _ peers).trans hq.view) rfl rfl
  | reload peers =>
    have hq := quiet_mapVals w.state
      (fun name l => (closedBy w.peers peers name).elim l fun why => l.tell why) fun n l => by
        cases closedBy w.peers peers n with
        | none => rfl
        | some why => exact learned_tell _ _
    exact h.still ((view_forgetHeld _ _).trans hq.view) rfl rfl
  | shutDown => exact h.still (quiet_shutDown w.state).view rfl rfl
  | request uid feature ty build =>
    show Proven (w.asks _)
    unfold World.asks
    dsimp only
    cases hs : request w.state uid feature ty build (.here w.askers) with
    | error why => exact h
    | ok s => exact h.still (quiet_request hs).view rfl rfl
  | requestFor home ty fields =>
    show Proven (w.asks _)
    unfold World.asks
    dsimp only
    cases hs : requestFor w.state home ty fields none (.here w.askers) with
    | error why => exact h
    | ok s => exact h.still (quiet_requestFor hs).view rfl rfl
  | giveUp asker => exact proven_deliver h hf asker _ _

end Proven

theorem proven_run (cfg : Setup) (peers : List PeerEntry) (ops : List Op) :
    Proven (run cfg peers ops) := by
  induction ops using List.reverseRecOn with
  | nil => exact fun n l t hl => (by cases hl)
  | append_singleton ops op ih =>
    rw [run, List.foldl_append]
    exact proven_step ih (good_run cfg peers ops).fitted op

end HxdNg.Link
