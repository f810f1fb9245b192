import HxdNg.Link.Naming

/-!
# Tags are unique, but for what a peer that is back has not named yet

A peer that reconnects may come back under a tag that a server held for it had: the hold is the
peer's own, and is not looked at until its Link Servers names what it still has.

* `State.newest` : the servers shown, each once, as its newest group says it;
* `Marked` : one link's servers, apart but for those not named since the peer's Hello;
* `Tagged` : every link's, and its peer beside what is held for it; `tagged_move` : every move keeps it;
* `tags_unique_but_unnamed` : over every run; `traded_tag` : a run on which a peer's tag is a held server's.
-/

namespace HxdNg.Link

open Assoc (Map)

/-- The servers known under a peer, each once: as the live link says it, else as held. -/
def State.newest (s : State) (n : String) : List ServerGroup :=
  (s.links.get n).elim [] Live.known ++
    ((s.held.get n).elim [] Held.known).filter fun g =>
      !(s.links.get n).any fun l => l.knows g.id

/-- A peer and the servers behind it share no tag, but for the peer's with a server that it has not
named since its Hello. -/
structure Marked (own : Option ServerGroup) (servers : Map ServerId ServerGroup)
    (unnamed : List ServerId) : Prop where
  apart : ∀ id id' g g', servers.get id = some g → servers.get id' = some g' → id ≠ id' →
    sameTag g.tag g'.tag = false
  peer : ∀ p, own = some p → ∀ id g, servers.get id = some g → sameTag p.tag g.tag = true →
    id ∈ unnamed

structure Tagged (T : Tables) : Prop where
  live : ∀ n l, T.live.get n = some l → Marked l.peer l.servers (T.unnamed n)
  held : ∀ n h, T.held.get n = some h → Marked (some h.peer) h.servers (T.unnamed n)
  back : ∀ n l h own, T.live.get n = some l → T.held.get n = some h → l.peer = some own →
    ∀ g ∈ h.known, g.id ≠ own.id → sameTag own.tag g.tag = true → g.id ∈ T.unnamed n
  bare : ∀ n l, T.live.get n = some l → l.epoch = none → ∀ id, l.servers.get id = none

section Marked
variable {own : Option ServerGroup} {servers : Map ServerId ServerGroup} {unnamed : List ServerId}

theorem marked_none (h : ∀ id, servers.get id = none) : Marked own servers unnamed where
  apart id _ g _ hg _ _ := by
    rw [h id] at hg
    cases hg
  peer _ _ id g hg _ := by
    rw [h id] at hg
    cases hg

theorem Marked.drop (h : Marked own servers unnamed) (id : ServerId) :
    Marked own (servers.drop id) unnamed where
  apart k k' g g' hg hg' hne := by
    rw [Map.get_drop] at hg hg'
    split at hg
    · cases hg
    split at hg'
    · cases hg'
    exact h.apart k k' g g' hg hg' hne
  peer p hp k g hg hsame := by
    rw [Map.get_drop] at hg
    split at hg
    · cases hg
    exact h.peer p hp k g hg hsame

/-- The peer described anew, under a tag no server behind it has. -/
theorem Marked.renamed {group : ServerGroup} (h : Marked own servers unnamed)
    (hfree : ∀ id g, servers.get id = some g → sameTag g.tag group.tag = false)
    (left : List ServerId) : Marked (some group) servers left where
  apart := h.apart
  peer p hp id g hg hsame := by
    obtain rfl := Option.some.inj hp
    rw [sameTag_comm, hfree id g hg] at hsame
    cases hsame

/-- One more server named, under a tag that neither the peer nor another has. -/
theorem Marked.named {group : ServerGroup} (h : Marked own servers unnamed)
    (hpeer : ∀ p, own = some p → sameTag p.tag group.tag = false)
    (hfree : ∀ id g, servers.get id = some g → id ≠ group.id → sameTag g.tag group.tag = false) :
    Marked own (servers.set group.id group) (unnamed.filter fun id => id != group.id) where
  apart id id' g g' hg hg' hne := by
    rw [Map.get_set] at hg hg'
    by_cases hid : id = group.id
    · rw [if_pos hid] at hg
      rw [if_neg fun hid' => hne (hid.trans hid'.symm)] at hg'
      obtain rfl := Option.some.inj hg
      rw [sameTag_comm]
      exact hfree id' g' hg' fun hid' => hne (hid.trans hid'.symm)
    · rw [if_neg hid] at hg
      by_cases hid' : id' = group.id
      · rw [if_pos hid'] at hg'
        obtain rfl := Option.some.inj hg'
        exact hfree id g hg hid
      · rw [if_neg hid'] at hg'
        exact h.apart id id' g g' hg hg' hne
  peer p hp id g hg hsame := by
    rw [Map.get_set] at hg
    by_cases hid : id = group.id
    · rw [if_pos hid] at hg
      obtain rfl := Option.some.inj hg
      rw [hpeer p hp] at hsame
      cases hsame
    · rw [if_neg hid] at hg
      exact List.mem_filter.2 ⟨h.peer p hp id g hg hsame, bne_iff_ne.2 hid⟩

end Marked

section Tagged
variable {cfg : Config} {T T' : Tables} {p : String} {l l' : Live}

/-- A change of one link that leaves its peer as it was, and no server it had not. -/
theorem Tagged.same (h : Tagged T) (hl : T.live.get p = some l)
    (hlive : T'.live = T.live.set p l') (hheld : T'.held = T.held) (hunnamed : T'.unnamed = T.unnamed)
    (hpeer : l'.peer = l.peer) (he : l'.epoch = l.epoch)
    (hservers : l'.servers = l.servers ∨ ∃ id, l'.servers = l.servers.drop id) : Tagged T' := by
  have hmarked : Marked l'.peer l'.servers (T.unnamed p) := by
    rw [hpeer]
    rcases hservers with hs | ⟨id, hs⟩
    · rw [hs]
      exact h.live p l hl
    · rw [hs]
      exact (h.live p l hl).drop id
  refine ⟨fun n l₀ hl₀ => ?_, fun n held hh => ?_, fun n l₀ held own hl₀ hh hown => ?_,
    fun n l₀ hl₀ hepoch => ?_⟩
  · rw [hlive, Map.get_set] at hl₀
    rw [hunnamed]
    by_cases hn : n = p
    · rw [if_pos hn] at hl₀
      obtain rfl := Option.some.inj hl₀
      rw [hn]
      exact hmarked
    · rw [if_neg hn] at hl₀
      exact h.live n l₀ hl₀
  · rw [hheld] at hh
    rw [hunnamed]
    exact h.held n held hh
  · rw [hlive, Map.get_set] at hl₀
    rw [hheld] at hh
    rw [hunnamed]
    by_cases hn : n = p
    · rw [if_pos hn] at hl₀
      obtain rfl := Option.some.inj hl₀
      exact h.back n l held own (hn ▸ hl) hh (hpeer ▸ hown)
    · rw [if_neg hn] at hl₀
      exact h.back n l₀ held own hl₀ hh hown
  · rw [hlive, Map.get_set] at hl₀
    by_cases hn : n = p
    · rw [if_pos hn] at hl₀
      obtain rfl := Option.some.inj hl₀
      have hbare := h.bare p l hl (he ▸ hepoch)
      intro id
      rcases hservers with hs | ⟨k, hs⟩
      · rw [hs]
        exact hbare id
      · rw [hs, Map.get_drop, hbare id, ite_self]
    · rw [if_neg hn] at hl₀
      exact h.bare n l₀ hl₀ hepoch

/-- Fewer links, and fewer held. -/
theorem Tagged.fewer (h : Tagged T) (hunnamed : T'.unnamed = T.unnamed)
    (hlive : ∀ n l, T'.live.get n = some l → T.live.get n = some l)
    (hheld : ∀ n h, T'.held.get n = some h → T.held.get n = some h) : Tagged T' where
  live n l hl := by
    rw [hunnamed]
    exact h.live n l (hlive n l hl)
  held n held hh := by
    rw [hunnamed]
    exact h.held n held (hheld n held hh)
  back n l held own hl hh := by
    rw [hunnamed]
    exact h.back n l held own (hlive n l hl) (hheld n held hh)
  bare n l hl := h.bare n l (hlive n l hl)

/-- What an interrupted link is kept as is what it knew. -/
theorem marked_kept (h : Tagged T) (hl : T.live.get p = some l) {n : String} {held : Held}
    (hh : (l.kept.elim T.held (T.held.set p)).get n = some held) :
    Marked (some held.peer) held.servers (T.unnamed n) := by
  cases hk : l.kept with
  | none =>
    rw [hk] at hh
    exact h.held n held hh
  | some kept =>
    rw [hk] at hh
    rcases Map.get_set_cases hh with ⟨rfl, rfl⟩ | ⟨-, hh⟩
    · obtain ⟨own, hown, hk⟩ := Option.bind_eq_some_iff.1 hk
      obtain ⟨epoch, -, rfl⟩ := Option.map_eq_some_iff.1 hk
      rw [← hown]
      exact h.live n l hl
    · exact h.held n held hh

theorem held_kept_other {l : Live} {T : Tables} {n : String} {held : Held} (hn : n ≠ p)
    (hh : (l.kept.elim T.held (T.held.set p)).get n = some held) : T.held.get n = some held := by
  cases hk : l.kept with
  | none =>
    rw [hk] at hh
    exact hh
  | some kept =>
    rw [hk] at hh
    exact ((Map.get_set_cases hh).resolve_left fun hx => hn hx.1).2

theorem tagged_start (h : Tagged T) (p : String) (g : Nat) {leaving : List Slot}
    {core attached parted : List UInt16} :
    Tagged ⟨T.live.set p (fresh g), ((T.live.get p).bind Live.kept).elim T.held (T.held.set p), leaving,
      core, attached, parted, T.unnamed⟩ where
  live n l hl := by
    rcases Map.get_set_cases hl with ⟨-, rfl⟩ | ⟨-, hl⟩
    · exact marked_none fun id => rfl
    · exact h.live n l hl
  held n held hh := by
    cases hl : T.live.get p with
    | none =>
      rw [hl] at hh
      exact h.held n held hh
    | some l =>
      rw [hl] at hh
      exact marked_kept h hl hh
  back n l held own hl hh hown := by
    rcases Map.get_set_cases hl with ⟨-, rfl⟩ | ⟨hn, hl⟩
    · cases hown
    · have hh' : T.held.get n = some held := by
        cases hl' : T.live.get p with
        | none =>
          rw [hl'] at hh
          exact hh
        | some l' =>
          rw [hl'] at hh
          exact held_kept_other hn hh
      exact h.back n l held own hl hh' hown
  bare n l hl he := by
    rcases Map.get_set_cases hl with ⟨-, rfl⟩ | ⟨-, hl⟩
    · exact fun id => rfl
    · exact h.bare n l hl he

theorem tagged_interrupt (h : Tagged T) (hl : T.live.get p = some l) {leaving : List Slot}
    {core attached parted : List UInt16} :
    Tagged ⟨T.live.drop p, l.kept.elim T.held (T.held.set p), leaving, core, attached, parted,
      T.unnamed⟩ where
  live n l' hl' := h.live n l' (Map.get_drop_some hl').2
  held n held hh := marked_kept h hl hh
  back n l' held own hl' hh := by
    obtain ⟨hn, hl'⟩ := Map.get_drop_some hl'
    exact h.back n l' held own hl' (held_kept_other hn hh)
  bare n l' hl' := h.bare n l' (Map.get_drop_some hl').2

/-- What is held for a peer is all unnamed at its Hello. -/
theorem tagged_greet (h : Tagged T) (htree : Tree cfg T) (group : ServerGroup)
    (hl : T.live.get p = some l) (hbare : l.Bare) {leaving : List Slot}
    {core attached parted : List UInt16} :
    Tagged ⟨T.live.set p (l.admitted group true), T.held, leaving, core, attached, parted,
      Function.update T.unnamed p ((T.held.get p).elim [] fun h => h.known.map ServerGroup.id)⟩ := by
  have hnone : ∀ id, l.servers.get id = none := h.bare p l hl hbare.epoch
  refine ⟨fun n l' hl' => ?_, fun n held hh => ?_, fun n l' held own hl' hh hown g hg _ hsame => ?_,
    fun n l' hl' he => ?_⟩
  · rcases Map.get_set_cases hl' with ⟨-, rfl⟩ | ⟨hn, hl'⟩
    · exact marked_none hnone
    · dsimp only
      rw [Function.update_of_ne hn]
      exact h.live n l' hl'
  · have hh' : T.held.get n = some held := hh
    by_cases hn : n = p
    · subst hn
      dsimp only
      rw [Function.update_self, hh']
      have hold := h.held n held hh'
      refine ⟨hold.apart, fun own _ id g hg _ => ?_⟩
      refine List.mem_map.2 ⟨g, mem_held_known.2 (.inr ⟨id, hg⟩), ?_⟩
      exact (htree.held n held hh').keyed id g hg
    · dsimp only
      rw [Function.update_of_ne hn]
      exact h.held n held hh'
  · have hh' : T.held.get n = some held := hh
    rcases Map.get_set_cases hl' with ⟨rfl, -⟩ | ⟨hn, hl'⟩
    · dsimp only
      rw [Function.update_self, hh']
      exact List.mem_map.2 ⟨g, hg, rfl⟩
    · dsimp only
      rw [Function.update_of_ne hn]
      exact h.back n l' held own hl' hh' hown g hg ‹_› hsame
  · rcases Map.get_set_cases hl' with ⟨-, rfl⟩ | ⟨-, hl'⟩
    · exact hnone
    · exact h.bare n l' hl' he

theorem tagged_resume (h : Tagged T) (htree : Tree cfg T) {own : ServerGroup} {server : ServerId}
    (epoch : Epoch) (features : UInt32) (hl : T.live.get p = some l) (hbare : l.Bare)
    (hpeer : l.peer = some own) (hid : own.id = server) {leaving : List Slot}
    {core attached parted : List UInt16} :
    Tagged ⟨T.live.set p
        (l.back ((T.held.get p).filter fun h => !h.lost server features) epoch features),
      T.held.drop p, leaving, core, attached, parted, T.unnamed⟩ := by
  obtain ⟨-, hepoch, -, hpeer'⟩ := back_frame l
    ((T.held.get p).filter fun h => !h.lost server features) epoch features
  have hmarked : Marked
      (l.back ((T.held.get p).filter fun h => !h.lost server features) epoch features).peer
      (l.back ((T.held.get p).filter fun h => !h.lost server features) epoch features).servers
      (T.unnamed p) := by
    rw [hpeer', hpeer]
    cases hf : (T.held.get p).filter fun h => !h.lost server features with
    | none => exact marked_none (h.bare p l hl hbare.epoch)
    | some held =>
      obtain ⟨hget, hlost⟩ := Option.filter_eq_some_iff.1 hf
      rw [servers_back, hbare.servers, Map.extend_empty]
      refine ⟨(h.held p held hget).apart, fun own' hown' id g hg hsame => ?_⟩
      obtain rfl := Option.some.inj hown'
      have htable := htree.held p held hget
      have hg' : g.id = id := htable.keyed id g hg
      have hsame' : held.peer.id = own.id := by
        rw [hid]
        exact not_lost_id hlost
      rw [← hg']
      refine h.back p l held own hl hget hpeer g (mem_held_known.2 (.inr ⟨id, hg⟩)) (fun heq => ?_) hsame
      have hnone := htable.peer held.peer rfl
      rw [hsame', ← heq, hg', hg] at hnone
      cases hnone
  refine ⟨fun n l' hl' => ?_, fun n held hh => h.held n held (Map.get_drop_some hh).2,
    fun n l' held own' hl' hh => ?_, fun n l' hl' he => ?_⟩
  · rcases Map.get_set_cases hl' with ⟨rfl, rfl⟩ | ⟨hn, hl'⟩
    · exact hmarked
    · exact h.live n l' hl'
  · obtain ⟨hn, hh⟩ := Map.get_drop_some hh
    exact h.back n l' held own' ((Map.get_set_cases hl').resolve_left fun hx => hn hx.1).2 hh
  · rcases Map.get_set_cases hl' with ⟨-, rfl⟩ | ⟨-, hl'⟩
    · rw [hepoch] at he
      cases he
    · exact h.bare n l' hl' he

theorem tagged_accept (h : Tagged T) (htree : Tree cfg T) {own : ServerGroup} (group : ServerGroup)
    (hl : T.live.get p = some l) (hepoch : l.epoch.isSome) (hpeer : l.peer = some own)
    (hok : Admits cfg T p group) {leaving : List Slot} {core attached parted : List UInt16} :
    Tagged ⟨T.live.set p (l.admitted group (own.id == group.id)), T.held, leaving, core, attached,
      parted, Function.update T.unnamed p ((T.unnamed p).filter fun id => id != group.id)⟩ := by
  have hnone : T.held.get p = none := htree.settled p l hl hepoch
  have htable := htree.live p l hl
  have hknown : ∀ id g, l.servers.get id = some g → g.id ≠ group.id →
      sameTag g.tag group.tag = false := fun id g hg hne =>
    (hok.live p l hl g (mem_live_known.2 (.inr ⟨id, hg⟩))).2 hne
  have hmarked : Marked (l.admitted group (own.id == group.id)).peer
      (l.admitted group (own.id == group.id)).servers
      ((T.unnamed p).filter fun id => id != group.id) := by
    by_cases hid : own.id = group.id
    · rw [Live.admitted, if_pos (beq_iff_eq.2 hid)]
      refine (h.live p l hl).renamed (fun id g hg => hknown id g hg fun heq => ?_) _
      have hno := htable.peer own hpeer
      rw [hid, ← heq, htable.keyed id g hg, hg] at hno
      cases hno
    · rw [Live.admitted, if_neg fun hb => hid (beq_iff_eq.1 hb)]
      refine (h.live p l hl).named (fun q hq => ?_) fun id g hg hne => hknown id g hg ?_
      · have hq' : l.peer = some q := hq
        rw [hpeer] at hq'
        obtain rfl := Option.some.inj hq'
        exact (hok.live p l hl own (mem_live_known.2 (.inl hpeer))).2 hid
      · rw [htable.keyed id g hg]
        exact hne
  have hepoch' : (l.admitted group (own.id == group.id)).epoch = l.epoch := by
    unfold Live.admitted
    dsimp only
    split <;> rfl
  refine ⟨fun n l' hl' => ?_, fun n held hh => ?_, fun n l' held own' hl' hh => ?_,
    fun n l' hl' he => ?_⟩
  · rcases Map.get_set_cases hl' with ⟨rfl, rfl⟩ | ⟨hn, hl'⟩
    · dsimp only
      rw [Function.update_self]
      exact hmarked
    · dsimp only
      rw [Function.update_of_ne hn]
      exact h.live n l' hl'
  · have hh' : T.held.get n = some held := hh
    have hn : n ≠ p := by
      rintro rfl
      rw [hnone] at hh'
      cases hh'
    dsimp only
    rw [Function.update_of_ne hn]
    exact h.held n held hh'
  · have hh' : T.held.get n = some held := hh
    have hn : n ≠ p := by
      rintro rfl
      rw [hnone] at hh'
      cases hh'
    dsimp only
    rw [Function.update_of_ne hn]
    exact h.back n l' held own' ((Map.get_set_cases hl').resolve_left fun hx => hn hx.1).2 hh'
  · rcases Map.get_set_cases hl' with ⟨-, rfl⟩ | ⟨-, hl'⟩
    · rw [hepoch'] at he
      rw [he] at hepoch
      cases hepoch
    · exact h.bare n l' hl' he

theorem tagged_move (h : Tagged T) (htree : Tree cfg T) (hmove : Move cfg T T') : Tagged T' := by
  cases hmove with
  | start p g => exact tagged_start h p g
  | greet group hl hbare hpeer hok => exact tagged_greet h htree group hl hbare
  | resume epoch features hl hbare hpeer hid =>
    exact tagged_resume h htree epoch features hl hbare hpeer hid
  | settle hl => exact h.same hl rfl rfl rfl rfl rfl (.inl rfl)
  | accept group hl hepoch hpeer hroom hok => exact tagged_accept h htree group hl hepoch hpeer hok
  | forget id hl => exact h.same hl rfl rfl rfl rfl rfl (.inr ⟨id, rfl⟩)
  | applyKnown u hl hepoch hhome hslot => exact h.same hl rfl rfl rfl rfl rfl (.inl rfl)
  | applyNew u uid hl hepoch hhome hslot hfresh => exact h.same hl rfl rfl rfl rfl rfl (.inl rfl)
  | gone hl hslot => exact h.same hl rfl rfl rfl rfl rfl (.inl rfl)
  | @claim p l groups hl hepoch =>
    obtain ⟨ghosts, stale, heq⟩ := claims_frame l groups
    refine h.same hl rfl rfl rfl ?_ ?_ (.inl ?_)
    · rw [heq]
    · rw [heq]
    · rw [heq]
  | interrupt hl => exact tagged_interrupt h hl
  | ended hl =>
    exact h.fewer rfl (fun _ _ hl => (Map.get_drop_some hl).2) fun _ _ hh => (Map.get_drop_some hh).2
  | giveUp hh => exact h.fewer rfl (fun _ _ hl => hl) fun _ _ hh => (Map.get_drop_some hh).2
  | part hi => exact h.fewer rfl (fun _ _ hl => hl) fun _ _ hh => hh

theorem tagged_run (cfg : Setup) (peers : List PeerEntry) (ops : List Op) :
    Tagged (run cfg peers ops).tables := by
  refine tables_run cfg peers ops ⟨fun n l hl => ?_, fun n h hh => ?_, fun n l h own hl => ?_,
    fun n l hl => ?_⟩ fun _ _ htree h hmove => tagged_move h htree hmove
  · cases hl
  · cases hh
  · cases hl
  · cases hl

end Tagged

/-! ## Over every run -/

/-- `g` is `n`'s peer, as its live link has it or as it is held. -/
def State.isPeer (s : State) (n : String) (g : ServerGroup) : Prop :=
  (∃ l, s.links.get n = some l ∧ l.peer = some g) ∨ ∃ h, s.held.get n = some h ∧ h.peer = g

theorem newest_cases {s : State} {n : String} {g : ServerGroup} (hg : g ∈ s.newest n) :
    (∃ l, s.links.get n = some l ∧ g ∈ l.known) ∨
      ∃ h, s.held.get n = some h ∧ g ∈ h.known ∧
        ∀ l, s.links.get n = some l → ∀ g' ∈ l.known, g'.id ≠ g.id := by
  rcases List.mem_append.1 hg with hg | hg
  · cases hl : s.links.get n with
    | none => rw [hl] at hg; cases hg
    | some l => exact .inl ⟨l, rfl, by rw [hl] at hg; exact hg⟩
  · obtain ⟨hg, hnew⟩ := List.mem_filter.1 hg
    cases hh : s.held.get n with
    | none => rw [hh] at hg; cases hg
    | some h =>
      refine .inr ⟨h, rfl, by rw [hh] at hg; exact hg, fun l hl g' hg' heq => ?_⟩
      rw [hl, Option.any_some, Bool.not_eq_true', Live.knows, List.any_eq_false] at hnew
      exact hnew g' hg' (beq_iff_eq.2 heq)

section Newest
variable {cfg : Setup} {w : World} {n m : String} {g g' : ServerGroup}

theorem known_of_newest (hg : g ∈ w.state.newest n) : g ∈ w.tables.known n := by
  rcases newest_cases hg with ⟨l, hl, hg⟩ | ⟨h, hh, hg, -⟩
  · exact mem_known_live (live_of_links hl) hg
  · exact mem_known_held hh hg

theorem held_known {h : Held} (hg : g ∈ h.known) :
    some h.peer = some g ∨ ∃ id, h.servers.get id = some g :=
  (mem_held_known.1 hg).imp_left fun heq => congrArg some heq.symm

/-- In one table a server is described once. -/
theorem Table.once {peer : Option ServerGroup} {servers : Map ServerId ServerGroup}
    (h : Table peer servers) (hg : peer = some g ∨ ∃ id, servers.get id = some g)
    (hg' : peer = some g' ∨ ∃ id, servers.get id = some g') (hid : g.id = g'.id) : g = g' := by
  have hapart : ∀ {a b : ServerGroup}, peer = some a → (∃ id, servers.get id = some b) →
      a.id = b.id → a = b := by
    rintro a b ha ⟨id, hb⟩ heq
    have hnone := h.peer a ha
    rw [heq, h.keyed id b hb, hb] at hnone
    cases hnone
  rcases hg with hg | ⟨id, hg⟩ <;> rcases hg' with hg' | ⟨id', hg'⟩
  · exact Option.some.inj (hg.symm.trans hg')
  · exact hapart hg ⟨id', hg'⟩ hid
  · exact (hapart hg' ⟨id, hg⟩ hid.symm).symm
  · rw [← h.keyed id g hg, hid, h.keyed id' g' hg', hg', Option.some.injEq] at hg
    exact hg.symm

/-- Two servers of one table under one tag: one is the peer, and has not named the other. -/
theorem Marked.clash {peer : Option ServerGroup} {servers : Map ServerId ServerGroup}
    {unnamed : List ServerId} (h : Marked peer servers unnamed) (htable : Table peer servers)
    (hg : peer = some g ∨ ∃ id, servers.get id = some g)
    (hg' : peer = some g' ∨ ∃ id, servers.get id = some g') (hid : g.id ≠ g'.id)
    (hsame : sameTag g.tag g'.tag = true) :
    (peer = some g ∧ g'.id ∈ unnamed) ∨ (peer = some g' ∧ g.id ∈ unnamed) := by
  rcases hg with hg | ⟨id, hg⟩ <;> rcases hg' with hg' | ⟨id', hg'⟩
  · exact absurd (congrArg ServerGroup.id (Option.some.inj (hg.symm.trans hg'))) hid
  · rw [htable.keyed id' g' hg']
    exact .inl ⟨hg, h.peer g hg id' g' hg' hsame⟩
  · rw [htable.keyed id g hg]
    rw [sameTag_comm] at hsame
    exact .inr ⟨hg', h.peer g' hg' id g hg hsame⟩
  · rw [htable.keyed id g hg, htable.keyed id' g' hg'] at hid
    rw [h.apart id id' g g' hg hg' hid] at hsame
    cases hsame

/-- A link beside which something is held shows its peer only. -/
theorem peer_of_beside {T : Tables} {l : Live} {h : Held} (htree : Tree cfg.toConfig T)
    (ht : Tagged T) (hl : T.live.get n = some l) (hh : T.held.get n = some h) (hg : g ∈ l.known) :
    l.peer = some g := by
  have hepoch : l.epoch = none := by
    by_contra hs
    have hsettled := htree.settled n l hl (Option.isSome_iff_ne_none.2 hs)
    rw [hh] at hsettled
    cases hsettled
  rcases mem_live_known.1 hg with hg | ⟨id, hg⟩
  · exact hg
  · rw [ht.bare n l hl hepoch id] at hg
    cases hg

theorem newest_once (htree : Tree cfg.toConfig w.tables) (hg : g ∈ w.state.newest n)
    (hg' : g' ∈ w.state.newest n) (hid : g.id = g'.id) : g = g' := by
  rcases newest_cases hg with ⟨l, hl, hg⟩ | ⟨h, hh, hg, hnew⟩ <;>
    rcases newest_cases hg' with ⟨l', hl', hg'⟩ | ⟨h', hh', hg', hnew'⟩
  · rw [hl] at hl'
    obtain rfl := Option.some.inj hl'
    have htable := htree.live n _ (live_of_links hl)
    exact htable.once (mem_live_known.1 hg) (mem_live_known.1 hg') hid
  · exact absurd hid (hnew' l hl g hg)
  · exact absurd hid.symm (hnew l' hl' g' hg')
  · rw [hh] at hh'
    obtain rfl := Option.some.inj hh'
    have htable := htree.held n h hh
    exact htable.once (held_known hg) (held_known hg') hid

theorem newest_clash (htree : Tree cfg.toConfig w.tables) (ht : Tagged w.tables)
    (hg : g ∈ w.state.newest n) (hg' : g' ∈ w.state.newest n) (hid : g.id ≠ g'.id)
    (hsame : sameTag g.tag g'.tag = true) :
    (w.state.isPeer n g ∧ g'.id ∈ w.unnamed n) ∨ (w.state.isPeer n g' ∧ g.id ∈ w.unnamed n) := by
  rcases newest_cases hg with ⟨l, hl, hg⟩ | ⟨h, hh, hg, hnew⟩ <;>
    rcases newest_cases hg' with ⟨l', hl', hg'⟩ | ⟨h', hh', hg', hnew'⟩
  · rw [hl] at hl'
    obtain rfl := Option.some.inj hl'
    have htable := htree.live n _ (live_of_links hl)
    have hmarked := ht.live n _ (live_of_links hl)
    refine (hmarked.clash htable (mem_live_known.1 hg) (mem_live_known.1 hg') hid hsame).imp ?_ ?_
    · exact fun ⟨hpeer, hmem⟩ => ⟨.inl ⟨l, hl, hpeer⟩, hmem⟩
    · exact fun ⟨hpeer, hmem⟩ => ⟨.inl ⟨l, hl, hpeer⟩, hmem⟩
  · have hpeer : l.learned.peer = some g := peer_of_beside htree ht (live_of_links hl) hh' hg
    exact .inl ⟨.inl ⟨l, hl, hpeer⟩, ht.back n _ h' g (live_of_links hl) hh' hpeer g' hg'
      (Ne.symm hid) hsame⟩
  · have hpeer : l'.learned.peer = some g' := peer_of_beside htree ht (live_of_links hl') hh hg'
    rw [sameTag_comm] at hsame
    exact .inr ⟨.inl ⟨l', hl', hpeer⟩, ht.back n _ h g' (live_of_links hl') hh hpeer g hg hid hsame⟩
  · rw [hh] at hh'
    obtain rfl := Option.some.inj hh'
    have htable := htree.held n h hh
    have hmarked := ht.held n h hh
    refine (hmarked.clash htable (held_known hg) (held_known hg') hid hsame).imp ?_ ?_
    · exact fun ⟨hpeer, hmem⟩ => ⟨.inr ⟨h, hh, Option.some.inj hpeer⟩, hmem⟩
    · exact fun ⟨hpeer, hmem⟩ => ⟨.inr ⟨h, hh, Option.some.inj hpeer⟩, hmem⟩

/-- Once a link is established nothing is held beside it, and its peer has named all it shows. -/
theorem established_apart (hf : Fitted w) (hp : Proven w) (htree : Tree cfg.toConfig w.tables)
    (ht : Tagged w.tables) {l : Live} {t : Session} (hl : w.state.links.get n = some l)
    (hsession : w.sessions.get l.generation = some t) (hphase : t.phase = .established)
    (hg : g ∈ w.state.newest n) (hg' : g' ∈ w.state.newest n) (hid : g.id ≠ g'.id) :
    sameTag g.tag g'.tag = false := by
  have hl' := live_of_links hl
  have hnamed : l.learned.Named (w.unnamed n) := by
    cases hp n l.learned t hl' hsession with
    | arriving h1 _ _ => exact absurd hphase h1
    | forgetting _ h1 _ _ => exact absurd hphase h1
    | named h1 => exact h1
    | closing h1 _ =>
      rw [hphase] at h1
      rcases h1 with h1 | h1 <;> cases h1
  have hnone : w.state.held.get n = none := by
    obtain ⟨t', ht', -, hfits⟩ := hf.session n l.learned hl'
    rw [learned_generation, hsession] at ht'
    obtain rfl := Option.some.inj ht'
    refine htree.settled n l.learned hl' ?_
    cases hfits.stage with
    | hello h1 _ _ _ => rw [hphase] at h1; cases h1
    | greeted h1 _ _ _ _ _ => rw [hphase] at h1; cases h1
    | opened h1 _ _ => exact h1.epoch
    | closing h1 _ =>
      rw [hphase] at h1
      rcases h1 with h1 | h1 <;> cases h1
  -- Of two under one tag one is the peer, and the other would be there unnamed.
  have hclash : ∀ {a b : ServerGroup}, w.state.isPeer n a → b ∈ w.state.newest n → a.id ≠ b.id →
      b.id ∈ w.unnamed n → False := by
    intro a b ha hb hne hmem
    rcases ha with ⟨l₁, hl₁, hpeer⟩ | ⟨h, hh, -⟩
    · rw [hl] at hl₁
      obtain rfl := Option.some.inj hl₁
      rcases newest_cases hb with ⟨l₂, hl₂, hb⟩ | ⟨h, hh, -⟩
      · rw [hl] at hl₂
        obtain rfl := Option.some.inj hl₂
        rcases mem_live_known.1 hb with hb | ⟨id, hb⟩
        · exact hne (congrArg ServerGroup.id (Option.some.inj (hpeer.symm.trans hb)))
        · have hkeyed := (htree.live n _ hl').keyed id b hb
          have hno := hnamed b.id hmem
          rw [hkeyed] at hno
          have hb' : l.learned.servers.get id = some b := hb
          rw [hno] at hb'
          cases hb'
      · rw [hnone] at hh
        cases hh
    · rw [hnone] at hh
      cases hh
  by_contra hsame
  rw [Bool.not_eq_false] at hsame
  rcases newest_clash htree ht hg hg' hid hsame with ⟨hpeer, hmem⟩ | ⟨hpeer, hmem⟩
  · exact hclash hpeer hg' hid hmem
  · exact hclash hpeer hg hid.symm hmem

end Newest

/-- In every state a hub reaches the servers it shows, each described once, are not tagged as this one,
and no two of them share a tag but a peer and a server behind it that was held for the peer when it
last said Hello, and that it has not named since. No established link shows such a pair. -/
theorem tags_unique_but_unnamed (cfg : Setup) (peers : List PeerEntry) (ops : List Op) :
    let w := run cfg peers ops
    (∀ n m, ∀ g ∈ w.state.newest n, ∀ g' ∈ w.state.newest m, g.id = g'.id → n = m ∧ g = g') ∧
      (∀ n, ∀ g ∈ w.state.newest n, sameTag g.tag cfg.tag = false) ∧
      (∀ n m, ∀ g ∈ w.state.newest n, ∀ g' ∈ w.state.newest m, g.id ≠ g'.id →
        sameTag g.tag g'.tag = true → n = m ∧
          ((w.state.isPeer n g ∧ g'.id ∈ w.unnamed n) ∨
            (w.state.isPeer n g' ∧ g.id ∈ w.unnamed n))) ∧
      ∀ n l t, w.state.links.get n = some l → w.sessions.get l.generation = some t →
        t.phase = .established → ∀ g ∈ w.state.newest n, ∀ g' ∈ w.state.newest n, g.id ≠ g'.id →
          sameTag g.tag g'.tag = false := by
  have htree := tree_run cfg peers ops
  have ht := tagged_run cfg peers ops
  refine ⟨fun n m g hg g' hg' hid => ?_, fun n g hg => (htree.apart.own n g (known_of_newest hg)).2,
    fun n m g hg g' hg' hid hsame => ?_, fun n l t hl hsession hphase g hg g' hg' hid => ?_⟩
  · have hn : n = m := by
      by_contra hne
      exact (htree.apart.peers n m hne g (known_of_newest hg) g' (known_of_newest hg')).1 hid
    subst hn
    exact ⟨rfl, newest_once htree hg hg' hid⟩
  · have hn : n = m := by
      by_contra hne
      have hapart := htree.apart.peers n m hne g (known_of_newest hg) g' (known_of_newest hg')
      rw [hapart.2] at hsame
      cases hsame
    subst hn
    exact ⟨rfl, newest_clash htree ht hg hg' hid hsame⟩
  · exact established_apart (good_run cfg peers ops).fitted (proven_run cfg peers ops) htree ht hl
      hsession hphase hg hg' hid

/-! ## A peer and a server behind it trade tags while their link is down -/

def tradedSetup : Setup where
  serverId := Bytes.replicate 8 0
  tag := "hx"
  maxGhosts := 100
  ofKey _ := Bytes.replicate 8 1

def tradedPeer : PeerEntry where
  name := "A"
  key := Bytes.replicate 32 0
  account := "a"
  features := SUPPORTED
  ghosts := 10

/-- The peer's Hello, under a tag. -/
def tradedHello (tag : String) : Frame where
  ty := tx.HELLO
  fields := [Field.u16 field.LINK_VERSION VERSION, Field.u32 field.FEATURES SUPPORTED,
    ⟨field.EPOCH, List.replicate 8 5⟩, ⟨field.SERVER_ID, List.replicate 8 1⟩, ⟨field.TAG, utf8 tag⟩,
    ⟨field.SERVER_NAME, utf8 "X"⟩, Field.u16 field.HOPS 0]

/-- Its Link Servers, of one server behind it. -/
def tradedServers (tag : String) : Frame where
  ty := tx.SERVERS
  fields := [⟨field.SERVER_ID, List.replicate 8 2⟩, ⟨field.TAG, utf8 tag⟩,
    ⟨field.SERVER_NAME, utf8 "Y"⟩, Field.u16 field.HOPS 1]

/-- The peer links as `x` with a server `y` behind it, is interrupted, and is back as `y`. -/
def tradedRun : List Op :=
  [.start tradedPeer, .read 1 (tradedHello "x"), .go 1 none, .go 1 none, .go 1 none,
    .read 1 (tradedServers "y")] ++ List.replicate 5 (.go 1 none) ++
    [.finish 1 true, .start tradedPeer, .read 2 (tradedHello "y"), .go 2 none, .go 2 none]

/-- The peer and the server taken back for it are shown under one tag. -/
theorem traded_tag :
    ∃ g ∈ (run tradedSetup [tradedPeer] tradedRun).state.newest "A",
      ∃ g' ∈ (run tradedSetup [tradedPeer] tradedRun).state.newest "A",
        g.id ≠ g'.id ∧ sameTag g.tag g'.tag = true := by
  decide +kernel

end HxdNg.Link
