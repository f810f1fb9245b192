import HxdNg.Link.Lawful

/-!
# What arrives over one link, and what goes on over the others

* `Live.Lawful`, `Held.Lawful`, `Chan.Lawful`, `State.Lawful` : what is kept, and waits, may be passed on;
* `lawful_relay` and its kind : every operation of the hub keeps that;
* `Op.clean` : what the code passes on unchecked, and what would have to be checked of it;
* `Call.Lawful`, `World.Lawful` : what a session is about to do, and has sent;
* `nothing_unlawful_sent` : over every run whose steps are clean; `password_passed_on` : one that is not.
-/

namespace HxdNg.Link

open Assoc (Map)

structure Live.Lawful (l : Live) : Prop where
  servers : ∀ id g, l.servers.get id = some g → (farther g).Lawful
  peer : ∀ p, l.peer = some p → transit l.features = true ∨ l.epoch = none → (farther p).Lawful
  ghosts : ∀ id slot, l.ghosts.get id = some slot → slot.group.Lawful
  stale : ∀ slot ∈ l.stale, slot.group.Lawful

structure Held.Lawful (h : Held) : Prop where
  servers : ∀ id g, h.servers.get id = some g → (farther g).Lawful
  peer : transit h.features = true → (farther h.peer).Lawful
  ghosts : ∀ id slot, h.ghosts.get id = some slot → slot.group.Lawful

structure Chan.Lawful (c : Chan) : Prop where
  relays : ∀ r ∈ c.relays, r.2.Lawful
  requests : ∀ r ∈ c.requests, r.Lawful

structure State.Lawful (s : State) : Prop where
  links : ∀ n l, s.links.get n = some l → l.Lawful
  held : ∀ n h, s.held.get n = some h → h.Lawful
  channels : ∀ g c, s.channels.get g = some c → c.Lawful

section State
variable {s : State} {p : String} {g : Nat} {l : Live}

theorem lawful_empty : ({} : Chan).Lawful := ⟨nofun, nofun⟩

theorem Live.Lawful.tell (h : l.Lawful) (why : Reason) : (l.tell why).Lawful := by
  unfold Live.tell
  split
  · exact ⟨h.servers, h.peer, h.ghosts, h.stale⟩
  · exact h

theorem lawful_fresh (g : Nat) (told : Option Reason) :
    ({ generation := g, told := told } : Live).Lawful := ⟨nofun, nofun, nofun, nofun⟩

theorem State.Lawful.current (h : s.Lawful) (hc : s.current p g = some l) : l.Lawful :=
  h.links p l (current_eq_some hc).1

theorem State.Lawful.put (h : s.Lawful) (hl : l.Lawful) : (s.put p l).Lawful where
  links n l' hl' := by
    rcases Map.get_set_cases hl' with ⟨-, rfl⟩ | ⟨-, hl'⟩
    · exact hl
    · exact h.links n l' hl'
  held := h.held
  channels := h.channels

theorem State.Lawful.dropHeld (h : s.Lawful) (p : String) :
    ({ s with held := s.held.drop p } : State).Lawful :=
  ⟨h.links, fun n held hh => h.held n held (Map.get_drop_some hh).2, h.channels⟩

theorem State.Lawful.setHeld (h : s.Lawful) {held : Held} (hh : held.Lawful) :
    ({ s with held := s.held.set p held } : State).Lawful := by
  refine ⟨h.links, fun n held' hh' => ?_, h.channels⟩
  rcases Map.get_set_cases hh' with ⟨-, rfl⟩ | ⟨-, hh'⟩
  · exact hh
  · exact h.held n held' hh'

theorem State.Lawful.setChannel (h : s.Lawful) {c : Chan} (hc : c.Lawful) :
    ({ s with channels := s.channels.set g c } : State).Lawful := by
  refine ⟨h.links, h.held, fun g' c' hc' => ?_⟩
  rcases Map.get_set_cases hc' with ⟨-, rfl⟩ | ⟨-, hc'⟩
  · exact hc
  · exact h.channels g' c' hc'

theorem State.Lawful.mapLinks (h : s.Lawful) {f : String → Live → Live}
    (hf : ∀ n l, l.Lawful → (f n l).Lawful) :
    ({ s with links := s.links.mapVals f } : State).Lawful := by
  refine ⟨fun n l hl => ?_, h.held, h.channels⟩
  have hl' : (s.links.mapVals f).get n = some l := hl
  rw [Map.get_mapVals, Option.map_eq_some_iff] at hl'
  obtain ⟨l', hl', rfl⟩ := hl'
  exact hf n l' (h.links n l' hl')

/-! ### What links pass on -/

/-- Some link takes what `from_`'s passes on. -/
def State.heard (s : State) (from_ : String) (what : Relay) : Bool :=
  s.links.entries.any fun kv => kv.1 != from_ && kv.2.takes what

theorem heard_put (what : Relay) (h : (s.put p l).heard p what = true) : s.heard p what = true := by
  unfold State.heard at h ⊢
  rw [List.any_eq_true] at h ⊢
  obtain ⟨⟨n, l'⟩, hmem, htakes⟩ := h
  refine ⟨(n, l'), ?_, htakes⟩
  have hne : n ≠ p := bne_iff_ne.1 (Bool.and_eq_true_iff.1 htakes).1
  rw [Map.mem_entries_iff] at hmem ⊢
  exact ((Map.get_set_cases hmem).resolve_left fun hx => hne hx.1).2

/-- What no link takes reaches none. -/
theorem lawful_relay (h : s.Lawful) {what : Relay} (hw : s.heard p what = true → what.Lawful) :
    (relay s p what).Lawful := by
  refine ⟨fun n l hl => ?_, h.held, fun g c hc => ?_⟩
  · have hl' := hl
    unfold relay at hl'
    dsimp only at hl'
    rw [Map.get_mapVals, Option.map_eq_some_iff] at hl'
    obtain ⟨l₀, hl₀, rfl⟩ := hl'
    have hlaw := h.links n l₀ hl₀
    split
    · have hdeaf : ({ l₀ with hears := false } : Live).Lawful :=
        ⟨hlaw.servers, hlaw.peer, hlaw.ghosts, hlaw.stale⟩
      exact hdeaf.tell _
    · exact hlaw
  · have hc' := hc
    unfold relay at hc'
    dsimp only at hc'
    rw [Map.get_mapVals, Option.map_eq_some_iff] at hc'
    obtain ⟨c₀, hc₀, rfl⟩ := hc'
    have hlaw := h.channels g c₀ hc₀
    split
    next htaken =>
      refine ⟨fun r hr => ?_, hlaw.requests⟩
      rcases List.mem_append.1 hr with hr | hr
      · exact hlaw.relays r hr
      · rw [List.mem_singleton.1 hr]
        refine hw ?_
        obtain ⟨kv, hkv, -⟩ := List.mem_map.1 htaken.1
        obtain ⟨hmem, htakes⟩ := List.mem_filter.1 hkv
        exact List.any_eq_true.2 ⟨kv, hmem, htakes⟩
    · exact hlaw

theorem lawful_relayAll (h : s.Lawful) {whats : List Relay} (hw : ∀ what ∈ whats, what.Lawful) :
    (relayAll s p whats).Lawful := by
  unfold relayAll
  induction whats generalizing s with
  | nil => exact h
  | cons what whats ih =>
    exact ih (lawful_relay h fun _ => hw what List.mem_cons_self)
      fun what' hwhat => hw what' (List.mem_cons_of_mem _ hwhat)

theorem lawful_serversGone (peer : ServerGroup) (servers : List ServerId) :
    ∀ what ∈ serversGone peer servers, what.Lawful := by
  intro what hwhat
  obtain ⟨id, -, rfl⟩ := List.mem_map.1 hwhat
  exact lawful_goneServer id

theorem lawful_gone (h : Held) : ∀ what ∈ h.gone, what.Lawful := by
  unfold Held.gone
  split
  · exact lawful_serversGone _ _
  · nofun

theorem lawful_goneUsers (slots : List Slot) : ∀ what ∈ goneUsers slots, what.Lawful := by
  intro what hwhat
  obtain ⟨slot, -, rfl⟩ := List.mem_map.1 hwhat
  exact lawful_goneFields _ _

/-! ### A link's life -/

theorem lawful_hold (h : s.Lawful) (hl : l.Lawful) : (hold s p l).1.Lawful := by
  unfold hold
  cases hp : l.peer with
  | none => exact h
  | some own =>
    cases he : l.epoch with
    | none => exact h
    | some epoch =>
      have hheld : (⟨l.generation, own, epoch, l.features, l.servers, l.ghosts⟩ : Held).Lawful :=
        ⟨hl.servers, fun ht => hl.peer own hp (.inl ht), hl.ghosts⟩
      dsimp only
      split
      · exact lawful_relayAll (h.setHeld hheld) (lawful_goneUsers _)
      · exact h.setHeld hheld

theorem lawful_register (h : s.Lawful) (p : String) : (register s p).1.Lawful := by
  have hput : ∀ told : Option Reason, ((({ s with generation := s.generation + 1 } : State).put p
      { generation := s.generation + 1, told := told }) : State).Lawful := fun told =>
    State.Lawful.put ⟨h.links, h.held, h.channels⟩ (lawful_fresh _ told)
  unfold register
  dsimp only
  cases hold : s.links.get p with
  | none => exact hput _
  | some live => exact lawful_hold (hput _) ((h.links p live hold).tell _)

theorem lawful_expire (h : s.Lawful) (p : String) (g : Nat) : (expire s p g).1.Lawful := by
  unfold expire
  cases s.held.get p with
  | none => exact h
  | some held =>
    dsimp only
    split
    · exact lawful_relayAll (h.dropHeld p) (lawful_gone held)
    · exact h

theorem mem_values_lawful {ghosts : Map UInt16 Slot}
    (h : ∀ id slot, ghosts.get id = some slot → slot.group.Lawful) :
    ∀ slot ∈ ghosts.values, slot.group.Lawful := by
  intro slot hslot
  obtain ⟨id, hid⟩ := Map.mem_values_iff.1 hslot
  exact h id slot hid

theorem lawful_back (hl : l.Lawful) (hepoch : l.epoch = none) {held : Option Held}
    (hheld : ∀ h, held = some h → h.Lawful) (epoch : Epoch) (features : UInt32) :
    (l.back held epoch features).Lawful := by
  have hpeer : ∀ p, l.peer = some p → (farther p).Lawful := fun p hp => hl.peer p hp (.inr hepoch)
  unfold Live.back
  cases held with
  | none => exact ⟨hl.servers, fun p hp _ => hpeer p hp, hl.ghosts, hl.stale⟩
  | some h =>
    have hlaw := hheld h rfl
    have hservers : ∀ id g, (l.servers.extend h.servers).get id = some g → (farther g).Lawful := by
      intro id g hg
      rw [Map.get_extend, Option.or_eq_some_iff] at hg
      rcases hg with hg | ⟨-, hg⟩
      · exact hlaw.servers id g hg
      · exact hl.servers id g hg
    dsimp only [Option.elim]
    split
    · exact ⟨hservers, fun p hp _ => hpeer p hp, hlaw.ghosts, hl.stale⟩
    · exact ⟨hservers, fun p hp _ => hpeer p hp, hl.ghosts, mem_values_lawful hlaw.ghosts⟩

theorem lawful_resume (h : s.Lawful) (hepoch : ∀ l, s.current p g = some l → l.epoch = none)
    (server : ServerId) (epoch : Epoch) (features : UInt32) :
    (resume s p g server epoch features).1.Lawful := by
  unfold resume
  cases hc : s.current p g with
  | none => exact h
  | some l =>
    have hheld : ∀ held, s.held.get p = some held → held.Lawful := fun held hh => h.held p held hh
    have hlost : (relayAll { s with held := s.held.drop p } p
        (((s.held.get p).filter fun h => h.lost server features).elim [] Held.gone)).Lawful := by
      refine lawful_relayAll (h.dropHeld p) fun what hwhat => ?_
      cases hf : (s.held.get p).filter fun h => h.lost server features with
      | none =>
        rw [hf] at hwhat
        cases hwhat
      | some lost =>
        rw [hf] at hwhat
        exact lawful_gone lost what hwhat
    have hback := lawful_back (h.current hc) (hepoch l hc)
      (fun held (hf : (s.held.get p).filter (fun h => !h.lost server features) = some held) =>
        hheld held (Option.filter_eq_some_iff.1 hf).1) epoch features
    dsimp only
    split
    · exact hlost.put hback
    next own hown =>
      refine lawful_relayAll (hlost.put hback) fun what hwhat => ?_
      rcases List.mem_cons.1 hwhat with rfl | hwhat
      · exact (h.current hc).peer own (Option.filter_eq_some_iff.1 hown).1 (.inr (hepoch l hc))
      rcases List.mem_append.1 hwhat with hwhat | hwhat
      · obtain ⟨group, hgroup, rfl⟩ := List.mem_map.1 hwhat
        cases hf : ((s.held.get p).filter fun h => !h.lost server features).filter fun h =>
            transit features && !transit h.features with
        | none =>
          rw [hf] at hgroup
          cases hgroup
        | some held =>
          rw [hf] at hgroup
          obtain ⟨known, hknown, rfl⟩ := List.mem_map.1 hgroup
          obtain ⟨id, hid⟩ := Map.mem_values_iff.1 hknown
          have hget := (Option.filter_eq_some_iff.1 (Option.filter_eq_some_iff.1 hf).1).1
          exact (hheld held hget).servers id known hid
      · obtain ⟨fields, hfields, rfl⟩ := List.mem_map.1 hwhat
        cases hf : (((s.held.get p).filter fun h => !h.lost server features).filter fun h =>
            transit features && !transit h.features).filter fun h => h.epoch == epoch with
        | none =>
          rw [hf] at hfields
          cases hfields
        | some held =>
          rw [hf] at hfields
          obtain ⟨slot, hslot, rfl⟩ := List.mem_map.1 hfields
          obtain ⟨id, hid⟩ := Map.mem_values_iff.1 hslot
          have hget := (Option.filter_eq_some_iff.1
            (Option.filter_eq_some_iff.1 (Option.filter_eq_some_iff.1 hf).1).1).1
          exact ((hheld held hget).ghosts id slot hid).relayed _ _

theorem lawful_settle (h : s.Lawful) (p : String) (g : Nat) : (settle s p g).1.Lawful := by
  unfold settle
  cases hc : s.current p g with
  | none => exact h
  | some l =>
    have hl := h.current hc
    exact h.put ⟨hl.servers, hl.peer, hl.ghosts, hl.stale⟩

theorem lawful_unregister (h : s.Lawful) (p : String) (g : Nat) (interrupted : Bool) :
    (unregister s p g interrupted).1.Lawful := by
  unfold unregister
  cases hc : s.current p g with
  | none => exact h
  | some l =>
    have hdrop : ({ s with links := s.links.drop p } : State).Lawful :=
      ⟨fun n l hl => h.links n l (Map.get_drop_some hl).2, h.held, h.channels⟩
    dsimp only
    cases interrupted with
    | true => exact lawful_hold hdrop (h.current hc)
    | false =>
      rw [if_neg Bool.false_ne_true]
      refine lawful_relayAll ?_ fun what hwhat => ?_
      · split
        · exact hdrop.dropHeld p
        · exact lawful_relayAll (hdrop.dropHeld p) (lawful_serversGone _ _)
      · cases hf : s.held.get p with
        | none =>
          rw [hf] at hwhat
          cases hwhat
        | some held =>
          rw [hf] at hwhat
          exact lawful_gone held what hwhat

/-! ### The servers behind a link -/

theorem accept_admits {cfg : Config} {s' : State} {group : ServerGroup} {own : Bool}
    (hok : acceptServer cfg s p g group own = .ok s') :
    ∃ l, s.current p g = some l ∧
      ((own || l.peer.any fun q => q.id == group.id) = false → (farther group).hops ≤ MAX_HOPS) ∧
      s' = if transit l.features then
          relay (s.put p (l.admitted group (own || l.peer.any fun q => q.id == group.id))) p
            (.server (farther group))
        else s.put p (l.admitted group (own || l.peer.any fun q => q.id == group.id)) := by
  unfold acceptServer at hok
  cases hc : s.current p g with
  | none => rw [hc] at hok; simp at hok
  | some l =>
    rw [hc] at hok
    dsimp only at hok
    simp only [ite_throw_bind_eq_ok, bind_eq_ok, pure_eq_ok, not_and] at hok
    obtain ⟨-, hhops, -, -, -, -, -, heq⟩ := hok
    exact ⟨l, rfl, fun hown => UInt16.not_lt.1 (hhops hown), heq.symm⟩

/-- A group accepted is kept, and announced: of one behind the peer it is checked how far it is, of
the peer itself it is asked here. -/
theorem lawful_accept {cfg : Config} (h : s.Lawful) {s' : State} {group : ServerGroup} {own : Bool}
    (hok : acceptServer cfg s p g group own = .ok s') (hgroup : group.admissible = .ok ())
    (hown : ∀ l, s.current p g = some l → (own || l.peer.any fun q => q.id == group.id) = true →
      transit l.features = true ∨ l.epoch = none → (farther group).hops ≤ MAX_HOPS) : s'.Lawful := by
  obtain ⟨l, hc, hhops, rfl⟩ := accept_admits hok
  have hl := h.current hc
  have hlawful : (farther group).hops ≤ MAX_HOPS → (farther group).Lawful :=
    ServerGroup.lawful_of (admissible_farther hgroup)
  have hadmitted : (l.admitted group (own || l.peer.any fun q => q.id == group.id)).Lawful := by
    cases ho : own || l.peer.any fun q => q.id == group.id with
    | true =>
      refine ⟨hl.servers, fun p hp hannounced => ?_, hl.ghosts, hl.stale⟩
      obtain rfl := Option.some.inj hp
      exact hlawful (hown l hc ho hannounced)
    | false =>
      refine ⟨fun id known hknown => ?_, hl.peer, hl.ghosts, hl.stale⟩
      rcases Map.get_set_cases hknown with ⟨-, rfl⟩ | ⟨-, hknown⟩
      · exact hlawful (hhops ho)
      · exact hl.servers id known hknown
  split
  next ht =>
    refine lawful_relay (h.put hadmitted) fun _ => hlawful ?_
    cases ho : own || l.peer.any fun q => q.id == group.id with
    | true => exact hown l hc ho (.inl ht)
    | false => exact hhops ho
  · exact h.put hadmitted

theorem lawful_forget (h : s.Lawful) (id : ServerId) (came : Option (List Field))
    (hcame : ∀ l fields, s.current p g = some l → (l.servers.get id).isSome →
      transit l.features = true → came = some fields → s.heard p (.serverGone fields) = true →
      Carried serverGoneBaseline MAX_EXTRA fields) :
    (forgetServer s p g id came).1.Lawful := by
  unfold forgetServer
  cases hc : s.current p g with
  | none => exact h
  | some l =>
    have hl := h.current hc
    dsimp only
    split
    · exact h
    next hid =>
      have hleft : ({ l with
          servers := l.servers.drop id
          ghosts := l.ghosts.filter fun kv => kv.2.group.home != id } : Live).Lawful := by
        refine ⟨fun k known hk => hl.servers k known (Map.get_drop_some hk).2, hl.peer,
          fun k slot hk => ?_, hl.stale⟩
        have hk' : (l.ghosts.filter fun kv => kv.2.group.home != id).get k = some slot := hk
        rw [Map.get_filter, Option.filter_eq_some_iff] at hk'
        exact hl.ghosts k slot hk'.1
      dsimp only
      split
      next ht =>
        refine lawful_relay (h.put hleft) fun hheard => ?_
        cases came with
        | none => exact lawful_goneServer id
        | some fields =>
          refine hcame l fields hc ?_ ht rfl (heard_put _ hheard)
          exact Option.isSome_iff_ne_none.2 fun hnone => hid (by rw [hnone]; rfl)
      · exact h.put hleft

/-- What is said of the other transit links may be. -/
theorem lawful_others (h : s.Lawful) (p : String) : ∀ o ∈ s.others p,
    (∀ known ∈ o.2.1, (farther known).Lawful) ∧ ∀ slot ∈ o.2.2.values, slot.group.Lawful := by
  intro o ho
  rcases List.mem_append.1 ho with ho | ho
  · obtain ⟨⟨n, l⟩, hmem, rfl⟩ := List.mem_map.1 ho
    obtain ⟨hmem, hcond⟩ := List.mem_filter.1 hmem
    have hl := h.links n l (Map.mem_entries_iff.1 hmem)
    have ht : transit l.features = true := (Bool.and_eq_true_iff.1 hcond).2
    refine ⟨fun known hknown => ?_, mem_values_lawful hl.ghosts⟩
    rcases List.mem_append.1 hknown with hknown | hknown
    · exact hl.peer known (Option.mem_toList.1 hknown) (.inl ht)
    · obtain ⟨id, hid⟩ := Map.mem_values_iff.1 hknown
      exact hl.servers id known hid
  · obtain ⟨⟨n, held⟩, hmem, rfl⟩ := List.mem_map.1 ho
    obtain ⟨hmem, hcond⟩ := List.mem_filter.1 hmem
    have hh := h.held n held (Map.mem_entries_iff.1 hmem)
    have ht : transit held.features = true := (Bool.and_eq_true_iff.1 hcond).2
    refine ⟨fun known hknown => ?_, mem_values_lawful hh.ghosts⟩
    rcases List.mem_cons.1 hknown with rfl | hknown
    · exact hh.peer ht
    · obtain ⟨id, hid⟩ := Map.mem_values_iff.1 hknown
      exact hh.servers id known hid

theorem lawful_relayOpen (h : s.Lawful) (p : String) (g : Nat) :
    (relayOpen s p g).1.Lawful ∧ ∀ group ∈ (relayOpen s p g).2, group.Lawful := by
  unfold relayOpen
  cases hc : (s.current p g).filter fun l => transit l.features with
  | none => exact ⟨h, nofun⟩
  | some l =>
    have hl := h.current (Option.filter_eq_some_iff.1 hc).1
    have hput : (s.put p { l with hears := true }).Lawful :=
      h.put ⟨hl.servers, hl.peer, hl.ghosts, hl.stale⟩
    refine ⟨hput.setChannel lawful_empty, fun group hgroup => ?_⟩
    obtain ⟨o, ho, hgroup⟩ := List.mem_flatMap.1 hgroup
    obtain ⟨known, hknown, rfl⟩ := List.mem_map.1 hgroup
    exact (lawful_others h p o ho).1 known hknown

theorem lawful_subscribe (h : s.Lawful) (p : String) (g : Nat) :
    (subscribe s p g).1.Lawful ∧ ∀ taken, (subscribe s p g).2 = some taken →
      ∀ fields ∈ taken.relayed, Carried userBaseline MAX_EXTRA fields := by
  unfold subscribe
  cases hc : s.current p g with
  | none => exact ⟨h, nofun⟩
  | some l =>
    have hl := h.current hc
    have hput : (s.put p { l with asks := true }).Lawful :=
      h.put ⟨hl.servers, hl.peer, hl.ghosts, hl.stale⟩
    refine ⟨hput.setChannel ⟨?_, nofun⟩, fun taken htaken fields hfields => ?_⟩
    · cases hch : s.channels.get g with
      | none => exact nofun
      | some c => exact (h.channels g c hch).relays
    · obtain rfl := Option.some.inj htaken
      dsimp only at hfields
      split at hfields
      · obtain ⟨o, ho, hfields⟩ := List.mem_flatMap.1 hfields
        obtain ⟨slot, hslot, rfl⟩ := List.mem_map.1 hfields
        exact ((lawful_others h p o ho).2 slot hslot).relayed _ _
      · cases hfields

/-! ### Requests -/

theorem lawful_enqueue (h : s.Lawful) {r : Request} (hr : r.Lawful) {s' : State}
    (hok : enqueue s l r = .ok s') : s'.Lawful := by
  unfold enqueue at hok
  cases hc : (s.channels.get l.generation).filter fun _ => l.asks with
  | none =>
    rw [hc] at hok
    simp at hok
  | some c =>
    rw [hc] at hok
    dsimp only at hok
    split at hok
    · rw [pure_eq_ok] at hok
      subst hok
      have hlaw := h.channels l.generation c (Option.filter_eq_some_iff.1 hc).1
      refine h.setChannel ⟨hlaw.relays, fun r' hr' => ?_⟩
      rcases List.mem_append.1 hr' with hr' | hr'
      · exact hlaw.requests r' hr'
      · rw [List.mem_singleton.1 hr']
        exact hr
    · simp at hok

theorem lawful_forward (h : s.Lawful) {target : UInt16} {r : Frame} {feature : UInt32}
    {sender : Option UInt16} {asker : Asker} {s' : State}
    (hr : Carried (requestBaseline r.ty) (requestBound r.ty) r.fields)
    (htarget : field.TARGET_ID ∈ requestBaseline r.ty)
    (hsender : sender.isSome → field.USER_ID ∈ requestBaseline r.ty)
    (hok : forward s p g target r feature sender asker = some (.ok s')) : s'.Lawful := by
  unfold forward at hok
  cases hs : s.showing target with
  | none =>
    rw [hs] at hok
    dsimp only at hok
    split at hok <;> simp at hok
  | some found =>
    obtain ⟨name, l, id⟩ := found
    rw [hs] at hok
    dsimp only at hok
    cases hc : (s.current p g).filter fun o => name != p && transit o.features && transit l.features with
    | none => rw [hc] at hok; simp at hok
    | some origin =>
      rw [hc] at hok
      simp only [Option.some.injEq, ite_throw_bind_eq_ok, bind_eq_ok, mapError_eq_ok] at hok
      obtain ⟨-, from_, hfrom, hok⟩ := hok
      refine lawful_enqueue h (fun _ => carried_translate htarget from_ (fun hsome => ?_) hr id) hok
      cases sender with
      | none =>
        rw [Option.elim_none, pure_eq_ok] at hfrom
        rw [← hfrom] at hsome
        cases hsome
      | some asked => exact hsender rfl

theorem lawful_request (h : s.Lawful) {uid : UInt16} {feature ty : UInt32}
    {build : UInt16 → List Field} {n : Nat} {s' : State}
    (hok : request s uid feature ty build (.here n) = .ok s') : s'.Lawful := by
  unfold request at hok
  cases hs : s.showing uid with
  | none => rw [hs] at hok; simp at hok
  | some found =>
    obtain ⟨name, l, id⟩ := found
    rw [hs] at hok
    simp only [ite_throw_bind_eq_ok] at hok
    refine lawful_enqueue h (fun hremote => ?_) hok.2
    cases hremote

theorem lawful_requestFor (h : s.Lawful) {home : ServerId} {ty : UInt32} {fields : List Field}
    {except : Option String} {asker : Asker} {s' : State} (hr : (⟨ty, fields, asker⟩ : Request).Lawful)
    (hok : requestFor s home ty fields except asker = .ok s') : s'.Lawful := by
  unfold requestFor at hok
  split at hok
  · simp at hok
  · exact lawful_enqueue h hr hok

/-! ### The peer's users -/

theorem Live.Lawful.ghostSet (hl : l.Lawful) {id : UInt16} {slot : Slot} (hslot : slot.group.Lawful) :
    ({ l with ghosts := l.ghosts.set id slot } : Live).Lawful := by
  refine ⟨hl.servers, hl.peer, fun k slot' hk => ?_, hl.stale⟩
  rcases Map.get_set_cases hk with ⟨-, rfl⟩ | ⟨-, hk⟩
  · exact hslot
  · exact hl.ghosts k slot' hk

theorem lawful_applyUser (h : s.Lawful) {u : UserGroup} (hu : u.Lawful)
    {limit maxGhosts count : Nat} {draw given : Option UInt16} {s' : State}
    (hok : applyUser s p g u limit maxGhosts count draw = .ok (s', given)) : s'.Lawful := by
  unfold applyUser at hok
  cases hc : s.current p g with
  | none => rw [hc] at hok; simp at hok
  | some l =>
    have hput : ∀ uid, (s.put p { l with ghosts := l.ghosts.set u.id ⟨uid, u⟩ }).Lawful :=
      fun uid => h.put ((h.current hc).ghostSet hu)
    rw [hc] at hok
    dsimp only at hok
    rw [ite_throw_eq_ok] at hok
    obtain ⟨-, hok⟩ := hok
    cases hg : l.ghosts.get u.id with
    | some slot =>
      rw [hg] at hok
      simp only [pure_eq_ok, Prod.mk.injEq] at hok
      obtain ⟨rfl, rfl⟩ := hok
      split
      · exact lawful_relay (hput _) fun _ => hu.relayed _ _
      · exact hput _
    | none =>
      rw [hg] at hok
      dsimp only at hok
      rw [ite_throw_eq_ok] at hok
      obtain ⟨-, hok⟩ := hok
      cases draw with
      | none => simp at hok
      | some uid =>
        simp only [pure_eq_ok, Prod.mk.injEq] at hok
        obtain ⟨rfl, rfl⟩ := hok
        split
        · exact lawful_relay (hput _) fun _ => hu.relayed _ _
        · exact hput _

theorem lawful_userGone (h : s.Lawful) (id : UInt16) (came : List Field)
    (hcame : ∀ l uid, s.current p g = some l → (l.ghosts.get id).map Slot.uid = some uid →
      transit l.features = true → s.heard p (.userGone (renamed came uid)) = true →
      Carried userGoneBaseline MAX_EXTRA came) :
    (userGone s p g id came).1.Lawful := by
  unfold userGone
  cases hc : s.current p g with
  | none => exact h
  | some l =>
    have hl := h.current hc
    dsimp only
    cases hslot : l.ghosts.get id with
    | none => exact h
    | some slot =>
      have hput : (s.put p { l with ghosts := l.ghosts.drop id }).Lawful :=
        h.put ⟨hl.servers, hl.peer, fun k s' hk => hl.ghosts k s' (Map.get_drop_some hk).2, hl.stale⟩
      dsimp only
      split
      next ht =>
        refine lawful_relay hput fun hheard => carried_renamed (by decide) ?_ _
        exact hcame l slot.uid hc (by rw [hslot]; rfl) ht (heard_put _ hheard)
      · exact hput

theorem mem_swapRemove {α : Type} {a : α} {l : List α} {i : Nat} (h : a ∈ swapRemove l i) : a ∈ l := by
  unfold swapRemove at h
  cases hlast : l.getLast? with
  | none =>
    rw [hlast] at h
    exact h
  | some last =>
    rw [hlast] at h
    rcases List.mem_or_eq_of_mem_set ((List.dropLast_sublist _).subset h) with h | rfl
    · exact h
    · exact List.mem_of_getLast? hlast

theorem lawful_claim (hl : l.Lawful) (u : UserGroup) : (l.claim u).Lawful := by
  unfold Live.claim
  split
  · exact hl
  cases l.stale.findIdx? fun slot => slot.same u with
  | none => exact hl
  | some i =>
    dsimp only
    cases hslot : l.stale[i]? with
    | none => exact hl
    | some slot =>
      have hset := @Live.Lawful.ghostSet l hl u.id slot (hl.stale slot (List.mem_of_getElem? hslot))
      exact ⟨hset.servers, hset.peer, hset.ghosts, fun s' hs' => hl.stale s' (mem_swapRemove hs')⟩

theorem lawful_claims (hl : l.Lawful) (groups : List UserGroup) :
    (groups.foldl Live.claim l).Lawful := by
  induction groups generalizing l with
  | nil => exact hl
  | cons u groups ih => exact ih (lawful_claim hl u)

theorem lawful_claimStale (h : s.Lawful) (p : String) (g : Nat) (groups : List UserGroup) :
    (claimStale s p g groups).1.Lawful := by
  unfold claimStale
  cases hc : s.current p g with
  | none => exact h
  | some l =>
    have hl := lawful_claims (h.current hc) groups
    have hput : (s.put p { groups.foldl Live.claim l with stale := [] }).Lawful :=
      h.put ⟨hl.servers, hl.peer, hl.ghosts, nofun⟩
    dsimp only
    split
    · exact lawful_relayAll hput (lawful_goneUsers _)
    · exact hput

theorem lawful_chat (h : s.Lawful) {id : UInt16} {fields : List Field}
    (hfields : Carried Session.chatBaseline MAX_EXTRA fields) {s' : State}
    (hok : chat s p g id fields = .ok s') : s'.Lawful := by
  unfold chat at hok
  split at hok
  · simp at hok
  · rw [pure_eq_ok] at hok
    subst hok
    split
    · exact lawful_relay h fun _ => carried_renamed (by decide) hfields _
    · exact h

/-! ### The operator's acts -/

theorem lawful_forgetHeld (h : s.Lawful) (peers : List String) : (forgetHeld s peers).1.Lawful := by
  induction peers generalizing s with
  | nil => exact h
  | cons name peers ih =>
    have hgave : (giveUp s name).1.Lawful := by
      unfold giveUp
      cases s.held.get name with
      | none => exact h
      | some held => exact lawful_relayAll (h.dropHeld name) (lawful_gone held)
    exact ih hgave

theorem lawful_suspend (h : s.Lawful) (peers : List String) : (suspend s peers).1.Lawful := by
  have htold := h.mapLinks (f := fun name l => if name ∈ peers then l.tell .suspended else l)
    fun n l hl => by
      split
      · exact hl.tell _
      · exact hl
  have hforgot := lawful_forgetHeld htold peers
  exact ⟨hforgot.links, hforgot.held, hforgot.channels⟩

theorem lawful_reload (h : s.Lawful) (old new : List PeerEntry) : (reload s old new).1.Lawful := by
  refine lawful_forgetHeld (h.mapLinks fun n l hl => ?_) _
  cases closedBy old new n with
  | none => exact hl
  | some why => exact hl.tell why

theorem lawful_shutDown (h : s.Lawful) : (shutDown s).Lawful := by
  have htold := h.mapLinks (f := fun _ l => l.tell .shutdown) fun _ _ hl => hl.tell _
  exact ⟨htold.links, htold.held, htold.channels⟩

end State

end HxdNg.Link
