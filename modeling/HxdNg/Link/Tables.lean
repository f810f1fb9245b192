import HxdNg.Lib.Results
import HxdNg.Link.World

/-!
# What each operation does to the hub's tables

What a link has learned is what its entry holds but for its channels: passing on changes none of it.

* `Live.learned`, `State.view` : the live links, their channels aside;
* `view_relayAll`, `held_relayAll` : what links pass on leaves the tables as they are;
* `view_register`, `held_hold` and their kind : each operation, as what it does to the two tables.
-/

namespace HxdNg.Link

open Assoc (Map)

/-- A live link, its channels aside. -/
def Live.learned (l : Live) : Live := { l with asks := false, hears := false, told := none }

def State.view (s : State) : Map String Live := s.links.mapVals fun _ => Live.learned

section Learned
variable (l : Live)

@[simp] theorem learned_generation : l.learned.generation = l.generation := rfl
@[simp] theorem learned_epoch : l.learned.epoch = l.epoch := rfl
@[simp] theorem learned_stale : l.learned.stale = l.stale := rfl
@[simp] theorem learned_unconfirmed : l.learned.unconfirmed = l.unconfirmed := rfl
@[simp] theorem learned_peer : l.learned.peer = l.peer := rfl
@[simp] theorem learned_servers : l.learned.servers = l.servers := rfl
@[simp] theorem learned_features : l.learned.features = l.features := rfl
@[simp] theorem learned_ghosts : l.learned.ghosts = l.ghosts := rfl
@[simp] theorem known_learned : l.learned.known = l.known := rfl

@[simp] theorem learned_tell (why : Reason) : (l.tell why).learned = l.learned := by
  unfold Live.tell
  split <;> rfl

end Learned

variable {s : State} {peer : String} {g : Nat} {live : Live}

theorem get_view (s : State) (n : String) : s.view.get n = (s.links.get n).map Live.learned :=
  Map.get_mapVals _ _ _

theorem view_put (s : State) (p : String) (l : Live) :
    (s.put p l).view = s.view.set p l.learned := Map.mapVals_set _ _ _ _

@[simp] theorem held_put (s : State) (p : String) (l : Live) : (s.put p l).held = s.held := rfl

theorem current_eq_some (h : s.current peer g = some live) :
    s.links.get peer = some live ∧ live.generation = g := by
  obtain ⟨hget, hg⟩ := Option.filter_eq_some_iff.1 h
  exact ⟨hget, beq_iff_eq.1 hg⟩

theorem view_of_current (h : s.current peer g = some live) :
    s.view.get peer = some live.learned := by
  rw [get_view, (current_eq_some h).1, Option.map_some]

/-- Changes that only tell links to close, or stop them hearing, change nothing learned. -/
theorem view_mapVals (s : State) {f : String → Live → Live}
    (hf : ∀ n l, (f n l).learned = l.learned) :
    (s.links.mapVals f).mapVals (fun _ => Live.learned) = s.view := by
  rw [Map.mapVals_mapVals]
  exact congrArg (s.links.mapVals ·) (funext fun n => funext fun l => hf n l)

@[simp] theorem view_relay (s : State) (p : String) (what : Relay) : (relay s p what).view = s.view := by
  refine view_mapVals s fun n l => ?_
  split
  · exact learned_tell _ _
  · rfl

@[simp] theorem held_relay (s : State) (p : String) (what : Relay) : (relay s p what).held = s.held := rfl

@[simp] theorem generation_relay (s : State) (p : String) (what : Relay) :
    (relay s p what).generation = s.generation := rfl

@[simp] theorem view_relayAll (s : State) (p : String) (whats : List Relay) :
    (relayAll s p whats).view = s.view := by
  induction whats generalizing s with
  | nil => rfl
  | cons what whats ih => exact (ih _).trans (view_relay s p what)

@[simp] theorem held_relayAll (s : State) (p : String) (whats : List Relay) :
    (relayAll s p whats).held = s.held := by
  induction whats generalizing s with
  | nil => rfl
  | cons what whats ih => exact ih (relay s p what)

@[simp] theorem generation_relayAll (s : State) (p : String) (whats : List Relay) :
    (relayAll s p whats).generation = s.generation := by
  induction whats generalizing s with
  | nil => rfl
  | cons what whats ih => exact ih (relay s p what)

/-! ## A link's life -/

/-- What an interrupted link is kept as, if it got as far as its peer's Hello. -/
def Live.kept (l : Live) : Option Held :=
  l.peer.bind fun server => l.epoch.map fun epoch =>
    ⟨l.generation, server, epoch, l.features, l.servers, l.ghosts⟩

@[simp] theorem kept_learned (l : Live) : l.learned.kept = l.kept := rfl

@[simp] theorem kept_tell (l : Live) (why : Reason) : (l.tell why).kept = l.kept := by
  unfold Live.tell
  split <;> rfl

/-- What keeping a link leaves to be parted: all it showed, if there is nothing to keep it as. -/
def Live.left (l : Live) (earlier : Option Held) : List Slot :=
  l.stale ++ if l.kept.isSome then earlier.elim [] fun h => h.ghosts.values else l.ghosts.values

theorem hold_eq (s : State) (p : String) (l : Live) :
    (hold s p l).1.view = s.view ∧ (hold s p l).1.generation = s.generation ∧
      (hold s p l).1.held = l.kept.elim s.held (s.held.set p) ∧
      (hold s p l).2 = l.left (s.held.get p) := by
  unfold hold Live.left Live.kept
  cases hp : l.peer with
  | none => exact ⟨rfl, rfl, rfl, rfl⟩
  | some server =>
    cases he : l.epoch with
    | none => exact ⟨rfl, rfl, rfl, rfl⟩
    | some epoch =>
      refine ⟨?_, ?_, ?_, rfl⟩
      · dsimp only
        split
        · exact view_relayAll _ _ _
        · rfl
      · dsimp only
        split
        · exact generation_relayAll _ _ _
        · rfl
      · dsimp only
        split
        · exact held_relayAll _ _ _
        · rfl

/-- A link as it starts. -/
def fresh (g : Nat) : Live := { generation := g }

theorem register_eq (s : State) (p : String) :
    (register s p).1.view = s.view.set p (fresh (s.generation + 1)) ∧
      (register s p).1.generation = s.generation + 1 ∧
      (register s p).1.held =
        ((s.view.get p).bind Live.kept).elim s.held (s.held.set p) ∧
      (register s p).2 = (s.view.get p).elim [] fun l => l.left (s.held.get p) := by
  rw [get_view]
  unfold register
  cases hold : s.links.get p with
  | none => exact ⟨view_put _ _ _, rfl, rfl, rfl⟩
  | some old =>
    dsimp only
    obtain ⟨hview, hgen, hheld, hleft⟩ := hold_eq
      (({ s with generation := s.generation + 1 } : State).put p
        { generation := s.generation + 1,
          told := if s.shuttingDown then some .shutdown
            else if p ∈ s.suspended then some .suspended else none }) p (old.tell .replaced)
    refine ⟨hview.trans (view_put _ _ _), hgen, hheld.trans ?_, hleft.trans ?_⟩
    · rw [kept_tell]
      rfl
    · show (old.tell .replaced).left (s.held.get p) = old.learned.left (s.held.get p)
      unfold Live.left Live.tell
      split <;> rfl

theorem expire_eq (s : State) (p : String) (g : Nat) :
    (expire s p g).1.view = s.view ∧ (expire s p g).1.generation = s.generation ∧
      (((expire s p g).1.held = s.held ∧ (expire s p g).2 = []) ∨
        ∃ h, s.held.get p = some h ∧ h.generation = g ∧ (expire s p g).1.held = s.held.drop p ∧
          (expire s p g).2 = h.ghosts.values) := by
  unfold expire
  cases hh : s.held.get p with
  | none => exact ⟨rfl, rfl, .inl ⟨rfl, rfl⟩⟩
  | some h =>
    dsimp only
    by_cases hg : h.generation = g
    · rw [if_pos hg]
      exact ⟨view_relayAll _ _ _, generation_relayAll _ _ _,
        .inr ⟨h, rfl, hg, held_relayAll _ _ _, rfl⟩⟩
    · rw [if_neg hg]
      exact ⟨rfl, rfl, .inl ⟨rfl, rfl⟩⟩

@[simp] theorem learned_back (l : Live) (held : Option Held) (epoch : Epoch) (features : UInt32) :
    (l.back held epoch features).learned = l.learned.back held epoch features := by
  unfold Live.back
  cases held with
  | none => rfl
  | some h =>
    dsimp only [Option.elim]
    split <;> rfl

theorem resume_eq (s : State) (p : String) (g : Nat) (server : ServerId) (epoch : Epoch)
    (features : UInt32) :
    (s.current p g = none ∧ resume s p g server epoch features = (s, [])) ∨
    ∃ l, s.current p g = some l ∧
      (resume s p g server epoch features).1.view = s.view.set p
        (l.learned.back ((s.held.get p).filter fun h => !h.lost server features) epoch features) ∧
      (resume s p g server epoch features).1.generation = s.generation ∧
      (resume s p g server epoch features).1.held = s.held.drop p ∧
      (resume s p g server epoch features).2 =
        ((s.held.get p).filter fun h => h.lost server features).elim [] fun h => h.ghosts.values := by
  unfold resume
  cases hc : s.current p g with
  | none => exact .inl ⟨rfl, rfl⟩
  | some l =>
    refine .inr ⟨l, rfl, ?_, ?_, ?_, rfl⟩
    · dsimp only
      split
      · rw [view_put, learned_back]
        exact congrArg (Map.set · p _) (view_relayAll _ _ _)
      · rw [view_relayAll, view_put, learned_back]
        exact congrArg (Map.set · p _) (view_relayAll _ _ _)
    · dsimp only
      split
      · exact generation_relayAll _ _ _
      · rw [generation_relayAll]
        exact generation_relayAll _ _ _
    · dsimp only
      split
      · exact held_relayAll _ _ _
      · rw [held_relayAll]
        exact held_relayAll _ _ _

theorem settle_eq (s : State) (p : String) (g : Nat) :
    (s.current p g = none ∧ settle s p g = (s, [])) ∨
    ∃ l, s.current p g = some l ∧
      (settle s p g).1.view = s.view.set p { l.learned with unconfirmed := [] } ∧
      (settle s p g).1.generation = s.generation ∧ (settle s p g).1.held = s.held ∧
      (settle s p g).2 = l.unconfirmed := by
  unfold settle
  cases hc : s.current p g with
  | none => exact .inl ⟨rfl, rfl⟩
  | some l => exact .inr ⟨l, rfl, view_put _ _ _, rfl, rfl, rfl⟩

theorem unregister_eq (s : State) (p : String) (g : Nat) (interrupted : Bool) :
    (s.current p g = none ∧ unregister s p g interrupted = (s, [])) ∨
    ∃ l, s.current p g = some l ∧
      (unregister s p g interrupted).1.view = s.view.drop p ∧
      (unregister s p g interrupted).1.generation = s.generation ∧
      (unregister s p g interrupted).1.held =
        (if interrupted then l.kept.elim s.held (s.held.set p) else s.held.drop p) ∧
      (unregister s p g interrupted).2 =
        (if interrupted then l.left (s.held.get p)
          else l.ghosts.values ++ l.stale ++ (s.held.get p).elim [] fun h => h.ghosts.values) := by
  unfold unregister
  cases hc : s.current p g with
  | none => exact .inl ⟨rfl, rfl⟩
  | some l =>
    refine .inr ⟨l, rfl, ?_⟩
    have hdrop : (s.links.drop p).mapVals (fun _ => Live.learned) = s.view.drop p :=
      Map.mapVals_drop _ _ _
    dsimp only
    cases interrupted with
    | true =>
      rw [if_pos rfl, if_pos rfl, if_pos rfl]
      obtain ⟨hview, hgen, hheld, hleft⟩ := hold_eq ({ s with links := s.links.drop p } : State) p l
      exact ⟨hview.trans hdrop, hgen, hheld, hleft⟩
    | false =>
      rw [if_neg Bool.false_ne_true, if_neg Bool.false_ne_true, if_neg Bool.false_ne_true]
      refine ⟨?_, ?_, ?_, rfl⟩
      · rw [view_relayAll]
        split
        · exact hdrop
        · exact (view_relayAll _ _ _).trans hdrop
      · rw [generation_relayAll]
        split
        · rfl
        · exact generation_relayAll _ _ _
      · rw [held_relayAll]
        split
        · rfl
        · exact held_relayAll _ _ _

/-! ## The servers behind a link -/

@[simp] theorem learned_admitted (l : Live) (group : ServerGroup) (own : Bool) :
    (l.admitted group own).learned = l.learned.admitted group own := by
  cases own <;> rfl

theorem conflict_ok {group known : ServerGroup} {this : Bool} :
    conflict group this known = .ok () ↔ (known.id = group.id → this = true) ∧
      (known.id ≠ group.id → sameTag known.tag group.tag = false) := by
  unfold conflict
  cases this <;> by_cases hid : known.id = group.id <;> simp [hid]

theorem conflictHeld_ok {group known : ServerGroup} :
    conflictHeld group known = .ok () ↔
      known.id ≠ group.id ∧ sameTag known.tag group.tag = false := by
  unfold conflictHeld
  by_cases hid : known.id = group.id <;> simp [hid]

/-- All that an accepted group has passed, and what it leaves. -/
structure Accepted (cfg : Config) (s : State) (p : String) (g : Nat) (group : ServerGroup)
    (own : Bool) (l : Live) (s' : State) : Prop where
  current : s.current p g = some l
  notThis : group.id ≠ cfg.serverId
  near : own = true ∨ l.peer.any (fun q => q.id == group.id) = true ∨ (farther group).hops ≤ MAX_HOPS
  ownTag : sameTag group.tag cfg.tag = false
  live : ∀ n l', s.view.get n = some l' → ∀ known ∈ l'.known,
    (known.id = group.id → n = p) ∧ (known.id ≠ group.id → sameTag known.tag group.tag = false)
  held : ∀ n h, s.held.get n = some h → n ≠ p → ∀ known ∈ h.known,
    known.id ≠ group.id ∧ sameTag known.tag group.tag = false
  view_eq : s'.view = s.view.set p
    (l.learned.admitted group (own || l.peer.any fun q => q.id == group.id))
  held_eq : s'.held = s.held
  generation_eq : s'.generation = s.generation

theorem accepted_of_ok {cfg : Config} {s s' : State} {p : String} {g : Nat} {group : ServerGroup}
    {own : Bool} (h : acceptServer cfg s p g group own = .ok s') :
    ∃ l, Accepted cfg s p g group own l s' := by
  unfold acceptServer at h
  cases hc : s.current p g with
  | none => rw [hc] at h; simp at h
  | some l =>
    rw [hc] at h
    dsimp only at h
    simp only [ite_throw_bind_eq_ok, bind_eq_ok, pure_eq_ok, forM_eq_ok, conflict_ok,
      conflictHeld_ok, not_and] at h
    obtain ⟨hid, hhops, htag, -, hlive, -, hheld, rfl⟩ := h
    refine ⟨l, hc, hid, ?_, Bool.eq_false_iff.2 htag, ?_, ?_, ?_, ?_, ?_⟩
    · rw [← or_assoc, ← Bool.or_eq_true]
      by_cases hown : (own || l.peer.any fun q => q.id == group.id) = true
      · exact .inl hown
      · exact .inr (UInt16.not_lt.1 (hhops (Bool.eq_false_iff.2 hown)))
    · intro n l' hl' known hknown
      rw [get_view, Option.map_eq_some_iff] at hl'
      obtain ⟨l₀, hl₀, rfl⟩ := hl'
      obtain ⟨hthis, htags⟩ := hlive (n, l₀) (Map.mem_entries_iff.2 hl₀) known hknown
      exact ⟨fun heq => beq_iff_eq.1 (hthis heq), htags⟩
    · intro n h' hh' hn known hknown
      refine hheld (n, h') (List.mem_filter.2 ⟨Map.mem_entries_iff.2 hh', ?_⟩) known hknown
      exact bne_iff_ne.2 hn
    · rw [← learned_admitted, ← view_put]
      split
      · exact view_relay _ _ _
      · rfl
    · split <;> rfl
    · split <;> rfl

/-- A link without one of its servers, and without the ghosts homed there. -/
def Live.without (l : Live) (id : ServerId) : Live :=
  { l with
    servers := l.servers.drop id
    ghosts := l.ghosts.filter fun kv => kv.2.group.home != id }

theorem forgetServer_eq (s : State) (p : String) (g : Nat) (id : ServerId)
    (came : Option (List Field)) :
    (forgetServer s p g id came = (s, []) ∧ ∀ l, s.current p g = some l → l.servers.get id = none) ∨
    ∃ l, s.current p g = some l ∧ (l.servers.get id).isSome ∧
      (forgetServer s p g id came).1.view = s.view.set p (l.learned.without id) ∧
      (forgetServer s p g id came).1.generation = s.generation ∧
      (forgetServer s p g id came).1.held = s.held ∧
      (forgetServer s p g id came).2 =
        (l.ghosts.filter fun kv => kv.2.group.home == id).values := by
  unfold forgetServer
  cases hc : s.current p g with
  | none => exact .inl ⟨rfl, nofun⟩
  | some l =>
    dsimp only
    by_cases hid : (l.servers.get id).isNone = true
    · rw [if_pos hid]
      refine .inl ⟨rfl, fun l' hl' => ?_⟩
      obtain rfl := Option.some.inj hl'
      exact Option.isNone_iff_eq_none.1 hid
    · rw [if_neg hid]
      refine .inr ⟨l, rfl, by simpa [Option.isSome_iff_ne_none] using hid, ?_, ?_, ?_, rfl⟩
      · dsimp only
        split
        · exact (view_relay _ _ _).trans (view_put _ _ _)
        · exact view_put _ _ _
      · dsimp only
        split <;> rfl
      · dsimp only
        split <;> rfl

/-! ## Channels, which leave the tables as they are -/

/-- The tables and the count of links are as they were. -/
structure Quiet (s s' : State) : Prop where
  view : s'.view = s.view
  held : s'.held = s.held
  generation : s'.generation = s.generation

theorem Quiet.refl (s : State) : Quiet s s := ⟨rfl, rfl, rfl⟩

theorem quiet_relay (s : State) (p : String) (what : Relay) : Quiet s (relay s p what) :=
  ⟨view_relay _ _ _, rfl, rfl⟩

theorem quiet_mapVals (s : State) (f : String → Live → Live) (hf : ∀ n l, (f n l).learned = l.learned) :
    Quiet s { s with links := s.links.mapVals f } := ⟨view_mapVals s hf, rfl, rfl⟩

theorem quiet_put {l' : Live} (hc : s.current peer g = some live) (hl : l'.learned = live.learned) :
    Quiet s (s.put peer l') := by
  refine ⟨?_, rfl, rfl⟩
  rw [view_put, hl]
  exact Map.set_self (view_of_current hc)

theorem quiet_relayOpen (s : State) (p : String) (g : Nat) : Quiet s (relayOpen s p g).1 := by
  unfold relayOpen
  cases hc : (s.current p g).filter fun l => transit l.features with
  | none => exact Quiet.refl s
  | some l =>
    have hlearned : ({ l with hears := true } : Live).learned = l.learned := rfl
    obtain ⟨hput, -, -⟩ := quiet_put (Option.filter_eq_some_iff.1 hc).1 hlearned
    exact ⟨hput, rfl, rfl⟩

theorem quiet_subscribe (s : State) (p : String) (g : Nat) : Quiet s (subscribe s p g).1 := by
  unfold subscribe
  cases hc : s.current p g with
  | none => exact Quiet.refl s
  | some l =>
    have hlearned : ({ l with asks := true } : Live).learned = l.learned := rfl
    obtain ⟨hput, -, -⟩ := quiet_put hc hlearned
    exact ⟨hput, rfl, rfl⟩

theorem quiet_enqueue {s s' : State} {l : Live} {r : Request} (h : enqueue s l r = .ok s') :
    Quiet s s' := by
  unfold enqueue at h
  cases hc : (s.channels.get l.generation).filter fun _ => l.asks with
  | none => rw [hc] at h; simp at h
  | some c =>
    rw [hc] at h
    dsimp only at h
    split at h
    · rw [pure_eq_ok] at h
      subst h
      exact ⟨rfl, rfl, rfl⟩
    · simp at h

theorem quiet_forward {s s' : State} {p : String} {target : UInt16} {r : Frame} {feature : UInt32}
    {sender : Option UInt16} {asker : Asker}
    (h : forward s p g target r feature sender asker = some (.ok s')) : Quiet s s' := by
  unfold forward at h
  cases hs : s.showing target with
  | none =>
    rw [hs] at h
    dsimp only at h
    split at h <;> simp at h
  | some found =>
    obtain ⟨name, l, id⟩ := found
    rw [hs] at h
    dsimp only at h
    cases hc : (s.current p g).filter fun o => name != p && transit o.features && transit l.features with
    | none => rw [hc] at h; simp at h
    | some origin =>
      rw [hc] at h
      simp only [Option.some.injEq, ite_throw_bind_eq_ok, bind_eq_ok, mapError_eq_ok] at h
      exact quiet_enqueue h.2.choose_spec.2

theorem quiet_request {s s' : State} {uid : UInt16} {feature ty : UInt32}
    {build : UInt16 → List Field} {asker : Asker}
    (h : request s uid feature ty build asker = .ok s') : Quiet s s' := by
  unfold request at h
  cases hs : s.showing uid with
  | none => rw [hs] at h; simp at h
  | some found =>
    obtain ⟨name, l, id⟩ := found
    rw [hs] at h
    simp only [ite_throw_bind_eq_ok] at h
    exact quiet_enqueue h.2

theorem quiet_requestFor {s s' : State} {home : ServerId} {ty : UInt32} {fields : List Field}
    {except : Option String} {asker : Asker}
    (h : requestFor s home ty fields except asker = .ok s') : Quiet s s' := by
  unfold requestFor at h
  split at h
  · simp at h
  · exact quiet_enqueue h

theorem quiet_chat {s s' : State} {p : String} {id : UInt16} {fields : List Field}
    (h : chat s p g id fields = .ok s') : Quiet s s' := by
  unfold chat at h
  split at h
  · simp at h
  · rw [pure_eq_ok] at h
    subst h
    split
    · exact quiet_relay _ _ _
    · exact Quiet.refl s

theorem quiet_shutDown (s : State) : Quiet s (shutDown s) := by
  obtain ⟨hview, -, -⟩ := quiet_mapVals s (fun _ l => l.tell .shutdown) fun _ l => learned_tell l _
  exact ⟨hview, rfl, rfl⟩

/-! ## The peer's users -/

theorem knows_learned (l : Live) (id : ServerId) : l.learned.knows id = l.knows id := rfl

/-- A user taken in is homed behind the link, and keeps the slot it has. -/
theorem applyUser_eq {s s' : State} {p : String} {u : UserGroup} {limit maxGhosts count : Nat}
    {draw given : Option UInt16}
    (h : applyUser s p g u limit maxGhosts count draw = .ok (s', given)) :
    ∃ l uid, s.current p g = some l ∧ l.knows u.home = true ∧
      s'.view = s.view.set p { l.learned with ghosts := l.ghosts.set u.id ⟨uid, u⟩ } ∧
      s'.held = s.held ∧ s'.generation = s.generation ∧
      ((∃ slot, l.ghosts.get u.id = some slot ∧ slot.uid = uid ∧ given = none) ∨
        (l.ghosts.get u.id = none ∧ draw = some uid ∧ given = some uid)) := by
  unfold applyUser at h
  cases hc : s.current p g with
  | none => rw [hc] at h; simp at h
  | some l =>
    rw [hc] at h
    dsimp only at h
    have hquiet : ∀ (uid : UInt16) (what : Relay) (go : Bool),
        Quiet (s.put p { l with ghosts := l.ghosts.set u.id ⟨uid, u⟩ })
          (if go = true then relay (s.put p { l with ghosts := l.ghosts.set u.id ⟨uid, u⟩ }) p what
            else s.put p { l with ghosts := l.ghosts.set u.id ⟨uid, u⟩ }) := by
      intro uid what go
      cases go
      · exact Quiet.refl _
      · exact quiet_relay _ _ _
    rw [ite_throw_eq_ok] at h
    obtain ⟨hknows, h⟩ := h
    have hknows : l.knows u.home = true := by simpa using hknows
    cases hg : l.ghosts.get u.id with
    | some slot =>
      rw [hg] at h
      simp only [pure_eq_ok, Prod.mk.injEq] at h
      obtain ⟨rfl, rfl⟩ := h
      obtain ⟨hv, hh, hn⟩ := hquiet slot.uid (.user (relayedGroup slot.uid u l.features))
        (transit l.features && slot.group != u)
      exact ⟨l, slot.uid, rfl, hknows, hv.trans (view_put _ _ _), hh, hn,
        .inl ⟨slot, hg, rfl, rfl⟩⟩
    | none =>
      rw [hg] at h
      dsimp only at h
      rw [ite_throw_eq_ok] at h
      obtain ⟨-, h⟩ := h
      cases hd : draw with
      | none => rw [hd] at h; simp at h
      | some uid =>
        rw [hd] at h
        simp only [pure_eq_ok, Prod.mk.injEq] at h
        obtain ⟨rfl, rfl⟩ := h
        obtain ⟨hv, hh, hn⟩ := hquiet uid (.user (relayedGroup uid u l.features))
          (transit l.features)
        exact ⟨l, uid, rfl, hknows, hv.trans (view_put _ _ _), hh, hn, .inr ⟨hg, rfl, rfl⟩⟩

theorem userGone_eq (s : State) (p : String) (g : Nat) (id : UInt16) (came : List Field) :
    userGone s p g id came = (s, []) ∨
    ∃ l slot, s.current p g = some l ∧ l.ghosts.get id = some slot ∧
      (userGone s p g id came).1.view = s.view.set p { l.learned with ghosts := l.ghosts.drop id } ∧
      (userGone s p g id came).1.held = s.held ∧
      (userGone s p g id came).1.generation = s.generation ∧
      (userGone s p g id came).2 = [slot] := by
  unfold userGone
  cases hc : s.current p g with
  | none => exact .inl rfl
  | some l =>
    dsimp only
    cases hg : l.ghosts.get id with
    | none => exact .inl rfl
    | some slot =>
      refine .inr ⟨l, slot, rfl, hg, ?_, ?_, ?_, rfl⟩
      · dsimp only
        split
        · exact (view_relay _ _ _).trans (view_put _ _ _)
        · exact view_put _ _ _
      · dsimp only
        split <;> rfl
      · dsimp only
        split <;> rfl

/-- What matching a group against held ghosts leaves but for the ghosts. -/
theorem claim_frame (l : Live) (u : UserGroup) :
    ∃ ghosts stale, l.claim u = { l with ghosts := ghosts, stale := stale } := by
  unfold Live.claim
  repeat' split
  all_goals exact ⟨_, _, rfl⟩

theorem claims_frame (l : Live) (groups : List UserGroup) :
    ∃ ghosts stale, groups.foldl Live.claim l = { l with ghosts := ghosts, stale := stale } := by
  induction groups generalizing l with
  | nil => exact ⟨_, _, rfl⟩
  | cons u groups ih =>
    obtain ⟨ghosts, stale, h⟩ := claim_frame l u
    obtain ⟨ghosts', stale', h'⟩ := ih { l with ghosts := ghosts, stale := stale }
    exact ⟨ghosts', stale', by rw [List.foldl_cons, h, h']⟩

theorem learned_claims (l : Live) (groups : List UserGroup) :
    (groups.foldl Live.claim l).learned = groups.foldl Live.claim l.learned := by
  induction groups generalizing l with
  | nil => rfl
  | cons u groups ih =>
    rw [List.foldl_cons, List.foldl_cons, ih]
    congr 1
    unfold Live.claim
    rw [knows_learned, learned_ghosts, learned_stale]
    by_cases hc : (!l.knows u.home || (l.ghosts.get u.id).isSome) = true
    · rw [if_pos hc, if_pos hc]
    · rw [if_neg hc, if_neg hc]
      cases l.stale.findIdx? fun slot => slot.same u with
      | none => rfl
      | some i =>
        dsimp only
        cases l.stale[i]? <;> rfl

theorem claimStale_eq (s : State) (p : String) (g : Nat) (groups : List UserGroup) :
    claimStale s p g groups = (s, []) ∨
    ∃ l, s.current p g = some l ∧
      (claimStale s p g groups).1.view =
        s.view.set p { groups.foldl Live.claim l.learned with stale := [] } ∧
      (claimStale s p g groups).1.held = s.held ∧
      (claimStale s p g groups).1.generation = s.generation ∧
      (claimStale s p g groups).2 = (groups.foldl Live.claim l.learned).stale := by
  unfold claimStale
  cases hc : s.current p g with
  | none => exact .inl rfl
  | some l =>
    have hview : (s.put p { groups.foldl Live.claim l with stale := [] }).view =
        s.view.set p { groups.foldl Live.claim l.learned with stale := [] } := by
      rw [view_put, ← learned_claims]
      rfl
    refine .inr ⟨l, rfl, ?_, ?_, ?_, ?_⟩
    · dsimp only
      split
      · exact (view_relayAll _ _ _).trans hview
      · exact hview
    · dsimp only
      split
      · exact held_relayAll _ _ _
      · rfl
    · dsimp only
      split
      · exact generation_relayAll _ _ _
      · rfl
    · show (groups.foldl Live.claim l).stale = _
      rw [← learned_claims]
      rfl

/-! ## The operator's acts -/

theorem giveUp_eq (s : State) (name : String) :
    (giveUp s name).1.view = s.view ∧ (giveUp s name).1.generation = s.generation ∧
      (((giveUp s name).1.held = s.held ∧ (giveUp s name).2 = []) ∨
        ∃ h, s.held.get name = some h ∧ (giveUp s name).1.held = s.held.drop name ∧
          (giveUp s name).2 = h.ghosts.values) := by
  unfold giveUp
  cases hh : s.held.get name with
  | none => exact ⟨rfl, rfl, .inl ⟨rfl, rfl⟩⟩
  | some h =>
    exact ⟨view_relayAll _ _ _, generation_relayAll _ _ _,
      .inr ⟨h, rfl, held_relayAll _ _ _, rfl⟩⟩

end HxdNg.Link
