import Mathlib
import HxdNg.Link.Tables

/-!
# The hub's tables as they move

* `Tables`, `Move` : what the hub knows and shows, and everything that can happen to it;
* `Stage`, `Fits`, `Fitted` : how far a session has come, and what its link then holds;
* `good_step` : a step of the hub and its sessions keeps the second, and is a few of the first;
  `moves_run` : and so is a whole run.
-/

namespace HxdNg.Link

open Assoc (Map)

structure Tables where
  live : Map String Live := Map.empty
  held : Map String Held := Map.empty
  leaving : List Slot := []
  core : List UInt16 := []
  attached : List UInt16 := []
  parted : List UInt16 := []
  unnamed : String → List ServerId := fun _ => []

def World.tables (w : World) : Tables :=
  ⟨w.state.view, w.state.held, w.leaving, w.core, w.attached, w.parted, w.unnamed⟩

/-- A link that has learned nothing of what lies behind its peer. -/
structure Live.Bare (l : Live) : Prop where
  epoch : l.epoch = none
  servers : l.servers = Map.empty
  ghosts : l.ghosts = Map.empty
  stale : l.stale = []
  unconfirmed : l.unconfirmed = []

/-- A group that neither is nor is tagged as this server, nor as another known, that of `p`'s own
hold aside. -/
structure Admits (cfg : Config) (T : Tables) (p : String) (group : ServerGroup) : Prop where
  notThis : group.id ≠ cfg.serverId
  ownTag : sameTag group.tag cfg.tag = false
  live : ∀ n l, T.live.get n = some l → ∀ known ∈ l.known,
    (known.id = group.id → n = p) ∧ (known.id ≠ group.id → sameTag known.tag group.tag = false)
  held : ∀ n h, T.held.get n = some h → n ≠ p → ∀ known ∈ h.known,
    known.id ≠ group.id ∧ sameTag known.tag group.tag = false

/-- One change of the tables. -/
inductive Move (cfg : Config) (T : Tables) : Tables → Prop where
  | start (p : String) (g : Nat) : Move cfg T { T with
      live := T.live.set p (fresh g)
      held := ((T.live.get p).bind Live.kept).elim T.held (T.held.set p)
      leaving := T.leaving ++ (T.live.get p).elim [] fun l => l.left (T.held.get p) }
  | greet {p : String} {l : Live} (group : ServerGroup) (hl : T.live.get p = some l)
      (hbare : l.Bare) (hpeer : l.peer = none) (hok : Admits cfg T p group) : Move cfg T { T with
      live := T.live.set p (l.admitted group true)
      unnamed := Function.update T.unnamed p
        ((T.held.get p).elim [] fun h => h.known.map ServerGroup.id) }
  | resume {p : String} {l : Live} {own : ServerGroup} {server : ServerId} (epoch : Epoch)
      (features : UInt32) (hl : T.live.get p = some l) (hbare : l.Bare) (hpeer : l.peer = some own)
      (hid : own.id = server) : Move cfg T { T with
      live := T.live.set p
        (l.back ((T.held.get p).filter fun h => !h.lost server features) epoch features)
      held := T.held.drop p
      leaving := T.leaving ++
        ((T.held.get p).filter fun h => h.lost server features).elim [] fun h => h.ghosts.values }
  | settle {p : String} {l : Live} (hl : T.live.get p = some l) :
      Move cfg T { T with live := T.live.set p { l with unconfirmed := [] } }
  | accept {p : String} {l : Live} {own : ServerGroup} (group : ServerGroup)
      (hl : T.live.get p = some l) (hepoch : l.epoch.isSome) (hpeer : l.peer = some own)
      (hroom : own.id = group.id ∨ (l.servers.get group.id).isSome ∨
        l.servers.entries.length < MAX_SERVERS)
      (hok : Admits cfg T p group) : Move cfg T { T with
      live := T.live.set p (l.admitted group (own.id == group.id))
      unnamed := Function.update T.unnamed p ((T.unnamed p).filter fun id => id != group.id) }
  | forget {p : String} {l : Live} (id : ServerId) (hl : T.live.get p = some l) : Move cfg T { T with
      live := T.live.set p (l.without id)
      leaving := T.leaving ++ (l.ghosts.filter fun kv => kv.2.group.home == id).values }
  | applyKnown {p : String} {l : Live} {slot : Slot} (u : UserGroup) (hl : T.live.get p = some l)
      (hepoch : l.epoch.isSome) (hhome : l.knows u.home = true)
      (hslot : l.ghosts.get u.id = some slot) : Move cfg T { T with
      live := T.live.set p { l with ghosts := l.ghosts.set u.id ⟨slot.uid, u⟩ } }
  | applyNew {p : String} {l : Live} (u : UserGroup) (uid : UInt16) (hl : T.live.get p = some l)
      (hepoch : l.epoch.isSome) (hhome : l.knows u.home = true) (hslot : l.ghosts.get u.id = none)
      (hfresh : uid ∉ T.core) : Move cfg T { T with
      live := T.live.set p { l with ghosts := l.ghosts.set u.id ⟨uid, u⟩ }
      core := uid :: T.core
      attached := uid :: T.attached }
  | gone {p : String} {l : Live} {id : UInt16} {slot : Slot} (hl : T.live.get p = some l)
      (hslot : l.ghosts.get id = some slot) : Move cfg T { T with
      live := T.live.set p { l with ghosts := l.ghosts.drop id }
      leaving := T.leaving ++ [slot] }
  | claim {p : String} {l : Live} (groups : List UserGroup) (hl : T.live.get p = some l)
      (hepoch : l.epoch.isSome) : Move cfg T { T with
      live := T.live.set p { groups.foldl Live.claim l with stale := [] }
      leaving := T.leaving ++ (groups.foldl Live.claim l).stale }
  | interrupt {p : String} {l : Live} (hl : T.live.get p = some l) : Move cfg T { T with
      live := T.live.drop p
      held := l.kept.elim T.held (T.held.set p)
      leaving := T.leaving ++ l.left (T.held.get p) }
  | ended {p : String} {l : Live} (hl : T.live.get p = some l) : Move cfg T { T with
      live := T.live.drop p
      held := T.held.drop p
      leaving := T.leaving ++
        (l.ghosts.values ++ l.stale ++ (T.held.get p).elim [] fun h => h.ghosts.values) }
  | giveUp {p : String} {h : Held} (hh : T.held.get p = some h) : Move cfg T { T with
      held := T.held.drop p
      leaving := T.leaving ++ h.ghosts.values }
  | part {i : Nat} {slot : Slot} (hi : T.leaving[i]? = some slot) : Move cfg T { T with
      leaving := T.leaving.eraseIdx i
      core := T.core.erase slot.uid
      parted := slot.uid :: T.parted }

/-- Several changes, one after another. -/
abbrev Moves (cfg : Config) : Tables → Tables → Prop := Relation.ReflTransGen (Move cfg)

/-! ## How far a session has come -/

/-- A call made before what was held is taken back. -/
def Call.early : Call → Bool
  | .greet _ | .resume _ => true
  | _ => false

def Call.isAccept : Call → Bool
  | .accept _ _ _ => true
  | _ => false

/-- A link whose Hello is settled. -/
structure Opened (t : Session) (l : Live) : Prop where
  epoch : l.epoch.isSome
  peer : ∃ own, l.peer = some own ∧ t.peerId = some own.id
  features : l.features = t.features

inductive Stage (t : Session) (l : Live) : Prop where
  | hello (hphase : t.phase = .hello) (hbare : l.Bare) (hpeer : l.peer = none)
      (hcalls : t.calls = [] ∨ ∃ hello, t.calls = [.greet hello])
  | greeted {hello : Hello} {own : ServerGroup} (hphase : t.phase = .hello) (hbare : l.Bare)
      (hpeer : l.peer = some own) (hcalls : t.calls = [.resume hello])
      (hid : own.id = hello.server.id) (hpeerId : t.peerId = some own.id)
  | opened (hopen : Opened t l) (hcalls : ∀ c ∈ t.calls, c.early = false)
      (hphase : t.phase = .hello → t.calls = [.relayOpen])
  | closing (hphase : t.phase = .closing ∨ t.phase = .ended) (hcalls : t.calls = [])

structure Fits (t : Session) (l : Live) : Prop where
  stage : Stage t l
  room : ∀ g known establishing, Call.accept g known establishing ∈ t.calls →
    t.peerId = some g.id ∨ (l.servers.get g.id).isSome ∨ l.servers.entries.length < MAX_SERVERS
  once : ∀ c ∈ t.calls.tail, c.isAccept = false

/-- Every live link has its session, which fits it. -/
structure Fitted (w : World) : Prop where
  session : ∀ n l, w.state.view.get n = some l →
    ∃ t, w.sessions.get l.generation = some t ∧ t.entry.name = n ∧ Fits t l
  bound : ∀ g t, w.sessions.get g = some t → g ≤ w.state.generation

section Fits
variable {t t' : Session} {l l' : Live} {c : Call} {rest calls : List Call}

theorem Stage.congr (h : Stage t l) (hphase : t'.phase = t.phase) (hcalls : t'.calls = t.calls)
    (hpeer : t'.peerId = t.peerId) (hfeatures : t'.features = t.features) : Stage t' l := by
  cases h with
  | hello h1 h2 h3 h4 => exact .hello (hphase.trans h1) h2 h3 (hcalls ▸ h4)
  | greeted h1 h2 h3 h4 h5 h6 =>
    exact .greeted (hphase.trans h1) h2 h3 (hcalls.trans h4) h5 (hpeer.trans h6)
  | opened h1 h2 h3 =>
    refine .opened ⟨h1.epoch, ?_, h1.features.trans hfeatures.symm⟩ (hcalls ▸ h2) ?_
    · rw [hpeer]
      exact h1.peer
    · rw [hphase, hcalls]
      exact h3
  | closing h1 h2 => exact .closing (hphase ▸ h1) (hcalls.trans h2)

theorem Fits.congr (h : Fits t l) (hphase : t'.phase = t.phase) (hcalls : t'.calls = t.calls)
    (hpeer : t'.peerId = t.peerId) (hfeatures : t'.features = t.features) : Fits t' l where
  stage := h.stage.congr hphase hcalls hpeer hfeatures
  room := by
    rw [hcalls, hpeer]
    exact h.room
  once := by
    rw [hcalls]
    exact h.once

theorem fits_closing (t : Session) (l : Live) : Fits t.closing l where
  stage := .closing (.inl rfl) rfl
  room _ _ _ h := (List.not_mem_nil h).elim
  once _ h := (List.not_mem_nil h).elim

/-- Once a Hello is settled a session's other calls find it so. -/
theorem Fits.opened (h : Fits t l) (hcalls : t.calls = c :: rest) (hc : c.early = false) :
    Opened t l ∧ (∀ c ∈ rest, c.early = false) ∧ (t.phase = .hello → c = .relayOpen) := by
  cases h.stage with
  | hello _ _ _ h4 =>
    rcases h4 with h4 | ⟨hello, h4⟩
    · rw [hcalls] at h4
      cases h4
    · rw [hcalls] at h4
      obtain ⟨rfl, -⟩ := List.cons.inj h4
      cases hc
  | greeted _ _ _ h4 _ _ =>
    rw [hcalls] at h4
    obtain ⟨rfl, -⟩ := List.cons.inj h4
    cases hc
  | opened h1 h2 h3 =>
    refine ⟨h1, fun c hmem => h2 c (hcalls ▸ List.mem_cons_of_mem _ hmem), fun hp => ?_⟩
    have h4 := h3 hp
    rw [hcalls] at h4
    exact (List.cons.inj h4).1
  | closing _ h2 =>
    rw [hcalls] at h2
    cases h2

/-- A session that goes on to other calls. -/
theorem Opened.fits (h : Opened t l) (hphase : t.phase ≠ .hello)
    (hcalls : ∀ c ∈ t.calls, c.early = false) (hplain : ∀ c ∈ t.calls, c.isAccept = false) :
    Fits t l where
  stage := .opened h hcalls fun hp => absurd hp hphase
  room g known est hmem := by cases hplain _ hmem
  once c hmem := hplain c (List.mem_of_mem_tail hmem)

end Fits

section Fitted
variable {w w' : World} {g : Nat} {t t' : Session}

theorem Fitted.current (h : Fitted w) {p : String} {l : Live} (ht : w.sessions.get g = some t)
    (hc : w.state.current p g = some l) : t.entry.name = p ∧ Fits t l.learned := by
  obtain ⟨t', ht', hname, hfits⟩ := h.session p l.learned (view_of_current hc)
  rw [learned_generation, (current_eq_some hc).2, ht] at ht'
  obtain rfl := Option.some.inj ht'
  exact ⟨hname, hfits⟩

/-- A session's link is found under its own peer, and by its own generation. -/
theorem Fitted.name (h : Fitted w) (ht : w.sessions.get g = some t) {n : String} {l : Live}
    (hl : w.state.view.get n = some l) (hg : l.generation = g) : n = t.entry.name := by
  obtain ⟨t', ht', hname, -⟩ := h.session n l hl
  rw [hg, ht] at ht'
  obtain rfl := Option.some.inj ht'
  exact hname.symm

/-- A step of one session, on its own link. -/
theorem Fitted.act (h : Fitted w) (ht : w.sessions.get g = some t)
    (hsessions : w'.sessions = w.sessions.set g t') (hentry : t'.entry = t.entry)
    (hgen : w'.state.generation = w.state.generation)
    (hother : ∀ n, n ≠ t.entry.name → w'.state.view.get n = w.state.view.get n)
    (hown : ∀ l, w'.state.view.get t.entry.name = some l →
      (l.generation = g ∧ Fits t' l) ∨
      (l.generation ≠ g ∧ w.state.view.get t.entry.name = some l)) : Fitted w' where
  session n l hl := by
    have hold : l.generation ≠ g → w.state.view.get n = some l →
        ∃ t'', w'.sessions.get l.generation = some t'' ∧ t''.entry.name = n ∧ Fits t'' l := by
      intro hg hl
      obtain ⟨t'', ht'', hname, hfits⟩ := h.session n l hl
      refine ⟨t'', ?_, hname, hfits⟩
      rw [hsessions, Map.get_set, if_neg hg, ht'']
    by_cases hn : n = t.entry.name
    · subst hn
      rcases hown l hl with ⟨hg, hfits⟩ | ⟨hg, hl⟩
      · refine ⟨t', ?_, by rw [hentry], hfits⟩
        rw [hsessions, hg, Map.get_set, if_pos rfl]
      · exact hold hg hl
    · rw [hother n hn] at hl
      exact hold (fun hg => hn (h.name ht hl hg)) hl
  bound k t'' hk := by
    rw [hgen]
    rw [hsessions, Map.get_set] at hk
    by_cases hkg : k = g
    · exact h.bound k t (hkg ▸ ht)
    · rw [if_neg hkg] at hk
      exact h.bound k t'' hk

/-- A step of one session that leaves the tables as they are. -/
theorem Fitted.quiet (h : Fitted w) (ht : w.sessions.get g = some t)
    (hsessions : w'.sessions = w.sessions.set g t') (hentry : t'.entry = t.entry)
    (hq : Quiet w.state w'.state)
    (hfits : ∀ l, w.state.view.get t.entry.name = some l → l.generation = g → Fits t l → Fits t' l) :
    Fitted w' := by
  refine h.act ht hsessions hentry hq.generation (fun n _ => by rw [hq.view]) fun l hl => ?_
  rw [hq.view] at hl
  by_cases hg : l.generation = g
  · obtain ⟨t'', ht'', -, hf⟩ := h.session _ l hl
    rw [hg, ht] at ht''
    obtain rfl := Option.some.inj ht''
    exact .inl ⟨hg, hfits l hl hg hf⟩
  · exact .inr ⟨hg, hl⟩

/-- A step of one session that changes its link. -/
theorem Fitted.change (h : Fitted w) {l l' : Live} (ht : w.sessions.get g = some t)
    (hsessions : w'.sessions = w.sessions.set g t') (hentry : t'.entry = t.entry)
    (hgen : w'.state.generation = w.state.generation)
    (hc : w.state.current t.entry.name g = some l)
    (hview : w'.state.view = w.state.view.set t.entry.name l') (hl' : l'.generation = l.generation)
    (hfits : Fits t' l') : Fitted w' := by
  refine h.act ht hsessions hentry hgen (fun n hn => ?_) fun l'' hl'' => ?_
  · rw [hview, Map.get_set, if_neg hn]
  · rw [hview, Map.get_set, if_pos rfl] at hl''
    obtain rfl := Option.some.inj hl''
    exact .inl ⟨hl'.trans (current_eq_some hc).2, hfits⟩

/-- What does not touch a session or a link. -/
theorem Fitted.still (h : Fitted w) (hview : w'.state.view = w.state.view)
    (hgen : w'.state.generation = w.state.generation) (hsessions : w'.sessions = w.sessions) :
    Fitted w' where
  session n l hl := by
    rw [hsessions]
    exact h.session n l (hview ▸ hl)
  bound k t hk := by
    rw [hgen]
    exact h.bound k t (hsessions ▸ hk)

end Fitted

/-! ## What each step does -/

/-- A step that keeps every session fitted, and is a few moves of the tables. -/
structure Good (cfg : Setup) (w w' : World) : Prop where
  fitted : Fitted w'
  moves : Moves cfg.toConfig w.tables w'.tables

section Perform
variable {cfg : Setup} {w w' : World} {g : Nat} {t t' : Session} {c : Call}
  {calls later : List Call} {l : Live}

theorem good_quiet (h : Fitted w) (ht : w.sessions.get g = some t)
    (hsessions : w'.sessions = w.sessions.set g t') (hentry : t'.entry = t.entry)
    (hq : Quiet w.state w'.state)
    (htables : w'.tables = w.tables)
    (hfits : ∀ l, w.state.view.get t.entry.name = some l → l.generation = g → Fits t l → Fits t' l) :
    Good cfg w w' := by
  refine ⟨h.quiet ht hsessions hentry hq hfits, ?_⟩
  rw [htables]

theorem good_change (h : Fitted w) {l l' : Live} {held : Map String Held} {leaving : List Slot}
    (ht : w.sessions.get g = some t)
    (hsessions : w'.sessions = w.sessions.set g t') (hentry : t'.entry = t.entry)
    (hgen : w'.state.generation = w.state.generation)
    (hc : w.state.current t.entry.name g = some l)
    (hview : w'.state.view = w.state.view.set t.entry.name l') (hheld : w'.state.held = held)
    (hleaving : w'.leaving = leaving) (hl' : l'.generation = l.generation)
    (hfits : Fits t l.learned → Fits t' l')
    (hmove : Move cfg.toConfig w.tables ⟨w.state.view.set t.entry.name l', held, leaving, w'.core,
      w'.attached, w'.parted, w'.unnamed⟩) : Good cfg w w' := by
  refine ⟨h.change ht hsessions hentry hgen hc hview hl' (hfits (h.current ht hc).2), .single ?_⟩
  rw [← hview, ← hheld, ← hleaving] at hmove
  exact hmove

theorem current_of_view {s : State} {p : String} (hl : s.view.get p = some l)
    (hg : l.generation = g) : ∃ l₀, s.current p g = some l₀ ∧ l₀.learned = l := by
  rw [get_view, Option.map_eq_some_iff] at hl
  obtain ⟨l₀, hl₀, rfl⟩ := hl
  refine ⟨l₀, ?_, rfl⟩
  rw [State.current, hl₀]
  exact if_pos (beq_iff_eq.2 hg)

theorem generation_of_current_none (h : w.state.current t.entry.name g = none)
    (hl : w.state.view.get t.entry.name = some l) : l.generation ≠ g := by
  intro hg
  obtain ⟨l₀, hc, -⟩ := current_of_view hl hg
  rw [h] at hc
  cases hc

/-- Going on to calls that accept nothing yet. -/
theorem Fits.goOn (h : Fits t l) (hcalls : t.calls = c :: later) (hc : c.early = false)
    (hrelay : c ≠ .relayOpen) (hearly : ∀ c ∈ calls, c.early = false)
    (hplain : ∀ c ∈ calls, c.isAccept = false) : Fits { t with calls := calls } l := by
  obtain ⟨hopen, -, hphase⟩ := h.opened hcalls hc
  exact Opened.fits ⟨hopen.epoch, hopen.peer, hopen.features⟩ (fun hp => hrelay (hphase hp)) hearly
    hplain

theorem Fits.rest (h : Fits t l) (hcalls : t.calls = c :: later) :
    ∀ c ∈ later, c.isAccept = false := by
  intro c' hc'
  refine h.once c' ?_
  rw [hcalls]
  exact hc'

theorem Fits.next (h : Fits t l) (hcalls : t.calls = c :: later) (hc : c.early = false)
    (hrelay : c ≠ .relayOpen) : Fits { t with calls := later } l :=
  h.goOn hcalls hc hrelay (h.opened hcalls hc).2.1 (h.rest hcalls)

/-- The same, on a link that has changed since. -/
theorem Fits.onto (h : Fits t l) {l' : Live} (hcalls : t.calls = c :: later) (hc : c.early = false)
    (hrelay : c ≠ .relayOpen) (hepoch : l'.epoch = l.epoch) (hfeatures : l'.features = l.features)
    (hpeer : l'.peer.map ServerGroup.id = l.peer.map ServerGroup.id)
    (hearly : ∀ c ∈ calls, c.early = false) (hplain : ∀ c ∈ calls, c.isAccept = false) :
    Fits { t with calls := calls } l' := by
  obtain ⟨hopen, -, hphase⟩ := h.opened hcalls hc
  obtain ⟨own, hown, hid⟩ := hopen.peer
  refine Opened.fits ⟨hepoch ▸ hopen.epoch, ?_, hfeatures.trans hopen.features⟩
    (fun hp => hrelay (hphase hp)) hearly hplain
  rw [hown, Option.map_some, Option.map_eq_some_iff] at hpeer
  obtain ⟨own', hown', hsame⟩ := hpeer
  exact ⟨own', hown', by rw [hsame]; exact hid⟩

/-! ### A session's calls -/

theorem tables_after (w : World) (r : State × List Slot) :
    (w.after r).tables =
      { w.tables with live := r.1.view, held := r.1.held, leaving := w.leaving ++ r.2 } := rfl

theorem tables_put (w : World) (g : Nat) (t : Session) : (w.putSession g t).tables = w.tables := rfl

theorem tables_of_quiet {w : World} {s : State} (hq : Quiet w.state s) :
    ({ w with state := s } : World).tables = w.tables := by
  unfold World.tables
  rw [hq.view, hq.held]

theorem admits_of_accepted {s : State} {p : String} {group : ServerGroup} {own : Bool} {l : Live}
    (h : Accepted cfg.toConfig w.state p g group own l s) : Admits cfg.toConfig w.tables p group :=
  ⟨h.notThis, h.ownTag, h.live, h.held⟩

theorem good_greet (h : Fitted w) (ht : w.sessions.get g = some t) (hello : Hello)
    (hcalls : t.calls = .greet hello :: later) (draw : Option UInt16) :
    Good cfg w (w.perform cfg g { t with calls := later } draw (.greet hello)) := by
  unfold World.perform
  cases hok : acceptServer cfg.toConfig w.state t.entry.name g hello.server true with
  | error why =>
    dsimp only
    rw [hok]
    dsimp only
    exact good_quiet h ht rfl rfl (Quiet.refl _) rfl fun l _ _ _ => fits_closing _ l
  | ok s =>
    dsimp only
    rw [hok]
    dsimp only
    obtain ⟨l, hl⟩ := accepted_of_ok hok
    have hview := hl.view_eq
    rw [Bool.true_or] at hview
    obtain ⟨-, hfits⟩ := h.current ht hl.current
    cases hfits.stage with
    | hello hphase hbare hpeer _ =>
      refine good_change h ht rfl rfl hl.generation_eq hl.current hview hl.held_eq rfl rfl (fun _ => ?_)
        (.greet hello.server (view_of_current hl.current) hbare hpeer (admits_of_accepted hl))
      refine ⟨.greeted hphase ⟨hbare.epoch, hbare.servers, hbare.ghosts, hbare.stale, ?_⟩ rfl rfl rfl
        rfl, ?_, ?_⟩
      · show l.learned.unconfirmed.filter _ = []
        rw [hbare.unconfirmed]
        rfl
      · intro g' known est hmem
        cases List.mem_singleton.1 hmem
      · intro c hc
        exact (List.not_mem_nil hc).elim
    | greeted _ _ _ hcalls' _ _ =>
      rw [hcalls] at hcalls'
      cases (List.cons.inj hcalls').1
    | opened _ hearly _ =>
      have := hearly (.greet hello) (hcalls ▸ List.mem_cons_self)
      cases this
    | closing _ hcalls' =>
      rw [hcalls] at hcalls'
      cases hcalls'

/-- A call on the hub that found its link replaced. -/
theorem good_missed (h : Fitted w) (ht : w.sessions.get g = some t)
    (hnone : w.state.current t.entry.name g = none) (hsessions : w'.sessions = w.sessions.set g t')
    (hentry : t'.entry = t.entry) (hq : Quiet w.state w'.state) (htables : w'.tables = w.tables) :
    Good cfg w w' :=
  good_quiet h ht hsessions hentry hq htables fun _ hl hg =>
    (generation_of_current_none hnone hl hg).elim

theorem back_frame (l : Live) (held : Option Held) (epoch : Epoch) (features : UInt32) :
    (l.back held epoch features).generation = l.generation ∧
      (l.back held epoch features).epoch = some epoch ∧
      (l.back held epoch features).features = features ∧
      (l.back held epoch features).peer = l.peer := by
  unfold Live.back
  cases held with
  | none => exact ⟨rfl, rfl, rfl, rfl⟩
  | some h =>
    dsimp only [Option.elim]
    split <;> exact ⟨rfl, rfl, rfl, rfl⟩

theorem good_resume (h : Fitted w) (ht : w.sessions.get g = some t) (hello : Hello)
    (hcalls : t.calls = .resume hello :: later) (draw : Option UInt16) :
    Good cfg w (w.perform cfg g { t with calls := later } draw (.resume hello)) := by
  unfold World.perform
  dsimp only
  rcases resume_eq w.state t.entry.name g hello.server.id hello.epoch t.features with
    ⟨hnone, heq⟩ | ⟨l, hc, hview, hgen, hheld, hout⟩
  · rw [heq]
    exact good_missed h ht hnone rfl rfl (Quiet.refl _) (by
      rw [tables_put, tables_after, List.append_nil]
      rfl)
  · obtain ⟨-, hfits⟩ := h.current ht hc
    have hstage : ∃ own, l.learned.Bare ∧ l.learned.peer = some own ∧ own.id = hello.server.id ∧
        t.peerId = some own.id := by
      cases hfits.stage with
      | hello _ _ _ hcalls' =>
        rw [hcalls] at hcalls'
        rcases hcalls' with hcalls' | ⟨_, hcalls'⟩
        · cases hcalls'
        · cases (List.cons.inj hcalls').1
      | greeted _ hbare hpeer hcalls' hid hpeerId =>
        rw [hcalls] at hcalls'
        cases (List.cons.inj hcalls').1
        exact ⟨_, hbare, hpeer, hid, hpeerId⟩
      | opened _ hearly _ =>
        have := hearly (.resume hello) (hcalls ▸ List.mem_cons_self)
        cases this
      | closing _ hcalls' =>
        rw [hcalls] at hcalls'
        cases hcalls'
    obtain ⟨own, hbare, hpeer, hid, hpeerId⟩ := hstage
    obtain ⟨hgen', hepoch, hfeatures, hpeer'⟩ := back_frame l.learned
      ((w.state.held.get t.entry.name).filter fun h => !h.lost hello.server.id t.features)
      hello.epoch t.features
    refine good_change h ht rfl rfl hgen hc hview hheld (congrArg (w.leaving ++ ·) hout) hgen' (fun _ => ?_)
      (.resume hello.epoch t.features (view_of_current hc) hbare hpeer hid)
    refine ⟨.opened ⟨by rw [hepoch]; rfl, ⟨own, hpeer'.trans hpeer, hpeerId⟩, hfeatures⟩ ?_
      fun _ => rfl, ?_, ?_⟩
    · intro c hmem
      rw [List.mem_singleton.1 hmem]
      rfl
    · intro g' known est hmem
      cases List.mem_singleton.1 hmem
    · intro c hmem
      exact (List.not_mem_nil hmem).elim

/-- A call that leaves the tables as they are, and goes on to others. -/
theorem good_goOn (h : Fitted w) (ht : w.sessions.get g = some t) (hcalls : t.calls = c :: later)
    (hc : c.early = false) (hrelay : c ≠ .relayOpen)
    (hsessions : w'.sessions = w.sessions.set g { t with calls := calls })
    (hq : Quiet w.state w'.state) (htables : w'.tables = w.tables)
    (hearly : ∀ c ∈ calls, c.early = false) (hplain : ∀ c ∈ calls, c.isAccept = false) :
    Good cfg w w' :=
  good_quiet h ht hsessions rfl hq htables fun _ _ _ hf =>
    hf.goOn hcalls hc hrelay hearly hplain

theorem good_closing (h : Fitted w) (ht : w.sessions.get g = some t) :
    Good cfg w (w.putSession g { t with calls := calls }.closing) :=
  good_quiet h ht rfl rfl (Quiet.refl _) rfl fun l _ _ _ => fits_closing _ l

/-- The same, with the calls there were. -/
theorem good_next (h : Fitted w) (ht : w.sessions.get g = some t) (hcalls : t.calls = c :: later)
    (hc : c.early = false) (hrelay : c ≠ .relayOpen)
    (hsessions : w'.sessions = w.sessions.set g { t with calls := later })
    (hq : Quiet w.state w'.state) (htables : w'.tables = w.tables) : Good cfg w w' :=
  good_quiet h ht hsessions rfl hq htables fun _ _ _ hf => hf.next hcalls hc hrelay

/-- A call that changes the session's own link. -/
theorem good_onto (h : Fitted w) {l l' : Live} {held : Map String Held} {leaving : List Slot}
    (ht : w.sessions.get g = some t) (hcalls : t.calls = c :: later) (hc : c.early = false)
    (hrelay : c ≠ .relayOpen) (hsessions : w'.sessions = w.sessions.set g { t with calls := calls })
    (hgen : w'.state.generation = w.state.generation)
    (hcur : w.state.current t.entry.name g = some l)
    (hview : w'.state.view = w.state.view.set t.entry.name l') (hheld : w'.state.held = held)
    (hleaving : w'.leaving = leaving)
    (hframe : l'.generation = l.generation ∧ l'.epoch = l.epoch ∧ l'.features = l.features ∧
      l'.peer.map ServerGroup.id = l.peer.map ServerGroup.id)
    (hplain : (∀ c ∈ later, c.early = false) → (∀ c ∈ later, c.isAccept = false) →
      ∀ c ∈ calls, c.early = false ∧ c.isAccept = false)
    (hmove : Opened t l.learned → Move cfg.toConfig w.tables
      ⟨w.state.view.set t.entry.name l', held, leaving, w'.core, w'.attached, w'.parted,
        w'.unnamed⟩) : Good cfg w w' := by
  obtain ⟨-, hfits⟩ := h.current ht hcur
  obtain ⟨hopen, hlater, -⟩ := hfits.opened hcalls hc
  have hnew := hplain hlater (hfits.rest hcalls)
  obtain ⟨hgen', hepoch, hfeatures, hpeer⟩ := hframe
  refine good_change h ht hsessions rfl hgen hcur hview hheld hleaving hgen' (fun hf => ?_)
    (hmove hopen)
  exact hf.onto hcalls hc hrelay hepoch hfeatures hpeer (fun c hmem => (hnew c hmem).1)
    fun c hmem => (hnew c hmem).2

theorem good_relayOpen (h : Fitted w) (ht : w.sessions.get g = some t)
    (hcalls : t.calls = .relayOpen :: later) (draw : Option UInt16) :
    Good cfg w (w.perform cfg g { t with calls := later } draw .relayOpen) := by
  have hq := quiet_relayOpen w.state t.entry.name g
  refine good_quiet h ht rfl rfl hq (tables_of_quiet hq) fun l _ _ hf => ?_
  obtain ⟨hopen, hearly, -⟩ := hf.opened hcalls rfl
  refine Opened.fits ⟨hopen.epoch, hopen.peer, hopen.features⟩ (fun hp => ?_) hearly (hf.rest hcalls)
  cases hp

theorem good_take (h : Fitted w) (ht : w.sessions.get g = some t) (group : ServerGroup)
    (establishing : Bool) (hcalls : t.calls = .take group establishing :: later)
    (draw : Option UInt16) :
    Good cfg w (w.perform cfg g { t with calls := later } draw (.take group establishing)) := by
  have hskip : Good cfg w (w.putSession g { t with calls := later }) :=
    good_next h ht hcalls rfl nofun rfl (Quiet.refl _) rfl
  unfold World.perform
  dsimp only
  split
  · exact hskip
  split
  · exact hskip
  split
  · exact hskip
  next _ _ hroom =>
    refine good_quiet h ht rfl rfl (Quiet.refl _) rfl fun l hl hg hf => ?_
    obtain ⟨hopen, hearly, hphase⟩ := hf.opened hcalls rfl
    refine ⟨.opened ⟨hopen.epoch, hopen.peer, hopen.features⟩ ?_ fun hp => (nomatch hphase hp),
      ?_, hf.rest hcalls⟩
    · intro c hmem
      rcases List.mem_cons.1 hmem with rfl | hmem
      · rfl
      · exact hearly c hmem
    · intro g' known est hmem
      rcases List.mem_cons.1 hmem with heq | hmem
      · obtain ⟨rfl, -, -⟩ := Call.accept.inj heq
        obtain ⟨l₀, hcur, rfl⟩ := current_of_view hl hg
        rw [Bool.and_eq_true, Bool.and_eq_true, not_and] at hroom
        by_cases hown : t.peerId = some g'.id
        · exact .inl hown
        · by_cases hknown : (l₀.servers.get g'.id).isSome = true
          · exact .inr (.inl hknown)
          · refine .inr (.inr ?_)
            have hfull := hroom
              ⟨by simpa using hown, by
                rw [knowsBehind, hcur, Option.any_some]
                simpa using hknown⟩
            rw [serversBehind, hcur, Bool.not_eq_true, decide_eq_false_iff_not] at hfull
            exact Nat.lt_of_not_le hfull
      · cases hf.rest hcalls _ hmem

theorem good_accept (h : Fitted w) (ht : w.sessions.get g = some t) (group : ServerGroup)
    (known establishing : Bool) (hcalls : t.calls = .accept group known establishing :: later)
    (draw : Option UInt16) :
    Good cfg w (w.perform cfg g { t with calls := later } draw (.accept group known establishing)) := by
  unfold World.perform
  dsimp only
  cases hok : acceptServer cfg.toConfig w.state t.entry.name g group false with
  | error why =>
    dsimp only
    split
    · exact good_closing h ht
    split
    · refine good_quiet h ht rfl rfl (Quiet.refl _) rfl fun l _ _ hf => ?_
      obtain ⟨-, hearly, -⟩ := hf.opened hcalls rfl
      refine hf.goOn hcalls rfl nofun ?_ ?_
      · intro c hmem
        rcases List.mem_cons.1 hmem with rfl | hmem
        · rfl
        · exact hearly c hmem
      · intro c hmem
        rcases List.mem_cons.1 hmem with rfl | hmem
        · rfl
        · exact hf.rest hcalls c hmem
    · exact good_next h ht hcalls rfl nofun rfl (Quiet.refl _) rfl
  | ok s =>
    dsimp only
    obtain ⟨l, hl⟩ := accepted_of_ok hok
    obtain ⟨-, hfits⟩ := h.current ht hl.current
    obtain ⟨hopen, -, -⟩ := hfits.opened hcalls rfl
    obtain ⟨own, hown, hid⟩ := hopen.peer
    have hown' : l.peer = some own := hown
    have hview := hl.view_eq
    rw [Bool.false_or, hown', Option.any_some] at hview
    have hroom := hfits.room group known establishing (hcalls ▸ List.mem_cons_self)
    rw [hid, Option.some.injEq] at hroom
    refine good_onto h ht hcalls rfl nofun rfl hl.generation_eq hl.current hview hl.held_eq rfl ?_
      (fun he hp c hmem => ⟨he c hmem, hp c hmem⟩) fun _ =>
        .accept group (view_of_current hl.current) hopen.epoch hown hroom (admits_of_accepted hl)
    by_cases heq : own.id = group.id
    · rw [Live.admitted, if_pos (beq_iff_eq.2 heq)]
      refine ⟨rfl, rfl, rfl, ?_⟩
      rw [hown']
      exact congrArg some heq.symm
    · rw [Live.admitted, if_neg fun hb => heq (beq_iff_eq.1 hb)]
      exact ⟨rfl, rfl, rfl, rfl⟩

theorem good_forget (h : Fitted w) (ht : w.sessions.get g = some t) (id : ServerId)
    (came : Option (List Field)) (hcalls : t.calls = .forget id came :: later)
    (draw : Option UInt16) :
    Good cfg w (w.perform cfg g { t with calls := later } draw (.forget id came)) := by
  unfold World.perform
  dsimp only
  rcases forgetServer_eq w.state t.entry.name g id came with
    ⟨heq, -⟩ | ⟨l, hcur, -, hview, hgen, hheld, hout⟩
  · rw [heq]
    exact good_next h ht hcalls rfl nofun rfl (Quiet.refl _) (by
      rw [tables_put, tables_after, List.append_nil]
      rfl)
  · exact good_onto h ht hcalls rfl nofun rfl hgen hcur hview hheld
      (congrArg (w.leaving ++ ·) hout) ⟨rfl, rfl, rfl, rfl⟩
      (fun he hp c hmem => ⟨he c hmem, hp c hmem⟩) fun _ => .forget id (view_of_current hcur)

theorem good_settle (h : Fitted w) (ht : w.sessions.get g = some t) (hcalls : t.calls = .settle :: later)
    (draw : Option UInt16) :
    Good cfg w (w.perform cfg g { t with calls := later } draw .settle) := by
  have hplain : ∀ (gone : List ServerId),
      ∀ c ∈ gone.map (Call.forget · none) ++ [Call.subscribe], c.early = false ∧ c.isAccept = false := by
    intro gone c hmem
    rcases List.mem_append.1 hmem with hmem | hmem
    · obtain ⟨id, -, rfl⟩ := List.mem_map.1 hmem
      exact ⟨rfl, rfl⟩
    · rw [List.mem_singleton.1 hmem]
      exact ⟨rfl, rfl⟩
  unfold World.perform
  dsimp only
  rcases settle_eq w.state t.entry.name g with ⟨hnone, heq⟩ | ⟨l, hcur, hview, hgen, hheld, -⟩
  · rw [heq]
    exact good_missed h ht hnone rfl rfl (Quiet.refl _) rfl
  · exact good_onto h ht hcalls rfl nofun rfl hgen hcur hview hheld rfl ⟨rfl, rfl, rfl, rfl⟩
      (fun _ _ => hplain _) fun _ => .settle (view_of_current hcur)

theorem good_subscribe (h : Fitted w) (ht : w.sessions.get g = some t)
    (hcalls : t.calls = .subscribe :: later) (draw : Option UInt16) :
    Good cfg w (w.perform cfg g { t with calls := later } draw .subscribe) := by
  have hq := quiet_subscribe w.state t.entry.name g
  unfold World.perform
  dsimp only
  rcases hs : subscribe w.state t.entry.name g with ⟨s, _ | taken⟩
  · exact good_closing h ht
  · rw [hs] at hq
    exact good_goOn h ht hcalls rfl nofun rfl hq (tables_of_quiet hq)
      (fun c hmem => by rw [List.mem_singleton.1 hmem]; rfl)
      fun c hmem => by rw [List.mem_singleton.1 hmem]; rfl

theorem good_snapshot (h : Fitted w) (ht : w.sessions.get g = some t) (taken : Subscribed)
    (hcalls : t.calls = .snapshot taken :: later) (draw : Option UInt16) :
    Good cfg w (w.perform cfg g { t with calls := later } draw (.snapshot taken)) := by
  refine good_quiet h ht rfl rfl ⟨rfl, rfl, rfl⟩ rfl fun l _ _ hf => ?_
  obtain ⟨hopen, hearly, -⟩ := hf.opened hcalls rfl
  refine Opened.fits ⟨hopen.epoch, hopen.peer, hopen.features⟩ (fun hp => ?_) hearly (hf.rest hcalls)
  cases hp

theorem good_claimStale (h : Fitted w) (ht : w.sessions.get g = some t) (groups : List UserGroup)
    (hcalls : t.calls = .claimStale groups :: later) (draw : Option UInt16) :
    Good cfg w (w.perform cfg g { t with calls := later } draw (.claimStale groups)) := by
  unfold World.perform
  dsimp only
  rcases claimStale_eq w.state t.entry.name g groups with heq | ⟨l, hcur, hview, hheld, hgen, hout⟩
  · rw [heq]
    exact good_next h ht hcalls rfl nofun rfl (Quiet.refl _) (by
      rw [tables_put, tables_after, List.append_nil]
      rfl)
  · refine good_onto h ht hcalls rfl nofun rfl hgen hcur hview hheld
      (congrArg (w.leaving ++ ·) hout) ?_ (fun he hp c hmem => ⟨he c hmem, hp c hmem⟩) fun hopen =>
        .claim groups (view_of_current hcur) hopen.epoch
    obtain ⟨ghosts, stale, heq⟩ := claims_frame l.learned groups
    rw [heq]
    exact ⟨rfl, rfl, rfl, rfl⟩

theorem good_unlisted (h : Fitted w) (ht : w.sessions.get g = some t) (groups : List UserGroup)
    (hcalls : t.calls = .unlisted groups :: later) (draw : Option UInt16) :
    Good cfg w (w.perform cfg g { t with calls := later } draw (.unlisted groups)) := by
  have hplain : ∀ (gone : List UInt16), ∀ c ∈ gone.map (fun id =>
      Call.userGone id (goneFields id .disconnected)) ++ groups.map Call.applyUser,
      c.early = false ∧ c.isAccept = false := by
    intro gone c hmem
    rcases List.mem_append.1 hmem with hmem | hmem
    · obtain ⟨id, -, rfl⟩ := List.mem_map.1 hmem
      exact ⟨rfl, rfl⟩
    · obtain ⟨u, -, rfl⟩ := List.mem_map.1 hmem
      exact ⟨rfl, rfl⟩
  exact good_goOn h ht hcalls rfl nofun rfl (Quiet.refl _) rfl (fun c hmem => (hplain _ c hmem).1)
    fun c hmem => (hplain _ c hmem).2

theorem good_userGone (h : Fitted w) (ht : w.sessions.get g = some t) (id : UInt16)
    (came : List Field) (hcalls : t.calls = .userGone id came :: later) (draw : Option UInt16) :
    Good cfg w (w.perform cfg g { t with calls := later } draw (.userGone id came)) := by
  unfold World.perform
  dsimp only
  rcases userGone_eq w.state t.entry.name g id came with
    heq | ⟨l, slot, hcur, hslot, hview, hheld, hgen, hout⟩
  · rw [heq]
    exact good_next h ht hcalls rfl nofun rfl (Quiet.refl _) (by
      rw [tables_put, tables_after, List.append_nil]
      rfl)
  · exact good_onto h ht hcalls rfl nofun rfl hgen hcur hview hheld
      (congrArg (w.leaving ++ ·) hout) ⟨rfl, rfl, rfl, rfl⟩
      (fun he hp c hmem => ⟨he c hmem, hp c hmem⟩) fun _ => .gone (view_of_current hcur) hslot

theorem good_applyUser (h : Fitted w) (ht : w.sessions.get g = some t) (u : UserGroup)
    (hcalls : t.calls = .applyUser u :: later) (draw : Option UInt16) :
    Good cfg w (w.perform cfg g { t with calls := later } draw (.applyUser u)) := by
  unfold World.perform
  dsimp only
  generalize hok : applyUser w.state t.entry.name g u
    ((w.peers.find? fun p => p.name == t.entry.name).elim 0 PeerEntry.ghosts) cfg.maxGhosts
    w.core.length (draw.filter fun uid => !w.core.contains uid) = r
  rcases r with why | ⟨s, given⟩
  · exact good_next h ht hcalls rfl nofun rfl (Quiet.refl _) rfl
  · obtain ⟨l, uid, hcur, hhome, hview, hheld, hgen, hslot⟩ := applyUser_eq hok
    rcases hslot with ⟨slot, hslot, huid, rfl⟩ | ⟨hslot, hdraw, rfl⟩
    · refine good_onto h ht hcalls rfl nofun rfl hgen hcur hview hheld rfl ⟨rfl, rfl, rfl, rfl⟩
        (fun he hp c hmem => ⟨he c hmem, hp c hmem⟩) fun hopen => ?_
      rw [← huid]
      exact .applyKnown u (view_of_current hcur) hopen.epoch hhome hslot
    · refine good_onto h ht hcalls rfl nofun rfl hgen hcur hview hheld rfl ⟨rfl, rfl, rfl, rfl⟩
        (fun he hp c hmem => ⟨he c hmem, hp c hmem⟩) fun hopen =>
          .applyNew u uid (view_of_current hcur) hopen.epoch hhome hslot ?_
      have hfresh := (Option.filter_eq_some_iff.1 hdraw).2
      intro hmem
      rw [Bool.not_eq_true', List.contains_eq_mem, decide_eq_false_iff_not] at hfresh
      exact hfresh hmem

theorem good_chat (h : Fitted w) (ht : w.sessions.get g = some t) (id : UInt16)
    (fields : List Field) (hcalls : t.calls = .chat id fields :: later) (draw : Option UInt16) :
    Good cfg w (w.perform cfg g { t with calls := later } draw (.chat id fields)) := by
  unfold World.perform
  dsimp only
  cases hok : chat w.state t.entry.name g id fields with
  | error why => exact good_next h ht hcalls rfl nofun rfl (Quiet.refl _) rfl
  | ok s =>
    have hq := quiet_chat hok
    exact good_next h ht hcalls rfl nofun rfl hq (tables_of_quiet hq)

theorem good_asked (h : Fitted w) (ht : w.sessions.get g = some t) (hcalls : t.calls = c :: later)
    (hc : c.early = false) (hrelay : c ≠ .relayOpen) (task : UInt32)
    (sent : Asker → Option (Except Reason State))
    (hsent : ∀ asker s, sent asker = some (.ok s) → Quiet w.state s) :
    Good cfg w (w.asked g { t with calls := later } task sent) := by
  unfold World.asked
  dsimp only
  split
  next s hs =>
    have hq := hsent _ s hs
    exact good_next h ht hcalls hc hrelay rfl hq (tables_of_quiet hq)
  next => exact good_next h ht hcalls hc hrelay rfl (Quiet.refl _) rfl

/-- A call that neither settles a Hello nor accepts a server. -/
def Call.plain (c : Call) : Prop := c.early = false ∧ c.isAccept = false

theorem plain_nil : ∀ c ∈ ([] : List Call), c.plain := fun _ h => (List.not_mem_nil h).elim

theorem plain_one {c : Call} (h : c.plain) : ∀ c' ∈ [c], c'.plain := by
  intro c' hmem
  rw [List.mem_singleton.1 hmem]
  exact h

theorem plain_elim {α : Type} {o : Option α} {f : α → List Call} (h : ∀ a, ∀ c ∈ f a, c.plain) :
    ∀ c ∈ o.elim [] f, c.plain := by
  cases o with
  | none => exact plain_nil
  | some a => exact h a

theorem plain_moderate (own : ServerId) (t : Session) (f : Frame) :
    ∀ c ∈ Session.moderate own t f, c.plain := by
  unfold Session.moderate
  dsimp only
  split
  · exact plain_nil
  split
  · exact plain_elim fun _ => plain_one ⟨rfl, rfl⟩
  split
  · exact plain_nil
  · exact plain_elim fun _ => plain_one ⟨rfl, rfl⟩

theorem good_requester (h : Fitted w) (ht : w.sessions.get g = some t) (id : ServerId) (f : Frame)
    (hcalls : t.calls = .requester id f :: later) (draw : Option UInt16) :
    Good cfg w (w.perform cfg g { t with calls := later } draw (.requester id f)) := by
  unfold World.perform
  dsimp only
  split
  · have hplain := plain_moderate cfg.serverId { t with calls := later } f
    refine good_quiet h ht rfl rfl (Quiet.refl _) rfl fun l _ _ hf => ?_
    obtain ⟨-, hearly, -⟩ := hf.opened hcalls rfl
    refine hf.goOn hcalls rfl nofun ?_ ?_
    · intro c hmem
      rcases List.mem_append.1 hmem with hmem | hmem
      · exact (hplain c hmem).1
      · exact hearly c hmem
    · intro c hmem
      rcases List.mem_append.1 hmem with hmem | hmem
      · exact (hplain c hmem).2
      · exact hf.rest hcalls c hmem
  · exact good_next h ht hcalls rfl nofun rfl (Quiet.refl _) rfl

theorem good_go (h : Fitted w) (g : Nat) (draw : Option UInt16) : Good cfg w (w.go cfg g draw) := by
  unfold World.go
  cases ht : w.sessions.get g with
  | none => exact ⟨h, .refl⟩
  | some t =>
    dsimp only
    cases hcalls : t.calls with
    | nil => exact ⟨h, .refl⟩
    | cons call later =>
      dsimp only
      cases call with
      | greet hello => exact good_greet h ht hello hcalls draw
      | resume hello => exact good_resume h ht hello hcalls draw
      | relayOpen => exact good_relayOpen h ht hcalls draw
      | take group establishing => exact good_take h ht group establishing hcalls draw
      | accept group known establishing => exact good_accept h ht group known establishing hcalls draw
      | forget id came => exact good_forget h ht id came hcalls draw
      | settle => exact good_settle h ht hcalls draw
      | subscribe => exact good_subscribe h ht hcalls draw
      | snapshot taken => exact good_snapshot h ht taken hcalls draw
      | claimStale groups => exact good_claimStale h ht groups hcalls draw
      | unlisted groups => exact good_unlisted h ht groups hcalls draw
      | userGone id came => exact good_userGone h ht id came hcalls draw
      | applyUser u => exact good_applyUser h ht u hcalls draw
      | chat id fields => exact good_chat h ht id fields hcalls draw
      | forward target request feature sender =>
        exact good_asked h ht hcalls rfl nofun _ _ fun _ _ hs => quiet_forward hs
      | requester id request => exact good_requester h ht id request hcalls draw
      | requestFor home request =>
        have hquiet : ∀ asker s, some ((requestFor w.state home request.ty request.fields
            (some t.entry.name) asker).mapError reasonOf) = some (Except.ok s) → Quiet w.state s :=
          fun _ _ hs => quiet_requestFor (mapError_eq_ok.1 (Option.some.inj hs))
        exact good_asked h ht hcalls rfl nofun request.trans _ hquiet

/-! ### Everything else -/

theorem good_refl (h : Fitted w) : Good cfg w w := ⟨h, .refl⟩

theorem Good.trans {w'' : World} (h : Good cfg w w') (h' : Good cfg w' w'') : Good cfg w w'' :=
  ⟨h'.fitted, h.moves.trans h'.moves⟩

/-- What a session sends, or waits for, is nothing to its link. -/
theorem good_sent (h : Fitted w) (ht : w.sessions.get g = some t)
    (hsessions : w'.sessions = w.sessions.set g t') (hentry : t'.entry = t.entry)
    (hphase : t'.phase = t.phase) (hcalls : t'.calls = t.calls) (hpeer : t'.peerId = t.peerId)
    (hfeatures : t'.features = t.features) (hq : Quiet w.state w'.state)
    (htables : w'.tables = w.tables) : Good cfg w w' :=
  good_quiet h ht hsessions hentry hq htables fun _ _ _ hf =>
    hf.congr hphase hcalls hpeer hfeatures

theorem good_still (h : Fitted w) (hq : Quiet w.state w'.state) (hsessions : w'.sessions = w.sessions)
    (htables : w'.tables = w.tables) : Good cfg w w' := by
  refine ⟨h.still hq.view hq.generation hsessions, ?_⟩
  rw [htables]

theorem good_deliver (h : Fitted w) (asker : Asker) (error : Bool) (fields : List Field) :
    Good cfg w (w.deliver asker error fields) := by
  unfold World.deliver
  split
  · cases asker with
    | here n => exact good_still h (Quiet.refl _) rfl rfl
    | link g task n =>
      dsimp only
      cases ht : w.sessions.get g with
      | none => exact good_still h (Quiet.refl _) rfl rfl
      | some t =>
        dsimp only
        split
        · exact good_still h (Quiet.refl _) rfl rfl
        · exact good_sent h ht rfl rfl rfl rfl rfl rfl (Quiet.refl _) rfl
  · exact good_refl h

theorem plain_chat (t : Session) (fields : List Field) : ∀ c ∈ t.chat fields, c.plain := by
  unfold Session.chat
  repeat' split
  all_goals first | exact plain_nil | exact plain_one ⟨rfl, rfl⟩

theorem plain_privateMessage (t : Session) (f : Frame) : ∀ c ∈ t.privateMessage f, c.plain := by
  unfold Session.privateMessage
  dsimp only
  repeat' split
  all_goals first | exact plain_nil | exact plain_one ⟨rfl, rfl⟩

theorem plain_deviceKeys (t : Session) (f : Frame) : ∀ c ∈ t.deviceKeys f, c.plain := by
  unfold Session.deviceKeys
  repeat' split
  all_goals first | exact plain_nil | exact plain_elim fun _ => plain_one ⟨rfl, rfl⟩

theorem plain_userInfo (t : Session) (f : Frame) : ∀ c ∈ t.userInfo f, c.plain := by
  unfold Session.userInfo
  repeat' split
  all_goals first | exact plain_nil | exact plain_elim fun _ => plain_one ⟨rfl, rfl⟩

theorem plain_moderation (f : Frame) : ∀ c ∈ Session.moderation f, c.plain := by
  unfold Session.moderation
  split
  · exact plain_nil
  · exact plain_elim fun _ => plain_one ⟨rfl, rfl⟩

/-- What a frame is read to: plain calls, or the end of the session. -/
theorem handle_plain (t : Session) (f : Frame) (ht : t.calls = []) :
    t.handle f = t.closing ∨
      ∃ calls snapshot, (∀ c ∈ calls, c.plain) ∧
        t.handle f = { t with calls := calls, snapshot := snapshot } := by
  have hsame : ∃ calls snapshot, (∀ c ∈ calls, Call.plain c) ∧
      t = { t with calls := calls, snapshot := snapshot } :=
    ⟨[], t.snapshot, plain_nil, by rw [← ht]⟩
  have hcalls : ∀ calls : List Call, (∀ c ∈ calls, c.plain) →
      ∃ calls' snapshot, (∀ c ∈ calls', Call.plain c) ∧
        { t with calls := calls } = { t with calls := calls', snapshot := snapshot } :=
    fun calls h => ⟨calls, t.snapshot, h, rfl⟩
  unfold Session.handle
  by_cases h0 : f.ty = tx.CLOSE
  · rw [if_pos h0]
    exact .inl rfl
  rw [if_neg h0]
  by_cases h1 : f.ty = tx.SERVER_UPDATE
  · rw [if_pos h1]
    cases ServerGroup.parse f.fields with
    | error e => exact .inl rfl
    | ok group => exact .inr (hcalls _ (plain_one ⟨rfl, rfl⟩))
  rw [if_neg h1]
  by_cases h2 : f.ty = tx.SERVER_GONE
  · rw [if_pos h2]
    cases (Session.serverIn f.fields field.SERVER_ID).filter fun id => some id != t.peerId with
    | none => exact .inr hsame
    | some id => exact .inr (hcalls _ (plain_one ⟨rfl, rfl⟩))
  rw [if_neg h2]
  by_cases h3 : f.ty = tx.SNAPSHOT
  · rw [if_pos h3]
    unfold Session.snapshotPart
    dsimp only
    by_cases hm : Session.more f.fields = true
    · rw [if_pos hm]
      exact .inr ⟨[], _, plain_nil, by rw [← ht]⟩
    · rw [if_neg hm]
      refine .inr ⟨_, none, ?_, rfl⟩
      intro c hmem
      rcases List.mem_cons.1 hmem with rfl | hmem
      · exact ⟨rfl, rfl⟩
      · rw [List.mem_singleton.1 hmem]
        exact ⟨rfl, rfl⟩
  rw [if_neg h3]
  by_cases h4 : f.ty = tx.USER_UPDATE
  · rw [if_pos h4]
    by_cases hs : t.snapshot.isSome = true
    · rw [if_pos hs]
      exact .inr hsame
    rw [if_neg hs]
    cases UserGroup.parse f.fields with
    | ok u => exact .inr (hcalls _ (plain_one ⟨rfl, rfl⟩))
    | error e => cases e <;> first | exact .inl rfl | exact .inr hsame
  rw [if_neg h4]
  by_cases h5 : f.ty = tx.USER_GONE
  · rw [if_pos h5]
    by_cases hs : t.snapshot.isSome = true
    · rw [if_pos hs]
      exact .inr hsame
    rw [if_neg hs]
    cases Session.idIn f.fields field.USER_ID with
    | none => exact .inr hsame
    | some id => exact .inr (hcalls _ (plain_one ⟨rfl, rfl⟩))
  rw [if_neg h5]
  by_cases h6 : f.ty = tx.CHAT
  · rw [if_pos h6]
    exact .inr (hcalls _ (plain_chat t f.fields))
  rw [if_neg h6]
  by_cases h7 : f.ty = tx.PRIVATE_MESSAGE
  · rw [if_pos h7]
    exact .inr (hcalls _ (plain_privateMessage t f))
  rw [if_neg h7]
  by_cases h8 : f.ty = tx.DEVICE_KEYS
  · rw [if_pos h8]
    exact .inr (hcalls _ (plain_deviceKeys t f))
  rw [if_neg h8]
  by_cases h9 : f.ty = tx.USER_INFO
  · rw [if_pos h9]
    exact .inr (hcalls _ (plain_userInfo t f))
  rw [if_neg h9]
  by_cases h10 : f.ty = tx.KICK ∨ f.ty = tx.BAN ∨ f.ty = tx.UNBAN
  · rw [if_pos h10]
    exact .inr (hcalls _ (plain_moderation f))
  rw [if_neg h10]
  exact .inr hsame

theorem fits_read (hf : Fits t l) (ht : t.calls = []) (ofKey : Bytes 32 → ServerId) (f : Frame) :
    Fits (t.read ofKey f) l := by
  unfold Session.read
  split
  · exact hf
  cases hphase : t.phase with
  | hello =>
    dsimp only
    split
    · exact fits_closing t l
    unfold Session.readHello
    split
    · exact fits_closing t l
    cases Hello.parse f.fields with
    | error e => exact fits_closing t l
    | ok hello =>
      dsimp only
      repeat' split
      · exact fits_closing t l
      · exact fits_closing t l
      · exact fits_closing t l
      · refine ⟨?_, fun g known est hmem => ?_, fun c hmem => (List.not_mem_nil hmem).elim⟩
        · cases hf.stage with
          | hello h1 h2 h3 _ => exact .hello h1 h2 h3 (.inr ⟨hello, rfl⟩)
          | greeted _ _ _ h4 _ _ =>
            rw [ht] at h4
            cases h4
          | opened _ _ h3 =>
            rw [ht] at h3
            cases h3 hphase
          | closing h1 _ =>
            rw [hphase] at h1
            rcases h1 with h1 | h1 <;> cases h1
        · cases List.mem_singleton.1 hmem
  | servers =>
    have hopen : Opened t l := by
      cases hf.stage with
      | hello h1 _ _ _ => rw [hphase] at h1; cases h1
      | greeted h1 _ _ _ _ _ => rw [hphase] at h1; cases h1
      | opened h1 _ _ => exact h1
      | closing h1 _ =>
        rw [hphase] at h1
        rcases h1 with h1 | h1 <;> cases h1
    dsimp only
    split
    · exact fits_closing t l
    unfold Session.readServers
    split
    · exact fits_closing t l
    cases ServerGroup.parseAll f.fields with
    | error e => exact fits_closing t l
    | ok groups =>
      dsimp only
      have hplain : ∀ c ∈ groups.map (Call.take · true) ++
          (if Session.more f.fields then [] else [Call.settle]), c.plain := by
        intro c hmem
        rcases List.mem_append.1 hmem with hmem | hmem
        · obtain ⟨group, -, rfl⟩ := List.mem_map.1 hmem
          exact ⟨rfl, rfl⟩
        · split at hmem
          · exact (List.not_mem_nil hmem).elim
          · exact plain_one ⟨rfl, rfl⟩ c hmem
      refine Opened.fits ⟨hopen.epoch, hopen.peer, hopen.features⟩ ?_ (fun c hmem => (hplain c hmem).1)
        fun c hmem => (hplain c hmem).2
      rw [show ({ t with calls := _ } : Session).phase = t.phase from rfl, hphase]
      nofun
  | established =>
    have hopen : Opened t l := by
      cases hf.stage with
      | hello h1 _ _ _ => rw [hphase] at h1; cases h1
      | greeted h1 _ _ _ _ _ => rw [hphase] at h1; cases h1
      | opened h1 _ _ => exact h1
      | closing h1 _ =>
        rw [hphase] at h1
        rcases h1 with h1 | h1 <;> cases h1
    dsimp only
    rcases handle_plain t f ht with heq | ⟨calls, snapshot, hplain, heq⟩
    · rw [heq]
      exact fits_closing t l
    · rw [heq]
      refine Opened.fits ⟨hopen.epoch, hopen.peer, hopen.features⟩ ?_
        (fun c hmem => (hplain c hmem).1) fun c hmem => (hplain c hmem).2
      rw [show ({ t with calls := calls, snapshot := snapshot } : Session).phase = t.phase from rfl,
        hphase]
      nofun
  | closing => exact hf
  | ended => exact hf

theorem read_entry (t : Session) (ht : t.calls = []) (ofKey : Bytes 32 → ServerId) (f : Frame) :
    (t.read ofKey f).entry = t.entry := by
  unfold Session.read
  split
  · rfl
  split
  · split
    · rfl
    · unfold Session.readHello
      repeat' split
      all_goals rfl
  · split
    · rfl
    · unfold Session.readServers
      repeat' split
      all_goals rfl
  · rcases handle_plain t f ht with heq | ⟨calls, snapshot, -, heq⟩
    · rw [heq]
      rfl
    · rw [heq]
  · rfl
  · rfl

theorem good_read (h : Fitted w) (g : Nat) (f : Frame) : Good cfg w (w.read cfg g f) := by
  unfold World.read
  cases hfound : (w.sessions.get g).filter fun t => t.calls.isEmpty with
  | none => exact good_refl h
  | some t =>
    obtain ⟨ht, hempty⟩ := Option.filter_eq_some_iff.1 hfound
    have hcalls : t.calls = [] := List.isEmpty_iff.1 hempty
    dsimp only
    split
    · cases (t.pending.get f.trans).filter fun _ => t.phase == .established with
      | none => exact good_refl h
      | some asker =>
        dsimp only
        have hgood : Good cfg w (w.putSession g { t with pending := t.pending.drop f.trans }) :=
          good_sent h ht rfl rfl rfl rfl rfl rfl (Quiet.refl _) rfl
        exact hgood.trans (good_deliver hgood.fitted _ _ _)
    · exact good_quiet h ht rfl (read_entry t hcalls cfg.ofKey f) (Quiet.refl _) rfl
        fun l _ _ hf => fits_read hf hcalls cfg.ofKey f

theorem sending_some {c : Chan} (hs : w.sending g = some (t, c)) :
    w.sessions.get g = some t ∧ w.state.channels.get g = some c := by
  unfold World.sending at hs
  obtain ⟨t', ht', hs⟩ := Option.bind_eq_some_iff.1 hs
  obtain ⟨c', hc', hs⟩ := Option.bind_eq_some_iff.1 hs
  split at hs
  · obtain ⟨rfl, rfl⟩ := Prod.mk.inj (Option.some.inj hs)
    exact ⟨ht', hc'⟩
  · cases hs

theorem good_pass (h : Fitted w) (g : Nat) : Good cfg w (w.pass g) := by
  unfold World.pass
  cases hs : w.sending g with
  | none => exact good_refl h
  | some found =>
    obtain ⟨t, c⟩ := found
    obtain ⟨ht, -⟩ := sending_some hs
    dsimp only
    cases c.relays with
    | nil => exact good_refl h
    | cons r rest => exact good_sent h ht rfl rfl rfl rfl rfl rfl ⟨rfl, rfl, rfl⟩ rfl

theorem good_ask (h : Fitted w) (g : Nat) : Good cfg w (w.ask g) := by
  unfold World.ask
  cases hs : w.sending g with
  | none => exact good_refl h
  | some found =>
    obtain ⟨t, c⟩ := found
    obtain ⟨ht, -⟩ := sending_some hs
    dsimp only
    cases c.requests with
    | nil => exact good_refl h
    | cons r rest =>
      dsimp only
      split
      · exact good_sent h ht rfl rfl rfl rfl rfl rfl ⟨rfl, rfl, rfl⟩ rfl
      · have hgood : Good cfg w (World.putSession
            { w with state := { w.state with
              channels := w.state.channels.set g { c with requests := rest } } } g
            { t with pending := t.pending.filter fun kv => w.waiting.contains kv.2 }) :=
          good_sent h ht rfl rfl rfl rfl rfl rfl ⟨rfl, rfl, rfl⟩ rfl
        exact hgood.trans (good_deliver hgood.fitted _ _ _)

theorem good_finish (h : Fitted w) (g : Nat) (interrupted : Bool) :
    Good cfg w (w.finish g interrupted) := by
  unfold World.finish
  cases hfound : (w.sessions.get g).filter fun t => t.phase != .ended with
  | none => exact good_refl h
  | some t =>
    obtain ⟨ht, -⟩ := Option.filter_eq_some_iff.1 hfound
    dsimp only
    rcases unregister_eq w.state t.entry.name g interrupted with
      ⟨hnone, heq⟩ | ⟨l, hcur, hview, hgen, hheld, hout⟩
    · rw [heq]
      refine good_missed h ht hnone rfl rfl ⟨rfl, rfl, rfl⟩ ?_
      show Tables.mk _ _ (w.leaving ++ []) _ _ _ _ = _
      rw [List.append_nil]
      rfl
    · refine ⟨h.act ht rfl rfl hgen (fun n hn => ?_) fun l' hl' => ?_, .single ?_⟩
      · show (unregister w.state t.entry.name g interrupted).1.view.get n = _
        rw [hview, Map.get_drop, if_neg hn]
      · have hl'' : (unregister w.state t.entry.name g interrupted).1.view.get t.entry.name =
            some l' := hl'
        rw [hview, Map.get_drop, if_pos rfl] at hl''
        cases hl''
      · show Move cfg.toConfig w.tables ⟨(unregister w.state t.entry.name g interrupted).1.view,
          (unregister w.state t.entry.name g interrupted).1.held,
          w.leaving ++ (unregister w.state t.entry.name g interrupted).2, _, _, _, _⟩
        rw [hview, hheld, hout]
        cases interrupted with
        | true => exact .interrupt (l := l.learned) (view_of_current hcur)
        | false => exact .ended (l := l.learned) (view_of_current hcur)

theorem good_start (h : Fitted w) (entry : PeerEntry) : Good cfg w (step cfg w (.start entry)) := by
  obtain ⟨hview, hgen, hheld, hout⟩ := register_eq w.state entry.name
  refine ⟨⟨fun n l hl => ?_, fun k t hk => ?_⟩, .single ?_⟩
  · have hl' : (register w.state entry.name).1.view.get n = some l := hl
    rw [hview, Map.get_set] at hl'
    show ∃ t, (w.sessions.set (w.state.generation + 1) { entry := entry }).get l.generation = some t ∧ _
    rw [Map.get_set]
    by_cases hn : n = entry.name
    · rw [if_pos hn] at hl'
      obtain rfl := Option.some.inj hl'
      refine ⟨_, if_pos rfl, hn.symm, ?_, fun _ _ _ hmem => (List.not_mem_nil hmem).elim,
        fun c hmem => (List.not_mem_nil hmem).elim⟩
      exact .hello rfl ⟨rfl, rfl, rfl, rfl, rfl⟩ rfl (.inl rfl)
    · rw [if_neg hn] at hl'
      obtain ⟨t, ht, hname, hfits⟩ := h.session n l hl'
      have hlt := h.bound _ _ ht
      rw [if_neg (by omega)]
      exact ⟨t, ht, hname, hfits⟩
  · have hk' : (w.sessions.set (w.state.generation + 1) { entry := entry }).get k = some t := hk
    show k ≤ (register w.state entry.name).1.generation
    rw [hgen]
    rw [Map.get_set] at hk'
    by_cases hkg : k = w.state.generation + 1
    · exact le_of_eq hkg
    · rw [if_neg hkg] at hk'
      exact le_trans (h.bound k t hk') (Nat.le_succ _)
  · show Move cfg.toConfig w.tables ⟨(register w.state entry.name).1.view,
      (register w.state entry.name).1.held, w.leaving ++ (register w.state entry.name).2, _, _, _, _⟩
    rw [hview, hheld, hout]
    exact .start entry.name _

/-- Holds given up, one after another. -/
theorem moves_forgetHeld (s : State) (peers : List String) (leaving : List Slot)
    (core attached parted : List UInt16) (unnamed : String → List ServerId) :
    (forgetHeld s peers).1.view = s.view ∧ (forgetHeld s peers).1.generation = s.generation ∧
      Moves cfg.toConfig ⟨s.view, s.held, leaving, core, attached, parted, unnamed⟩
        ⟨s.view, (forgetHeld s peers).1.held, leaving ++ (forgetHeld s peers).2, core, attached,
          parted, unnamed⟩ := by
  induction peers generalizing s leaving with
  | nil =>
    refine ⟨rfl, rfl, ?_⟩
    show Moves _ _ ⟨s.view, s.held, leaving ++ [], _, _, _, _⟩
    rw [List.append_nil]
  | cons name peers ih =>
    obtain ⟨hview, hgen, hmoved⟩ := giveUp_eq s name
    obtain ⟨hview', hgen', hmoves⟩ := ih (giveUp s name).1 (leaving ++ (giveUp s name).2)
    refine ⟨hview'.trans hview, hgen'.trans hgen, ?_⟩
    show Moves _ _ ⟨s.view, (forgetHeld (giveUp s name).1 peers).1.held,
      leaving ++ ((giveUp s name).2 ++ (forgetHeld (giveUp s name).1 peers).2), _, _, _, _⟩
    rw [← List.append_assoc]
    rw [hview] at hmoves
    refine .trans ?_ hmoves
    rcases hmoved with ⟨hheld, hout⟩ | ⟨held, hheld', hheld, hout⟩
    · rw [hheld, hout, List.append_nil]
    · rw [hheld, hout]
      exact .single (.giveUp hheld')

/-- An act of the operator's: some links told to close, some holds given up. -/
theorem good_forgetHeld (h : Fitted w) {s : State} (hq : Quiet w.state s) (peers : List String)
    (hview : w'.state.view = (forgetHeld s peers).1.view)
    (hheld : w'.state.held = (forgetHeld s peers).1.held)
    (hgen : w'.state.generation = (forgetHeld s peers).1.generation)
    (hsessions : w'.sessions = w.sessions) (hleaving : w'.leaving = w.leaving ++ (forgetHeld s peers).2)
    (hcore : w'.core = w.core) (hattached : w'.attached = w.attached) (hparted : w'.parted = w.parted)
    (hunnamed : w'.unnamed = w.unnamed) : Good cfg w w' := by
  obtain ⟨hv, hg, hmoves⟩ := moves_forgetHeld s peers w.leaving w.core w.attached w.parted w.unnamed
  refine ⟨h.still (hview.trans (hv.trans hq.view)) (hgen.trans (hg.trans hq.generation)) hsessions, ?_⟩
  unfold World.tables
  rw [hview, hheld, hleaving, hcore, hattached, hparted, hunnamed, hv, ← hq.view, ← hq.held]
  exact hmoves

theorem good_asks (h : Fitted w) (sent : Asker → Except PeerRefusal State)
    (hsent : ∀ asker s, sent asker = .ok s → Quiet w.state s) : Good cfg w (w.asks sent) := by
  unfold World.asks
  dsimp only
  cases hs : sent (.here w.askers) with
  | error why => exact good_refl h
  | ok s =>
    have hq := hsent _ s hs
    exact good_still h hq rfl (tables_of_quiet hq)

theorem good_part (h : Fitted w) (i : Nat) : Good cfg w (w.part i) := by
  unfold World.part
  cases hi : w.leaving[i]? with
  | none => exact good_refl h
  | some slot => exact ⟨h.still rfl rfl rfl, .single (.part hi)⟩

theorem good_expire (h : Fitted w) (p : String) (g : Nat) :
    Good cfg w (w.after (expire w.state p g)) := by
  obtain ⟨hview, hgen, hmoved⟩ := expire_eq w.state p g
  refine ⟨h.still hview hgen rfl, ?_⟩
  rw [tables_after, hview]
  rcases hmoved with ⟨hheld, hout⟩ | ⟨held, hget, -, hheld, hout⟩
  · rw [hheld, hout, List.append_nil]
    exact .refl
  · rw [hheld, hout]
    exact .single (.giveUp hget)

theorem good_step (h : Fitted w) (op : Op) : Good cfg w (step cfg w op) := by
  cases op with
  | start entry => exact good_start h entry
  | read g f => exact good_read h g f
  | go g draw => exact good_go h g draw
  | pass g => exact good_pass h g
  | ask g => exact good_ask h g
  | ping g =>
    show Good cfg w ((w.sessions.get g).elim w _)
    cases ht : w.sessions.get g with
    | none => exact good_refl h
    | some t => exact good_sent h ht rfl rfl rfl rfl rfl rfl (Quiet.refl _) rfl
  | finish g interrupted => exact good_finish h g interrupted
  | expire p g => exact good_expire h p g
  | part i => exact good_part h i
  | suspend peers =>
    have hq := quiet_mapVals w.state (fun name l => if name ∈ peers then l.tell .suspended else l)
      fun n l => by
        split
        · exact learned_tell _ _
        · rfl
    exact good_forgetHeld h hq peers rfl rfl rfl rfl rfl rfl rfl rfl rfl
  | reload peers =>
    have hq := quiet_mapVals w.state
      (fun name l => (closedBy w.peers peers name).elim l fun why => l.tell why) fun n l => by
        cases closedBy w.peers peers n with
        | none => rfl
        | some why => exact learned_tell _ _
    exact good_forgetHeld h hq _ rfl rfl rfl rfl rfl rfl rfl rfl rfl
  | shutDown =>
    have hq := quiet_shutDown w.state
    exact good_still h hq rfl (tables_of_quiet hq)
  | request uid feature ty build => exact good_asks h _ fun _ _ hs => quiet_request hs
  | requestFor home ty fields => exact good_asks h _ fun _ _ hs => quiet_requestFor hs
  | giveUp asker => exact good_deliver h asker _ _

end Perform

/-- Every state reached is one the tables move to. -/
theorem good_run (cfg : Setup) (peers : List PeerEntry) (ops : List Op) :
    Good cfg { peers := peers } (run cfg peers ops) := by
  induction ops using List.reverseRecOn with
  | nil => exact good_refl ⟨fun n l hl => (by cases hl), fun g t ht => (by cases ht)⟩
  | append_singleton ops op ih =>
    have hstep : Good cfg (run cfg peers ops) (step cfg (run cfg peers ops) op) :=
      good_step ih.fitted op
    rw [run, List.foldl_append]
    exact ih.trans hstep

theorem moves_run (cfg : Setup) (peers : List PeerEntry) (ops : List Op) :
    Moves cfg.toConfig {} (run cfg peers ops).tables := (good_run cfg peers ops).moves

end HxdNg.Link
