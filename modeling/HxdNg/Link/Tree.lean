import HxdNg.Link.Moves

/-!
# The network is a tree as one hub sees it

* `Tables.known` : the servers known over a peer's link, live or held;
* `Apart` : those of two peers, and this server, share neither an ID nor a tag;
* `Live.Sound`, `Held.Sound`, `Tree` : what each link's own table keeps, and all of it together;
* `tree_move` : every move keeps it; `tables_run` : what every move keeps holds over every run;
  `network_is_a_tree`.
-/

namespace HxdNg.Link

open Assoc (Map)

def Tables.known (T : Tables) (n : String) : List ServerGroup :=
  (T.live.get n).elim [] Live.known ++ (T.held.get n).elim [] Held.known

theorem mem_known_live {T : Tables} {n : String} {l : Live} {g : ServerGroup}
    (hl : T.live.get n = some l) (hg : g ∈ l.known) : g ∈ T.known n := by
  refine List.mem_append_left _ ?_
  rw [hl]
  exact hg

theorem mem_known_held {T : Tables} {n : String} {h : Held} {g : ServerGroup}
    (hh : T.held.get n = some h) (hg : g ∈ h.known) : g ∈ T.known n := by
  refine List.mem_append_right _ ?_
  rw [hh]
  exact hg

theorem known_cases {T : Tables} {n : String} {g : ServerGroup} (hg : g ∈ T.known n) :
    (∃ l, T.live.get n = some l ∧ g ∈ l.known) ∨ ∃ h, T.held.get n = some h ∧ g ∈ h.known := by
  rcases List.mem_append.1 hg with hg | hg
  · cases hl : T.live.get n with
    | none => rw [hl] at hg; cases hg
    | some l => exact .inl ⟨l, rfl, by rw [hl] at hg; exact hg⟩
  · cases hh : T.held.get n with
    | none => rw [hh] at hg; cases hg
    | some h => exact .inr ⟨h, rfl, by rw [hh] at hg; exact hg⟩

theorem mem_live_known {l : Live} {g : ServerGroup} :
    g ∈ l.known ↔ l.peer = some g ∨ ∃ id, l.servers.get id = some g := by
  rw [Live.known, List.mem_append, Option.mem_toList, Map.mem_values_iff]

theorem mem_held_known {h : Held} {g : ServerGroup} :
    g ∈ h.known ↔ g = h.peer ∨ ∃ id, h.servers.get id = some g := by
  rw [Held.known, List.mem_cons, Map.mem_values_iff]

/-- The servers known over two peers' links, and this server, share neither an ID nor a tag. -/
structure Apart (cfg : Config) (T : Tables) : Prop where
  peers : ∀ n m, n ≠ m → ∀ g ∈ T.known n, ∀ g' ∈ T.known m,
    g.id ≠ g'.id ∧ sameTag g.tag g'.tag = false
  own : ∀ n, ∀ g ∈ T.known n, g.id ≠ cfg.serverId ∧ sameTag g.tag cfg.tag = false

section Apart
variable {cfg : Config} {T T' : Tables} {p : String} {l l' : Live}

/-- Nothing is newly known. -/
def Fewer (T' T : Tables) : Prop := ∀ n, ∀ g ∈ T'.known n, g ∈ T.known n

theorem Apart.fewer (h : Apart cfg T) (hf : Fewer T' T) : Apart cfg T' where
  peers n m hnm g hg g' hg' := h.peers n m hnm g (hf n g hg) g' (hf m g' hg')
  own n g hg := h.own n g (hf n g hg)

theorem fewer_of {live : Map String Live} {held : Map String Held}
    (hlive : ∀ n l, live.get n = some l → ∀ g ∈ l.known, g ∈ T.known n)
    (hheld : ∀ n h, held.get n = some h → ∀ g ∈ h.known, g ∈ T.known n)
    {leaving : List Slot} {core attached parted : List UInt16} {unnamed : String → List ServerId} :
    Fewer ⟨live, held, leaving, core, attached, parted, unnamed⟩ T := by
  intro n g hg
  rcases known_cases hg with ⟨l, hl, hg⟩ | ⟨h, hh, hg⟩
  · exact hlive n l hl g hg
  · exact hheld n h hh g hg

theorem live_unchanged (n : String) (l : Live) (hl : T.live.get n = some l) :
    ∀ g ∈ l.known, g ∈ T.known n := fun _ hg => mem_known_live hl hg

theorem held_unchanged (n : String) (h : Held) (hh : T.held.get n = some h) :
    ∀ g ∈ h.known, g ∈ T.known n := fun _ hg => mem_known_held hh hg

theorem live_set (hl' : ∀ g ∈ l'.known, g ∈ T.known p) (n : String) (l : Live)
    (hl : (T.live.set p l').get n = some l) : ∀ g ∈ l.known, g ∈ T.known n := by
  rw [Map.get_set] at hl
  by_cases hn : n = p
  · rw [if_pos hn] at hl
    obtain rfl := Option.some.inj hl
    rw [hn]
    exact hl'
  · rw [if_neg hn] at hl
    exact live_unchanged n l hl

theorem live_same (hl : T.live.get p = some l) (hk : l'.known = l.known) (n : String) (l'' : Live)
    (hl'' : (T.live.set p l').get n = some l'') : ∀ g ∈ l''.known, g ∈ T.known n := by
  refine live_set (fun g hg => ?_) n l'' hl''
  rw [hk] at hg
  exact mem_known_live hl hg

theorem live_drop (n : String) (l : Live) (hl : (T.live.drop p).get n = some l) :
    ∀ g ∈ l.known, g ∈ T.known n := by
  rw [Map.get_drop] at hl
  split at hl
  · cases hl
  · exact live_unchanged n l hl

theorem held_drop (n : String) (h : Held) (hh : (T.held.drop p).get n = some h) :
    ∀ g ∈ h.known, g ∈ T.known n := by
  rw [Map.get_drop] at hh
  split at hh
  · cases hh
  · exact held_unchanged n h hh

/-- A hold knows what its link did. -/
theorem known_kept {h : Held} (hk : l.kept = some h) : ∀ g ∈ h.known, g ∈ l.known := by
  obtain ⟨own, hown, hk⟩ := Option.bind_eq_some_iff.1 hk
  obtain ⟨epoch, -, rfl⟩ := Option.map_eq_some_iff.1 hk
  intro g hg
  rw [mem_held_known] at hg
  rw [mem_live_known]
  rcases hg with rfl | hg
  · exact .inl hown
  · exact .inr hg

theorem held_kept (hl : T.live.get p = some l) (n : String) (h : Held)
    (hh : (l.kept.elim T.held (T.held.set p)).get n = some h) : ∀ g ∈ h.known, g ∈ T.known n := by
  cases hk : l.kept with
  | none =>
    rw [hk] at hh
    exact held_unchanged n h hh
  | some kept =>
    rw [hk] at hh
    have hh' : (T.held.set p kept).get n = some h := hh
    rw [Map.get_set] at hh'
    by_cases hn : n = p
    · rw [if_pos hn] at hh'
      obtain rfl := Option.some.inj hh'
      rw [hn]
      exact fun g hg => mem_known_live hl (known_kept hk g hg)
    · rw [if_neg hn] at hh'
      exact held_unchanged n h hh'

theorem known_without (id : ServerId) : ∀ g ∈ (l.without id).known, g ∈ l.known := by
  intro g hg
  rw [mem_live_known] at hg ⊢
  refine hg.imp_right fun ⟨k, hk⟩ => ⟨k, ?_⟩
  have hk' : (l.servers.drop id).get k = some g := hk
  rw [Map.get_drop] at hk'
  split at hk'
  · cases hk'
  · exact hk'

theorem known_claims (groups : List UserGroup) :
    (groups.foldl Live.claim l).known = l.known := by
  obtain ⟨ghosts, stale, heq⟩ := claims_frame l groups
  rw [heq]
  rfl

theorem known_back {held : Option Held} (epoch : Epoch) (features : UInt32) :
    ∀ g ∈ (l.back held epoch features).known, g ∈ l.known ∨ ∃ h, held = some h ∧ g ∈ h.known := by
  intro g hg
  cases held with
  | none => exact .inl hg
  | some h =>
    have hservers : g ∈ l.peer.toList ++ (l.servers.extend h.servers).values := by
      unfold Live.back at hg
      dsimp only [Option.elim] at hg
      split at hg <;> exact hg
    rcases List.mem_append.1 hservers with hg | hg
    · exact .inl (List.mem_append_left _ hg)
    · obtain ⟨k, hk⟩ := Map.mem_values_iff.1 hg
      rw [Map.get_extend, Option.or_eq_some_iff] at hk
      rcases hk with hk | ⟨-, hk⟩
      · exact .inr ⟨h, rfl, List.mem_cons_of_mem _ (Map.mem_values_iff.2 ⟨k, hk⟩)⟩
      · exact .inl (List.mem_append_right _ (Map.mem_values_iff.2 ⟨k, hk⟩))

theorem known_admitted {group : ServerGroup} {own : Bool} :
    ∀ g ∈ (l.admitted group own).known, g = group ∨ g ∈ l.known := by
  intro g hg
  rw [mem_live_known] at hg
  rw [mem_live_known]
  cases own with
  | true =>
    rcases hg with hg | hg
    · exact .inl (Option.some.inj hg).symm
    · exact .inr (.inr hg)
  | false =>
    rcases hg with hg | ⟨k, hk⟩
    · exact .inr (.inl hg)
    · have hk' : (l.servers.set group.id group).get k = some g := hk
      rw [Map.get_set] at hk'
      split at hk'
      · exact .inl (Option.some.inj hk').symm
      · exact .inr (.inr ⟨k, hk'⟩)

/-- A group admitted to a peer's table is apart from all known over the others. -/
theorem Admits.apart {group : ServerGroup} (hok : Admits cfg T p group) {n : String} (hn : n ≠ p)
    {g : ServerGroup} (hg : g ∈ T.known n) : g.id ≠ group.id ∧ sameTag g.tag group.tag = false := by
  rcases known_cases hg with ⟨l, hl, hg⟩ | ⟨h, hh, hg⟩
  · obtain ⟨hid, htag⟩ := hok.live n l hl g hg
    exact ⟨fun heq => hn (hid heq), htag fun heq => hn (hid heq)⟩
  · exact hok.held n h hh hn g hg

theorem Apart.admits (h : Apart cfg T) {group : ServerGroup} {own : Bool}
    (hok : Admits cfg T p group) (hl : T.live.get p = some l)
    {leaving : List Slot} {core attached parted : List UInt16} {unnamed : String → List ServerId} :
    Apart cfg ⟨T.live.set p (l.admitted group own), T.held, leaving, core, attached, parted, unnamed⟩ := by
  have hknown : ∀ n, ∀ g ∈ (⟨T.live.set p (l.admitted group own), T.held, leaving, core, attached,
      parted, unnamed⟩ : Tables).known n, g ∈ T.known n ∨ (n = p ∧ g = group) := by
    intro n g hg
    rcases known_cases hg with ⟨l', hl', hg⟩ | ⟨h', hh', hg⟩
    · have hl'' : (T.live.set p (l.admitted group own)).get n = some l' := hl'
      rw [Map.get_set] at hl''
      by_cases hn : n = p
      · rw [if_pos hn] at hl''
        obtain rfl := Option.some.inj hl''
        rcases known_admitted g hg with rfl | hg
        · exact .inr ⟨hn, rfl⟩
        · exact .inl (hn ▸ mem_known_live hl hg)
      · rw [if_neg hn] at hl''
        exact .inl (mem_known_live hl'' hg)
    · exact .inl (mem_known_held hh' hg)
  refine ⟨fun n m hnm g hg g' hg' => ?_, fun n g hg => ?_⟩
  · rcases hknown n g hg with hold | ⟨hn, hnew⟩ <;>
      rcases hknown m g' hg' with hold' | ⟨hm, hnew'⟩
    · exact h.peers n m hnm g hold g' hold'
    · rw [hnew']
      exact hok.apart (fun heq => hnm (heq.trans hm.symm)) hold
    · obtain ⟨hid, htag⟩ := hok.apart (fun heq => hnm (hn.trans heq.symm)) hold'
      rw [hnew]
      exact ⟨Ne.symm hid, by rw [sameTag_comm]; exact htag⟩
    · exact absurd (hn.trans hm.symm) hnm
  · rcases hknown n g hg with hg | ⟨-, rfl⟩
    · exact h.own n g hg
    · exact ⟨hok.notThis, hok.ownTag⟩

theorem fewer_back {own : Held → Bool} (hl : T.live.get p = some l) (epoch : Epoch)
    (features : UInt32) : ∀ g ∈ (l.back ((T.held.get p).filter own) epoch features).known,
      g ∈ T.known p := by
  intro g hg
  rcases known_back epoch features g hg with hg | ⟨h, hh, hg⟩
  · exact mem_known_live hl hg
  · exact mem_known_held (Option.filter_eq_some_iff.1 hh).1 hg

theorem apart_move (h : Apart cfg T) (hmove : Move cfg T T') : Apart cfg T' := by
  cases hmove with
  | start p g =>
    refine h.fewer (fewer_of (live_set fun g hg => ?_) ?_)
    · rcases mem_live_known.1 hg with hg | ⟨id, hg⟩ <;> cases hg
    · cases hl : T.live.get p with
      | none => exact held_unchanged
      | some l => exact held_kept hl
  | greet group hl hbare hpeer hok => exact h.admits hok hl
  | resume epoch features hl hbare hpeer hid =>
    exact h.fewer (fewer_of (live_set (fewer_back hl epoch features)) held_drop)
  | settle hl => exact h.fewer (fewer_of (live_same hl (by rfl)) held_unchanged)
  | accept group hl hepoch hpeer hroom hok => exact h.admits hok hl
  | forget id hl =>
    exact h.fewer (fewer_of (live_set fun g hg => mem_known_live hl (known_without id g hg))
      held_unchanged)
  | applyKnown u hl hepoch hhome hslot =>
    exact h.fewer (fewer_of (live_same hl (by rfl)) held_unchanged)
  | applyNew u uid hl hepoch hhome hslot hfresh =>
    exact h.fewer (fewer_of (live_same hl (by rfl)) held_unchanged)
  | gone hl hslot =>
    exact h.fewer (fewer_of (live_same hl (by rfl)) held_unchanged)
  | claim groups hl hepoch =>
    exact h.fewer (fewer_of (live_same hl (by exact known_claims groups)) held_unchanged)
  | interrupt hl => exact h.fewer (fewer_of live_drop (held_kept hl))
  | ended hl => exact h.fewer (fewer_of live_drop held_drop)
  | giveUp hh => exact h.fewer (fewer_of live_unchanged held_drop)
  | part hi => exact h.fewer fun n g hg => hg

end Apart

/-! ## Each link's own table -/

/-- A peer and the servers behind it: each under its own ID, none of them the peer, and no more of
them than one link may put there. -/
structure Table (peer : Option ServerGroup) (servers : Map ServerId ServerGroup) : Prop where
  keyed : ∀ id g, servers.get id = some g → g.id = id
  peer : ∀ p, peer = some p → servers.get p.id = none
  few : servers.entries.length ≤ MAX_SERVERS

theorem table_empty (peer : Option ServerGroup) : Table peer Map.empty where
  keyed id g h := by cases h
  peer p _ := rfl
  few := Nat.zero_le _

section Table
variable {peer : Option ServerGroup} {servers : Map ServerId ServerGroup}

theorem Table.drop (h : Table peer servers) (id : ServerId) : Table peer (servers.drop id) where
  keyed k g hg := by
    rw [Map.get_drop] at hg
    split at hg
    · cases hg
    · exact h.keyed k g hg
  peer p hp := by
    rw [Map.get_drop]
    split
    · rfl
    · exact h.peer p hp
  few := le_trans (Map.length_drop_le id) h.few

/-- The peer described anew, under the ID it has. -/
theorem Table.renamed {own group : ServerGroup} (h : Table (some own) servers)
    (hid : own.id = group.id) : Table (some group) servers where
  keyed := h.keyed
  peer p hp := by
    obtain rfl := Option.some.inj hp
    rw [← hid]
    exact h.peer own rfl
  few := h.few

/-- One more server behind the peer. -/
theorem Table.added {own group : ServerGroup} (h : Table (some own) servers)
    (hid : own.id ≠ group.id)
    (hroom : (servers.get group.id).isSome ∨ servers.entries.length < MAX_SERVERS) :
    Table (some own) (servers.set group.id group) where
  keyed k g hg := by
    rw [Map.get_set] at hg
    by_cases hk : k = group.id
    · rw [if_pos hk] at hg
      rw [hk, ← Option.some.inj hg]
    · rw [if_neg hk] at hg
      exact h.keyed k g hg
  peer p hp := by
    obtain rfl := Option.some.inj hp
    rw [Map.get_set, if_neg hid]
    exact h.peer own rfl
  few := by
    rw [Map.length_set]
    rcases hroom with hroom | hroom
    · rw [if_pos hroom]
      exact h.few
    · split
      · exact h.few
      · exact hroom

end Table

structure Tree (cfg : Config) (T : Tables) : Prop where
  apart : Apart cfg T
  live : ∀ n l, T.live.get n = some l → Table l.peer l.servers
  held : ∀ n h, T.held.get n = some h → Table (some h.peer) h.servers
  settled : ∀ n l, T.live.get n = some l → l.epoch.isSome → T.held.get n = none

section Tree
variable {cfg : Config} {T T' : Tables} {p : String} {l l' : Live}

theorem Tree.liveSet (h : Tree cfg T) (hl' : Table l'.peer l'.servers) (n : String) (l : Live)
    (hl : (T.live.set p l').get n = some l) : Table l.peer l.servers := by
  rw [Map.get_set] at hl
  split at hl
  · obtain rfl := Option.some.inj hl
    exact hl'
  · exact h.live n l hl

theorem Tree.heldDrop (h : Tree cfg T) (n : String) (held : Held)
    (hh : (T.held.drop p).get n = some held) : Table (some held.peer) held.servers := by
  rw [Map.get_drop] at hh
  split at hh
  · cases hh
  · exact h.held n held hh

theorem Tree.heldKept (h : Tree cfg T) (hl : T.live.get p = some l) (n : String) (held : Held)
    (hh : (l.kept.elim T.held (T.held.set p)).get n = some held) :
    Table (some held.peer) held.servers := by
  cases hk : l.kept with
  | none =>
    rw [hk] at hh
    exact h.held n held hh
  | some kept =>
    rw [hk] at hh
    have hh' : (T.held.set p kept).get n = some held := hh
    rw [Map.get_set] at hh'
    split at hh'
    · obtain rfl := Option.some.inj hh'
      obtain ⟨own, hown, hk⟩ := Option.bind_eq_some_iff.1 hk
      obtain ⟨epoch, -, rfl⟩ := Option.map_eq_some_iff.1 hk
      rw [← hown]
      exact h.live p l hl
    · exact h.held n held hh'

theorem Tree.settledSet (h : Tree cfg T) (hl : T.live.get p = some l) (he : l'.epoch = l.epoch)
    (n : String) (l'' : Live) (hl'' : (T.live.set p l').get n = some l'') (hs : l''.epoch.isSome) :
    T.held.get n = none := by
  rw [Map.get_set] at hl''
  split at hl''
  next hn =>
    obtain rfl := Option.some.inj hl''
    rw [hn]
    rw [he] at hs
    exact h.settled p l hl hs
  next => exact h.settled n l'' hl'' hs

/-- A change of one link that keeps its table. -/
theorem Tree.same (h : Tree cfg T) (hmove : Move cfg T T') (hl : T.live.get p = some l)
    (hlive : T'.live = T.live.set p l') (hheld : T'.held = T.held)
    (htable : Table l'.peer l'.servers) (he : l'.epoch = l.epoch) : Tree cfg T' where
  apart := apart_move h.apart hmove
  live := by
    rw [hlive]
    exact h.liveSet htable
  held := by
    rw [hheld]
    exact h.held
  settled := by
    rw [hlive, hheld]
    exact h.settledSet hl he

theorem servers_back (l : Live) (held : Held) (epoch : Epoch) (features : UInt32) :
    (l.back (some held) epoch features).servers = l.servers.extend held.servers := by
  unfold Live.back
  dsimp only [Option.elim]
  split <;> rfl

/-- A hold that can be taken back is of the server that is back. -/
theorem not_lost_id {h : Held} {server : ServerId} {features : UInt32}
    (hlost : (!h.lost server features) = true) : h.peer.id = server := by
  rw [Held.lost, Bool.not_eq_true', Bool.or_eq_false_iff, bne_eq_false_iff_eq] at hlost
  exact hlost.1

theorem table_back (h : Tree cfg T) {own : ServerGroup} {server : ServerId} (epoch : Epoch)
    (features : UInt32) (hbare : l.Bare) (hpeer : l.peer = some own) (hid : own.id = server) :
    Table (l.back ((T.held.get p).filter fun h => !h.lost server features) epoch features).peer
      (l.back ((T.held.get p).filter fun h => !h.lost server features) epoch features).servers := by
  obtain ⟨-, -, -, hpeer'⟩ := back_frame l
    ((T.held.get p).filter fun h => !h.lost server features) epoch features
  rw [hpeer', hpeer]
  cases hf : (T.held.get p).filter fun h => !h.lost server features with
  | none =>
    show Table (some own) l.servers
    rw [hbare.servers]
    exact table_empty _
  | some held =>
    obtain ⟨hget, hlost⟩ := Option.filter_eq_some_iff.1 hf
    rw [servers_back, hbare.servers, Map.extend_empty]
    refine (h.held p held hget).renamed ?_
    rw [hid]
    exact not_lost_id hlost

theorem tree_move (h : Tree cfg T) (hmove : Move cfg T T') : Tree cfg T' := by
  have hmove' := hmove
  cases hmove with
  | start p g =>
    refine ⟨apart_move h.apart hmove', h.liveSet (table_empty _), ?_, fun n l hl hs => ?_⟩
    · cases hl : T.live.get p with
      | none => exact h.held
      | some l => exact h.heldKept hl
    · have hl' : (T.live.set p (fresh g)).get n = some l := hl
      rw [Map.get_set] at hl'
      by_cases hn : n = p
      · rw [if_pos hn] at hl'
        obtain rfl := Option.some.inj hl'
        cases hs
      · rw [if_neg hn] at hl'
        have hnone := h.settled n l hl' hs
        show (((T.live.get p).bind Live.kept).elim T.held (T.held.set p)).get n = none
        cases (T.live.get p).bind Live.kept with
        | none => exact hnone
        | some kept =>
          show (T.held.set p kept).get n = none
          rw [Map.get_set, if_neg hn, hnone]
  | greet group hl hbare hpeer hok =>
    refine h.same hmove' hl rfl rfl ?_ rfl
    show Table (some group) _
    have hservers := hbare.servers
    exact hservers ▸ table_empty _
  | @resume p l₀ own server epoch features hl hbare hpeer hid =>
    refine ⟨apart_move h.apart hmove', h.liveSet (table_back h epoch features hbare hpeer hid),
      h.heldDrop, fun n l hl' hs => ?_⟩
    show (T.held.drop p).get n = none
    rw [Map.get_drop]
    by_cases hn : n = p
    · exact if_pos hn
    · rw [if_neg hn]
      have hl'' : (T.live.set p _).get n = some l := hl'
      rw [Map.get_set, if_neg hn] at hl''
      exact h.settled n l hl'' hs
  | settle hl =>
    have htable := h.live _ _ hl
    exact h.same hmove' hl rfl rfl htable rfl
  | @accept p l own group hl hepoch hpeer hroom hok =>
    have htable := h.live _ _ hl
    rw [hpeer] at htable
    by_cases hid : own.id = group.id
    · refine h.same hmove' hl rfl rfl ?_ ?_
      · rw [Live.admitted, if_pos (beq_iff_eq.2 hid)]
        exact htable.renamed hid
      · rw [Live.admitted, if_pos (beq_iff_eq.2 hid)]
    · refine h.same hmove' hl rfl rfl ?_ ?_
      · rw [Live.admitted, if_neg fun hb => hid (beq_iff_eq.1 hb)]
        show Table l.peer _
        rw [hpeer]
        exact htable.added hid (hroom.resolve_left hid)
      · rw [Live.admitted, if_neg fun hb => hid (beq_iff_eq.1 hb)]
  | forget id hl =>
    have htable := (h.live _ _ hl).drop id
    exact h.same hmove' hl rfl rfl htable rfl
  | applyKnown u hl hepoch hhome hslot =>
    have htable := h.live _ _ hl
    exact h.same hmove' hl rfl rfl htable rfl
  | applyNew u uid hl hepoch hhome hslot hfresh =>
    have htable := h.live _ _ hl
    exact h.same hmove' hl rfl rfl htable rfl
  | gone hl hslot =>
    have htable := h.live _ _ hl
    exact h.same hmove' hl rfl rfl htable rfl
  | @claim p l groups hl hepoch =>
    obtain ⟨ghosts, stale, heq⟩ := claims_frame l groups
    have htable := h.live p l hl
    refine h.same hmove' hl rfl rfl ?_ ?_
    · rw [heq]
      exact htable
    · rw [heq]
  | @interrupt p l hl =>
    refine ⟨apart_move h.apart hmove', fun n l' hl' => ?_, h.heldKept hl, fun n l' hl' hs => ?_⟩
    · have hl'' : (T.live.drop p).get n = some l' := hl'
      rw [Map.get_drop] at hl''
      split at hl''
      · cases hl''
      · exact h.live n l' hl''
    · have hl'' : (T.live.drop p).get n = some l' := hl'
      rw [Map.get_drop] at hl''
      by_cases hn : n = p
      · rw [if_pos hn] at hl''
        cases hl''
      · rw [if_neg hn] at hl''
        have hnone := h.settled n l' hl'' hs
        show (l.kept.elim T.held (T.held.set p)).get n = none
        cases l.kept with
        | none => exact hnone
        | some kept =>
          show (T.held.set p kept).get n = none
          rw [Map.get_set, if_neg hn, hnone]
  | @ended p l hl =>
    refine ⟨apart_move h.apart hmove', fun n l' hl' => ?_, h.heldDrop, fun n l' hl' hs => ?_⟩
    · have hl'' : (T.live.drop p).get n = some l' := hl'
      rw [Map.get_drop] at hl''
      split at hl''
      · cases hl''
      · exact h.live n l' hl''
    · have hl'' : (T.live.drop p).get n = some l' := hl'
      rw [Map.get_drop] at hl''
      show (T.held.drop p).get n = none
      rw [Map.get_drop]
      split at hl''
      · cases hl''
      next hn =>
        rw [if_neg hn]
        exact h.settled n l' hl'' hs
  | @giveUp p held hh =>
    refine ⟨apart_move h.apart hmove', h.live, h.heldDrop, fun n l hl hs => ?_⟩
    show (T.held.drop p).get n = none
    rw [Map.get_drop]
    split
    · rfl
    · exact h.settled n l hl hs
  | part hi => exact ⟨apart_move h.apart hmove', h.live, h.held, h.settled⟩

theorem tree_empty (cfg : Config) : Tree cfg {} := by
  refine ⟨⟨fun n m _ g hg => ?_, fun n g hg => ?_⟩, fun n l hl => ?_, fun n h hh => ?_,
    fun n l hl => ?_⟩
  · cases hg
  · cases hg
  · cases hl
  · cases hh
  · cases hl

/-- What holds at first, and what every move of a tree keeps, holds over every run. -/
theorem tables_run {P : Tables → Prop} (cfg : Setup) (peers : List PeerEntry) (ops : List Op)
    (hempty : P {}) (hmove : ∀ T T', Tree cfg.toConfig T → P T → Move cfg.toConfig T T' → P T') :
    P (run cfg peers ops).tables := by
  have hall : ∀ T, Moves cfg.toConfig {} T → Tree cfg.toConfig T ∧ P T := by
    intro T hmoves
    induction hmoves with
    | refl => exact ⟨tree_empty _, hempty⟩
    | tail _ hm ih => exact ⟨tree_move ih.1 hm, hmove _ _ ih.1 ih.2 hm⟩
  exact (hall _ (moves_run cfg peers ops)).2

theorem tree_run (cfg : Setup) (peers : List PeerEntry) (ops : List Op) :
    Tree cfg.toConfig (run cfg peers ops).tables :=
  tables_run cfg peers ops (tree_empty _) fun _ _ _ h hmove => tree_move h hmove

end Tree

/-! ## Over every run -/

/-- A live link's peer is `id`, or a server behind it is. -/
def Live.shows (l : Live) (id : ServerId) : Prop :=
  (∃ p, l.peer = some p ∧ p.id = id) ∨ (l.servers.get id).isSome

/-- The same of a link held. -/
def Held.shows (h : Held) (id : ServerId) : Prop := h.peer.id = id ∨ (h.servers.get id).isSome

/-- `id` is known under peer `n`, over its live link or held for it. -/
def State.knows (s : State) (n : String) (id : ServerId) : Prop :=
  (∃ l, s.links.get n = some l ∧ l.shows id) ∨ ∃ h, s.held.get n = some h ∧ h.shows id

theorem live_of_links {w : World} {n : String} {l : Live} (hl : w.state.links.get n = some l) :
    w.tables.live.get n = some l.learned := by
  show w.state.view.get n = _
  rw [get_view, hl, Option.map_some]

theorem known_of_knows {cfg : Config} {w : World} (h : Tree cfg w.tables) {n : String} {id : ServerId}
    (hk : w.state.knows n id) : ∃ g ∈ w.tables.known n, g.id = id := by
  rcases hk with ⟨l, hl, hs⟩ | ⟨held, hh, hs⟩
  · have hl' := live_of_links hl
    rcases hs with ⟨p, hp, rfl⟩ | hs
    · exact ⟨p, mem_known_live hl' (mem_live_known.2 (.inl hp)), rfl⟩
    · obtain ⟨g, hg⟩ := Option.isSome_iff_exists.1 hs
      exact ⟨g, mem_known_live hl' (mem_live_known.2 (.inr ⟨id, hg⟩)), (h.live n _ hl').keyed id g hg⟩
  · rcases hs with rfl | hs
    · exact ⟨held.peer, mem_known_held hh (mem_held_known.2 (.inl rfl)), rfl⟩
    · obtain ⟨g, hg⟩ := Option.isSome_iff_exists.1 hs
      exact ⟨g, mem_known_held hh (mem_held_known.2 (.inr ⟨id, hg⟩)), (h.held n held hh).keyed id g hg⟩

/-- In every state a hub reaches the network is a tree as it sees it: no server is known under two
peers or is this one, none lies behind itself, nothing is held beside a link whose Hello is settled,
so that holding a link gives no earlier hold up, and no link has more servers behind it than it may. -/
theorem network_is_a_tree (cfg : Setup) (peers : List PeerEntry) (ops : List Op) :
    let s := (run cfg peers ops).state
    (∀ n m id, s.knows n id → s.knows m id → n = m) ∧
      (∀ n, ¬ s.knows n cfg.serverId) ∧
      (∀ n l p, s.links.get n = some l → l.peer = some p → l.servers.get p.id = none) ∧
      (∀ n h, s.held.get n = some h → h.servers.get h.peer.id = none) ∧
      (∀ n l, s.links.get n = some l → l.epoch.isSome → s.held.get n = none) ∧
      (∀ n l h, s.links.get n = some l → s.held.get n = some h →
        (hold s n l).1.held.get n = some h) ∧
      (∀ n l, s.links.get n = some l → l.servers.entries.length ≤ MAX_SERVERS) ∧
      ∀ n h, s.held.get n = some h → h.servers.entries.length ≤ MAX_SERVERS := by
  have h := tree_run cfg peers ops
  refine ⟨fun n m id hn hm => ?_, fun n hn => ?_, fun n l p hl hp => ?_, fun n held hh => ?_,
    fun n l hl hs => h.settled n _ (live_of_links hl) hs, fun n l held hl hh => ?_, fun n l hl => ?_,
    fun n held hh => (h.held n held hh).few⟩
  · obtain ⟨g, hg, hid⟩ := known_of_knows h hn
    obtain ⟨g', hg', hid'⟩ := known_of_knows h hm
    by_contra hne
    exact (h.apart.peers n m hne g hg g' hg').1 (hid.trans hid'.symm)
  · obtain ⟨g, hg, hid⟩ := known_of_knows h hn
    exact (h.apart.own n g hg).1 hid
  · exact (h.live n _ (live_of_links hl)).peer p hp
  · exact (h.held n held hh).peer held.peer rfl
  · obtain ⟨-, -, hheld, -⟩ := hold_eq (run cfg peers ops).state n l
    rw [hheld]
    have hnone : l.epoch = none := by
      by_contra hs
      have hsettled := h.settled n _ (live_of_links hl) (Option.isSome_iff_ne_none.2 hs)
      have hh' : (run cfg peers ops).tables.held.get n = some held := hh
      rw [hsettled] at hh'
      cases hh'
    have hkept : l.kept = none := by
      unfold Live.kept
      rw [hnone]
      cases l.peer <;> rfl
    rw [hkept]
    exact hh
  · exact (h.live n _ (live_of_links hl)).few

end HxdNg.Link
