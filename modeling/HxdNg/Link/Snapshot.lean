import HxdNg.Link.Tables
import HxdNg.Link.Slots

/-!
# A snapshot replaces what a link showed

A snapshot is applied in three passes: held ghosts are matched, those whose ID it does not give are
parted, and then each of its groups is shown or refused.

* `Room`, `applyGroups`, `partAll`, `applySnapshot` : the call;
* `Claims`, `claims_claim` : what the first pass takes back, a held ghost once and an ID once;
* `showAt`, `get_applyGroups` : what the third leaves under one ID;
* `Replaced` : what a snapshot is to leave; `replaced_iff` : when it does.
-/

namespace HxdNg.Link

open Assoc (Map)

/-- What bounds a group's ghost while it is applied, and the uid the core has for it. -/
structure Room where
  limit : Nat
  maxGhosts : Nat
  count : Nat
  draw : Option UInt16

/-- Groups applied one after another, with why those not shown were refused. -/
def applyGroups (s : State) (peer : String) (generation : Nat) :
    List (UserGroup × Room) → State × List String
  | [] => (s, [])
  | (g, room) :: rest =>
    match applyUser s peer generation g room.limit room.maxGhosts room.count room.draw with
    | .ok (s, _) => applyGroups s peer generation rest
    | .error why =>
      let (s, refused) := applyGroups s peer generation rest
      (s, why :: refused)

/-- Users gone one after another, without a word from the peer. -/
def partAll (s : State) (peer : String) (generation : Nat) : List UInt16 → State × List Slot
  | [] => (s, [])
  | id :: ids =>
    let (s, gone) := userGone s peer generation id (goneFields id .disconnected)
    let (s, rest) := partAll s peer generation ids
    (s, gone ++ rest)

structure Applied where
  state : State
  parted : List Slot
  refused : List String

def applySnapshot (s : State) (peer : String) (generation : Nat) (groups : List (UserGroup × Room)) :
    Applied :=
  let named := groups.map Prod.fst
  let (s, unclaimed) := claimStale s peer generation named
  let (s, gone) := partAll s peer generation (unlisted s peer generation named)
  let (s, refused) := applyGroups s peer generation groups
  ⟨s, unclaimed ++ gone, refused⟩

/-- A group's ghost is refused for want of room. -/
def boundReached : String := "ghost bound reached"

/-! ## What a snapshot is to leave -/

/-- A group for `id`, homed behind the link. -/
def Live.gives (l : Live) (id : UInt16) (g : UserGroup) : Bool := g.id == id && l.knows g.home

/-- Some group of `groups` for `id` is homed behind the link. -/
def Live.names (l : Live) (groups : List UserGroup) (id : UInt16) : Prop :=
  ∃ g ∈ groups, l.gives id g = true

/-- `claimed` are the held ghosts of `l` taken back, each under the ID it now has, and `left` the
others: each one's home, name and icon are those of a group of that ID. -/
structure Claims (l : Live) (groups : List UserGroup) (claimed : List (UInt16 × Slot))
    (left : List Slot) : Prop where
  once : l.stale.Perm (claimed.map Prod.snd ++ left)
  ids : (claimed.map Prod.fst).Nodup
  unshown : ∀ c ∈ claimed, l.ghosts.get c.1 = none
  same : ∀ c ∈ claimed, ∃ g ∈ groups, l.gives c.1 g = true ∧ c.2.same g = true

/-- `live'` is `live` with what it showed replaced by `groups`, and `parted` the ghosts gone. -/
structure Replaced (live live' : Live) (groups : List (UserGroup × Room)) (parted : List Slot) :
    Prop where
  shown : ∀ id, (live'.ghosts.get id).isSome = true ↔ live.names (groups.map Prod.fst) id
  last : ∀ id slot, live'.ghosts.get id = some slot →
    ((groups.map Prod.fst).filter (live.gives id)).getLast? = some slot.group
  settled : live'.stale = []
  kept : ∀ id slot slot', live.ghosts.get id = some slot → live'.ghosts.get id = some slot' →
    slot'.uid = slot.uid
  others : ∃ claimed left, Claims live (groups.map Prod.fst) claimed left ∧
    (∀ c ∈ claimed, ∃ slot', live'.ghosts.get c.1 = some slot' ∧ slot'.uid = c.2.uid) ∧
    (∀ id slot', live'.ghosts.get id = some slot' → live.ghosts.get id = none →
      id ∉ claimed.map Prod.fst → ∃ gr ∈ groups, gr.1.id = id ∧ gr.2.draw = some slot'.uid) ∧
    parted.Perm (left ++ (live.ghosts.filter fun kv => (live'.ghosts.get kv.1).isNone).values)

variable {s : State} {p : String} {g : Nat} {l : Live}

/-! ## A link's own entry -/

theorem current_relay (s : State) (p : String) (what : Relay) : (relay s p what).current p g = s.current p g := by
  unfold State.current relay
  rw [Map.get_mapVals]
  simp

theorem current_relayAll (s : State) (p : String) (whats : List Relay) :
    (relayAll s p whats).current p g = s.current p g := by
  induction whats generalizing s with
  | nil => rfl
  | cons what whats ih => exact (ih _).trans (current_relay s p what)

theorem current_put (s : State) (p : String) {l : Live} (h : l.generation = g) :
    (s.put p l).current p g = some l := by
  unfold State.current State.put
  rw [Map.get_set, if_pos rfl, Option.filter_some, h, beq_self_eq_true]
  rfl

theorem current_claimStale (h : s.current p g = some l) (groups : List UserGroup) :
    (claimStale s p g groups).1.current p g = some { groups.foldl Live.claim l with stale := [] } ∧
      (claimStale s p g groups).2 = (groups.foldl Live.claim l).stale := by
  unfold claimStale
  rw [h]
  have hgeneration : ({ groups.foldl Live.claim l with stale := [] } : Live).generation = g := by
    obtain ⟨ghosts, stale, heq⟩ := claims_frame l groups
    rw [heq]
    exact (current_eq_some h).2
  have hput := current_put s p hgeneration
  refine ⟨?_, rfl⟩
  dsimp only
  split
  · exact (current_relayAll _ _ _).trans hput
  · exact hput

theorem current_userGone (h : s.current p g = some l) {id : UInt16} {slot : Slot}
    (hslot : l.ghosts.get id = some slot) (came : List Field) :
    (userGone s p g id came).1.current p g = some { l with ghosts := l.ghosts.drop id } ∧
      (userGone s p g id came).2 = [slot] := by
  unfold userGone
  rw [h]
  dsimp only
  rw [hslot]
  have hgeneration : ({ l with ghosts := l.ghosts.drop id } : Live).generation = g :=
    (current_eq_some h).2
  have hput := current_put s p hgeneration
  refine ⟨?_, rfl⟩
  dsimp only
  split
  · exact (current_relay _ _ _).trans hput
  · exact hput

def Live.withGhost (l : Live) (u : UserGroup) (uid : UInt16) : Live :=
  { l with ghosts := l.ghosts.set u.id ⟨uid, u⟩ }

/-- What applying a group comes to. -/
inductive Comes (l : Live) (u : UserGroup) (room : Room) : Except String Live → Prop where
  | elsewhere (hhome : l.knows u.home = false) : Comes l u room (.error "not homed behind this link")
  | updated {slot : Slot} (hhome : l.knows u.home = true) (hslot : l.ghosts.get u.id = some slot) :
      Comes l u room (.ok (l.withGhost u slot.uid))
  | full : Comes l u room (.error boundReached)
  | without (hhome : l.knows u.home = true) (hslot : l.ghosts.get u.id = none)
      (hdraw : room.draw = none) : Comes l u room (.error "no uid to give a ghost")
  | attached {uid : UInt16} (hhome : l.knows u.home = true) (hslot : l.ghosts.get u.id = none)
      (hdraw : room.draw = some uid) : Comes l u room (.ok (l.withGhost u uid))

/-- A call on the hub whose outcome, as its link's entry shows it, is `r`. -/
def Leaves (p : String) (g : Nat) (r : Except String Live) (out : Except String (State × Option UInt16)) :
    Prop :=
  match r, out with
  | .ok l, .ok (s, _) => s.current p g = some l
  | .error why, .error why' => why = why'
  | _, _ => False

theorem leaves_put (h : s.current p g = some l) (u : UserGroup) (uid : UInt16) (what : Relay) (go : Bool)
    (given : Option UInt16) :
    Leaves p g (.ok (l.withGhost u uid)) (.ok (if go = true then
      relay (s.put p (l.withGhost u uid)) p what else s.put p (l.withGhost u uid), given)) := by
  have hput : (s.put p (l.withGhost u uid)).current p g = some (l.withGhost u uid) :=
    current_put s p (current_eq_some h).2
  show State.current _ p g = _
  cases go with
  | false => exact hput
  | true => exact (current_relay _ _ _).trans hput

theorem comes_applyUser (h : s.current p g = some l) (u : UserGroup) (room : Room) :
    ∃ r, Comes l u room r ∧
      Leaves p g r (applyUser s p g u room.limit room.maxGhosts room.count room.draw) := by
  unfold applyUser
  rw [h]
  dsimp only
  cases hhome : l.knows u.home with
  | false => exact ⟨_, .elsewhere hhome, rfl⟩
  | true =>
    cases hslot : l.ghosts.get u.id with
    | some slot => exact ⟨_, .updated hhome hslot, leaves_put h u slot.uid _ _ _⟩
    | none =>
      dsimp only
      by_cases hfull : room.limit ≤ l.ghosts.entries.length ∨ room.maxGhosts ≤ room.count
      · rw [if_pos hfull]
        exact ⟨_, .full, rfl⟩
      · rw [if_neg hfull]
        cases hdraw : room.draw with
        | none => exact ⟨_, .without hhome hslot hdraw, rfl⟩
        | some uid => exact ⟨_, .attached hhome hslot hdraw, leaves_put h u uid _ _ _⟩

/-! ## The third pass, under one ID -/

/-- The ghost under `id` once a group is applied with room for it. -/
def showAt (l : Live) (id : UInt16) (shown : Option Slot) (gr : UserGroup × Room) : Option Slot :=
  if l.gives id gr.1 = true then
    (shown.map fun slot => ⟨slot.uid, gr.1⟩).or (gr.2.draw.map fun uid => ⟨uid, gr.1⟩)
  else shown

theorem gives_iff {id : UInt16} {u : UserGroup} : l.gives id u = true ↔ u.id = id ∧ l.knows u.home = true := by
  rw [Live.gives, Bool.and_eq_true, beq_iff_eq]

theorem gives_own {u : UserGroup} (hhome : l.knows u.home = true) : l.gives u.id u = true :=
  gives_iff.2 ⟨rfl, hhome⟩

theorem get_withGhost {u : UserGroup} {room : Room} (slot : Slot)
    (h : showAt l u.id (l.ghosts.get u.id) (u, room) = some slot) (hgroup : slot.group = u)
    (id : UInt16) :
    (l.withGhost u slot.uid).ghosts.get id = showAt l id (l.ghosts.get id) (u, room) := by
  show (l.ghosts.set u.id ⟨slot.uid, u⟩).get id = _
  rw [Map.get_set]
  by_cases hid : id = u.id
  · rw [if_pos hid, hid, h, ← hgroup]
  · rw [if_neg hid]
    exact (if_neg fun hc => hid (gives_iff.1 hc).1.symm).symm

theorem showAt_of_shown {u : UserGroup} {room : Room} {slot : Slot} (hhome : l.knows u.home = true) :
    showAt l u.id (some slot) (u, room) = some ⟨slot.uid, u⟩ := by
  unfold showAt
  rw [if_pos (gives_own hhome)]
  rfl

theorem showAt_of_new {u : UserGroup} {room : Room} (hhome : l.knows u.home = true) :
    showAt l u.id none (u, room) = room.draw.map fun uid => ⟨uid, u⟩ := by
  unfold showAt
  rw [if_pos (gives_own hhome)]
  rfl

/-- One step of the pass: a group applied, with no bound reached, changes the ghost under its own ID
as `showAt` says and no other. -/
theorem get_of_comes {u : UserGroup} {room : Room} {r : Except String Live} (h : Comes l u room r)
    (hroom : r ≠ .error boundReached) (id : UInt16) :
    (r.toOption.getD l).ghosts.get id = showAt l id (l.ghosts.get id) (u, room) := by
  cases h with
  | elsewhere hhome =>
    have hc : ¬ l.gives id u = true := fun hc => by simp [Live.gives, hhome] at hc
    exact (if_neg hc).symm
  | @updated slot hhome hslot =>
    refine get_withGhost ⟨slot.uid, u⟩ ?_ rfl id
    rw [hslot]
    exact showAt_of_shown hhome
  | full => exact absurd rfl hroom
  | without hhome hslot hdraw =>
    show l.ghosts.get id = _
    by_cases hid : u.id = id
    · rw [← hid, hslot, showAt_of_new hhome, hdraw]
      rfl
    · exact (if_neg fun hc => hid (gives_iff.1 hc).1).symm
  | @attached uid hhome hslot hdraw =>
    refine get_withGhost ⟨uid, u⟩ ?_ rfl id
    rw [hslot, showAt_of_new hhome, hdraw]
    rfl

theorem frame_of_comes {u : UserGroup} {room : Room} {r : Except String Live} (h : Comes l u room r) :
    ∃ ghosts, r.toOption.getD l = { l with ghosts := ghosts } := by
  cases h with
  | elsewhere => exact ⟨_, rfl⟩
  | updated => exact ⟨_, rfl⟩
  | full => exact ⟨_, rfl⟩
  | without => exact ⟨_, rfl⟩
  | attached => exact ⟨_, rfl⟩

theorem get_applyGroups (h : s.current p g = some l) (groups : List (UserGroup × Room))
    (hroom : boundReached ∉ (applyGroups s p g groups).2) :
    ∃ ghosts, (applyGroups s p g groups).1.current p g = some { l with ghosts := ghosts } ∧
      ∀ id, ghosts.get id = groups.foldl (showAt l id) (l.ghosts.get id) := by
  induction groups generalizing s l with
  | nil => exact ⟨l.ghosts, h, fun id => rfl⟩
  | cons gr groups ih =>
    obtain ⟨u, room⟩ := gr
    obtain ⟨r, hcomes, hleaves⟩ := comes_applyUser h u room
    obtain ⟨ghosts, hframe⟩ := frame_of_comes hcomes
    unfold applyGroups at hroom ⊢
    cases hout : applyUser s p g u room.limit room.maxGhosts room.count room.draw with
    | error why =>
      rw [hout] at hleaves hroom
      cases r with
      | ok l' => exact hleaves.elim
      | error why' =>
        have hwhy : why' = why := hleaves
        rw [List.mem_cons, not_or] at hroom
        have hne : (.error why' : Except String Live) ≠ .error boundReached := by
          rw [hwhy]
          exact fun heq => hroom.1 (Except.error.inj heq).symm
        obtain ⟨ghosts', hcurrent, hget⟩ := ih h hroom.2
        refine ⟨ghosts', hcurrent, fun id => ?_⟩
        rw [hget, List.foldl_cons, ← get_of_comes hcomes hne]
        rfl
    | ok out =>
      obtain ⟨s', given⟩ := out
      rw [hout] at hleaves hroom
      cases r with
      | error why' => exact hleaves.elim
      | ok l' =>
        have hl' : l' = { l with ghosts := ghosts } := hframe
        have hleaves : s'.current p g = some l' := hleaves
        obtain ⟨ghosts', hcurrent, hget⟩ := ih hleaves hroom
        refine ⟨ghosts', ?_, fun id => ?_⟩
        · rw [hcurrent, hl']
        · have hstep := get_of_comes hcomes (by simp) id
          have hshow : showAt l' id = showAt l id := by
            rw [hl']
            rfl
          rw [hget, hshow, List.foldl_cons, ← hstep]
          rfl

section ShowAt
variable {id : UInt16} {groups : List (UserGroup × Room)} {shown : Option Slot}

theorem foldl_showAt_self (h : ∀ gr ∈ groups, l.gives id gr.1 = false) :
    groups.foldl (showAt l id) shown = shown := by
  induction groups with
  | nil => rfl
  | cons gr groups ih =>
    have hstep : showAt l id shown gr = shown :=
      if_neg (Bool.eq_false_iff.1 (h gr List.mem_cons_self))
    rw [List.foldl_cons, hstep]
    exact ih fun gr' hgr' => h gr' (List.mem_cons_of_mem _ hgr')

/-- A ghost stays shown, and a new one is shown by the first group to get a uid. -/
theorem isSome_foldl_showAt (l : Live) (id : UInt16) (groups : List (UserGroup × Room)) (shown : Option Slot) :
    (groups.foldl (showAt l id) shown).isSome = true ↔
      shown.isSome = true ∨ ∃ gr ∈ groups, l.gives id gr.1 = true ∧ gr.2.draw.isSome = true := by
  induction groups generalizing shown with
  | nil => simp
  | cons gr groups ih =>
    have hstep : (showAt l id shown gr).isSome = true ↔
        shown.isSome = true ∨ (l.gives id gr.1 = true ∧ gr.2.draw.isSome = true) := by
      unfold showAt
      split
      next hgives => simp [hgives, Option.isSome_or]
      next hgives => simp [hgives]
    rw [List.foldl_cons, ih, hstep, List.exists_mem_cons_iff]
    exact or_assoc

theorem uid_foldl_showAt {slot slot' : Slot}
    (h : groups.foldl (showAt l id) (some slot) = some slot') : slot'.uid = slot.uid := by
  induction groups generalizing slot with
  | nil => exact congrArg Slot.uid (Option.some.inj h).symm
  | cons gr groups ih =>
    rw [List.foldl_cons] at h
    by_cases hgives : l.gives id gr.1 = true
    · have hstep : showAt l id (some slot) gr = some ⟨slot.uid, gr.1⟩ := if_pos hgives
      rw [hstep] at h
      have huid := ih h
      exact huid
    · have hstep : showAt l id (some slot) gr = some slot := if_neg hgives
      rw [hstep] at h
      exact ih h

theorem drawn_foldl_showAt {slot' : Slot} (h : groups.foldl (showAt l id) none = some slot') :
    ∃ gr ∈ groups, gr.1.id = id ∧ gr.2.draw = some slot'.uid := by
  induction groups with
  | nil => cases h
  | cons gr groups ih =>
    rw [List.foldl_cons] at h
    by_cases hgives : l.gives id gr.1 = true
    · have hstep : showAt l id none gr = gr.2.draw.map fun uid => ⟨uid, gr.1⟩ := if_pos hgives
      rw [hstep] at h
      cases hdraw : gr.2.draw with
      | some uid =>
        rw [hdraw] at h
        have huid : slot'.uid = uid := uid_foldl_showAt h
        exact ⟨gr, List.mem_cons_self, (gives_iff.1 hgives).1, by rw [hdraw, huid]⟩
      | none =>
        rw [hdraw] at h
        obtain ⟨gr', hgr', hid, huid⟩ := ih h
        exact ⟨gr', List.mem_cons_of_mem _ hgr', hid, huid⟩
    · have hstep : showAt l id none gr = none := if_neg hgives
      rw [hstep] at h
      obtain ⟨gr', hgr', hid, huid⟩ := ih h
      exact ⟨gr', List.mem_cons_of_mem _ hgr', hid, huid⟩

/-- The group under an ID is the last given for it. -/
theorem last_foldl_showAt {slot' : Slot} (h : groups.foldl (showAt l id) shown = some slot')
    (hnames : l.names (groups.map Prod.fst) id) :
    ((groups.map Prod.fst).filter (l.gives id)).getLast? = some slot'.group := by
  induction groups using List.reverseRecOn with
  | nil =>
    obtain ⟨u, hu, -⟩ := hnames
    cases hu
  | append_singleton groups gr ih =>
    rw [List.foldl_append, List.foldl_cons, List.foldl_nil] at h
    rw [List.map_append, List.map_singleton, List.filter_append]
    by_cases hgives : l.gives id gr.1 = true
    · have hgroup : slot'.group = gr.1 := by
        unfold showAt at h
        rw [if_pos hgives, Option.or_eq_some_iff] at h
        rcases h with h | ⟨-, h⟩
        · obtain ⟨slot, -, rfl⟩ := Option.map_eq_some_iff.1 h
          rfl
        · obtain ⟨uid, -, rfl⟩ := Option.map_eq_some_iff.1 h
          rfl
      rw [List.filter_cons_of_pos hgives, List.filter_nil, List.getLast?_append, hgroup]
      rfl
    · unfold showAt at h
      rw [if_neg hgives] at h
      rw [List.filter_cons_of_neg hgives, List.filter_nil, List.append_nil]
      refine ih h ?_
      obtain ⟨u, hu, hgives'⟩ := hnames
      rw [List.map_append, List.mem_append] at hu
      rcases hu with hu | hu
      · exact ⟨u, hu, hgives'⟩
      · rw [List.map_singleton, List.mem_singleton] at hu
        exact absurd (hu ▸ hgives') hgives

end ShowAt

/-! ## The first pass: held ghosts taken back -/

theorem perm_swapRemove {α : Type} {xs : List α} {i : Nat} {a : α} (h : xs[i]? = some a) :
    xs.Perm (a :: swapRemove xs i) := by
  induction xs using List.reverseRecOn with
  | nil => cases h
  | append_singleton xs last _ =>
    unfold swapRemove
    rw [List.getLast?_append, List.getLast?_singleton]
    show (xs ++ [last]).Perm (a :: ((xs ++ [last]).set i last).dropLast)
    obtain ⟨hi, ha⟩ := List.getElem?_eq_some_iff.1 h
    rw [List.length_append, List.length_singleton] at hi
    by_cases hlt : i < xs.length
    · rw [List.getElem_append_left hlt] at ha
      rw [List.set_append_left i last hlt, List.dropLast_concat, List.set_eq_take_append_cons_drop,
        if_pos hlt]
      have hsplit : xs = xs.take i ++ a :: xs.drop (i + 1) := by
        rw [← ha, List.getElem_cons_drop, List.take_append_drop]
      calc (xs ++ [last]).Perm (last :: xs) := List.perm_append_singleton last xs
        _ = last :: (xs.take i ++ a :: xs.drop (i + 1)) := by rw [← hsplit]
        (last :: (xs.take i ++ a :: xs.drop (i + 1))).Perm
            (last :: a :: (xs.take i ++ xs.drop (i + 1))) := (List.perm_middle).cons last
        List.Perm _ (a :: last :: (xs.take i ++ xs.drop (i + 1))) := List.Perm.swap _ _ _
        List.Perm _ (a :: (xs.take i ++ last :: xs.drop (i + 1))) := (List.perm_middle.symm).cons a
    · have hieq : i = xs.length := by omega
      subst hieq
      rw [List.getElem_append_right (le_refl _)] at ha
      have hlast : last = a := by simpa using ha
      rw [List.set_append_right _ _ (le_refl _), Nat.sub_self, List.set_cons_zero,
        List.dropLast_concat, hlast]
      exact List.perm_append_singleton a xs

/-- One step of the pass: a group claims a held ghost of its home, name and icon, under an ID nobody
has, or nothing. -/
theorem claim_cases (l : Live) (u : UserGroup) :
    l.claim u = l ∨ ∃ slot stale, l.gives u.id u = true ∧ l.ghosts.get u.id = none ∧
      slot.same u = true ∧ l.stale.Perm (slot :: stale) ∧
      l.claim u = { l with ghosts := l.ghosts.set u.id slot, stale := stale } := by
  unfold Live.claim
  by_cases hc : (!l.knows u.home || (l.ghosts.get u.id).isSome) = true
  · exact .inl (if_pos hc)
  rw [if_neg hc]
  rw [Bool.or_eq_true, not_or, Bool.not_eq_true, Bool.not_eq_eq_eq_not, Bool.not_false,
    Bool.not_eq_true, Option.isSome_eq_false_iff, Option.isNone_iff_eq_none] at hc
  obtain ⟨hhome, hslot⟩ := hc
  cases hi : l.stale.findIdx? fun slot => slot.same u with
  | none => exact .inl rfl
  | some i =>
    obtain ⟨hlt, hsame, -⟩ := List.findIdx?_eq_some_iff_getElem.1 hi
    have hget : l.stale[i]? = some l.stale[i] := List.getElem?_eq_getElem hlt
    dsimp only
    rw [hget]
    exact .inr ⟨_, _, gives_own hhome, hslot, hsame, perm_swapRemove hget, rfl⟩

/-- The whole pass. -/
theorem claims_foldl (l : Live) (groups : List UserGroup) :
    ∃ claimed, Claims l groups claimed (groups.foldl Live.claim l).stale ∧
      (∀ c ∈ claimed, (groups.foldl Live.claim l).ghosts.get c.1 = some c.2) ∧
      ∀ id, id ∉ claimed.map Prod.fst →
        (groups.foldl Live.claim l).ghosts.get id = l.ghosts.get id := by
  induction groups generalizing l with
  | nil => exact ⟨[], ⟨.refl _, .nil, nofun, nofun⟩, nofun, fun _ _ => rfl⟩
  | cons u groups ih =>
    obtain ⟨claimed, hclaims, hget, hother⟩ := ih (l.claim u)
    rw [List.foldl_cons]
    rcases claim_cases l u with heq | ⟨slot, stale, hgives, hslot, hsame, hperm, heq⟩
    · rw [heq] at hclaims hget hother ⊢
      refine ⟨claimed, ⟨hclaims.once, hclaims.ids, hclaims.unshown, fun c hc => ?_⟩, hget, hother⟩
      obtain ⟨u', hu', hsame⟩ := hclaims.same c hc
      exact ⟨u', List.mem_cons_of_mem _ hu', hsame⟩
    · have hset : ∀ id, (l.claim u).ghosts.get id = if id = u.id then some slot else l.ghosts.get id := by
        rw [heq]
        exact Map.get_set u.id slot
      have hfresh : u.id ∉ claimed.map Prod.fst := by
        intro hmem
        obtain ⟨c, hc, hid⟩ := List.mem_map.1 hmem
        have hnone := hclaims.unshown c hc
        rw [hset, if_pos hid] at hnone
        cases hnone
      have hthis := hother u.id hfresh
      rw [hset, if_pos rfl] at hthis
      refine ⟨(u.id, slot) :: claimed, ⟨?_, ?_, ?_, ?_⟩, ?_, ?_⟩
      · have honce := hclaims.once
        rw [heq] at honce ⊢
        exact hperm.trans (honce.cons slot)
      · exact List.nodup_cons.2 ⟨hfresh, hclaims.ids⟩
      · rintro c (_ | ⟨_, hc⟩)
        · exact hslot
        · have hnone := hclaims.unshown c hc
          rw [hset] at hnone
          split at hnone
          · cases hnone
          · exact hnone
      · rintro c (_ | ⟨_, hc⟩)
        · exact ⟨u, List.mem_cons_self, hgives, hsame⟩
        · obtain ⟨u', hu', hgives', hsame'⟩ := hclaims.same c hc
          refine ⟨u', List.mem_cons_of_mem _ hu', ?_, hsame'⟩
          rw [heq] at hgives'
          exact hgives'
      · rintro c (_ | ⟨_, hc⟩)
        · exact hthis
        · exact hget c hc
      · intro id hid
        rw [List.map_cons, List.mem_cons, not_or] at hid
        rw [hother id hid.2, hset, if_neg hid.1]

/-! ## The second: ghosts whose ID is not given -/

theorem current_partAll (h : s.current p g = some l) {ids : List UInt16} (hids : ids.Nodup)
    (hshown : ∀ id ∈ ids, (l.ghosts.get id).isSome = true) :
    ∃ ghosts, (partAll s p g ids).1.current p g = some { l with ghosts := ghosts } ∧
      (∀ id, ghosts.get id = if id ∈ ids then none else l.ghosts.get id) ∧
      (partAll s p g ids).2 = ids.filterMap l.ghosts.get := by
  induction ids generalizing s l with
  | nil => exact ⟨l.ghosts, h, fun id => rfl, rfl⟩
  | cons id ids ih =>
    obtain ⟨hnot, hids⟩ := List.nodup_cons.1 hids
    obtain ⟨slot, hslot⟩ := Option.isSome_iff_exists.1 (hshown id List.mem_cons_self)
    obtain ⟨hcurrent, hgone⟩ := current_userGone h hslot (goneFields id .disconnected)
    have hdrop : ∀ id' ∈ ids, (l.ghosts.drop id).get id' = l.ghosts.get id' := by
      intro id' hid'
      have hne : id' ≠ id := fun heq => hnot (heq ▸ hid')
      rw [Map.get_drop, if_neg hne]
    obtain ⟨ghosts, hcurrent', hget, hrest⟩ := ih hcurrent hids fun id' hid' => by
      rw [hdrop id' hid']
      exact hshown id' (List.mem_cons_of_mem _ hid')
    refine ⟨ghosts, hcurrent', fun id' => ?_, ?_⟩
    · rw [hget, Map.get_drop]
      by_cases hid' : id' ∈ ids
      · rw [if_pos hid', if_pos (List.mem_cons_of_mem _ hid')]
      · by_cases heq : id' = id
        · rw [if_neg hid', if_pos heq, if_pos (List.mem_cons.2 (.inl heq))]
        · rw [if_neg hid', if_neg heq, if_neg fun hmem => (List.mem_cons.1 hmem).elim heq hid']
    · show (userGone s p g id (goneFields id .disconnected)).2 ++
        (partAll (userGone s p g id (goneFields id .disconnected)).1 p g ids).2 = _
      rw [hgone, hrest, List.filterMap_cons_some hslot, List.singleton_append]
      exact congrArg (slot :: ·) (List.filterMap_congr hdrop)

/-! ## The whole call -/

/-- Whether a snapshot gives an ID, homed behind the link or not. -/
def lists (groups : List UserGroup) (id : UInt16) : Bool := groups.any fun g => g.id == id

/-- The ghost under `id` between the second pass and the third. -/
def Live.spared (l : Live) (groups : List UserGroup) (id : UInt16) : Option Slot :=
  if lists groups id = true then (groups.foldl Live.claim l).ghosts.get id else none

theorem lists_of_names {groups : List UserGroup} {id : UInt16} (h : l.names groups id) : lists groups id = true := by
  obtain ⟨u, hu, hgives⟩ := h
  exact List.any_eq_true.2 ⟨u, hu, beq_iff_eq.2 (gives_iff.1 hgives).1⟩

/-- What the call comes to: its three passes as one. -/
theorem applySnapshot_eq (h : s.current p g = some l) (groups : List (UserGroup × Room))
    (hroom : boundReached ∉ (applySnapshot s p g groups).refused) :
    ∃ live', (applySnapshot s p g groups).state.current p g = some live' ∧ live'.stale = [] ∧
      (∀ id, live'.ghosts.get id =
        groups.foldl (showAt l id) (l.spared (groups.map Prod.fst) id)) ∧
      (applySnapshot s p g groups).parted =
        ((groups.map Prod.fst).foldl Live.claim l).stale ++
          (((groups.map Prod.fst).foldl Live.claim l).ghosts.filter fun kv =>
            !lists (groups.map Prod.fst) kv.1).values := by
  obtain ⟨hclaimed, hunclaimed⟩ := current_claimStale h (groups.map Prod.fst)
  have hunlisted : unlisted (claimStale s p g (groups.map Prod.fst)).1 p g (groups.map Prod.fst) =
      ((groups.map Prod.fst).foldl Live.claim l).ghosts.keys.filter fun id =>
        !lists (groups.map Prod.fst) id := by
    unfold unlisted
    rw [hclaimed]
    rfl
  have hnodup : (((groups.map Prod.fst).foldl Live.claim l).ghosts.keys.filter fun id =>
      !lists (groups.map Prod.fst) id).Nodup := List.Nodup.filter _ (Map.valid _)
  obtain ⟨ghosts, hparted, hget, hgone⟩ := current_partAll hclaimed hnodup fun id hid =>
    Map.mem_keys_iff.1 (List.mem_of_mem_filter hid)
  have hroom' : boundReached ∉ (applyGroups (partAll (claimStale s p g (groups.map Prod.fst)).1 p g
      (((groups.map Prod.fst).foldl Live.claim l).ghosts.keys.filter fun id =>
        !lists (groups.map Prod.fst) id)).1 p g groups).2 := by
    rw [← hunlisted]
    exact hroom
  obtain ⟨ghosts', happlied, hget'⟩ := get_applyGroups hparted groups hroom'
  obtain ⟨_, _, hframe⟩ := claims_frame l (groups.map Prod.fst)
  have hshow : ∀ id, showAt ((groups.map Prod.fst).foldl Live.claim l) id = showAt l id := by
    intro id
    rw [hframe]
    rfl
  refine ⟨{ (groups.map Prod.fst).foldl Live.claim l with stale := [], ghosts := ghosts' },
    ?_, rfl, fun id => ?_, ?_⟩
  · rw [← happlied, ← hunlisted]
    rfl
  · have hbetween : ghosts.get id = l.spared (groups.map Prod.fst) id := by
      rw [hget, Live.spared]
      cases hlists : lists (groups.map Prod.fst) id with
      | true => rw [if_neg (by simp [hlists]), if_pos rfl]
      | false =>
        rw [if_neg Bool.false_ne_true]
        split
        · rfl
        next hnot =>
          by_contra hne
          refine hnot (List.mem_filter.2 ⟨Map.mem_keys_iff.2 (Option.isSome_iff_ne_none.2 hne), ?_⟩)
          rw [hlists]
          rfl
    exact (hget' id).trans (by rw [← hbetween, ← hshow]; rfl)
  · show (claimStale s p g (groups.map Prod.fst)).2 ++
      (partAll (claimStale s p g (groups.map Prod.fst)).1 p g
        (unlisted (claimStale s p g (groups.map Prod.fst)).1 p g (groups.map Prod.fst))).2 = _
    rw [hunclaimed, hunlisted, hgone]
    exact congrArg (_ ++ ·) (Map.filterMap_get_keys _ _)

/-! ## When a snapshot replaces what was shown -/

/-- Each ID under which a ghost was shown is given with a group homed behind the link, or not at
all. -/
def Live.relisted (l : Live) (groups : List UserGroup) : Prop :=
  ∀ id, (l.ghosts.get id).isSome = true → lists groups id = true → l.names groups id

/-- Each ID given with a group homed behind the link has a ghost, shown or held, or the core has a
uid for it. -/
def Live.drawn (l : Live) (groups : List (UserGroup × Room)) : Prop :=
  ∀ id, l.names (groups.map Prod.fst) id →
    (((groups.map Prod.fst).foldl Live.claim l).ghosts.get id).isSome = true ∨
      ∃ gr ∈ groups, l.gives id gr.1 = true ∧ gr.2.draw.isSome = true

section Replaces
variable {live' : Live} {groups : List (UserGroup × Room)} {parted : List Slot}
  {claimed : List (UInt16 × Slot)}

/-- What the three passes leave, as the fields of a snapshot's spec read it. -/
structure Passes (l live' : Live) (groups : List (UserGroup × Room)) (parted : List Slot)
    (claimed : List (UInt16 × Slot)) : Prop where
  settled : live'.stale = []
  get : ∀ id, live'.ghosts.get id = groups.foldl (showAt l id) (l.spared (groups.map Prod.fst) id)
  claims : Claims l (groups.map Prod.fst) claimed ((groups.map Prod.fst).foldl Live.claim l).stale
  taken : ∀ c ∈ claimed, ((groups.map Prod.fst).foldl Live.claim l).ghosts.get c.1 = some c.2
  other : ∀ id, id ∉ claimed.map Prod.fst →
    ((groups.map Prod.fst).foldl Live.claim l).ghosts.get id = l.ghosts.get id
  parted : parted = ((groups.map Prod.fst).foldl Live.claim l).stale ++
    (((groups.map Prod.fst).foldl Live.claim l).ghosts.filter fun kv =>
      !lists (groups.map Prod.fst) kv.1).values

variable (h : Passes l live' groups parted claimed) {id : UInt16}

include h

theorem Passes.names_of_claimed {c : UInt16 × Slot} (hc : c ∈ claimed) :
    l.names (groups.map Prod.fst) c.1 := by
  obtain ⟨u, hu, hgives, -⟩ := h.claims.same c hc
  exact ⟨u, hu, hgives⟩

theorem Passes.unclaimed_of_shown (hshown : (l.ghosts.get id).isSome = true) :
    id ∉ claimed.map Prod.fst := by
  intro hmem
  obtain ⟨c, hc, rfl⟩ := List.mem_map.1 hmem
  rw [h.claims.unshown c hc] at hshown
  cases hshown

theorem Passes.unclaimed_of_unnamed (hnames : ¬ l.names (groups.map Prod.fst) id) :
    id ∉ claimed.map Prod.fst := by
  intro hmem
  obtain ⟨c, hc, rfl⟩ := List.mem_map.1 hmem
  exact hnames (h.names_of_claimed hc)

/-- An ID with no group homed behind the link keeps its ghost, if the list gives the ID at all. -/
theorem Passes.get_unnamed (hnames : ¬ l.names (groups.map Prod.fst) id) :
    live'.ghosts.get id = if lists (groups.map Prod.fst) id = true then l.ghosts.get id else none := by
  have hself : ∀ gr ∈ groups, l.gives id gr.1 = false := by
    intro gr hgr
    rw [Bool.eq_false_iff]
    exact fun hgives => hnames ⟨gr.1, List.mem_map_of_mem hgr, hgives⟩
  rw [h.get, foldl_showAt_self hself, Live.spared, h.other id (h.unclaimed_of_unnamed hnames)]

theorem Passes.isSome_named (hnames : l.names (groups.map Prod.fst) id) :
    (live'.ghosts.get id).isSome = true ↔
      (((groups.map Prod.fst).foldl Live.claim l).ghosts.get id).isSome = true ∨
        ∃ gr ∈ groups, l.gives id gr.1 = true ∧ gr.2.draw.isSome = true := by
  rw [h.get, isSome_foldl_showAt, Live.spared, if_pos (lists_of_names hnames)]

theorem Passes.shown_iff : (∀ id, (live'.ghosts.get id).isSome = true ↔ l.names (groups.map Prod.fst) id) ↔
    l.relisted (groups.map Prod.fst) ∧ l.drawn groups := by
  constructor
  · intro hshown
    refine ⟨fun id hbefore hlists => ?_, fun id hnames => ?_⟩
    · by_contra hnames
      have hget := h.get_unnamed hnames
      rw [if_pos hlists] at hget
      exact hnames ((hshown id).1 (hget ▸ hbefore))
    · exact (h.isSome_named hnames).1 ((hshown id).2 hnames)
  · rintro ⟨hrelisted, hdrawn⟩ id
    refine ⟨fun hafter => ?_, fun hnames => (h.isSome_named hnames).2 (hdrawn id hnames)⟩
    by_contra hnames
    rw [h.get_unnamed hnames] at hafter
    split at hafter
    next hlists => exact hnames (hrelisted id hafter hlists)
    next => cases hafter

/-- An ID given and homed behind the link keeps the ghost it had after the first pass. -/
theorem Passes.get_named (hnames : l.names (groups.map Prod.fst) id) :
    live'.ghosts.get id = groups.foldl (showAt l id)
      (((groups.map Prod.fst).foldl Live.claim l).ghosts.get id) := by
  rw [h.get, Live.spared, if_pos (lists_of_names hnames)]

theorem Passes.kept (hshown : ∀ id, (live'.ghosts.get id).isSome = true ↔ l.names (groups.map Prod.fst) id)
    {slot slot' : Slot} (hbefore : l.ghosts.get id = some slot)
    (hafter : live'.ghosts.get id = some slot') : slot'.uid = slot.uid := by
  have hnames := (hshown id).1 (Option.isSome_of_eq_some hafter)
  have hclaimed := h.unclaimed_of_shown (Option.isSome_of_eq_some hbefore)
  rw [h.get_named hnames, h.other id hclaimed, hbefore] at hafter
  exact uid_foldl_showAt hafter

theorem Passes.kept_claimed {c : UInt16 × Slot} (hc : c ∈ claimed) :
    ∃ slot', live'.ghosts.get c.1 = some slot' ∧ slot'.uid = c.2.uid := by
  have hget := h.get_named (h.names_of_claimed hc)
  rw [h.taken c hc] at hget
  have hsome : (groups.foldl (showAt l c.1) (some c.2)).isSome = true :=
    (isSome_foldl_showAt l c.1 groups (some c.2)).2 (.inl rfl)
  obtain ⟨slot', hslot'⟩ := Option.isSome_iff_exists.1 hsome
  exact ⟨slot', hget.trans hslot', uid_foldl_showAt hslot'⟩

theorem Passes.fresh (hshown : ∀ id, (live'.ghosts.get id).isSome = true ↔ l.names (groups.map Prod.fst) id)
    {slot' : Slot} (hafter : live'.ghosts.get id = some slot') (hbefore : l.ghosts.get id = none)
    (hclaimed : id ∉ claimed.map Prod.fst) : ∃ gr ∈ groups, gr.1.id = id ∧ gr.2.draw = some slot'.uid := by
  have hnames := (hshown id).1 (Option.isSome_of_eq_some hafter)
  rw [h.get_named hnames, h.other id hclaimed, hbefore] at hafter
  exact drawn_foldl_showAt hafter

/-- What the second pass takes is what was shown and no longer is. -/
theorem Passes.perm_parted (hshown : ∀ id, (live'.ghosts.get id).isSome = true ↔ l.names (groups.map Prod.fst) id) :
    parted.Perm (((groups.map Prod.fst).foldl Live.claim l).stale ++
      (l.ghosts.filter fun kv => (live'.ghosts.get kv.1).isNone).values) := by
  rw [h.parted]
  refine List.Perm.append_left _ (Map.perm_values_of_get fun id => ?_)
  rw [Map.get_filter, Map.get_filter]
  by_cases hnames : l.names (groups.map Prod.fst) id
  · have hafter : (live'.ghosts.get id).isNone = false :=
      Option.isNone_eq_false_iff.2 ((hshown id).2 hnames)
    have hlists := lists_of_names hnames
    simp [hafter, hlists]
  · have hafter : (live'.ghosts.get id).isNone = true := by
      rw [← Option.isSome_eq_false_iff, Bool.eq_false_iff]
      exact fun hsome => hnames ((hshown id).1 hsome)
    rw [h.other id (h.unclaimed_of_unnamed hnames)]
    have hget := h.get_unnamed hnames
    rw [Option.isNone_iff_eq_none.1 hafter] at hget
    cases hlists : lists (groups.map Prod.fst) id with
    | false =>
      show Option.filter (fun _ => !lists (groups.map Prod.fst) id) _ =
        Option.filter (fun _ => (live'.ghosts.get id).isNone) _
      rw [hlists, hafter]
      rfl
    | true =>
      rw [hlists, if_pos rfl] at hget
      rw [← hget]
      rfl

theorem Passes.replaced_iff : Replaced l live' groups parted ↔
    l.relisted (groups.map Prod.fst) ∧ l.drawn groups := by
  rw [← h.shown_iff]
  refine ⟨Replaced.shown, fun hshown => ⟨hshown, fun id slot hafter => ?_, h.settled, ?_, ?_⟩⟩
  · exact last_foldl_showAt ((h.get id).symm.trans hafter)
      ((hshown id).1 (Option.isSome_of_eq_some hafter))
  · exact fun id slot slot' => h.kept hshown
  · exact ⟨claimed, _, h.claims, fun c => h.kept_claimed, fun id slot' => h.fresh hshown,
      h.perm_parted hshown⟩

end Replaces

/-- A snapshot applied with no ghost bound reached replaces what the link showed just when each ID
with a ghost of the link's that it gives is given with a group homed behind the link, and the core
has a uid for each user new to it. -/
theorem snapshot_replaces (h : s.current p g = some l) (groups : List (UserGroup × Room))
    (hroom : boundReached ∉ (applySnapshot s p g groups).refused) :
    ∃ live', (applySnapshot s p g groups).state.current p g = some live' ∧
      (Replaced l live' groups (applySnapshot s p g groups).parted ↔
        l.relisted (groups.map Prod.fst) ∧ l.drawn groups) := by
  obtain ⟨live', hcurrent, hsettled, hget, hparted⟩ := applySnapshot_eq h groups hroom
  obtain ⟨claimed, hclaims, htaken, hother⟩ := claims_foldl l (groups.map Prod.fst)
  have hpasses : Passes l live' groups (applySnapshot s p g groups).parted claimed :=
    ⟨hsettled, hget, hclaims, htaken, hother, hparted⟩
  exact ⟨live', hcurrent, hpasses.replaced_iff⟩

/-- A server of the peer's side, and a user homed there. -/
def farServer : ServerGroup := ⟨Bytes.replicate 8 7, "far", "Far", 1, none, []⟩

def farUser (id : UInt16) (home : ServerId) (name : String) : UserGroup :=
  { id := id, home := home, name := name, icon := 1, flags := 0, fields := [] }

/-- A link back after an interruption: one ghost shown under ID 5, one held under none. -/
def backLink : Live :=
  { generation := 1
    peer := some farServer
    stale := [⟨11, farUser 2 farServer.id "bo"⟩]
    ghosts := Map.empty.set 5 ⟨9, farUser 5 farServer.id "al"⟩ }

def backState : State := { links := Map.empty.set "far" backLink, generation := 1 }

/-- Bo is back under ID 7, Al has a new name, and Cy is new. -/
def backGroups : List (UserGroup × Room) :=
  [(farUser 7 farServer.id "bo", ⟨8, 8, 2, none⟩), (farUser 5 farServer.id "ann", ⟨8, 8, 2, none⟩),
    (farUser 8 farServer.id "cy", ⟨8, 8, 2, some 20⟩)]

theorem snapshot_replaces_back : ∃ live', (applySnapshot backState "far" 1 backGroups).state.current "far" 1 =
      some live' ∧
    Replaced backLink live' backGroups (applySnapshot backState "far" 1 backGroups).parted := by
  obtain ⟨live', hcurrent, hiff⟩ := snapshot_replaces (s := backState) (p := "far") (g := 1)
    (l := backLink) rfl backGroups (by decide +kernel)
  refine ⟨live', hcurrent, hiff.2 ⟨fun id hbefore _ => ?_, fun id hnames => ?_⟩⟩
  · have hid : id = 5 := by
      by_contra hne
      have hget : backLink.ghosts.get id = none := by
        show (Map.empty.set 5 _).get id = none
        rw [Map.get_set, if_neg hne, Map.get_empty]
      rw [hget] at hbefore
      cases hbefore
    subst hid
    exact ⟨farUser 5 farServer.id "ann", by simp [backGroups], by decide⟩
  · obtain ⟨u, hu, hgives⟩ := hnames
    have hid := (gives_iff.1 hgives).1
    simp only [backGroups, List.map_cons, List.map_nil, List.mem_cons, List.not_mem_nil,
      or_false] at hu
    rcases hu with rfl | rfl | rfl
    · subst hid
      exact .inl (by decide +kernel)
    · subst hid
      exact .inl (by decide +kernel)
    · subst hid
      exact .inr ⟨(farUser 8 farServer.id "cy", ⟨8, 8, 2, some 20⟩), by simp [backGroups],
        by decide, rfl⟩

/-- A ghost shown under ID 5 stays though the snapshot gives that ID to nobody behind the link. -/
theorem refused_group_keeps_ghost : ∃ (s : State) (p : String) (g : Nat) (l live' : Live)
    (groups : List (UserGroup × Room)), s.current p g = some l ∧
      boundReached ∉ (applySnapshot s p g groups).refused ∧
      (applySnapshot s p g groups).state.current p g = some live' ∧
      ¬ Replaced l live' groups (applySnapshot s p g groups).parted := by
  have hcurrent : ((applySnapshot backState "far" 1
      [(farUser 5 (Bytes.replicate 8 9) "al", ⟨8, 8, 2, none⟩)]).state.current "far" 1).any
        (fun l => (l.ghosts.get 5).isSome) = true := by decide +kernel
  obtain ⟨live', hlive', hshown⟩ := (Option.any_eq_true _ _).1 hcurrent
  refine ⟨backState, "far", 1, backLink, live',
    [(farUser 5 (Bytes.replicate 8 9) "al", ⟨8, 8, 2, none⟩)], rfl, by decide +kernel, hlive', ?_⟩
  intro hreplaced
  obtain ⟨u, hu, hgives⟩ := (hreplaced.shown 5).1 hshown
  rw [List.map_singleton, List.mem_singleton] at hu
  subst hu
  exact absurd hgives (by decide)

end HxdNg.Link
