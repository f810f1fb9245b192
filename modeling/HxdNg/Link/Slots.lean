import HxdNg.Link.Tree

/-!
# Every ghost is in one slot

* `Live.slots`, `Held.slots`, `State.slots` : the ghosts of a link, of what is held, of the hub;
* `Tables.count` : the slots there are for a uid, those on their way to the core with them;
* `Slotted` : as many as the core shows, which is at most one; `Homed` : each behind its own link;
* `slotted_move`, `homed_move` : every move keeps them; `every_ghost_in_one_slot` : over every run.
-/

namespace HxdNg.Link

open Assoc (Map)

def Live.slots (l : Live) : List Slot := l.ghosts.values ++ l.stale

def Held.slots (h : Held) : List Slot := h.ghosts.values

/-- Every slot of the hub, in whichever of a link's tables. -/
def State.slots (s : State) : List Slot :=
  s.links.values.flatMap Live.slots ++ s.held.values.flatMap Held.slots

/-- The slots that name a uid. -/
def named (uid : UInt16) (slots : List Slot) : Nat := slots.countP fun s => s.uid == uid

def Tables.count (T : Tables) (uid : UInt16) : Nat :=
  T.live.total (fun l => named uid l.slots) + T.held.total (fun h => named uid h.slots) +
    named uid T.leaving

section Named
variable {uid : UInt16}

theorem named_append (a b : List Slot) : named uid (a ++ b) = named uid a + named uid b :=
  List.countP_append

@[simp] theorem named_nil : named uid [] = 0 := rfl

theorem named_one (slot : Slot) : named uid [slot] = if slot.uid = uid then 1 else 0 := by
  unfold named
  rw [List.countP_singleton]
  simp

theorem named_slots (l : Live) : named uid l.slots = named uid l.ghosts.values + named uid l.stale :=
  named_append _ _

/-- What a slot put under an ID changes. -/
theorem named_set (uid : UInt16) (m : Map UInt16 Slot) (id : UInt16) (slot : Slot) :
    named uid (m.set id slot).values + (m.get id).elim 0 (fun s => named uid [s]) =
      named uid m.values + named uid [slot] := by
  unfold named
  rw [Map.countP_values, Map.countP_values]
  have hset := Map.total_set (fun s : Slot => if (s.uid == uid) = true then 1 else 0) m id slot
  cases hget : m.get id with
  | none =>
    rw [hget] at hset
    simpa [List.countP_cons] using hset
  | some old =>
    rw [hget] at hset
    simpa [List.countP_cons] using hset

theorem named_drop (uid : UInt16) {m : Map UInt16 Slot} {id : UInt16} {slot : Slot} (h : m.get id = some slot) :
    named uid (m.drop id).values + named uid [slot] = named uid m.values := by
  unfold named
  rw [Map.countP_values, Map.countP_values]
  have hdrop := Map.total_drop (fun s : Slot => if (s.uid == uid) = true then 1 else 0) m id
  rw [h] at hdrop
  simpa [List.countP_cons] using hdrop

/-- A hold or a link, if there is one. -/
theorem named_elim {α : Type} (o : Option α) (f : α → List Slot) :
    named uid (o.elim [] f) = o.elim 0 fun a => named uid (f a) := by
  cases o <;> rfl

/-- Taking out the slot at a place takes out that slot and no other. -/
theorem named_swapRemove (uid : UInt16) (l : List Slot) (slot : Slot) (i : Nat) (h : l[i]? = some slot) :
    named uid (swapRemove l i) + named uid [slot] = named uid l := by
  induction l using List.reverseRecOn with
  | nil => cases h
  | append_singleton l last _ =>
    unfold swapRemove
    rw [List.getLast?_append, List.getLast?_singleton]
    show named uid ((l ++ [last]).set i last).dropLast + _ = _
    rw [named_append]
    obtain ⟨hi, hslot⟩ := List.getElem?_eq_some_iff.1 h
    rw [List.length_append, List.length_singleton] at hi
    by_cases hlt : i < l.length
    · rw [List.getElem_append_left hlt] at hslot
      rw [List.set_append_left i last hlt, List.dropLast_concat]
      have hset : named uid (l.set i last) + named uid [slot] = named uid l + named uid [last] := by
        have hle : (if (slot.uid == uid) = true then 1 else 0) ≤ named uid l := by
          split
          next heq =>
            exact List.countP_pos_iff.2 ⟨slot, hslot ▸ List.getElem_mem hlt, heq⟩
          next => exact Nat.zero_le _
        unfold named at hle ⊢
        rw [List.countP_set hlt, List.countP_singleton, List.countP_singleton, hslot]
        omega
      exact hset
    · have hieq : i = l.length := by omega
      subst hieq
      rw [List.getElem_append_right (le_refl _)] at hslot
      have hslot' : last = slot := by simpa using hslot
      rw [List.set_append_right _ _ (le_refl _), Nat.sub_self, List.set_cons_zero,
        List.dropLast_concat, hslot']

/-- Matching a group against held ghosts moves a slot, and no more. -/
theorem named_claim (uid : UInt16) (l : Live) (u : UserGroup) : named uid (l.claim u).slots = named uid l.slots := by
  unfold Live.claim
  by_cases hc : (!l.knows u.home || (l.ghosts.get u.id).isSome) = true
  · rw [if_pos hc]
  rw [if_neg hc]
  cases hi : l.stale.findIdx? fun slot => slot.same u with
  | none => rfl
  | some i =>
    dsimp only
    cases hslot : l.stale[i]? with
    | none => rfl
    | some slot =>
      have hnone : l.ghosts.get u.id = none := by
        rw [Bool.or_eq_true, not_or, Bool.not_eq_true, Bool.not_eq_true] at hc
        exact Option.isSome_eq_false_iff.1 hc.2 |> Option.isNone_iff_eq_none.1
      have hset := named_set uid l.ghosts u.id slot
      have hout := named_swapRemove uid l.stale slot i hslot
      rw [hnone, Option.elim_none] at hset
      rw [named_slots, named_slots]
      dsimp only
      omega

theorem named_claims (uid : UInt16) (l : Live) (groups : List UserGroup) :
    named uid (groups.foldl Live.claim l).slots = named uid l.slots := by
  induction groups generalizing l with
  | nil => rfl
  | cons u groups ih => exact (ih (l.claim u)).trans (named_claim uid l u)

/-- An interrupted link's slots are kept, or left to be parted; so are those held before. -/
theorem named_kept (uid : UInt16) (l : Live) (held : Map String Held) (p : String) :
    (l.kept.elim held (held.set p)).total (fun h => named uid h.slots) +
        named uid (l.left (held.get p)) =
      held.total (fun h => named uid h.slots) + named uid l.slots := by
  rw [named_slots]
  unfold Live.left
  cases hk : l.kept with
  | none =>
    rw [named_append, Option.isSome_none, if_neg Bool.false_ne_true, Option.elim_none]
    omega
  | some kept =>
    have hghosts : kept.ghosts = l.ghosts := by
      obtain ⟨own, -, hk⟩ := Option.bind_eq_some_iff.1 hk
      obtain ⟨epoch, -, rfl⟩ := Option.map_eq_some_iff.1 hk
      rfl
    have hset := Map.total_set (fun h : Held => named uid h.slots) held p kept
    rw [named_append, Option.isSome_some, if_pos rfl, named_elim, Option.elim_some]
    unfold Held.slots at hset ⊢
    rw [hghosts] at hset
    omega

end Named

/-! ## One slot for each ghost -/

structure Slotted (T : Tables) : Prop where
  one : ∀ uid, T.count uid = T.core.count uid
  nodup : T.core.Nodup
  attached : ∀ uid, T.attached.count uid = T.core.count uid + T.parted.count uid

section Slotted
variable {cfg : Config} {T T' : Tables} {p : String} {l l' : Live}

/-- Slots moved, and the core told nothing. -/
theorem Slotted.moved (h : Slotted T) (hcount : ∀ uid, T'.count uid = T.count uid)
    (hcore : T'.core = T.core) (hattached : T'.attached = T.attached)
    (hparted : T'.parted = T.parted) : Slotted T' where
  one uid := by
    rw [hcount, hcore]
    exact h.one uid
  nodup := by
    rw [hcore]
    exact h.nodup
  attached uid := by
    rw [hattached, hcore, hparted]
    exact h.attached uid

theorem total_live_set (hl : T.live.get p = some l) (l' : Live) (uid : UInt16) :
    (T.live.set p l').total (fun l => named uid l.slots) + named uid l.slots =
      T.live.total (fun l => named uid l.slots) + named uid l'.slots := by
  have hset := Map.total_set (fun l : Live => named uid l.slots) T.live p l'
  rw [hl, Option.elim_some] at hset
  exact hset

theorem total_live_drop (hl : T.live.get p = some l) (uid : UInt16) :
    (T.live.drop p).total (fun l => named uid l.slots) + named uid l.slots =
      T.live.total (fun l => named uid l.slots) := by
  have hdrop := Map.total_drop (fun l : Live => named uid l.slots) T.live p
  rw [hl, Option.elim_some] at hdrop
  exact hdrop

theorem total_held_drop (held : Map String Held) (p : String) (uid : UInt16) :
    (held.drop p).total (fun h => named uid h.slots) +
        named uid ((held.get p).elim [] Held.slots) =
      held.total fun h => named uid h.slots := by
  rw [named_elim]
  exact Map.total_drop _ held p

/-- A change of one link: what it no longer shows is on its way to the core. -/
theorem Slotted.change (h : Slotted T) {gone : List Slot} (hl : T.live.get p = some l)
    (hlive : T'.live = T.live.set p l') (hheld : T'.held = T.held)
    (hleaving : T'.leaving = T.leaving ++ gone)
    (hslots : ∀ uid, named uid l'.slots + named uid gone = named uid l.slots)
    (hcore : T'.core = T.core) (hattached : T'.attached = T.attached)
    (hparted : T'.parted = T.parted) : Slotted T' := by
  refine h.moved (fun uid => ?_) hcore hattached hparted
  have hset := total_live_set hl l' uid
  have hs := hslots uid
  unfold Tables.count
  rw [hlive, hheld, hleaving, named_append]
  omega

/-- A change of one link that shows the same slots. -/
theorem Slotted.same (h : Slotted T) (hl : T.live.get p = some l)
    (hlive : T'.live = T.live.set p l') (hheld : T'.held = T.held)
    (hleaving : T'.leaving = T.leaving) (hslots : ∀ uid, named uid l'.slots = named uid l.slots)
    (hcore : T'.core = T.core) (hattached : T'.attached = T.attached)
    (hparted : T'.parted = T.parted) : Slotted T' :=
  h.change hl hlive hheld (hleaving.trans (List.append_nil _).symm) hslots hcore hattached hparted

theorem slotted_start (h : Slotted T) (p : String) (g : Nat) {unnamed : String → List ServerId} :
    Slotted ⟨T.live.set p (fresh g), ((T.live.get p).bind Live.kept).elim T.held (T.held.set p),
      T.leaving ++ (T.live.get p).elim [] fun l => l.left (T.held.get p), T.core, T.attached, T.parted,
      unnamed⟩ := by
  refine h.moved (fun uid => ?_) rfl rfl rfl
  unfold Tables.count
  dsimp only
  rw [named_append]
  have hset := Map.total_set (fun l : Live => named uid l.slots) T.live p (fresh g)
  have hfresh : named uid (fresh g).slots = 0 := rfl
  cases hl : T.live.get p with
  | none =>
    rw [hl, hfresh, Option.elim_none] at hset
    rw [Option.elim_none]
    show _ + T.held.total _ + (_ + 0) = _
    omega
  | some l =>
    rw [hl, hfresh, Option.elim_some] at hset
    have hkept := named_kept uid l T.held p
    show _ + (l.kept.elim T.held (T.held.set p)).total _ + (_ + named uid (l.left _)) = _
    omega

theorem back_slots (l : Live) (held : Option Held) (epoch : Epoch) (features : UInt32)
    (hbare : l.Bare) (uid : UInt16) :
    named uid (l.back held epoch features).slots = named uid (held.elim [] Held.slots) := by
  rw [named_slots]
  unfold Live.back
  cases held with
  | none =>
    show named uid l.ghosts.values + named uid l.stale = 0
    rw [hbare.ghosts, hbare.stale]
    rfl
  | some h =>
    dsimp only [Option.elim]
    split
    · show named uid h.ghosts.values + named uid l.stale = named uid h.ghosts.values
      rw [hbare.stale]
      rfl
    · show named uid l.ghosts.values + named uid h.ghosts.values = named uid h.ghosts.values
      rw [hbare.ghosts]
      exact Nat.zero_add _

/-- A hold is taken back, or lost. -/
theorem slotted_resume (h : Slotted T) {server : ServerId} (epoch : Epoch) (features : UInt32)
    (hl : T.live.get p = some l) (hbare : l.Bare) {unnamed : String → List ServerId} :
    Slotted ⟨T.live.set p
        (l.back ((T.held.get p).filter fun h => !h.lost server features) epoch features),
      T.held.drop p, T.leaving ++
        ((T.held.get p).filter fun h => h.lost server features).elim [] fun h => h.ghosts.values,
      T.core, T.attached, T.parted, unnamed⟩ := by
  refine h.moved (fun uid => ?_) rfl rfl rfl
  unfold Tables.count
  dsimp only
  rw [named_append]
  have hset := total_live_set hl
    (l.back ((T.held.get p).filter fun h => !h.lost server features) epoch features) uid
  have hdrop := total_held_drop T.held p uid
  rw [back_slots l _ epoch features hbare, named_slots, hbare.ghosts, hbare.stale] at hset
  have hnone : named uid (Map.empty : Map UInt16 Slot).values + named uid [] = 0 := rfl
  rw [hnone] at hset
  have hsplit : named uid (((T.held.get p).filter fun h => !h.lost server features).elim [] Held.slots) +
      named uid (((T.held.get p).filter fun h => h.lost server features).elim [] Held.slots) =
      named uid ((T.held.get p).elim [] Held.slots) := by
    cases T.held.get p with
    | none => rfl
    | some held =>
      cases hlost : held.lost server features <;> simp [Option.filter, hlost]
  have hsame : (((T.held.get p).filter fun h => h.lost server features).elim [] fun h =>
      h.ghosts.values) =
      ((T.held.get p).filter fun h => h.lost server features).elim [] Held.slots := rfl
  rw [hsame]
  omega

theorem slotted_move (h : Slotted T) (hmove : Move cfg T T') : Slotted T' := by
  cases hmove with
  | start p g => exact slotted_start h p g
  | greet group hl hbare hpeer hok => exact h.same hl rfl rfl rfl (fun _ => rfl) rfl rfl rfl
  | resume epoch features hl hbare hpeer hid => exact slotted_resume h epoch features hl hbare
  | settle hl => exact h.same hl rfl rfl rfl (fun _ => rfl) rfl rfl rfl
  | @accept p l own group hl hepoch hpeer hroom hok =>
    refine h.same hl rfl rfl rfl (fun uid => ?_) rfl rfl rfl
    cases own.id == group.id <;> rfl
  | @forget p l id hl =>
    refine h.change hl rfl rfl rfl (fun uid => ?_) rfl rfl rfl
    have hcut := l.ghosts.countP_filter (fun s : Slot => s.uid == uid)
      fun kv => kv.2.group.home == id
    rw [named_slots, named_slots]
    unfold named
    show (l.ghosts.filter fun kv => !(kv.2.group.home == id)).values.countP _ + l.stale.countP _ + _ = _
    omega
  | @applyKnown p l slot u hl hepoch hhome hslot =>
    refine h.same hl rfl rfl rfl (fun uid => ?_) rfl rfl rfl
    have hset := named_set uid l.ghosts u.id ⟨slot.uid, u⟩
    rw [hslot, Option.elim_some, named_one, named_one] at hset
    rw [named_slots, named_slots]
    dsimp only at hset ⊢
    omega
  | @applyNew p l u uid hl hepoch hhome hslot hfresh =>
    refine ⟨fun k => ?_, List.nodup_cons.2 ⟨hfresh, h.nodup⟩, fun k => ?_⟩
    · have hone := h.one k
      have hset := named_set k l.ghosts u.id ⟨uid, u⟩
      have hlive := total_live_set hl { l with ghosts := l.ghosts.set u.id ⟨uid, u⟩ } k
      rw [hslot, Option.elim_none, named_one] at hset
      rw [named_slots, named_slots] at hlive
      unfold Tables.count at hone ⊢
      dsimp only at hlive hset ⊢
      rw [List.count_cons]
      simp only [beq_iff_eq]
      omega
    · have hatt := h.attached k
      dsimp only
      rw [List.count_cons, List.count_cons]
      omega
  | @gone p l id slot hl hslot =>
    refine h.change hl rfl rfl rfl (fun uid => ?_) rfl rfl rfl
    have hdrop := named_drop uid hslot
    rw [named_slots, named_slots]
    dsimp only
    omega
  | @claim p l groups hl hepoch =>
    refine h.change hl rfl rfl rfl (fun uid => ?_) rfl rfl rfl
    have hclaims := named_claims uid l groups
    rw [named_slots] at hclaims ⊢
    exact hclaims
  | @interrupt p l hl =>
    refine h.moved (fun uid => ?_) rfl rfl rfl
    have hdrop := total_live_drop hl uid
    have hkept := named_kept uid l T.held p
    unfold Tables.count
    dsimp only
    rw [named_append]
    omega
  | @ended p l hl =>
    refine h.moved (fun uid => ?_) rfl rfl rfl
    have hdrop := total_live_drop hl uid
    have hheld := total_held_drop T.held p uid
    have hsame : ((T.held.get p).elim [] fun h => h.ghosts.values) =
        (T.held.get p).elim [] Held.slots := rfl
    unfold Tables.count
    dsimp only
    rw [named_append, named_append, named_append, hsame]
    rw [named_slots] at hdrop
    omega
  | @giveUp p held hh =>
    refine h.moved (fun uid => ?_) rfl rfl rfl
    have hheld := total_held_drop T.held p uid
    rw [hh, Option.elim_some] at hheld
    unfold Tables.count
    dsimp only
    rw [named_append]
    show _ + _ + (_ + named uid held.slots) = _
    omega
  | @part i slot hi =>
    have hout : ∀ uid, named uid (T.leaving.eraseIdx i) + named uid [slot] = named uid T.leaving := by
      intro uid
      obtain ⟨hlt, hslot⟩ := List.getElem?_eq_some_iff.1 hi
      have hperm := (List.getElem_cons_eraseIdx_perm hlt).countP_eq fun s => s.uid == uid
      rw [hslot, List.countP_cons] at hperm
      unfold named
      rw [List.countP_singleton]
      exact hperm
    have hin : slot.uid ∈ T.core := by
      have hone := h.one slot.uid
      have hpos := hout slot.uid
      rw [named_one, if_pos rfl] at hpos
      unfold Tables.count at hone
      refine List.count_pos_iff.1 ?_
      omega
    refine ⟨fun uid => ?_, h.nodup.erase _, fun uid => ?_⟩
    · have hone := h.one uid
      have hleft := hout uid
      rw [named_one] at hleft
      unfold Tables.count at hone ⊢
      dsimp only
      rw [List.count_erase]
      have hpos := List.count_pos_iff.2 hin
      simp only [beq_iff_eq]
      by_cases heq : slot.uid = uid
      · rw [if_pos heq] at hleft ⊢
        omega
      · rw [if_neg heq] at hleft ⊢
        omega
    · have hatt := h.attached uid
      dsimp only
      rw [List.count_erase, List.count_cons]
      have hpos := List.count_pos_iff.2 hin
      simp only [beq_iff_eq]
      by_cases heq : slot.uid = uid
      · rw [if_pos heq]
        subst heq
        omega
      · rw [if_neg heq]
        omega

theorem slotted_run (cfg : Setup) (peers : List PeerEntry) (ops : List Op) :
    Slotted (run cfg peers ops).tables :=
  tables_run cfg peers ops ⟨fun _ => rfl, List.nodup_nil, fun _ => rfl⟩ fun _ _ _ h hmove =>
    slotted_move h hmove

end Slotted

/-! ## Each behind its own link -/

structure Homed (T : Tables) : Prop where
  live : ∀ n l, T.live.get n = some l → ∀ id slot, l.ghosts.get id = some slot →
    l.shows slot.group.home
  held : ∀ n h, T.held.get n = some h → ∀ id slot, h.ghosts.get id = some slot →
    h.shows slot.group.home

section Homed
variable {cfg : Config} {T T' : Tables} {p : String} {l l' : Live}

theorem shows_of_knows {id : ServerId} (htable : Table l.peer l.servers) (h : l.knows id = true) :
    l.shows id := by
  obtain ⟨g, hg, hid⟩ := List.any_eq_true.1 h
  rw [beq_iff_eq] at hid
  rcases mem_live_known.1 hg with hg | ⟨k, hg⟩
  · exact .inl ⟨g, hg, hid⟩
  · refine .inr ?_
    rw [← hid, htable.keyed k g hg, hg]
    rfl

theorem Homed.change (h : Homed T) (hlive : T'.live = T.live.set p l') (hheld : T'.held = T.held)
    (hhomed : ∀ id slot, l'.ghosts.get id = some slot → l'.shows slot.group.home) : Homed T' where
  live n l hl := by
    rw [hlive] at hl
    rcases Map.get_set_cases hl with ⟨-, rfl⟩ | ⟨-, hl⟩
    · exact hhomed
    · exact h.live n l hl
  held := by
    rw [hheld]
    exact h.held

/-- What is kept of a link shows what the link did. -/
theorem homed_kept (h : Homed T) (hl : T.live.get p = some l) (n : String) (held : Held)
    (hh : (l.kept.elim T.held (T.held.set p)).get n = some held) (id : UInt16) (slot : Slot)
    (hslot : held.ghosts.get id = some slot) : held.shows slot.group.home := by
  cases hk : l.kept with
  | none =>
    rw [hk] at hh
    exact h.held n held hh id slot hslot
  | some kept =>
    rw [hk] at hh
    rcases Map.get_set_cases hh with ⟨-, rfl⟩ | ⟨-, hh⟩
    · obtain ⟨own, hown, hk⟩ := Option.bind_eq_some_iff.1 hk
      obtain ⟨epoch, -, rfl⟩ := Option.map_eq_some_iff.1 hk
      rcases h.live p l hl id slot hslot with ⟨q, hq, hid⟩ | hs
      · rw [hown] at hq
        obtain rfl := Option.some.inj hq
        exact .inl hid
      · exact .inr hs
    · exact h.held n held hh id slot hslot

theorem homed_claim (hall : ∀ id slot, l.ghosts.get id = some slot → l.shows slot.group.home)
    (htable : Table l.peer l.servers) (u : UserGroup) (id : UInt16) (slot : Slot)
    (hslot : (l.claim u).ghosts.get id = some slot) : (l.claim u).shows slot.group.home := by
  unfold Live.claim at hslot ⊢
  by_cases hc : (!l.knows u.home || (l.ghosts.get u.id).isSome) = true
  · rw [if_pos hc] at hslot ⊢
    exact hall id slot hslot
  rw [if_neg hc] at hslot ⊢
  rw [Bool.or_eq_true, not_or, Bool.not_eq_true, Bool.not_eq_false'] at hc
  cases hi : l.stale.findIdx? fun slot => slot.same u with
  | none =>
    rw [hi] at hslot
    exact hall id slot hslot
  | some i =>
    rw [hi] at hslot
    dsimp only at hslot ⊢
    cases hs : l.stale[i]? with
    | none =>
      rw [hs] at hslot
      exact hall id slot hslot
    | some found =>
      rw [hs] at hslot
      rcases Map.get_set_cases hslot with ⟨-, rfl⟩ | ⟨-, hold⟩
      · obtain ⟨hlt, hsame, -⟩ := List.findIdx?_eq_some_iff_getElem.1 hi
        obtain ⟨hlt', hget⟩ := List.getElem?_eq_some_iff.1 hs
        rw [hget] at hsame
        unfold Slot.same at hsame
        rw [Bool.and_eq_true, Bool.and_eq_true, beq_iff_eq] at hsame
        rw [hsame.1.1]
        exact shows_of_knows htable hc.1
      · exact hall id slot hold

theorem homed_claims (groups : List UserGroup)
    (hall : ∀ id slot, l.ghosts.get id = some slot → l.shows slot.group.home)
    (htable : Table l.peer l.servers) (id : UInt16) (slot : Slot)
    (hslot : (groups.foldl Live.claim l).ghosts.get id = some slot) :
    (groups.foldl Live.claim l).shows slot.group.home := by
  induction groups generalizing l with
  | nil => exact hall id slot hslot
  | cons u groups ih =>
    refine ih (homed_claim hall htable u) ?_ hslot
    obtain ⟨ghosts, stale, heq⟩ := claim_frame l u
    rw [heq]
    exact htable

theorem shows_admitted {own group : ServerGroup} (hpeer : l.peer = some own) {id : ServerId}
    (hs : l.shows id) : (l.admitted group (own.id == group.id)).shows id := by
  by_cases hid : own.id = group.id
  · rw [Live.admitted, if_pos (beq_iff_eq.2 hid)]
    rcases hs with ⟨q, hq, rfl⟩ | hs
    · rw [hpeer] at hq
      obtain rfl := Option.some.inj hq
      exact .inl ⟨group, rfl, hid.symm⟩
    · exact .inr hs
  · rw [Live.admitted, if_neg fun hb => hid (beq_iff_eq.1 hb)]
    rcases hs with hs | hs
    · exact .inl hs
    · refine .inr ?_
      show ((l.servers.set group.id group).get id).isSome
      rw [Map.get_set]
      split
      · rfl
      · exact hs

theorem homed_resume (h : Homed T) {own : ServerGroup} {server : ServerId} (epoch : Epoch)
    (features : UInt32) (hbare : l.Bare) (hpeer : l.peer = some own) (hid : own.id = server)
    (id : UInt16) (slot : Slot)
    (hslot : (l.back ((T.held.get p).filter fun h => !h.lost server features) epoch
      features).ghosts.get id = some slot) :
    (l.back ((T.held.get p).filter fun h => !h.lost server features) epoch features).shows
      slot.group.home := by
  have hempty : l.ghosts.get id ≠ some slot := by
    rw [hbare.ghosts]
    nofun
  cases hf : (T.held.get p).filter fun h => !h.lost server features with
  | none =>
    rw [hf] at hslot
    exact absurd hslot hempty
  | some held =>
    obtain ⟨hget, hlost⟩ := Option.filter_eq_some_iff.1 hf
    rw [hf] at hslot
    obtain ⟨-, -, -, hpeer'⟩ := back_frame l (some held) epoch features
    have hghosts : held.ghosts.get id = some slot := by
      unfold Live.back at hslot
      dsimp only [Option.elim] at hslot
      split at hslot
      · exact hslot
      · exact absurd hslot hempty
    rcases h.held p held hget id slot hghosts with hs | hs
    · refine .inl ⟨own, hpeer'.trans hpeer, ?_⟩
      rw [← hs, hid]
      exact (not_lost_id hlost).symm
    · refine .inr ?_
      rw [servers_back, hbare.servers, Map.extend_empty]
      exact hs

theorem homed_move (h : Homed T) (htree : Tree cfg T) (hmove : Move cfg T T') : Homed T' := by
  cases hmove with
  | start p g =>
    refine ⟨fun n l hl => ?_, fun n held hh => ?_⟩
    · rcases Map.get_set_cases hl with ⟨-, rfl⟩ | ⟨-, hl⟩
      · exact fun id slot hslot => nomatch hslot
      · exact h.live n l hl
    · cases hl : T.live.get p with
      | none =>
        rw [hl] at hh
        exact h.held n held hh
      | some l =>
        rw [hl] at hh
        exact homed_kept h hl n held hh
  | @greet p l group hl hbare hpeer hok =>
    refine h.change rfl rfl fun id slot hslot => ?_
    have hghosts : l.ghosts.get id = some slot := hslot
    rw [hbare.ghosts] at hghosts
    cases hghosts
  | resume epoch features hl hbare hpeer hid =>
    refine ⟨fun n l hl => ?_, fun n held hh => h.held n held (Map.get_drop_some hh).2⟩
    rcases Map.get_set_cases hl with ⟨-, rfl⟩ | ⟨-, hl⟩
    · exact homed_resume h epoch features hbare hpeer hid
    · exact h.live n l hl
  | @settle p l hl =>
    have hold := h.live p l hl
    exact h.change rfl rfl hold
  | @accept p l own group hl hepoch hpeer hroom hok =>
    refine h.change rfl rfl fun id slot hslot => shows_admitted hpeer (h.live p l hl id slot ?_)
    unfold Live.admitted at hslot
    dsimp only at hslot
    split at hslot <;> exact hslot
  | @forget p l k hl =>
    refine h.change rfl rfl fun id slot hslot => ?_
    have hslot' : (l.ghosts.filter fun kv => kv.2.group.home != k).get id = some slot := hslot
    rw [Map.get_filter, Option.filter_eq_some_iff] at hslot'
    obtain ⟨hslot', hhome⟩ := hslot'
    refine (h.live p l hl id slot hslot').imp_right fun hs => ?_
    show ((l.servers.drop k).get slot.group.home).isSome
    rw [Map.get_drop, if_neg (bne_iff_ne.1 hhome)]
    exact hs
  | @applyKnown p l old u hl hepoch hhome hslot =>
    refine h.change rfl rfl fun id slot hslot' => ?_
    rcases Map.get_set_cases hslot' with ⟨-, rfl⟩ | ⟨-, hslot'⟩
    · exact shows_of_knows (htree.live p l hl) hhome
    · exact h.live p l hl id slot hslot'
  | @applyNew p l u uid hl hepoch hhome hslot hfresh =>
    refine h.change rfl rfl fun id slot hslot' => ?_
    rcases Map.get_set_cases hslot' with ⟨-, rfl⟩ | ⟨-, hslot'⟩
    · exact shows_of_knows (htree.live p l hl) hhome
    · exact h.live p l hl id slot hslot'
  | @gone p l id slot hl hslot =>
    exact h.change rfl rfl fun k s hs => h.live p l hl k s (Map.get_drop_some hs).2
  | @claim p l groups hl hepoch =>
    exact h.change rfl rfl (homed_claims groups (h.live p l hl) (htree.live p l hl))
  | interrupt hl =>
    exact ⟨fun n l hl => h.live n l (Map.get_drop_some hl).2, homed_kept h hl⟩
  | ended hl =>
    exact ⟨fun n l hl => h.live n l (Map.get_drop_some hl).2,
      fun n held hh => h.held n held (Map.get_drop_some hh).2⟩
  | giveUp hh => exact ⟨h.live, fun n held hh => h.held n held (Map.get_drop_some hh).2⟩
  | part hi => exact ⟨h.live, h.held⟩

theorem homed_run (cfg : Setup) (peers : List PeerEntry) (ops : List Op) :
    Homed (run cfg peers ops).tables := by
  refine tables_run cfg peers ops ⟨fun n l hl => ?_, fun n h hh => ?_⟩ fun _ _ htree h hmove =>
    homed_move h htree hmove
  · cases hl
  · cases hh

end Homed

/-! ## Over every run -/

theorem named_flatMap {α β : Type} (f : β → List Slot) (m : Map α β) (uid : UInt16) :
    named uid (m.values.flatMap f) = m.total fun v => named uid (f v) := by
  unfold named Map.total Map.values
  rw [List.countP_flatMap, List.map_map]
  rfl

/-- The tables count what the hub and its world hold. -/
theorem count_tables (w : World) (uid : UInt16) :
    w.tables.count uid = named uid (w.state.slots ++ w.leaving) := by
  rw [named_append]
  unfold State.slots
  rw [named_append, named_flatMap, named_flatMap]
  have hview : w.state.view.total (fun l => named uid l.slots) =
      w.state.links.total fun l => named uid l.slots := Map.total_mapVals _ _ _ fun _ _ => rfl
  show w.state.view.total (fun l => named uid l.slots) + _ + _ = _
  rw [hview]
  rfl

/-- In every state a hub reaches each ghost the core shows is in exactly one slot, of a live link, of
what is held, or on its way to the core; every slot names a ghost that the core shows; every ghost
ever attached has been parted once or is shown still; and each slot of a live link is homed on its
peer or a server behind it. -/
theorem every_ghost_in_one_slot (cfg : Setup) (peers : List PeerEntry) (ops : List Op) :
    let w := run cfg peers ops
    w.core.Nodup ∧
      (∀ uid ∈ w.core, named uid (w.state.slots ++ w.leaving) = 1) ∧
      (∀ slot ∈ w.state.slots ++ w.leaving, slot.uid ∈ w.core) ∧
      (∀ uid, w.attached.count uid = w.parted.count uid + if uid ∈ w.core then 1 else 0) ∧
      ∀ n l, w.state.links.get n = some l → ∀ id slot, l.ghosts.get id = some slot →
        l.shows slot.group.home := by
  have h := slotted_run cfg peers ops
  have hone : ∀ uid, named uid ((run cfg peers ops).state.slots ++ (run cfg peers ops).leaving) =
      (run cfg peers ops).core.count uid := fun uid => (count_tables _ uid).symm.trans (h.one uid)
  refine ⟨h.nodup, fun uid huid => ?_, fun slot hslot => ?_, fun uid => ?_, fun n l hl => ?_⟩
  · rw [hone]
    exact List.count_eq_one_of_mem h.nodup huid
  · refine List.count_pos_iff.1 ?_
    rw [← hone]
    exact List.countP_pos_iff.2 ⟨slot, hslot, beq_self_eq_true _⟩
  · have hatt := h.attached uid
    rw [Nat.add_comm] at hatt
    refine hatt.trans (congrArg _ ?_)
    show (run cfg peers ops).core.count uid = _
    split
    next hmem => exact List.count_eq_one_of_mem h.nodup hmem
    next hmem => exact List.count_eq_zero_of_not_mem hmem
  · exact (homed_run cfg peers ops).live n l.learned (live_of_links hl)

end HxdNg.Link
