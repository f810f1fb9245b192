import HxdNg.Reaction.Live

/-!
# What each change of the desk leaves owed

* `Live.lineOwed` : what a room owes of a line; one `lineOwed_*` lemma for each operation of `Live`;
* `Live.Wf` : a room's ring holds its live lines, each once, and no other line owes anything;
* `Change`, `Live.note` : the changes a line's room hears of, and `owedBy`, the fold they come to;
* `Live.Wf.notes` : a list of changes leaves each live line owing the fold of its own.
-/

namespace HxdNg.Reaction

open Relationships History Assoc

namespace Live

/-- What `room` owes of `line`. -/
def lineOwed (l : Live) (room : Nat) (line : LineId) : Option Owe :=
  (lookup l.owed room).bind fun o => lookup o.lines line

/-- A room's live lines, oldest first. -/
def ring (l : Live) (room : Nat) : List LineId := (lookup l.recent room).getD []

structure Valid (l : Live) : Prop where
  recent : Assoc.Valid l.recent
  roomOf : Assoc.Valid l.roomOf
  owed : Assoc.Valid l.owed
  lines : ∀ room o, lookup l.owed room = some o → Assoc.Valid o.lines

section Alter
variable {l : Live} (h : l.Valid) (room : Nat) {f : Option Owed → Option Owed}
include h

theorem lineOwed_alter (r : Nat) (x : LineId) :
    lineOwed { l with owed := alter room f l.owed } r x =
      if r = room then (f (lookup l.owed room)).bind fun o => lookup o.lines x
      else l.lineOwed r x := by
  unfold lineOwed
  rw [lookup_alter h.owed]
  split <;> rfl

theorem valid_alter (hf : ∀ o, f (lookup l.owed room) = some o → Assoc.Valid o.lines) :
    Valid { l with owed := alter room f l.owed } := by
  refine ⟨h.recent, h.roomOf, Assoc.valid_alter h.owed _ _, fun r o ho => ?_⟩
  rw [lookup_alter h.owed] at ho
  by_cases hr : r = room
  · exact hf o (by simpa only [if_pos hr] using ho)
  · exact h.lines r o (by simpa only [if_neg hr] using ho)

/-- The lines of what a room owes, or of what it begins to owe. -/
theorem valid_entry (now : Instant) : Assoc.Valid (l.entry now (lookup l.owed room)).lines := by
  unfold entry
  cases ho : lookup l.owed room with
  | none => exact List.nodup_nil
  | some o => exact h.lines room o ho

omit h in
theorem lookup_entry (now : Instant) (x : LineId) :
    lookup (l.entry now (lookup l.owed room)).lines x = l.lineOwed room x := by
  unfold entry lineOwed
  cases lookup l.owed room <;> rfl

end Alter

section Operations
variable {l : Live} (h : l.Valid)
include h

theorem valid_owe (line : LineId) (what : Owe) (now : Instant) : (l.owe line what now).Valid := by
  unfold owe
  split
  · exact h
  · refine valid_alter h _ fun o ho => ?_
    cases ho
    exact Assoc.valid_alter (valid_entry h _ now) _ _

theorem lineOwed_owe (line : LineId) (what : Owe) (now : Instant) (r : Nat) (x : LineId) :
    (l.owe line what now).lineOwed r x =
      if lookup l.roomOf line = some r ∧ x = line
      then some (Owe.then ((l.lineOwed r x).getD what) what) else l.lineOwed r x := by
  unfold owe
  split
  · rename_i hl
    rw [if_neg (by rw [hl]; simp)]
  · rename_i room hl
    rw [lineOwed_alter h, hl]
    by_cases hr : r = room
    · subst hr
      rw [if_pos rfl]
      show lookup (alter line _ (l.entry now (lookup l.owed r)).lines) x = _
      rw [lookup_alter (valid_entry h r now), lookup_entry, lookup_entry]
      by_cases hx : x = line
      · subst hx
        rw [if_pos rfl, if_pos ⟨rfl, rfl⟩]
      · rw [if_neg hx, if_neg fun hc => hx hc.2]
    · rw [if_neg hr, if_neg fun hc => hr (Option.some.inj hc.1).symm]

theorem valid_unowe (line : LineId) : (l.unowe line).Valid := by
  unfold unowe
  split
  · exact h
  · refine valid_alter h _ fun o ho => ?_
    obtain ⟨o₀, ho₀, rfl⟩ := Option.map_eq_some_iff.mp ho
    exact Assoc.valid_alter (h.lines _ o₀ ho₀) _ _

theorem lineOwed_unowe (line : LineId) (r : Nat) (x : LineId) :
    (l.unowe line).lineOwed r x =
      if lookup l.roomOf line = some r ∧ x = line
      then if l.lineOwed r x = some .clear then some .clearedGone else none
      else l.lineOwed r x := by
  unfold unowe
  split
  · rename_i hl
    rw [if_neg (by rw [hl]; simp)]
  · rename_i room hl
    rw [lineOwed_alter h, hl]
    by_cases hr : r = room
    · subst hr
      rw [if_pos rfl]
      unfold lineOwed
      cases ho : lookup l.owed r with
      | none => simp
      | some o =>
        show lookup (alter line _ o.lines) x = _
        rw [lookup_alter (h.lines r o ho), Option.bind_some]
        by_cases hx : x = line
        · subst hx
          rw [if_pos rfl, if_pos ⟨rfl, rfl⟩]
          rcases lookup o.lines x with _ | (_ | _ | _ | _) <;> rfl
        · rw [if_neg hx, if_neg fun hc => hx hc.2]
    · rw [if_neg hr, if_neg fun hc => hr (Option.some.inj hc.1).symm]

theorem valid_letGo (room : Nat) (old : LineId) : (l.letGo room old).Valid := by
  have hv := valid_alter h room (f := Option.map fun o => { o with lines := erase old o.lines })
    fun o ho => by
      obtain ⟨o₀, ho₀, rfl⟩ := Option.map_eq_some_iff.mp ho
      exact Assoc.valid_alter (h.lines _ o₀ ho₀) _ _
  exact ⟨hv.recent, Assoc.valid_alter h.roomOf _ _, hv.owed, hv.lines⟩

theorem lineOwed_letGo (room : Nat) (old : LineId) (r : Nat) (x : LineId) :
    (l.letGo room old).lineOwed r x = if r = room ∧ x = old then none else l.lineOwed r x := by
  have heq := lineOwed_alter h room (f := Option.map fun o => { o with lines := erase old o.lines })
    r x
  refine Eq.trans heq ?_
  by_cases hr : r = room
  · subst hr
    rw [if_pos rfl]
    unfold lineOwed
    cases ho : lookup l.owed r with
    | none => simp
    | some o =>
      show lookup (erase old o.lines) x = _
      rw [lookup_erase (h.lines r o ho)]
      by_cases hx : x = old
      · rw [if_pos hx, if_pos ⟨rfl, hx⟩]
      · rw [if_neg hx, if_neg fun hc => hx hc.2]
        rfl
  · rw [if_neg hr, if_neg fun hc => hr hc.1]

theorem lookup_letGo (room : Nat) (old x : LineId) :
    lookup (l.letGo room old).roomOf x = if x = old then none else lookup l.roomOf x :=
  lookup_erase h.roomOf old x

theorem valid_sent (room : Nat) (now : Instant) : (l.sent room now).Valid := by
  refine valid_alter h _ fun o ho => ?_
  obtain ⟨o₀, ho₀, rfl⟩ := Option.map_eq_some_iff.mp ho
  exact h.lines _ o₀ ho₀

theorem lineOwed_sent (room : Nat) (now : Instant) (r : Nat) (x : LineId) :
    (l.sent room now).lineOwed r x = l.lineOwed r x := by
  refine (lineOwed_alter h room r x).trans ?_
  by_cases hr : r = room
  · subst hr
    rw [if_pos rfl]
    unfold lineOwed
    cases lookup l.owed r <;> rfl
  · rw [if_neg hr]

theorem valid_takeOwed (room : Nat) : Valid { l with owed := erase room l.owed } :=
  valid_alter h room fun o ho => by cases ho

theorem lineOwed_takeOwed (room r : Nat) (x : LineId) :
    lineOwed { l with owed := erase room l.owed } r x =
      if r = room then none else l.lineOwed r x :=
  lineOwed_alter h room (f := fun _ => none) r x

/-- What is owed again goes behind what is owed since. -/
theorem restore_spec {lines : List (LineId × Owe)} (hlines : Assoc.Valid lines) (room : Nat)
    (now : Instant) :
    (l.restore room lines now).Valid ∧
      ∀ r x, (l.restore room lines now).lineOwed r x =
        match (lookup lines x).filter fun _ => r = room ∧ l.isLive x with
        | none => l.lineOwed r x
        | some what => some (Owe.then what ((l.lineOwed r x).getD what)) := by
  have hfold : ∀ (ps base : List (LineId × Owe)), Assoc.Valid ps → Assoc.Valid base →
      let ls := ps.foldl (fun ls p =>
        alter p.1 (fun at_ => some (Owe.then p.2 (at_.getD p.2))) ls) base
      Assoc.Valid ls ∧ ∀ x, lookup ls x =
        match lookup ps x with
        | none => lookup base x
        | some what => some (Owe.then what ((lookup base x).getD what)) := by
    intro ps
    induction ps with
    | nil => exact fun base _ hb => ⟨hb, fun x => rfl⟩
    | cons p ps ih =>
      intro base hps hb
      obtain ⟨hne, hps⟩ := List.nodup_cons.mp hps
      obtain ⟨hv, hl⟩ := ih (alter p.1 (fun at_ => some (Owe.then p.2 (at_.getD p.2))) base) hps
        (Assoc.valid_alter hb _ _)
      refine ⟨hv, fun x => (hl x).trans ?_⟩
      obtain ⟨id, what⟩ := p
      rw [lookup_alter hb, lookup_cons]
      by_cases hx : x = id
      · subst hx
        rw [if_pos rfl, if_pos rfl, lookup_eq_none.mpr hne]
      · rw [if_neg hx, if_neg (Ne.symm hx)]
  have hfilter := Assoc.valid_filter hlines fun p => l.isLive p.1
  have hlook : ∀ x, lookup (lines.filter fun p => l.isLive p.1) x =
      (lookup lines x).filter fun _ => l.isLive x := lookup_filter hlines _
  unfold restore
  by_cases hempty : (lines.filter fun p => l.isLive p.1).isEmpty = true
  · rw [if_pos hempty]
    refine ⟨h, fun r x => ?_⟩
    have hnone := hlook x
    rw [List.isEmpty_iff.mp hempty, lookup_nil] at hnone
    cases hl : lookup lines x with
    | none => rfl
    | some what =>
      rw [hl] at hnone
      cases hlive : l.isLive x with
      | false => simp
      | true =>
        rw [hlive] at hnone
        cases hnone
  · rw [if_neg hempty]
    have hent := hfold _ (l.entry now (lookup l.owed room)).lines hfilter (valid_entry h room now)
    refine ⟨valid_alter h room fun o ho => ?_, fun r x => ?_⟩
    · cases ho
      exact hent.1
    · refine (lineOwed_alter h room r x).trans ?_
      by_cases hr : r = room
      · subst hr
        rw [if_pos rfl]
        refine (hent.2 x).trans ?_
        have hsame : (fun _ : Owe => decide (r = r ∧ l.isLive x = true)) = fun _ => l.isLive x := by
          simp
        rw [hlook, lookup_entry, hsame]
      · have hnone : (lookup lines x).filter (fun _ => decide (r = room ∧ l.isLive x = true)) =
            none := by
          simp [hr]
        rw [if_neg hr, hnone]

end Operations

/-- What is left of a run of lines the window has moved past. -/
theorem letGo_all {l : Live} (h : l.Valid) (room : Nat) (olds : List LineId) :
    let l' := olds.foldl (fun l old => l.letGo room old) l
    l'.Valid ∧ l'.recent = l.recent ∧ l'.window = l.window ∧ l'.batch = l.batch ∧
      (∀ x, lookup l'.roomOf x = if x ∈ olds then none else lookup l.roomOf x) ∧
      ∀ r x, l'.lineOwed r x = if r = room ∧ x ∈ olds then none else l.lineOwed r x := by
  induction olds generalizing l with
  | nil => exact ⟨h, rfl, rfl, rfl, fun x => rfl, fun r x => by simp⟩
  | cons old olds ih =>
    obtain ⟨hv, hrec, hwin, hbat, hroom, howed⟩ := ih (valid_letGo h room old)
    refine ⟨hv, hrec, hwin, hbat, fun x => ?_, fun r x => ?_⟩
    · refine (hroom x).trans ?_
      rw [lookup_letGo h]
      by_cases hx : x = old <;> by_cases hxs : x ∈ olds <;> simp [hx, hxs]
    · refine (howed r x).trans ?_
      rw [lineOwed_letGo h]
      by_cases hr : r = room <;> by_cases hx : x = old <;> by_cases hxs : x ∈ olds <;>
        simp [hr, hx, hxs]

/-! ## Rings -/

/-- A room's ring holds its live lines, each once, and no other line owes anything. -/
structure Wf (l : Live) : Prop where
  valid : l.Valid
  nodup : ∀ room, (l.ring room).Nodup
  live : ∀ room id, id ∈ l.ring room ↔ lookup l.roomOf id = some room
  owing : ∀ room id, l.lineOwed room id ≠ none → lookup l.roomOf id = some room

section Wf
variable {l : Live} (h : l.Wf)
include h

/-- An operation that changes only what live lines owe. -/
theorem Wf.of_owed {l' : Live} (hv : l'.Valid) (hrec : l'.recent = l.recent)
    (hroom : l'.roomOf = l.roomOf)
    (howed : ∀ r x, lookup l.roomOf x ≠ some r → l'.lineOwed r x = none ∨
      l'.lineOwed r x = l.lineOwed r x) : l'.Wf := by
  have hring : ∀ room, l'.ring room = l.ring room := fun room => by unfold ring; rw [hrec]
  refine ⟨hv, fun room => by rw [hring]; exact h.nodup room,
    fun room id => by rw [hring, hroom]; exact h.live room id, fun room id ho => ?_⟩
  rw [hroom]
  by_contra hne
  rcases howed room id hne with hnone | hsame
  · exact ho hnone
  · exact hne (h.owing room id (hsame ▸ ho))

/-- A line new to the desk, relayed: it is live and owes nothing, if the window holds any line; and
the lines the window has moved past are live no longer. -/
theorem Wf.relayed {room : Nat} {id : LineId} (hid : lookup l.roomOf id = none) :
    (l.relayed room id).Wf ∧
      (∀ x r, lookup (l.relayed room id).roomOf x = some r →
        (x = id ∧ r = room) ∨ lookup l.roomOf x = some r) ∧
      ∀ x r, lookup (l.relayed room id).roomOf x = some r →
        (l.relayed room id).lineOwed r x = l.lineOwed r x := by
  unfold Live.relayed
  by_cases hw : l.window = 0
  · rw [if_pos hw]
    exact ⟨h, fun x r hx => .inr hx, fun x r _ => rfl⟩
  rw [if_neg hw]
  set ring := (lookup l.recent room).getD [] ++ [id] with hring
  set older := ring.length - l.window
  set l₀ : Live := { l with
    recent := insert room (ring.drop older) l.recent, roomOf := insert id room l.roomOf } with hl₀
  have hv₀ : l₀.Valid := ⟨Assoc.valid_alter h.valid.recent _ _,
    Assoc.valid_alter h.valid.roomOf _ _, h.valid.owed, h.valid.lines⟩
  obtain ⟨hv, hrec, -, -, hroom, howed⟩ := letGo_all hv₀ room (ring.take older)
  set l' := (ring.take older).foldl (fun l old => l.letGo room old) l₀
  have hroom₀ : ∀ x, lookup l₀.roomOf x = if x = id then some room else lookup l.roomOf x :=
    fun x => lookup_insert h.valid.roomOf id room x
  have hnotin : id ∉ l.ring room := fun hin => by
    rw [h.live room id, hid] at hin
    cases hin
  have hnodup : ring.Nodup := by
    rw [hring]
    refine (h.nodup room).append (List.nodup_singleton id) fun x hx hx' => ?_
    rw [List.mem_singleton.mp hx'] at hx
    exact hnotin hx
  -- The ring is what is let go and what is kept, and shares no line.
  have hsplit : ∀ x, x ∈ ring.take older → x ∉ ring.drop older :=
    fun x hx hx' => List.disjoint_take_drop hnodup le_rfl hx hx'
  have hmem : ∀ x, x ∈ ring ↔ lookup l₀.roomOf x = some room := fun x => by
    rw [hroom₀, hring, List.mem_append, List.mem_singleton]
    by_cases hx : x = id
    · simp [hx]
    · rw [if_neg hx]
      exact ⟨fun hc => (h.live room x).mp (hc.resolve_right hx), fun hc => .inl
        ((h.live room x).mpr hc)⟩
  have hring' : ∀ r, l'.ring r = if r = room then ring.drop older else l.ring r := fun r => by
    unfold Live.ring
    rw [hrec, hl₀, lookup_insert h.valid.recent]
    split <;> rfl
  have hlive : ∀ r x, x ∈ l'.ring r ↔ lookup l'.roomOf x = some r := by
    intro r x
    rw [hring', hroom]
    by_cases hr : r = room
    · subst hr
      rw [if_pos rfl]
      by_cases hx : x ∈ ring.take older
      · rw [if_pos hx]
        exact ⟨fun hc => absurd hc (hsplit x hx), fun hc => by cases hc⟩
      · rw [if_neg hx, ← hmem]
        refine ⟨List.mem_of_mem_drop, fun hc => ?_⟩
        rw [← List.take_append_drop older ring, List.mem_append] at hc
        exact hc.resolve_left hx
    · rw [if_neg hr, hroom₀]
      by_cases hx : x ∈ ring.take older
      · rw [if_pos hx]
        refine ⟨fun hc => ?_, fun hc => by cases hc⟩
        have hin := (hmem x).mp (List.mem_of_mem_take hx)
        rw [hroom₀] at hin
        have hother := (h.live r x).mp hc
        by_cases hxid : x = id
        · rw [hxid, hid] at hother
          cases hother
        · rw [if_neg hxid, hother] at hin
          exact absurd (Option.some.inj hin) hr
      · rw [if_neg hx]
        by_cases hxid : x = id
        · rw [if_pos hxid]
          refine ⟨fun hc => ?_, fun hc => absurd (Option.some.inj hc).symm hr⟩
          rw [hxid, h.live, hid] at hc
          cases hc
        · rw [if_neg hxid]
          exact h.live r x
  refine ⟨⟨hv, fun r => ?_, hlive, fun r x ho => ?_⟩, fun x r hx => ?_, fun x r hx => ?_⟩
  · rw [hring']
    split
    · exact hnodup.sublist (List.drop_sublist _ _)
    · exact h.nodup r
  · rw [howed] at ho
    by_cases hc : r = room ∧ x ∈ ring.take older
    · rw [if_pos hc] at ho
      exact absurd rfl ho
    rw [if_neg hc] at ho
    have hwas := h.owing r x ho
    have hxid : x ≠ id := fun heq => by
      rw [heq, hid] at hwas
      cases hwas
    rw [hroom, hroom₀, if_neg hxid]
    by_cases hx : x ∈ ring.take older
    · have hin := (hmem x).mp (List.mem_of_mem_take hx)
      rw [hroom₀, if_neg hxid, hwas] at hin
      exact absurd ⟨Option.some.inj hin, hx⟩ hc
    · rw [if_neg hx, hwas]
  · rw [hroom, hroom₀] at hx
    by_cases hgo : x ∈ ring.take older
    · rw [if_pos hgo] at hx
      cases hx
    rw [if_neg hgo] at hx
    by_cases hxid : x = id
    · rw [if_pos hxid] at hx
      exact .inl ⟨hxid, (Option.some.inj hx).symm⟩
    · exact .inr (by simpa only [if_neg hxid] using hx)
  · rw [howed]
    by_cases hc : r = room ∧ x ∈ ring.take older
    · rw [hroom, if_pos hc.2] at hx
      cases hx
    · rw [if_neg hc]
      rfl

/-- The lines of one room, relayed in turn. -/
theorem Wf.relayedAll {room : Nat} {ids : List LineId} (hn : ids.Nodup)
    (hid : ∀ id ∈ ids, lookup l.roomOf id = none) :
    let l' := ids.foldl (fun l id => l.relayed room id) l
    l'.Wf ∧
      (∀ x r, lookup l'.roomOf x = some r →
        (x ∈ ids ∧ r = room) ∨ lookup l.roomOf x = some r) ∧
      ∀ x r, lookup l'.roomOf x = some r → l'.lineOwed r x = l.lineOwed r x := by
  induction ids generalizing l with
  | nil => exact ⟨h, fun x r hx => .inr hx, fun x r _ => rfl⟩
  | cons id ids ih =>
    obtain ⟨hwf, hroom, howed⟩ := @Wf.relayed _ h room _ (hid id (List.mem_cons_self ..))
    obtain ⟨hnotin, hn⟩ := List.nodup_cons.mp hn
    have hfresh : ∀ x ∈ ids, lookup (l.relayed room id).roomOf x = none := fun x hx => by
      by_contra hne
      obtain ⟨r, hr⟩ := Option.ne_none_iff_exists'.mp hne
      rcases hroom x r hr with ⟨rfl, -⟩ | hwas
      · exact hnotin hx
      · rw [hid x (List.mem_cons_of_mem _ hx)] at hwas
        cases hwas
    obtain ⟨hwf', hroom', howed'⟩ := ih hwf hn hfresh
    refine ⟨hwf', fun x r hx => ?_, fun x r hx => ?_⟩
    · rcases hroom' x r hx with ⟨hin, rfl⟩ | hwas
      · exact .inl ⟨List.mem_cons_of_mem _ hin, rfl⟩
      · rcases hroom x r hwas with ⟨rfl, rfl⟩ | hwas
        · exact .inl ⟨List.mem_cons_self .., rfl⟩
        · exact .inr hwas
    · refine (howed' x r hx).trans ?_
      rcases hroom' x r hx with ⟨hin, -⟩ | hwas
      · -- A line relayed later in the run is not live yet, and owes nothing on either side.
        have hno : ∀ l' : Live, l'.Wf → lookup l'.roomOf x = none → l'.lineOwed r x = none := by
          intro l' hwf hx
          by_contra hne
          rw [hwf.owing r x hne] at hx
          cases hx
        rw [hno _ hwf (hfresh x hin), hno l h (hid x (List.mem_cons_of_mem _ hin))]
      · exact howed x r hwas

theorem Wf.forgetRoom (room : Nat) :
    (l.forgetRoom room).Wf ∧
      (∀ x, lookup (l.forgetRoom room).roomOf x =
        if lookup l.roomOf x = some room then none else lookup l.roomOf x) ∧
      ∀ r x, (l.forgetRoom room).lineOwed r x = if r = room then none else l.lineOwed r x := by
  have hfold : ∀ (ids : List LineId) (m : List (LineId × Nat)), Assoc.Valid m →
      Assoc.Valid (ids.foldl (fun m id => erase id m) m) ∧
      ∀ x, lookup (ids.foldl (fun m id => erase id m) m) x =
        if x ∈ ids then none else lookup m x := by
    intro ids
    induction ids with
    | nil => exact fun m hm => ⟨hm, fun x => rfl⟩
    | cons id ids ih =>
      intro m hm
      obtain ⟨hv, hl⟩ := ih _ (Assoc.valid_alter hm id fun _ => none)
      refine ⟨hv, fun x => (hl x).trans ?_⟩
      rw [show lookup (alter id (fun _ => none) m) x = _ from lookup_erase hm id x]
      by_cases hx : x = id <;> by_cases hxs : x ∈ ids <;> simp [hx, hxs]
  obtain ⟨hvalid, hlook⟩ := hfold (l.ring room) l.roomOf h.valid.roomOf
  have hv := valid_takeOwed h.valid room
  have hroom : ∀ x, lookup (l.forgetRoom room).roomOf x =
      if lookup l.roomOf x = some room then none else lookup l.roomOf x := fun x => by
    refine (hlook x).trans ?_
    by_cases hx : x ∈ l.ring room
    · rw [if_pos hx, if_pos ((h.live room x).mp hx)]
    · rw [if_neg hx, if_neg fun hc => hx ((h.live room x).mpr hc)]
  have howed : ∀ r x, (l.forgetRoom room).lineOwed r x =
      if r = room then none else l.lineOwed r x := lineOwed_takeOwed h.valid room
  have hring : ∀ r, (l.forgetRoom room).ring r = if r = room then [] else l.ring r := fun r => by
    show (lookup (erase room l.recent) r).getD [] = _
    rw [lookup_erase h.valid.recent]
    split <;> rfl
  refine ⟨⟨⟨Assoc.valid_alter h.valid.recent _ _, hvalid, hv.owed, hv.lines⟩, fun r => ?_,
    fun r x => ?_, fun r x ho => ?_⟩, hroom, howed⟩
  · rw [hring]
    split
    · exact List.nodup_nil
    · exact h.nodup r
  · rw [hring, hroom]
    by_cases hr : r = room
    · subst hr
      rw [if_pos rfl]
      by_cases hx : lookup l.roomOf x = some r
      · rw [if_pos hx]; simp
      · rw [if_neg hx]; simpa using hx
    · rw [if_neg hr, h.live]
      by_cases hx : lookup l.roomOf x = some room
      · rw [if_pos hx, hx]
        exact ⟨fun hc => absurd (Option.some.inj hc).symm hr, fun hc => by cases hc⟩
      · rw [if_neg hx]
  · rw [howed] at ho
    by_cases hr : r = room
    · exact absurd (if_pos hr) ho
    · rw [if_neg hr] at ho
      have hwas := h.owing r x ho
      rw [hroom, if_neg fun hc => hr (Option.some.inj (hwas ▸ hc)), hwas]

end Wf

end Live

end HxdNg.Reaction
