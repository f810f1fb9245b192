import HxdNg.Registrars.Changes
import HxdNg.Lib.Links
import HxdNg.Lib.Results

/-!
# How an identity stands, and who holds a handle

* `Change.kept` : what is set of an identity stays as it is;
* `Change.successor_cases` : a change links at most one key to its successor, from a key without one
  to a key without one;
* `Change.handle_cases`, `registration_cases` : how a handle's row changes hands;
* `standing_moves_forward` : what every call of every run keeps.
-/

namespace HxdNg.Registrars

open HxdNg.Identity HxdNg.Identity.Cbor
open Assoc
open Registrar (rotationAllowed)

variable {P : Primitives} {R : Registrar} {said : UInt64 → Prop} {now : UInt64} {s s' : State}

/-! ## Identities -/

/-- What never changes of an identity once it is set. -/
structure IdentityRow.Kept (row row' : IdentityRow) : Prop where
  key : row'.key = row.key
  revoked : row.revoked = true → row'.revoked = true
  rotatedTo : ∀ t, row.rotatedTo = some t → row'.rotatedTo = some t
  commitment : ∀ c, row.commitment = some c → row'.commitment = some c

theorem IdentityRow.Kept.refl (row : IdentityRow) : row.Kept row := ⟨rfl, id, fun _ => id, fun _ => id⟩

theorem IdentityRow.Kept.trans {a b c : IdentityRow} (hab : a.Kept b) (hbc : b.Kept c) : a.Kept c :=
  ⟨hbc.key.trans hab.key, fun h => hbc.revoked (hab.revoked h), fun t h => hbc.rotatedTo t (hab.rotatedTo t h),
    fun t h => hbc.commitment t (hab.commitment t h)⟩

theorem usable_eq_ok {row : IdentityRow} {u : Unit} :
    usable row = .ok u ↔ row.rotatedTo = none ∧ row.revoked = false ∧ row.frozen = false := by
  rw [usable]
  cases row.rotatedTo with
  | none => simp
  | some t => simp

theorem rotationAllowed_eq_ok {row : IdentityRow} {k : PublicKey} {u : Unit} :
    rotationAllowed P s row k = .ok u ↔ (∀ c, row.commitment = some c → c = Fingerprint.of P k) ∧
      ∀ row', s.identities.get k = some row' → row'.revoked = false ∧ row'.rotatedTo = none := by
  rw [rotationAllowed, ite_error_eq_ok, ite_error_eq_ok]
  cases row.commitment <;> cases s.identities.get k <;> simp

/-- A rotation names two keys. -/
theorem rotation_ne {bytes : List UInt8} {reg : Option RegistrarKeys} {r : Rotation}
    (h : Record.parse P bytes reg = .ok (.rotate r)) : r.identity ≠ r.successor := by
  have hval : ∀ {v : Value}, Rotation.fromValue P v = .ok r → r.identity ≠ r.successor := fun h => by
    simp only [Rotation.fromValue, bind_eq_ok, ite_throw_eq_ok, pure_eq_ok] at h
    obtain ⟨env, -, a, -, b, -, t, -, hne, -, -, rfl⟩ := h
    exact hne
  simp only [Record.parse, ite_error_eq_ok, bind_eq_ok] at h
  obtain ⟨-, v, -, h⟩ := h
  split at h
  · rw [ite_throw_eq_ok, map_eq_ok] at h
    obtain ⟨-, r', hr', heq⟩ := h
    obtain rfl := Record.rotate.inj heq
    exact hval hr'
  split at h
  · simp at h
  rw [ite_throw_eq_ok] at h
  obtain ⟨-, h⟩ := h
  split at h
  · simp only [Record.parseRegistrar, bind_eq_ok, ite_throw_eq_ok, pure_eq_ok] at h
    obtain ⟨reg', -, env, -, r', hr', -, rfl⟩ := h
    rw [Record.readRegistrar] at hr'
    split at hr' <;> simp at hr'
  · simp at h

theorem kept_mapVals {m : Map PublicKey IdentityRow} {f : PublicKey → IdentityRow → IdentityRow}
    (hf : ∀ k row, m.get k = some row → row.Kept (f k row)) {k : PublicKey} {row : IdentityRow}
    (h : m.get k = some row) : ∃ row', (m.mapVals f).get k = some row' ∧ row.Kept row' :=
  ⟨f k row, by rw [Map.get_mapVals, h, Option.map_some], hf k row h⟩

/-- What is set of an identity stays as it is. -/
theorem Change.kept (h : Change P R said now s s') {k : PublicKey} {row : IdentityRow}
    (hk : s.identities.get k = some row) : ∃ row', s'.identities.get k = some row' ∧ row.Kept row' := by
  have hsame : ∃ row', s.identities.get k = some row' ∧ row.Kept row' := ⟨row, hk, .refl row⟩
  have hset : ∀ {f : IdentityRow → IdentityRow} (key : PublicKey), (∀ row : IdentityRow, row.Kept (f row)) →
      ∀ (m : Map PublicKey IdentityRow), m = s.identities → ∃ row',
        (m.mapVals fun k row => if k = key then f row else row).get k = some row' ∧ row.Kept row' :=
    fun key hf m hm => by
      subst hm
      refine kept_mapVals (fun k' row' _ => ?_) hk
      split
      · exact hf row'
      · exact .refl row'
  cases h with
  | @rotated r bytes row₀ hparse hrow husable hallowed =>
    rw [get_identity_rotated P R s _ _ bytes now k (rotation_ne hparse)]
    split
    · next hkb =>
      subst hkb
      rw [hk]
      exact ⟨row, rfl, .refl row⟩
    rw [hk, Option.map_some]
    refine ⟨_, rfl, ?_⟩
    split
    · next hka =>
      subst hka
      rw [hrow] at hk
      obtain rfl := Option.some.inj hk
      refine ⟨rfl, id, fun t ht => ?_, fun _ => id⟩
      rw [(usable_eq_ok.mp husable).1] at ht
      cases ht
    · exact .refl row
  | dropped key => exact hsame
  | held hp => exact hsame
  | device hparse =>
    rw [State.publish_snd, List.foldl_nil, State.identities_written]
    exact hsame
  | revoked hparse hrow husable =>
    exact hset (f := fun row => { row with revoked := true }) _
      (fun row => ⟨rfl, fun _ => rfl, fun _ => id, fun _ => id⟩) _ (State.identities_written _ _)
  | @frozen row₀ fr hrow =>
    have h := hset (f := fun row => { row with frozen := fr }) row₀.key
      (fun row => ⟨rfl, id, fun _ => id, fun _ => id⟩) _
        (State.identities_written s [⟨.freeze, row₀.key, none, none,
          Freeze.sign P ⟨row₀.key, R.host, fr, R.freezeTime P s row₀.key now⟩ R.key⟩])
    cases fr <;> exact h
  | lapsed hreason bar hh =>
    simp only [State.publish_snd, List.foldl, State.apply, State.identities_written]
    exact hsame
  | recovered keepAge hh hfp =>
    simp only [State.publish_snd, List.foldl, State.apply, State.identities_written]
    exact hsame
  | committed key c =>
    refine hset (f := fun row => { row with commitment := row.commitment.or (some c) }) _
      (fun row => ⟨rfl, id, fun _ => id, fun c' hc' => ?_⟩) s.identities rfl
    rw [hc', Option.some_or]
  | invited hashes => exact hsame
  | issued hparse hhost hdecided hissue =>
    obtain ⟨invites, rfl, -⟩ := State.issue_eq_some hissue
    dsimp only
    rw [Map.get_set]
    split
    · next hkw =>
      subst hkw
      refine ⟨_, rfl, ?_⟩
      rw [State.issuedRow, hk, Option.getD_some]
      exact ⟨rfl, id, fun _ => id, fun c hc => by rw [hc, Option.some_or]⟩
    · exact hsame

/-- Whom a key was rotated to, if it was. -/
def State.successor (s : State) (k : PublicKey) : Option PublicKey :=
  (s.identities.get k).bind (·.rotatedTo)

theorem State.successor_eq_some {k t : PublicKey} :
    s.successor k = some t ↔ ∃ row, s.identities.get k = some row ∧ row.rotatedTo = some t :=
  Option.bind_eq_some_iff

/-- A map over the rows that leaves their links alone. -/
theorem bind_mapVals_rotatedTo {f : PublicKey → IdentityRow → IdentityRow}
    (hf : ∀ k row, (f k row).rotatedTo = row.rotatedTo) (m : Map PublicKey IdentityRow) (k : PublicKey) :
    ((m.mapVals f).get k).bind (·.rotatedTo) = (m.get k).bind (·.rotatedTo) := by
  rw [Map.get_mapVals]
  cases m.get k with
  | none => rfl
  | some row => exact hf k row

/-- What a rotation was checked against. -/
structure Rotated (P : Primitives) (s s' : State) (a b : PublicKey) (row : IdentityRow) : Prop where
  ne : a ≠ b
  row_eq : s.identities.get a = some row
  usable : Registrars.usable row = .ok ()
  allowed : rotationAllowed P s row b = .ok ()
  row_eq' : s'.identities.get a = some { row with rotatedTo := some b }
  link : ∀ k, s'.successor k = if k = a then some b else s.successor k
  handles : ∀ name, s'.handles.get name =
    (s.handles.get name).map fun h => if h.identity = a then { h with identity := b } else h

theorem Rotated.successor_none {a b : PublicKey} {row : IdentityRow} (h : Rotated P s s' a b row) :
    s.successor a = none ∧ s.successor b = none := by
  constructor
  · rw [State.successor, h.row_eq, Option.bind_some, (usable_eq_ok.mp h.usable).1]
  · rw [State.successor]
    cases hb : s.identities.get b with
    | none => rfl
    | some rowb => exact ((rotationAllowed_eq_ok.mp h.allowed).2 rowb hb).2

/-- A change links at most one key to its successor. -/
theorem Change.successor_cases (h : Change P R said now s s') :
    (∀ k, s'.successor k = s.successor k) ∨ ∃ a b row, Rotated P s s' a b row := by
  have hset : ∀ {f : IdentityRow → IdentityRow} (key : PublicKey),
      (∀ row : IdentityRow, (f row).rotatedTo = row.rotatedTo) →
      ∀ (m : Map PublicKey IdentityRow), m = s.identities → ∀ k,
        ((m.mapVals fun k row => if k = key then f row else row).get k).bind (·.rotatedTo) =
          s.successor k := fun key hf m hm k => by
    subst hm
    refine bind_mapVals_rotatedTo (fun k' row' => ?_) _ k
    split
    · exact hf row'
    · rfl
  cases h with
  | @rotated r bytes row hparse hrow husable hallowed =>
    have hne := rotation_ne hparse
    have hget := fun k => get_identity_rotated P R s _ _ bytes now k hne
    refine Or.inr ⟨r.identity, r.successor, row, hne, hrow, husable, hallowed, ?_, fun k => ?_,
      get_handle_rotated P R s _ _ bytes now⟩
    · rw [hget, if_neg hne, hrow, Option.map_some, if_pos rfl]
    · rw [State.successor, hget]
      by_cases hka : k = r.identity
      · subst hka
        rw [if_neg hne, hrow, if_pos rfl, Option.map_some, if_pos rfl]
        rfl
      rw [if_neg hka]
      split
      · next hkb =>
        subst hkb
        rw [State.successor]
        cases s.identities.get r.successor <;> rfl
      · rw [State.successor]
        cases s.identities.get k <;> rfl
  | dropped key => exact Or.inl fun _ => rfl
  | held hp => exact Or.inl fun _ => rfl
  | device hparse =>
    refine Or.inl fun k => ?_
    rw [State.successor, State.publish_snd, List.foldl_nil, State.identities_written]
    rfl
  | revoked hparse hrow husable =>
    exact Or.inl (hset (f := fun row => { row with revoked := true }) _ (fun _ => rfl) _
      (State.identities_written _ _))
  | @frozen row₀ fr hrow =>
    have h := hset (f := fun row => { row with frozen := fr }) row₀.key (fun _ => rfl) _
        (State.identities_written s [⟨.freeze, row₀.key, none, none,
          Freeze.sign P ⟨row₀.key, R.host, fr, R.freezeTime P s row₀.key now⟩ R.key⟩])
    cases fr <;> exact Or.inl h
  | lapsed hreason bar hh =>
    refine Or.inl fun k => ?_
    simp only [State.successor, State.publish_snd, List.foldl, State.apply, State.identities_written]
  | recovered keepAge hh hfp =>
    refine Or.inl fun k => ?_
    simp only [State.successor, State.publish_snd, List.foldl, State.apply, State.identities_written]
  | committed key c =>
    exact Or.inl (hset (f := fun row => { row with commitment := row.commitment.or (some c) }) _
      (fun _ => rfl) s.identities rfl)
  | invited hashes => exact Or.inl fun _ => rfl
  | @issued bytes req limited w s' hparse hhost hdecided hissue =>
    obtain ⟨invites, rfl, -⟩ := State.issue_eq_some hissue
    refine Or.inl fun k => ?_
    rw [State.successor, State.successor]
    dsimp only
    rw [Map.get_set]
    split
    · next hkw =>
      subst hkw
      rw [State.issuedRow]
      cases s.identities.get w.identity <;> rfl
    · rfl

theorem Change.successor_mono (h : Change P R said now s s') {k t : PublicKey} (ht : s.successor k = some t) :
    s'.successor k = some t := by
  obtain ⟨row, hrow, hto⟩ := State.successor_eq_some.mp ht
  obtain ⟨row', hrow', hkept⟩ := h.kept hrow
  exact State.successor_eq_some.mpr ⟨row', hrow', hkept.rotatedTo t hto⟩

theorem Change.ends (h : Change P R said now s s') (hs : ∀ k, Ends s.successor k) (k : PublicKey) :
    Ends s'.successor k := by
  rcases h.successor_cases with heq | ⟨a, b, row, hr⟩
  · rw [show s'.successor = s.successor from funext heq]
    exact hs k
  · exact Ends.link hs hr.successor_none.1 hr.successor_none.2 hr.ne hr.link k

/-! ## The log and the handles -/

/-- One issuance: what it was granted on and what it left. -/
def Issuance (P : Primitives) (R : Registrar) (now : UInt64) (s s' : State) (w : Issue) : Prop :=
  ∃ req, Decided P R s now req w ∧ s.issue w = some s'

theorem Issuance.log {w : Issue} (h : Issuance P R now s s' w) :
    s'.log = s.log ++ [⟨w.attestation, w.first, w.bytes⟩] := by
  obtain ⟨req, -, hi⟩ := h
  obtain ⟨invites, rfl, -⟩ := State.issue_eq_some hi
  rfl

/-- The log grows by what a registration issues, and by nothing else. -/
theorem Change.log_cases (h : Change P R said now s s') : s'.log = s.log ∨ ∃ w, Issuance P R now s s' w := by
  cases h with
  | rotated hparse hrow husable hallowed => exact Or.inl (State.log_written _ _)
  | dropped key => exact Or.inl rfl
  | held hp => exact Or.inl rfl
  | device hparse => exact Or.inl (State.log_written _ _)
  | revoked hparse hrow husable => exact Or.inl (State.log_written _ _)
  | frozen fr hrow => cases fr <;> exact Or.inl (State.log_written _ _)
  | lapsed hreason bar hh => exact Or.inl (State.log_written _ _)
  | recovered keepAge hh hfp => exact Or.inl (State.log_written _ _)
  | committed key c => exact Or.inl rfl
  | invited hashes => exact Or.inl rfl
  | issued hparse hhost hdecided hissue => exact Or.inr ⟨_, _, registration_eq_ok hdecided, hissue⟩

theorem Change.log_length (h : Change P R said now s s') : s.log.length ≤ s'.log.length := by
  rcases h.log_cases with h | ⟨w, h⟩
  · rw [h]
  · rw [h.log, List.length_append]
    omega

/-- A handle's row goes on, to the same identity or to the one its identity was rotated to, unless the
handle is issued. -/
theorem Change.handle_cases (h : Change P R said now s s') {name : String} {r : HandleRow}
    (hr : s.handles.get name = some r) : ∃ r', s'.handles.get name = some r' ∧
      (r'.identity = r.identity ∨ s'.successor r.identity = some r'.identity ∨
        ∃ w, Issuance P R now s s' w ∧ w.handle.name = name ∧ w.handle.identity = r'.identity) := by
  have hsame : ∀ {m : Map String HandleRow}, m = s.handles → ∃ r', m.get name = some r' ∧
      (r'.identity = r.identity ∨ s'.successor r.identity = some r'.identity ∨
        ∃ w, Issuance P R now s s' w ∧ w.handle.name = name ∧ w.handle.identity = r'.identity) :=
    fun hm => ⟨r, hm ▸ hr, Or.inl rfl⟩
  have hlapse : ∀ {m : Map String HandleRow} {p : String → HandleRow → Prop}
      [∀ n h, Decidable (p n h)] {t : UInt64} {b : Bool}, m = s.handles → ∃ r',
      (m.mapVals fun n h => if p n h then State.lapse h t b else h).get name = some r' ∧
      (r'.identity = r.identity ∨ s'.successor r.identity = some r'.identity ∨
        ∃ w, Issuance P R now s s' w ∧ w.handle.name = name ∧ w.handle.identity = r'.identity) :=
    fun hm => by
      subst hm
      refine ⟨_, by rw [Map.get_mapVals, hr, Option.map_some], Or.inl ?_⟩
      split <;> rfl
  cases h with
  | @rotated x bytes row hparse hrow husable hallowed =>
    have hne := rotation_ne hparse
    refine ⟨_, by rw [get_handle_rotated, hr, Option.map_some], ?_⟩
    split
    · next hid =>
      refine Or.inr (Or.inl (State.successor_eq_some.mpr ⟨{ row with rotatedTo := some x.successor }, ?_, rfl⟩))
      rw [hid, get_identity_rotated P R s _ _ bytes now _ hne, if_neg hne, hrow, Option.map_some,
        if_pos rfl]
    · exact Or.inl rfl
  | dropped key => exact hsame rfl
  | held hp => exact hsame rfl
  | device hparse => exact hsame (State.handles_written _ _)
  | revoked hparse hrow husable => exact hlapse (State.handles_written _ _)
  | frozen fr hrow => cases fr <;> exact hsame (State.handles_written _ _)
  | lapsed hreason bar hh => exact hlapse (State.handles_written _ _)
  | recovered keepAge hh hfp => exact hlapse (State.handles_written _ _)
  | committed key c => exact hsame rfl
  | invited hashes => exact hsame rfl
  | @issued bytes req limited w s' hparse hhost hdecided hissue =>
    have hw : Issuance P R now s s' w := ⟨req, registration_eq_ok hdecided, hissue⟩
    obtain ⟨invites, heq, -⟩ := State.issue_eq_some hissue
    have hget : s'.handles.get name = if name = w.handle.name then some w.handle else s.handles.get name := by
      rw [heq]
      exact Map.get_set _ _ _
    by_cases hn : name = w.handle.name
    · exact ⟨w.handle, by rw [hget, if_pos hn], Or.inr (Or.inr ⟨w, hw, hn.symm, rfl⟩)⟩
    · exact ⟨r, by rw [hget, if_neg hn, hr], Or.inl rfl⟩

/-- A row a handle did not have is one it was issued with. -/
theorem Change.handle_new (h : Change P R said now s s') {name : String} {r' : HandleRow}
    (hr' : s'.handles.get name = some r') (hnone : s.handles.get name = none) :
    ∃ w, Issuance P R now s s' w ∧ r' = w.handle := by
  have hmap : ∀ {m : Map String HandleRow} {f : String → HandleRow → HandleRow}, m = s.handles →
      (m.mapVals f).get name ≠ some r' := fun hm h => by
    rw [Map.get_mapVals, hm, hnone] at h
    cases h
  have hsame : ∀ {m : Map String HandleRow}, m = s.handles → m.get name ≠ some r' := fun hm h => by
    rw [hm, hnone] at h
    cases h
  cases h with
  | rotated hparse hrow husable hallowed => exact absurd hr' (hmap (State.handles_written _ _))
  | dropped key => exact absurd hr' (hsame rfl)
  | held hp => exact absurd hr' (hsame rfl)
  | device hparse => exact absurd hr' (hsame (State.handles_written _ _))
  | revoked hparse hrow husable => exact absurd hr' (hmap (State.handles_written _ _))
  | frozen fr hrow => cases fr <;> exact absurd hr' (hsame (State.handles_written _ _))
  | lapsed hreason bar hh => exact absurd hr' (hmap (State.handles_written _ _))
  | recovered keepAge hh hfp => exact absurd hr' (hmap (State.handles_written _ _))
  | committed key c => exact absurd hr' (hsame rfl)
  | invited hashes => exact absurd hr' (hsame rfl)
  | @issued bytes req limited w s' hparse hhost hdecided hissue =>
    obtain ⟨invites, rfl, -⟩ := State.issue_eq_some hissue
    refine ⟨w, ⟨req, registration_eq_ok hdecided, hissue⟩, ?_⟩
    rcases Map.get_set_cases hr' with ⟨-, rfl⟩ | ⟨-, hr'⟩
    · rfl
    · exact absurd hr' (hsame rfl)

/-- No handle's row names a key rotated away. -/
def State.Current (s : State) : Prop :=
  ∀ name r, s.handles.get name = some r → s.successor r.identity = none

/-- An attestation is issued to an identity in good standing. -/
theorem Issuance.standing {w : Issue} (h : Issuance P R now s s' w) :
    ∃ row, s'.identities.get w.attestation.identity = some row ∧
      row.revoked = false ∧ row.rotatedTo = none ∧ row.frozen = false := by
  obtain ⟨req, hd, hi⟩ := h
  obtain ⟨invites, rfl, -⟩ := State.issue_eq_some hi
  refine ⟨s.issuedRow w, ?_, ?_⟩
  · dsimp only
    rw [Map.get_set, if_pos (hd.names.1.trans hd.identity.symm)]
  · rw [State.issuedRow]
    cases hrow : s.identities.get w.identity with
    | none => exact ⟨rfl, rfl, rfl⟩
    | some row =>
      rw [hd.identity] at hrow
      obtain ⟨hto, hrev, hfro⟩ := usable_eq_ok.mp (hd.standing row hrow).1
      exact ⟨hrev, hto, hfro⟩

theorem Issuance.successor_none {w : Issue} (h : Issuance P R now s s' w) :
    s'.successor w.handle.identity = none := by
  obtain ⟨row, hrow, -, hto, -⟩ := h.standing
  obtain ⟨req, hd, -⟩ := h
  rw [State.successor, hd.holder, ← hd.names.1, hrow, Option.bind_some, hto]

theorem Change.current (h : Change P R said now s s') (hs : s.Current) : s'.Current := by
  intro name r' hr'
  cases hr : s.handles.get name with
  | none =>
    obtain ⟨w, hw, rfl⟩ := h.handle_new hr' hr
    exact hw.successor_none
  | some r =>
    have hold := hs name r hr
    obtain ⟨r₁, hr₁, hcase⟩ := h.handle_cases hr
    rw [hr'] at hr₁
    obtain rfl := Option.some.inj hr₁
    rcases hcase with hid | hsucc | ⟨w, hw, -, hid⟩
    · rcases h.successor_cases with heq | ⟨a, b, row, hrot⟩
      · rw [hid, heq, hold]
      · rw [hid, hrot.link, if_neg, hold]
        intro hra
        rw [hrot.handles, hr, Option.map_some, if_pos hra] at hr'
        obtain rfl := Option.some.inj hr'
        exact hrot.ne (hra.symm.trans hid.symm)
    · rcases h.successor_cases with heq | ⟨a, b, row, hrot⟩
      · rw [heq, hold] at hsucc
        cases hsucc
      · rw [hrot.link] at hsucc
        split at hsucc
        · obtain rfl := Option.some.inj hsucc
          rw [hrot.link, if_neg hrot.ne.symm, hrot.successor_none.2]
        · rw [hold] at hsucc
          cases hsucc
    · rw [← hid]
      exact hw.successor_none

/-- Where nothing is issued, the rows only follow the rotations. -/
theorem Changes.moves (h : Changes P R said now s s') (hlog : s'.log.length = s.log.length) {name : String}
    {r : HandleRow} (hr : s.handles.get name = some r) : ∃ r', s'.handles.get name = some r' ∧
      Reaches s'.successor r.identity r'.identity := by
  have hlen : ∀ {t t' : State}, Changes P R said now t t' → t.log.length ≤ t'.log.length := fun h => by
    induction h with
    | refl => exact le_rfl
    | tail _ hc ih => exact ih.trans hc.log_length
  induction h with
  | refl => exact ⟨r, hr, .refl _⟩
  | @tail t t' hst hc ih =>
    have hst' := hlen hst
    have hc' := hc.log_length
    obtain ⟨r₁, hr₁, hreach⟩ := ih (by omega)
    have hreach' := hreach.mono (fun a b => hc.successor_mono)
    obtain ⟨r₂, hr₂, hcase⟩ := hc.handle_cases hr₁
    refine ⟨r₂, hr₂, ?_⟩
    rcases hcase with hid | hsucc | ⟨w, hw, -⟩
    · rw [hid]
      exact hreach'
    · exact hreach'.trans (.single hsucc)
    · rw [hw.log, List.length_append] at hlog
      simp only [List.length_cons, List.length_nil] at hlog
      omega

/-! ## Due rotations -/

/-- What publishing a due rotation, or dropping it, leaves alone. -/
structure DueFrame (s s' : State) : Prop where
  log : s'.log = s.log
  recoveries : s'.recoveries = s.recoveries
  invites : s'.invites = s.invites
  handles : ∀ name r, s.handles.get name = some r →
    ∃ k, s'.handles.get name = some { r with identity := k }

theorem DueFrame.trans {s t u : State} (h : DueFrame s t) (h' : DueFrame t u) : DueFrame s u where
  log := h'.log.trans h.log
  recoveries := h'.recoveries.trans h.recoveries
  invites := h'.invites.trans h.invites
  handles name r hr := by
    obtain ⟨k, hk⟩ := h.handles name r hr
    exact h'.handles name { r with identity := k } hk

theorem publishOne_frame (s : State) (p : Pending) : DueFrame s (R.publishOne P s now p) := by
  rw [Registrar.publishOne]
  split
  · exact ⟨rfl, rfl, rfl, fun name r hr => ⟨r.identity, hr⟩⟩
  · refine ⟨State.log_written _ _, State.recoveries_written _ _, State.invites_written _ _,
      fun name r hr => ?_⟩
    rw [get_handle_rotated, hr, Option.map_some]
    split
    · exact ⟨p.successor, rfl⟩
    · exact ⟨r.identity, rfl⟩

variable (P) (R) (now) in
theorem publishDue_frame (s : State) : DueFrame s (R.publishDue P s now) := by
  rw [Registrar.publishDue]
  generalize s.pendingDue now = ps
  induction ps generalizing s with
  | nil => exact ⟨rfl, rfl, rfl, fun name r hr => ⟨r.identity, hr⟩⟩
  | cons p ps ih => exact (publishOne_frame s p).trans (ih _)

/-! ## Every call -/

theorem Changes.kept (h : Changes P R said now s s') {k : PublicKey} {row : IdentityRow}
    (hk : s.identities.get k = some row) : ∃ row', s'.identities.get k = some row' ∧ row.Kept row' := by
  induction h with
  | refl => exact ⟨row, hk, .refl row⟩
  | tail _ hc ih =>
    obtain ⟨row₁, h₁, hkept₁⟩ := ih
    obtain ⟨row₂, h₂, hkept₂⟩ := hc.kept h₁
    exact ⟨row₂, h₂, hkept₁.trans hkept₂⟩

theorem Changes.ends (h : Changes P R said now s s') (hs : ∀ k, Ends s.successor k) : ∀ k, Ends s'.successor k := by
  induction h with
  | refl => exact hs
  | tail _ hc ih => exact hc.ends ih

theorem Changes.current (h : Changes P R said now s s') (hs : s.Current) : s'.Current := by
  induction h with
  | refl => exact hs
  | tail _ hc ih => exact hc.current ih

/-- A key with a commitment is rotated to the key committed to. -/
theorem Changes.committed (h : Changes P R said now s s') {k t : PublicKey} {row : IdentityRow} {c : Bytes 32}
    (hrow : s.identities.get k = some row) (hc : row.commitment = some c) (hs : s.successor k = none)
    (hs' : s'.successor k = some t) : c = Fingerprint.of P t := by
  induction h with
  | refl =>
    rw [hs] at hs'
    cases hs'
  | @tail m m' hm hch ih =>
    cases hmid : m.successor k with
    | some t' =>
      rw [hch.successor_mono hmid] at hs'
      exact ih (hmid.trans hs')
    | none =>
      obtain ⟨row₁, hrow₁, hkept⟩ := Changes.kept hm hrow
      rcases hch.successor_cases with heq | ⟨a, b, rowa, hr⟩
      · rw [heq, hmid] at hs'
        cases hs'
      rw [hr.link] at hs'
      split at hs'
      · next hka =>
        subst hka
        obtain rfl := Option.some.inj hs'
        rw [hr.row_eq] at hrow₁
        obtain rfl := Option.some.inj hrow₁
        exact (rotationAllowed_eq_ok.mp hr.allowed).1 c (hkept.commitment c hc)
      · rw [hmid] at hs'
        cases hs'

/-- An outstanding recovery grant for the handle names the key. -/
def Granted (P : Primitives) (s : State) (name : String) (k : PublicKey) : Prop :=
  ∃ g, s.recoveries.get name = some g ∧ g.fingerprint = Fingerprint.of P k

/-- The handle's hold has passed, and no grant is outstanding for it. -/
def Free (R : Registrar) (s : State) (now : UInt64) (name : String) (r : HandleRow) : Prop :=
  s.recoveries.get name = none ∧ r.state now R.hold = .released

/-- What a call at `now` may do to how identities stand and to who holds a handle. -/
structure MovesForward (P : Primitives) (R : Registrar) (now : UInt64) (s s' : State) : Prop where
  /-- Once set, `revoked`, `rotatedTo` and the commitment stay. -/
  kept : ∀ k row, s.identities.get k = some row →
    ∃ row', s'.identities.get k = some row' ∧ row.Kept row'
  committed : ∀ k row c t, s.identities.get k = some row → row.commitment = some c →
    s.successor k = none → s'.successor k = some t → c = Fingerprint.of P t
  /-- Following `rotatedTo` ends. -/
  ends : ∀ k, Ends s'.successor k
  current : s'.Current
  log : s'.log = s.log ∨ ∃ e, s'.log = s.log ++ [e]
  issued : ∀ e, s'.log = s.log ++ [e] → ∃ row, s'.identities.get e.attestation.identity = some row ∧
    row.revoked = false ∧ row.rotatedTo = none ∧ row.frozen = false
  handles : ∀ name r, s.handles.get name = some r → ∃ r', s'.handles.get name = some r' ∧
    (Reaches s'.successor r.identity r'.identity ∨
      ∃ e, s'.log = s.log ++ [e] ∧ e.attestation.handle = name ∧ e.attestation.identity = r'.identity ∧
        (Granted P s name r'.identity ∨ Free R s now name r))
  barred : ∀ e r, s'.log = s.log ++ [e] → s.handles.get e.attestation.handle = some r → r.barred = true →
    Granted P s e.attestation.handle e.attestation.identity ∨ Free R s now e.attestation.handle r
  spent : ∀ hash, s.invites.get hash = some true → s'.invites.get hash = some true
  paid : ∀ e, s'.log = s.log ++ [e] → e.first = true → R.signup = .invite →
    ∃ hash, s.invites.get hash = some false ∧ s'.invites.get hash = some true

theorem append_ne_self {α : Type} {xs ys : List α} {y : α} (h : xs = ys) : xs ≠ ys ++ [y] := by
  intro h'
  rw [h] at h'
  simpa using congrArg List.length h'

theorem MovesForward.of_log_eq (h : Changes P R said now s s') (hlog : s'.log = s.log)
    (hends : ∀ k, Ends s.successor k) (hcur : s.Current)
    (hspent : ∀ hash, s.invites.get hash = some true → s'.invites.get hash = some true) :
    MovesForward P R now s s' where
  kept k row := h.kept
  committed k row c t := h.committed
  ends := h.ends hends
  current := h.current hcur
  log := Or.inl hlog
  issued e he := absurd he (append_ne_self hlog)
  handles name r hr := by
    obtain ⟨r', hr', hreach⟩ := h.moves (congrArg List.length hlog) hr
    exact ⟨r', hr', Or.inl hreach⟩
  barred e r he := absurd he (append_ne_self hlog)
  spent := hspent
  paid e he := absurd he (append_ne_self hlog)

/-- An invite paid for a first registration that needed one. -/
theorem Issuance.invites {w : Issue} (h : Issuance P R now s s' w) :
    (∀ hash, s.invites.get hash = some true → s'.invites.get hash = some true) ∧
    (w.first = true → R.signup = .invite →
      ∃ hash, s.invites.get hash = some false ∧ s'.invites.get hash = some true) := by
  obtain ⟨req, hd, hi⟩ := h
  obtain ⟨invites, rfl, ⟨hnone, rfl⟩ | ⟨hash, hsome, hopen, rfl⟩⟩ := State.issue_eq_some hi
  · refine ⟨fun _ => id, fun hfirst hsign => ?_⟩
    obtain ⟨hash, hhash⟩ := hd.invited hfirst hsign
    rw [hnone] at hhash
    cases hhash
  · refine ⟨fun k hk => ?_, fun _ _ => ⟨hash, hopen, ?_⟩⟩
    · dsimp only
      rw [Map.get_set]
      split
      · rfl
      · exact hk
    · dsimp only
      rw [Map.get_set, if_pos rfl]

/-- A call that publishes what is due and then issues an attestation. -/
theorem MovesForward.of_issue {due : State} {w : Issue} (hs : Changes P R said now s due)
    (hframe : DueFrame s due) (hc : Change P R said now due s') (hw : Issuance P R now due s' w)
    (hends : ∀ k, Ends s.successor k) (hcur : s.Current) : MovesForward P R now s s' := by
  have hall : Changes P R said now s s' := hs.tail hc
  have hlog := hw.log
  rw [hframe.log] at hlog
  have hone : ∀ {e}, s'.log = s.log ++ [e] → e = ⟨w.attestation, w.first, w.bytes⟩ := fun he => by
    rw [hlog] at he
    simpa using he.symm
  obtain ⟨req, hd, hi⟩ := id hw
  have hname : w.attestation.handle = w.handle.name := hd.names.2.2.trans hd.name.symm
  have hid : w.attestation.identity = w.handle.identity := hd.names.1.trans hd.holder.symm
  -- The row as it was decided on is the one of the state before, its identity apart.
  have hroute : ∀ r, s.handles.get w.handle.name = some r → Granted P s w.handle.name w.handle.identity ∨
      Free R s now w.handle.name r ∨ ∃ k, due.handles.get w.handle.name = some { r with identity := k } ∧
        k = w.handle.identity ∧ r.barred = false := fun r hr => by
    obtain ⟨k, hk⟩ := hframe.handles _ r hr
    rw [hd.name, hd.holder] at *
    rcases hd.route with ⟨g, hg, hfp, -⟩ | ⟨hg, -, hrow⟩
    · exact Or.inl ⟨g, hframe.recoveries ▸ hg, hfp⟩
    · rcases hrow _ hk with hrel | ⟨hown, hbar⟩
      · exact Or.inr (Or.inl ⟨hframe.recoveries ▸ hg, hrel⟩)
      · exact Or.inr (Or.inr ⟨k, hk, hown, hbar⟩)
  exact {
    kept := fun k row => hall.kept
    committed := fun k row c t => hall.committed
    ends := hall.ends hends
    current := hall.current hcur
    log := Or.inr ⟨_, hlog⟩
    issued := fun e he => by
      obtain rfl := hone he
      exact hw.standing
    handles := fun name r hr => by
      obtain ⟨r₁, hr₁, hreach⟩ := hs.moves (congrArg List.length hframe.log) hr
      have hreach' := hreach.mono fun a b => hc.successor_mono
      have hget : s'.handles.get name = if name = w.handle.name then some w.handle else due.handles.get name := by
        obtain ⟨invites, heq, -⟩ := State.issue_eq_some hi
        rw [heq]
        exact Map.get_set _ _ _
      by_cases hn : name = w.handle.name
      · subst hn
        refine ⟨w.handle, by rw [hget, if_pos rfl], ?_⟩
        rcases hroute r hr with hg | hf | ⟨k, hk, hkid, -⟩
        · exact Or.inr ⟨_, hlog, hname, hid, Or.inl hg⟩
        · exact Or.inr ⟨_, hlog, hname, hid, Or.inr hf⟩
        · rw [hr₁] at hk
          obtain rfl := Option.some.inj hk
          exact Or.inl (hkid ▸ hreach')
      · exact ⟨r₁, by rw [hget, if_neg hn, hr₁], Or.inl hreach'⟩
    barred := fun e r he hr hbar => by
      obtain rfl := hone he
      rw [show (⟨w.attestation, w.first, w.bytes⟩ : LogEntry).attestation = w.attestation from rfl, hname, hid] at *
      rcases hroute r hr with hg | hf | ⟨k, -, -, hb⟩
      · exact Or.inl hg
      · exact Or.inr hf
      · rw [hbar] at hb
        cases hb
    spent := fun hash hh => hw.invites.1 hash (hframe.invites ▸ hh)
    paid := fun e he hfirst hsign => by
      obtain rfl := hone he
      obtain ⟨hash, hopen, hspent⟩ := hw.invites.2 hfirst hsign
      exact ⟨hash, hframe.invites ▸ hopen, hspent⟩ }

/-- An invite added is a new one; what a change does else to the invites is to spend one. -/
theorem addInvites_spent (hashes : List (List UInt8)) {hash : List UInt8}
    (h : s.invites.get hash = some true) : (s.addInvites hashes).invites.get hash = some true := by
  show (hashes.foldl _ s.invites).get hash = some true
  generalize s.invites = m at h
  induction hashes generalizing m with
  | nil => exact h
  | cons x xs ih =>
    refine ih _ ?_
    dsimp only
    split
    · exact h
    · next hx =>
      rw [Map.get_set, if_neg, h]
      rintro rfl
      rw [h] at hx
      exact hx rfl

theorem Change.invites_eq (h : Change P R said now s s') (hlog : s'.log = s.log)
    (hinv : ∀ hashes, s' ≠ s.addInvites hashes) : s'.invites = s.invites := by
  cases h with
  | rotated hparse hrow husable hallowed => exact State.invites_written _ _
  | dropped key => rfl
  | held hp => rfl
  | device hparse => exact State.invites_written _ _
  | revoked hparse hrow husable => exact State.invites_written _ _
  | frozen fr hrow => cases fr <;> exact State.invites_written _ _
  | lapsed hreason bar hh => exact State.invites_written _ _
  | recovered keepAge hh hfp => exact State.invites_written _ _
  | committed key c => rfl
  | invited hashes => exact absurd rfl (hinv hashes)
  | issued hparse hhost hdecided hissue =>
    have hw : Issuance P R now s s' _ := ⟨_, registration_eq_ok hdecided, hissue⟩
    exact absurd hw.log (append_ne_self hlog)

theorem step_moves_forward (hs : s.PendingSigned P R) (hends : ∀ k, Ends s.successor k)
    (hcur : s.Current) (op : Registrar.Op) : MovesForward P R now s (R.step P s now op) := by
  have hdue := publishDue_changes (fun _ => True) now hs
  have hframe := publishDue_frame P R now s
  rcases step_cases P R (fun _ => True) now s op
    fun _ _ _ _ => trivial with h | ⟨k, c, h⟩ | ⟨hashes, h⟩ | h | h
  · rw [h]
    exact .of_log_eq (Relation.ReflTransGen.refl : Changes P R (fun _ => True) now s s) rfl hends hcur
      fun _ => id
  · rw [h]
    exact .of_log_eq (.single (.committed k c : Change P R (fun _ => True) now s _)) rfl hends hcur fun _ => id
  · rw [h]
    exact .of_log_eq (.single (.invited hashes : Change P R (fun _ => True) now s _)) rfl hends hcur fun hash => addInvites_spent hashes
  · rw [h]
    exact .of_log_eq hdue hframe.log hends hcur fun hash hh => hframe.invites ▸ hh
  · rcases h.log_cases with hlog | ⟨w, hw⟩
    · refine .of_log_eq (hdue.tail h) (hlog.trans hframe.log) hends hcur fun hash hh => ?_
      by_cases hinv : ∃ hashes, R.step P s now op = (R.publishDue P s now).addInvites hashes
      · obtain ⟨hashes, heq⟩ := hinv
        rw [heq]
        exact addInvites_spent hashes (hframe.invites ▸ hh)
      · rw [h.invites_eq hlog (not_exists.mp hinv), hframe.invites]
        exact hh
    · exact .of_issue hdue hframe h hw hends hcur

theorem ends_run (calls : List (UInt64 × Registrar.Op)) : ∀ k, Ends (R.run P calls).successor k := by
  induction calls using List.reverseRecOn with
  | nil => exact fun k => .root rfl
  | append_singleton calls c ih =>
    rw [run_append]
    exact (step_changes (fun _ => True) (pendingSigned_run calls) c.2 fun _ _ _ _ => trivial).ends ih

theorem current_run (calls : List (UInt64 × Registrar.Op)) : (R.run P calls).Current := by
  induction calls using List.reverseRecOn with
  | nil => exact fun name r h => nomatch h
  | append_singleton calls c ih =>
    rw [run_append]
    exact (step_changes (fun _ => True) (pendingSigned_run calls) c.2 fun _ _ _ _ => trivial).current ih

/-- Standing only moves forward, and handles move only by the allowed routes: after any calls, the next
call changes nothing that was set of an identity, leaves no ring of rotations, issues to nobody revoked,
rotated away or frozen, and gives a handle to another identity only by its rotation, by a recovery
grant, or once it is free. -/
theorem standing_moves_forward (P : Primitives) (R : Registrar) (calls : List (UInt64 × Registrar.Op))
    (now : UInt64) (op : Registrar.Op) :
    MovesForward P R now (R.run P calls) (R.run P (calls ++ [(now, op)])) := by
  rw [run_append]
  exact step_moves_forward (pendingSigned_run calls) (ends_run calls) (current_run calls) op

end HxdNg.Registrars
