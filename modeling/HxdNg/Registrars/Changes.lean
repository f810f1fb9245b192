import Mathlib
import HxdNg.Registrars.Service
import HxdNg.Lib.Results

/-!
# What a call can do

* `Change` : the writes a registrar makes, one at a time, each with what was checked before it;
* `Changes` : several, one after another;
* `step_changes` : a call is a due rotation or several, published or dropped, and then at most one
  write more.
-/

namespace HxdNg.Registrars

open HxdNg.Identity
open Assoc
open Registrar (rotationAllowed)

/-! ## The store's writes, field by field -/

namespace State

variable (s : State) (rs : List NewRecord)

/-- The store with these records written. -/
def written : State := rs.foldl write s

theorem written_cons (r : NewRecord) : s.written (r :: rs) = (s.write r).written rs := rfl

theorem write_eq (r : NewRecord) : ∃ new, s.write r = { s with records := s.records ++ new } ∧
    new ⊆ [r] ∧ ∃ held ∈ s.records ++ new, held.bytes = r.bytes := by
  rw [write]
  split
  · next h =>
    obtain ⟨held, hmem, hb⟩ := List.any_eq_true.mp h
    exact ⟨[], by simp, by simp, held, by simpa using hmem, by simpa using hb⟩
  · exact ⟨[r], rfl, by simp, r, by simp, rfl⟩

/-- Writing records only adds records, each of them one of those given, and leaves every one given
held. -/
theorem written_eq : ∃ new, s.written rs = { s with records := s.records ++ new } ∧ new ⊆ rs ∧
    ∀ r ∈ rs, ∃ held ∈ s.records ++ new, held.bytes = r.bytes := by
  induction rs generalizing s with
  | nil => exact ⟨[], by simp [written], by simp, by simp⟩
  | cons r rs ih =>
    obtain ⟨new, hw, hsub, held, hheld, hb⟩ := s.write_eq r
    obtain ⟨more, hm, hsub', hall⟩ := ih (s.write r)
    rw [hw] at hm hall
    refine ⟨new ++ more, ?_, ?_, ?_⟩
    · rw [written_cons, hw, hm]
      simp
    · intro x hx
      rcases List.mem_append.mp hx with hx | hx
      · exact List.mem_cons.mpr (Or.inl (by simpa using hsub hx))
      · exact List.mem_cons.mpr (Or.inr (hsub' hx))
    · intro x hx
      rcases List.mem_cons.mp hx with rfl | hx
      · exact ⟨held, by rw [← List.append_assoc]; exact List.mem_append_left _ hheld, hb⟩
      · obtain ⟨y, hy, hyb⟩ := hall x hx
        exact ⟨y, by rwa [← List.append_assoc], hyb⟩

@[simp] theorem written_nil : s.written [] = s := rfl

@[simp] theorem identities_written : (s.written rs).identities = s.identities := by
  obtain ⟨new, hw, -, -⟩ := s.written_eq rs
  rw [hw]

@[simp] theorem handles_written : (s.written rs).handles = s.handles := by
  obtain ⟨new, hw, -, -⟩ := s.written_eq rs
  rw [hw]

@[simp] theorem log_written : (s.written rs).log = s.log := by
  obtain ⟨new, hw, -, -⟩ := s.written_eq rs
  rw [hw]

@[simp] theorem pending_written : (s.written rs).pending = s.pending := by
  obtain ⟨new, hw, -, -⟩ := s.written_eq rs
  rw [hw]

@[simp] theorem recoveries_written : (s.written rs).recoveries = s.recoveries := by
  obtain ⟨new, hw, -, -⟩ := s.written_eq rs
  rw [hw]

@[simp] theorem invites_written : (s.written rs).invites = s.invites := by
  obtain ⟨new, hw, -, -⟩ := s.written_eq rs
  rw [hw]

theorem publish_snd (effects : List Effect) : (s.publish rs effects).2 = effects.foldl apply (s.written rs) :=
  rfl

/-- An invite that can be spent is spent, and nothing else is touched. -/
theorem spendInvite_eq_some {s t : State} {invite : Option (List UInt8)}
    (h : s.spendInvite invite = some t) : ∃ invites, t = { s with invites } ∧
      ((invite = none ∧ invites = s.invites) ∨
        ∃ hash, invite = some hash ∧ s.invites.get hash = some false ∧
          invites = s.invites.set hash true) := by
  cases invite with
  | none =>
    obtain rfl : s = t := by simpa [spendInvite] using h
    exact ⟨s.invites, rfl, Or.inl ⟨rfl, rfl⟩⟩
  | some hash =>
    rw [spendInvite] at h
    split at h
    · next hopen =>
      obtain rfl := Option.some.inj h
      exact ⟨_, rfl, Or.inr ⟨hash, rfl, hopen, rfl⟩⟩
    · cases h

/-- The row an issuance leaves its identity. -/
def issuedRow (s : State) (w : Issue) : IdentityRow :=
  let row := (s.identities.get w.identity).getD (newRow w.identity w.attestation.issued)
  { row with commitment := row.commitment.or w.commitment }

theorem issue_eq_some {s s' : State} {w : Issue} (h : s.issue w = some s') :
    ∃ invites, s' = { s with
        identities := s.identities.set w.identity (s.issuedRow w)
        handles := s.handles.set w.handle.name w.handle
        recoveries := w.recovery.elim s.recoveries s.recoveries.drop
        log := s.log ++ [⟨w.attestation, w.first, w.bytes⟩]
        invites := invites } ∧
      ((w.invite = none ∧ invites = s.invites) ∨
        ∃ hash, w.invite = some hash ∧ s.invites.get hash = some false ∧
          invites = s.invites.set hash true) := by
  obtain ⟨t, ht, rfl⟩ := Option.map_eq_some_iff.mp h
  obtain ⟨invites, rfl, hinv⟩ := spendInvite_eq_some ht
  exact ⟨invites, rfl, hinv⟩

end State

/-! ## Rotations, field by field -/

section Rotation
variable (P : Primitives) (R : Registrar) (s : State) (a b : PublicKey) (bytes : List UInt8) (now : UInt64)

/-- The records a rotation is published with. -/
def Registrar.rotationRecords : List NewRecord :=
  ⟨.rotate, a, some b, none, bytes⟩ :: (s.handlesOf a).map fun h =>
    R.attestationRevocation P s a h.name attestationReason.rotated now

theorem publishRotation_eq : (R.publishRotation P s a b bytes now).2 =
    (((s.written (R.rotationRecords P s a b bytes now)).apply (.rotate a b now)).apply
      (.dropPending a)) := rfl

theorem get_identity_rotated (k : PublicKey) (hne : a ≠ b) :
    (R.publishRotation P s a b bytes now).2.identities.get k =
      if k = b then some ((s.identities.get b).getD (State.newRow b now))
      else (s.identities.get k).map fun row => if k = a then { row with rotatedTo := some b } else row := by
  simp only [publishRotation_eq, State.apply, State.onIdentity, State.identities_written, Map.get_set,
    Map.get_mapVals, if_neg hne.symm, Option.map_id']

theorem get_handle_rotated (name : String) :
    (R.publishRotation P s a b bytes now).2.handles.get name =
      (s.handles.get name).map fun h => if h.identity = a then { h with identity := b } else h := by
  simp only [publishRotation_eq, State.apply, State.onIdentity, State.handles_written, Map.get_mapVals]

end Rotation

/-! ## Changes -/

variable (P : Primitives) (R : Registrar)

/-- The bytes a rotation is held with are the rotation's. -/
def Pending.Signed (p : Pending) : Prop :=
  ∃ r, Record.parse P p.bytes (some (R.signer P)) = .ok (.rotate r) ∧ p.identity = r.identity ∧
    p.successor = r.successor

/-- One write, and what was checked before it, the reasons the operator gives being such as `said`. -/
inductive Change (said : UInt64 → Prop) (now : UInt64) (s : State) : State → Prop where
  | rotated {r : Rotation} {bytes : List UInt8} {row : IdentityRow}
      (hparse : Record.parse P bytes (some (R.signer P)) = .ok (.rotate r))
      (hrow : s.identities.get r.identity = some row) (husable : usable row = .ok ())
      (hallowed : rotationAllowed P s row r.successor = .ok ()) :
      Change said now s (R.publishRotation P s r.identity r.successor bytes now).2
  | dropped (key : PublicKey) : Change said now s (s.publish [] [.dropPending key]).2
  | held {p : Pending} (hp : p.Signed P R) : Change said now s (s.publish [] [.setPending p]).2
  | device {r : DeviceRevocation} {bytes : List UInt8}
      (hparse : Record.parse P bytes (some (R.signer P)) = .ok (.revokeDevice r)) :
      Change said now s (s.publish [⟨.revokeDevice, r.identity, none, some r.lastsUntil, bytes⟩] []).2
  | revoked {r : IdentityRevocation} {bytes : List UInt8} {row : IdentityRow}
      (hparse : Record.parse P bytes (some (R.signer P)) = .ok (.revokeIdentity r))
      (hrow : s.identities.get r.identity = some row) (husable : usable row = .ok ()) :
      Change said now s (s.publish [⟨.revokeIdentity, r.identity, none, none, bytes⟩]
        [.revoke r.identity, .lapseHandles r.identity now, .dropPending r.identity]).2
  | frozen {row : IdentityRow} (frozen : Bool) (hrow : row ∈ s.identities.values) :
      Change said now s (s.publish
        [⟨.freeze, row.key, none, none,
          Freeze.sign P ⟨row.key, R.host, frozen, R.freezeTime P s row.key now⟩ R.key⟩]
        (.setFrozen row.key frozen :: if frozen then [.dropPending row.key] else [])).2
  | lapsed {name : String} {h : HandleRow} {reason : UInt64} (hreason : said reason)
      (bar : Bool) (hh : s.handles.get name = some h) :
      Change said now s (s.publish [R.attestationRevocation P s h.identity name reason now]
        [.lapseHandle name now bar]).2
  | recovered {name : String} {h : HandleRow} {fp : Fingerprint} (keepAge : Bool)
      (hh : s.handles.get name = some h) (hfp : Fingerprint.of P h.identity ≠ fp) :
      Change said now s (s.publish
        [R.attestationRevocation P s h.identity name attestationReason.recovered now]
        [.lapseHandle name now true, .grantRecovery ⟨name, fp, keepAge, now⟩]).2
  | committed (key : PublicKey) (c : Bytes 32) : Change said now s (s.setCommitment key c)
  | invited (hashes : List (List UInt8)) : Change said now s (s.addInvites hashes)
  | issued {bytes : List UInt8} {req : RegisterRequest} {limited : Option UInt64} {w : Issue}
      {s' : State} (hparse : RegisterRequest.parse P bytes = .ok req) (hhost : req.registrar = R.host)
      (hdecided : R.registration P s req limited now = .ok w) (hissue : s.issue w = some s') :
      Change said now s s'

/-- Writes one after another. -/
abbrev Changes (said : UInt64 → Prop) (now : UInt64) : State → State → Prop :=
  Relation.ReflTransGen (Change P R said now)

/-- The rotations held back are held with their own bytes. -/
def State.PendingSigned (s : State) : Prop := ∀ key p, s.pending.get key = some p → p.Signed P R

variable {P} {R} {said : UInt64 → Prop} {now : UInt64} {s s' : State}

theorem State.PendingSigned.drop (hs : s.PendingSigned P R) (k : PublicKey) :
    ∀ key p, (s.pending.drop k).get key = some p → p.Signed P R :=
  fun key p hp => hs key p (Map.get_drop_some hp).2

theorem Change.pendingSigned (h : Change P R said now s s') (hs : s.PendingSigned P R) :
    s'.PendingSigned P R := by
  intro key q hq
  cases h with
  | rotated hparse hrow husable hallowed =>
    simp only [Registrar.publishRotation, State.publish_snd, List.foldl, State.apply,
      State.onIdentity, State.pending_written] at hq
    exact hs.drop _ key q hq
  | dropped k => exact hs.drop k key q hq
  | held hp =>
    rcases Map.get_set_cases hq with ⟨-, rfl⟩ | ⟨-, hq⟩
    · exact hp
    · exact hs key q hq
  | device hparse =>
    rw [State.publish_snd, List.foldl_nil, State.pending_written] at hq
    exact hs key q hq
  | revoked hparse hrow husable =>
    simp only [State.publish_snd, List.foldl, State.apply, State.onIdentity, State.pending_written] at hq
    exact hs.drop _ key q hq
  | frozen frozen hrow =>
    cases frozen with
    | true =>
      simp only [State.publish_snd, List.foldl, State.apply, State.onIdentity, State.pending_written,
        if_true] at hq
      exact hs.drop _ key q hq
    | false =>
      simp only [State.publish_snd, List.foldl, State.apply, State.onIdentity, State.pending_written] at hq
      exact hs key q hq
  | lapsed hreason bar hh =>
    simp only [State.publish_snd, List.foldl, State.apply, State.pending_written] at hq
    exact hs key q hq
  | recovered keepAge hh hfp =>
    simp only [State.publish_snd, List.foldl, State.apply, State.pending_written] at hq
    exact hs key q hq
  | committed k c => exact hs key q hq
  | invited hashes => exact hs key q hq
  | issued hparse hhost hdecided hissue =>
    obtain ⟨invites, rfl, -⟩ := State.issue_eq_some hissue
    exact hs key q hq

/-! ## Each call is some of them -/

theorem foldl_publishOne_changes (ps : List Pending) (hps : ∀ p ∈ ps, p.Signed P R) (s : State) :
    Changes P R said now s (ps.foldl (fun s p => R.publishOne P s now p) s) := by
  induction ps generalizing s with
  | nil => exact .refl
  | cons p ps ih =>
    rw [List.forall_mem_cons] at hps
    refine Relation.ReflTransGen.head ?_ (ih hps.2 _)
    show Change P R said now s (R.publishOne P s now p)
    rw [Registrar.publishOne]
    cases hd : Registrar.dueRefused P s p with
    | some e => exact .dropped p.identity
    | none =>
      obtain ⟨r, hparse, hid, hsucc⟩ := hps.1
      obtain ⟨row, hrow, hu, ha⟩ : ∃ row, s.identities.get p.identity = some row ∧
          usable row = .ok () ∧ rotationAllowed P s row p.successor = .ok () := by
        rw [Registrar.dueRefused] at hd
        cases hrow : s.identities.get p.identity with
        | none => simp [hrow] at hd
        | some row =>
          simp only [hrow] at hd
          split at hd
          · cases hd
          · cases hd
          · next hu ha => exact ⟨row, rfl, hu, ha⟩
      rw [hid, hsucc] at *
      exact .rotated hparse hrow hu ha

variable (said) (now) in
theorem publishDue_changes (hs : s.PendingSigned P R) : Changes P R said now s (R.publishDue P s now) := by
  refine foldl_publishOne_changes _ (fun p hp => ?_) s
  rw [State.pendingDue, mem_sortBy, List.mem_filter, Map.mem_values_iff] at hp
  obtain ⟨⟨k, hk⟩, -⟩ := hp
  exact hs k p hk

theorem Changes.pendingSigned (h : Changes P R said now s s') (hs : s.PendingSigned P R) :
    s'.PendingSigned P R := by
  induction h with
  | refl => exact hs
  | tail _ hc ih => exact hc.pendingSigned ih

/-- What a registration leaves: the state it was decided on, or one issuance more. -/
theorem registerNow_change {bytes : List UInt8} {req : RegisterRequest} {limited : Option UInt64}
    (hparse : RegisterRequest.parse P bytes = .ok req) (hhost : req.registrar = R.host) :
    (R.registerNow P s req limited now).2 = s ∨ Change P R said now s (R.registerNow P s req limited now).2 := by
  rw [Registrar.registerNow]
  split
  · exact Or.inl rfl
  · next w hw =>
    split
    · exact Or.inl rfl
    · next s' hs' => exact Or.inr (.issued hparse hhost hw hs')

theorem postNow_change {record : Record} {bytes : List UInt8} {limited : Option UInt64}
    (hparse : Record.parse P bytes (some (R.signer P)) = .ok record) :
    (R.postNow P s record bytes limited now).2 = s ∨
      Change P R said now s (R.postNow P s record bytes limited now).2 := by
  rw [Registrar.postNow]
  split
  · exact Or.inl rfl
  split
  · exact Or.inl rfl
  split
  · exact Or.inl rfl
  next row hrow =>
  split
  · exact Or.inl rfl
  · exact Or.inl rfl
  next hu =>
  cases record with
  | revokeDevice r => exact Or.inr (.device hparse)
  | revokeIdentity r => exact Or.inr (.revoked hparse hrow hu)
  | rotate r =>
    rw [Registrar.accept, Registrar.acceptRotation]
    split
    · exact Or.inl rfl
    split
    · exact Or.inl rfl
    next ha =>
    split
    · exact Or.inr (.held ⟨r, hparse, rfl, rfl⟩)
    · exact Or.inr (.rotated hparse hrow hu ha)
  | freeze f => exact Or.inl rfl
  | revokeAttestation r => exact Or.inl rfl

variable (P) (R) (said) (now) in
/-- A call writes nothing, makes one write of its own, or publishes what is due and then makes one
write at most. -/
theorem step_cases (s : State) (op : Registrar.Op)
    (hsaid : ∀ handle reason bar, op = .revokeHandle handle reason bar → said reason) :
    R.step P s now op = s ∨ (∃ key c, R.step P s now op = s.setCommitment key c) ∨
    (∃ hashes, R.step P s now op = s.addInvites hashes) ∨
    R.step P s now op = R.publishDue P s now ∨
    Change P R said now (R.publishDue P s now) (R.step P s now op) := by
  have hdue : ∀ {t : State}, t = R.publishDue P s now ∨ Change P R said now (R.publishDue P s now) t →
      t = s ∨ (∃ key c, t = s.setCommitment key c) ∨ (∃ hashes, t = s.addInvites hashes) ∨
        t = R.publishDue P s now ∨ Change P R said now (R.publishDue P s now) t :=
    fun h => Or.inr (Or.inr (Or.inr h))
  cases op with
  | register bytes limited seen =>
    simp only [Registrar.step, Registrar.register]
    split
    · exact Or.inl rfl
    next req hparse =>
    split
    · exact Or.inl rfl
    next hhost =>
    split
    · exact Or.inl rfl
    split
    · exact Or.inl rfl
    split
    · exact Or.inl rfl
    · exact hdue (registerNow_change hparse (not_not.mp hhost))
  | postRecord bytes limited =>
    simp only [Registrar.step, Registrar.postRecord]
    split
    · exact Or.inl rfl
    next record hparse =>
    split
    · exact Or.inl rfl
    split
    · exact Or.inl rfl
    · exact hdue (postNow_change hparse)
  | freeze fp frozen =>
    simp only [Registrar.step, Registrar.freeze]
    split
    · exact hdue (Or.inl rfl)
    · next row hrow => exact hdue (Or.inr (.frozen frozen (List.mem_of_find?_eq_some hrow)))
  | revokeHandle handle reason bar =>
    simp only [Registrar.step, Registrar.revokeHandle]
    split
    · exact hdue (Or.inl rfl)
    · next h hh => exact hdue (Or.inr (.lapsed (hsaid _ _ _ rfl) bar hh))
  | recover handle newFp keepAge =>
    simp only [Registrar.step, Registrar.recover]
    split
    · exact hdue (Or.inl rfl)
    next h hh =>
    split
    · exact hdue (Or.inl rfl)
    · next hfp => exact hdue (Or.inr (.recovered keepAge hh hfp))
  | noteCard identity successor =>
    cases successor with
    | none => exact Or.inl rfl
    | some c => exact Or.inr (Or.inl ⟨identity, c, rfl⟩)
  | addInvites codes => exact Or.inr (Or.inr (Or.inl ⟨codes.map inviteHash, rfl⟩))
  | list => exact hdue (Or.inl rfl)
  | read => exact Or.inl rfl

variable (said) in
theorem step_changes (hs : s.PendingSigned P R) (op : Registrar.Op)
    (hsaid : ∀ handle reason bar, op = .revokeHandle handle reason bar → said reason) :
    Changes P R said now s (R.step P s now op) := by
  have hdue := publishDue_changes said now hs
  rcases step_cases P R said now s op hsaid with h | ⟨k, c, h⟩ | ⟨hashes, h⟩ | h | h
  · rw [h]
  · rw [h]
    exact .single (.committed k c)
  · rw [h]
    exact .single (.invited hashes)
  · rw [h]
    exact hdue
  · exact hdue.tail h

theorem run_append (calls : List (UInt64 × Registrar.Op)) (c : UInt64 × Registrar.Op) :
    R.run P (calls ++ [c]) = R.step P (R.run P calls) c.1 c.2 := by
  rw [Registrar.run, List.foldl_append]
  rfl

theorem pendingSigned_run (calls : List (UInt64 × Registrar.Op)) : (R.run P calls).PendingSigned P R := by
  induction calls using List.reverseRecOn with
  | nil => exact fun key p h => nomatch h
  | append_singleton calls c ih =>
    rw [run_append]
    exact (step_changes (fun _ => True) ih c.2 fun _ _ _ _ => trivial).pendingSigned ih

/-! ## Issuances -/

/-- What a registration was granted on, and what it writes. -/
structure Decided (P : Primitives) (R : Registrar) (s : State) (now : UInt64) (req : RegisterRequest)
    (w : Issue) : Prop where
  identity : w.identity = req.identity
  name : w.handle.name = req.handle
  holder : w.handle.identity = req.identity
  fresh : w.handle.lapsedAt = none ∧ w.handle.barred = false
  expires : w.handle.expires = satAdd w.attestation.issued (satMul R.attestationDays day)
  names : w.attestation.identity = req.identity ∧ w.attestation.registrar = R.host ∧
    w.attestation.handle = req.handle
  issued : w.attestation.issued = R.issuedAt P s req now
  lasts : w.attestation.expires = w.handle.expires
  standing : ∀ row, s.identities.get req.identity = some row →
    usable row = .ok () ∧ ∀ c, row.commitment = some c → req.successor = some c
  route : (∃ g, s.recoveries.get req.handle = some g ∧ g.fingerprint = Fingerprint.of P req.identity ∧
      w.recovery = some g.handle) ∨
    (s.recoveries.get req.handle = none ∧ w.recovery = none ∧
      ∀ h, s.handles.get req.handle = some h →
        h.state now R.hold = .released ∨ (h.identity = req.identity ∧ h.barred = false))
  invited : w.first = true → R.signup = .invite → ∃ hash, w.invite = some hash

theorem claimOf_eq_ok {req : RegisterRequest} {claim : Claim} (h : R.claimOf P s req now = .ok claim) :
    (∃ g, s.recoveries.get req.handle = some g ∧ g.fingerprint = Fingerprint.of P req.identity ∧
      claim.recovery = some g.handle) ∨
    (s.recoveries.get req.handle = none ∧ claim.recovery = none ∧
      ∀ h, s.handles.get req.handle = some h →
        h.state now R.hold = .released ∨ (h.identity = req.identity ∧ h.barred = false)) := by
  rw [Registrar.claimOf] at h
  split at h
  · next g hg =>
    split at h
    · next hfp =>
      obtain rfl := Except.ok.inj h
      exact Or.inl ⟨g, hg, hfp, rfl⟩
    · cases h
  · next row hg hh =>
    refine Or.inr ⟨hg, ?_⟩
    rw [hh]
    split at h
    · next hid =>
      split at h
      · next hst =>
        obtain rfl := Except.ok.inj h
        exact ⟨rfl, fun _ hr => Or.inl (Option.some.inj hr ▸ hst)⟩
      split at h
      · cases h
      · next hbar =>
        obtain rfl := Except.ok.inj h
        refine ⟨rfl, fun _ hr => Or.inr ?_⟩
        obtain rfl := Option.some.inj hr
        exact ⟨hid, by simpa using hbar⟩
    · split at h
      · cases h
      · cases h
      · next hst =>
        obtain rfl := Except.ok.inj h
        exact ⟨rfl, fun _ hr => Or.inl (Option.some.inj hr ▸ hst)⟩
  · next hg hh =>
    obtain rfl := Except.ok.inj h
    exact Or.inr ⟨hg, rfl, fun _ hr => by rw [hh] at hr; cases hr⟩

theorem checkIdentity_eq_ok {req : RegisterRequest} {u : Unit}
    (h : Registrar.checkIdentity s req = .ok u) {row : IdentityRow}
    (hrow : s.identities.get req.identity = some row) :
    usable row = .ok () ∧ ∀ c, row.commitment = some c → req.successor = some c := by
  simp only [Registrar.checkIdentity, hrow, bind_eq_ok, ite_throw_eq_ok] at h
  obtain ⟨⟨⟩, hu, hc, -⟩ := h
  refine ⟨hu, fun c hcom => ?_⟩
  by_contra hne
  exact hc ⟨by rw [hcom]; rfl, by rw [hcom]; exact hne⟩

theorem registration_eq_ok {req : RegisterRequest} {limited : Option UInt64} {w : Issue}
    (h : R.registration P s req limited now = .ok w) : Decided P R s now req w := by
  simp only [Registrar.registration, bind_eq_ok, ite_throw_eq_ok, pure_eq_ok] at h
  obtain ⟨⟨⟩, hid, claim, hclaim, invite, hinv, -, rfl⟩ := h
  refine ⟨rfl, rfl, rfl, ⟨rfl, rfl⟩, rfl, ⟨rfl, rfl, rfl⟩, rfl, rfl,
    fun row => checkIdentity_eq_ok hid, claimOf_eq_ok hclaim, fun hfirst hsign => ?_⟩
  simp only [Registrar.newcomer, ite_error_eq_ok, show claim.first = true from hfirst, not_true,
    if_false, bind_eq_ok, Registrar.admitted, hsign] at hinv
  obtain ⟨-, invite', hadm, hlim⟩ := hinv
  split at hadm
  · cases hadm
  split at hadm
  · obtain rfl := Except.ok.inj hadm
    cases limited with
    | none => exact ⟨_, (pure_eq_ok.mp hlim).symm⟩
    | some wait => cases hlim
  · cases hadm

end HxdNg.Registrars
