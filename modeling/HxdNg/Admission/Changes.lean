import Mathlib
import HxdNg.Admission.Admit

/-!
# What an admission changes

* `Turn` : one of the changes a rotation makes: it is accepted, its account link moves, it is noted moved;
  `standing_turns` : a check of standing makes no other, but that it drops a revoked device;
* `standing_eq_ok`, `admissible_eq_ok` : what an identity with standing passed;
* `Associated` : past standing only the accounts and the count of those created change;
  `admitted_cases`, `deviceAdmitted_cases` : what an admission comes to, passed or not.
-/

namespace HxdNg.Admission

open Identity
open Registrars (Attestation Record)

variable {A : Type} (P : Primitives) (cfg : IdentityConfig) (env : Env A)
  {known : Fingerprint → Fingerprint → Prop}

/-- A rotation recorded, its key refused and what was held under it dropped. -/
def Server.rotated (P : Primitives) (s : Server A) (anchors : Anchors) (from_ to_ : Fingerprint) : Server A :=
  { s with
    anchors := some { anchors with rotated := anchors.rotated.set from_ (to_, false) }
    refused := { s.refused with rotated := from_ :: s.refused.rotated }
    tables := s.tables.forget P from_ }

/-- A change a rotation among those `known` makes, or one that stands here. -/
inductive Turn (P : Primitives) (env : Env A) (known : Fingerprint → Fingerprint → Prop) :
    Server A → Server A → Prop
  | accept {s : Server A} {anchors : Anchors} (from_ to_ : Fingerprint) (hknown : known from_ to_)
    (hanchors : s.anchors = some anchors) (hnew : s.rotatedTo from_ = none)
    (hcommitted : ∀ x, s.committedSuccessor from_ = some x → x = to_) :
    Turn P env known s (s.rotated P anchors from_ to_)
  | relink (s : Server A) (from_ to_ : Fingerprint) (hrotated : s.rotatedTo from_ = some to_) :
    Turn P env known s { s with accounts := (env.auth.rotateLink s.accounts from_ to_).2 }
  | moved {s : Server A} {anchors : Anchors} (from_ : Fingerprint) (hanchors : s.anchors = some anchors) :
    Turn P env known s { s with anchors := some (anchors.moved from_) }

/-- Any number of turns. -/
abbrev Turns (P : Primitives) (env : Env A) (known : Fingerprint → Fingerprint → Prop) :
    Server A → Server A → Prop :=
  Relation.ReflTransGen (Turn P env known)

/-- The rotations a login shows, and those published against its identity. -/
def Learned (P : Primitives) (env : Env A) (card : Card) (rotation : Option (List UInt8))
    (from_ to_ : Fingerprint) : Prop :=
  ∃ r : Rotation, from_ = Fingerprint.of P r.identity ∧ to_ = Fingerprint.of P r.successor ∧
    ((∃ bytes, rotation = some bytes ∧ Rotation.parse P bytes = .ok r) ∨
      ∃ registrars hosts, env.registrars = some registrars ∧
        Record.rotate r ∈ (registrars.find card.identity hosts env.unix).records)

theorem rotatedTo_moved (a : Anchors) (from_ fp : Fingerprint) :
    (a.moved from_).rotatedTo fp = a.rotatedTo fp := by
  simp only [Anchors.rotatedTo, Anchors.moved, Assoc.Map.get_mapVals, Option.map_map]
  congr 1
  funext e
  simp only [Function.comp_apply]
  split <;> rfl

theorem finishRotation_turns (s : Server A) {from_ to_ : Fingerprint} (h : s.rotatedTo from_ = some to_) :
    Turns P env known s (s.finishRotation env from_ to_) := by
  unfold Server.finishRotation
  split
  · exact .refl
  next anchors hanchors =>
    have hrelink : Turns P env known s { s with accounts := (env.auth.rotateLink s.accounts from_ to_).2 } :=
      .single (.relink s from_ to_ h)
    cases hlink : env.auth.rotateLink s.accounts from_ to_ with
    | mk result accounts =>
      rw [hlink] at hrelink
      cases result with
      | error e => exact hrelink
      | ok a =>
        dsimp only
        split
        · exact hrelink.tail (.moved (s := { s with accounts }) from_ hanchors)
        · exact hrelink

theorem rotatedTo_finishRotation (s : Server A) (from_ to_ fp : Fingerprint) :
    (s.finishRotation env from_ to_).rotatedTo fp = s.rotatedTo fp := by
  unfold Server.finishRotation
  split
  · rfl
  next anchors hanchors =>
    split
    · rfl
    · split
      · simp only [Server.rotatedTo, hanchors, Option.bind_some, rotatedTo_moved]
      · rfl

theorem mem_unmoved {a : Anchors} {to_ : Option Fingerprint} {e : Fingerprint × Fingerprint}
    (h : e ∈ a.unmoved to_) : a.rotatedTo e.1 = some e.2 := by
  obtain ⟨⟨k, t, moved⟩, hmem, rfl⟩ := List.mem_map.mp h
  have hget := Assoc.Map.mem_entries_iff.mp (List.mem_filter.mp hmem).1
  rw [Anchors.rotatedTo, hget]
  rfl

theorem finishRotations_turns (s : Server A) (to_ : Option Fingerprint) :
    Turns P env known s (s.finishRotations env to_) := by
  unfold Server.finishRotations
  have hall : ∀ e ∈ s.anchors.elim [] (·.unmoved to_), s.rotatedTo e.1 = some e.2 := by
    intro e he
    cases hanchors : s.anchors with
    | none =>
      rw [hanchors] at he
      cases he
    | some a =>
      rw [hanchors] at he
      rw [Server.rotatedTo, hanchors]
      exact mem_unmoved he
  generalize s.anchors.elim [] (·.unmoved to_) = todo at hall
  induction todo generalizing s with
  | nil => exact .refl
  | cons e todo ih =>
    rw [List.foldl_cons]
    refine (finishRotation_turns P env s (hall e List.mem_cons_self)).trans (ih _ fun x hx => ?_)
    rw [rotatedTo_finishRotation env]
    exact hall x (List.mem_cons_of_mem _ hx)

theorem acceptRotation_turns (s : Server A) {from_ to_ : Fingerprint} (hknown : known from_ to_) :
    Turns P env known s (s.acceptRotation P env from_ to_) := by
  unfold Server.acceptRotation
  split
  · exact .refl
  next anchors hanchors =>
    split
    · exact .refl
    next hnew =>
    split
    · exact .refl
    next hcommitted =>
    have hfree : s.rotatedTo from_ = none := by
      rw [Server.rotatedTo, hanchors]
      exact Option.not_isSome_iff_eq_none.mp hnew
    have hnone : anchors.rotated.get from_ = none := by
      rw [Option.not_isSome_iff_eq_none, Anchors.rotatedTo, Option.map_eq_none_iff] at hnew
      exact hnew
    simp only [Anchors.rotate, hnone, Option.isSome_none, Bool.false_eq_true, if_false]
    have haccept : Turn P env known s (s.rotated P anchors from_ to_) := by
      refine .accept from_ to_ hknown hanchors hfree fun x hx => ?_
      rw [hx] at hcommitted
      simpa using hcommitted
    refine (Relation.ReflTransGen.single haccept).trans (finishRotation_turns P env _ ?_)
    simp [Server.rotatedTo, Server.rotated, Anchors.rotatedTo, Assoc.Map.get_set]

theorem rotationShown_turns (s : Server A) (bytes : List UInt8) (successor : Fingerprint)
    (hknown : ∀ r, Rotation.parse P bytes = .ok r →
      known (Fingerprint.of P r.identity) (Fingerprint.of P r.successor)) :
    Turns P env known s (s.rotationShown P env bytes successor) := by
  unfold Server.rotationShown
  split
  · exact .refl
  · next r hparse =>
    split
    · exact .refl
    · next hto =>
      dsimp only
      split
      · exact acceptRotation_turns P env s (not_not.mp hto ▸ hknown r hparse)
      · exact .refl

/-- What a call that drops the entry of a revoked device leaves, of what else it did. -/
def Dropped {α : Type} (device : PublicKey) (r : Except AuthRefused α) (t s' : Server A) : Prop :=
  s' = t ∨ r = .error .revoked ∧ s' = t.dropDevice device

theorem applyRecord_turns (fp : Fingerprint) (s : Server A) (device : PublicKey) (acc : Server.Applied)
    (r : Record)
    (hknown : ∀ rot, r = .rotate rot → known (Fingerprint.of P rot.identity) (Fingerprint.of P rot.successor)) :
    ∃ t, Turns P env known s t ∧
      Dropped device (s.applyRecord P env fp device acc r).1 t (s.applyRecord P env fp device acc r).2 := by
  cases r with
  | revokeIdentity r => exact ⟨s, .refl, .inl rfl⟩
  | revokeDevice r =>
    dsimp only [Server.applyRecord]
    split
    · exact ⟨s, .refl, .inr ⟨rfl, rfl⟩⟩
    · exact ⟨s, .refl, .inl rfl⟩
  | freeze r => exact ⟨s, .refl, .inl rfl⟩
  | revokeAttestation r => exact ⟨s, .refl, .inl rfl⟩
  | rotate r =>
    refine ⟨_, acceptRotation_turns P env s (hknown r rfl), .inl ?_⟩
    dsimp only [Server.applyRecord]
    split
    · split <;> rfl
    · rfl

theorem applyEach_turns (fp : Fingerprint) (records : List Record) (s : Server A) (device : PublicKey)
    (acc : Server.Applied)
    (hknown : ∀ rot, Record.rotate rot ∈ records →
      known (Fingerprint.of P rot.identity) (Fingerprint.of P rot.successor)) :
    ∃ t, Turns P env known s t ∧
      Dropped device (s.applyEach P env fp device acc records).1 t
        (s.applyEach P env fp device acc records).2 := by
  induction records generalizing s acc with
  | nil => exact ⟨s, .refl, .inl rfl⟩
  | cons r records ih =>
    unfold Server.applyEach
    obtain ⟨t, ht, hdrop⟩ := applyRecord_turns P env fp s device acc r
      fun rot hr => hknown rot (hr ▸ List.mem_cons_self)
    split
    · next heq =>
      rw [heq] at hdrop
      refine ⟨t, ht, hdrop.imp_right fun h => ⟨?_, h.2⟩⟩
      rw [Except.error.inj h.1]
    · next heq =>
      rw [heq] at hdrop
      obtain rfl : _ = t := hdrop.resolve_right (fun h => nomatch h.1)
      obtain ⟨t', ht', hdrop'⟩ := ih _ _ fun rot hr => hknown rot (List.mem_cons_of_mem _ hr)
      exact ⟨t', ht.trans ht', hdrop'⟩

theorem applyRecords_turns (s : Server A) (card : Card) (cert : DeviceCert)
    (hknown : ∀ registrars hosts rot, env.registrars = some registrars →
      Record.rotate rot ∈ (registrars.find card.identity hosts env.unix).records →
      known (Fingerprint.of P rot.identity) (Fingerprint.of P rot.successor)) :
    ∃ t, Turns P env known s t ∧
      Dropped cert.device (s.applyRecords P cfg env card cert).1 t (s.applyRecords P cfg env card cert).2 := by
  unfold Server.applyRecords
  split
  · exact ⟨s, .refl, .inl rfl⟩
  · next registrars hregistrars =>
    dsimp only
    split
    · exact ⟨s, .refl, .inl rfl⟩
    · obtain ⟨t, ht, hdrop⟩ := applyEach_turns P env (Fingerprint.of P card.identity)
        _ s cert.device ⟨card.attestations, []⟩ fun rot => hknown registrars _ rot hregistrars
      split
      · next heq =>
        rw [heq] at hdrop
        refine ⟨t, ht, hdrop.imp_right fun h => ⟨?_, h.2⟩⟩
        rw [Except.error.inj h.1]
      · next heq =>
        rw [heq] at hdrop
        obtain rfl : _ = t := hdrop.resolve_right (fun h => nomatch h.1)
        refine ⟨_, ht, .inl ?_⟩
        split
        · split <;> rfl
        · split <;> rfl

/-- A check of standing makes the turns of rotations it learned of or that stand here, and nothing else
but the drop of a revoked device. -/
theorem standing_turns (s : Server A) (card : Card) (cert : DeviceCert) (rotation : Option (List UInt8))
    (assoc : Association) :
    ∃ t, Turns P env (Learned P env card rotation) s t ∧
      Dropped cert.device (s.standing P cfg env card cert rotation assoc).1 t
        (s.standing P cfg env card cert rotation assoc).2 := by
  unfold Server.standing
  dsimp only
  split
  · exact ⟨s, .refl, .inl rfl⟩
  · have hshown : Turns P env (Learned P env card rotation) s (rotation.elim s fun bytes =>
        s.rotationShown P env bytes (Fingerprint.of P card.identity)) := by
      cases rotation with
      | none => exact .refl
      | some bytes =>
        exact rotationShown_turns P env s bytes _ fun r hr => ⟨r, rfl, rfl, .inl ⟨bytes, rfl, hr⟩⟩
    have hfinished := hshown.trans (finishRotations_turns P env _ (some (Fingerprint.of P card.identity)))
    split
    · exact ⟨_, hfinished, .inr ⟨rfl, rfl⟩⟩
    split
    · exact ⟨_, hfinished, .inl rfl⟩
    · have hpublished : ∀ registrars hosts (rot : Rotation), env.registrars = some registrars →
          Record.rotate rot ∈ (registrars.find card.identity hosts env.unix).records →
          Learned P env card rotation (Fingerprint.of P rot.identity) (Fingerprint.of P rot.successor) :=
        fun registrars hosts rot hregistrars hrot =>
          ⟨rot, rfl, rfl, .inr ⟨registrars, hosts, hregistrars, hrot⟩⟩
      obtain ⟨t, ht, hdrop⟩ := applyRecords_turns P cfg env _ card cert hpublished
      split
      · next heq =>
        rw [heq] at hdrop
        refine ⟨t, hfinished.trans ht, hdrop.imp_right fun h => ⟨?_, h.2⟩⟩
        rw [Except.error.inj h.1]
      · next heq =>
        rw [heq] at hdrop
        obtain rfl : _ = t := hdrop.resolve_right (fun h => nomatch h.1)
        exact ⟨_, hfinished.trans ht, .inl rfl⟩

/-- What the checks of an identity with standing found. -/
theorem admissible_eq_ok {s : Server A} {card : Card} {attestations : Option (List Attestation)}
    {assoc : Association} {st : Standing} (h : s.admissible P cfg env card attestations assoc = .ok st) :
    st.fingerprint = Fingerprint.of P card.identity ∧
      successorChanged (s.committedSuccessor (Fingerprint.of P card.identity)) card = false ∧
      (assoc = .write → identityBanned env st.fingerprint st.handle card = false) := by
  unfold Server.admissible at h
  dsimp only at h
  split at h
  · cases h
  split at h
  · cases h
  next hchanged =>
  split at h
  · cases h
  split at h
  · cases h
  split at h
  · cases h
  next hbanned =>
  split at h
  · cases h
  split at h
  · cases h
  obtain rfl := Except.ok.inj h
  refine ⟨rfl, by simpa using hchanged, fun hwrite => ?_⟩
  simpa [hwrite] using hbanned

theorem standing_eq_ok {s s' : Server A} {card : Card} {cert : DeviceCert} {rotation : Option (List UInt8)}
    {assoc : Association} {st : Standing}
    (h : s.standing P cfg env card cert rotation assoc = (.ok st, s')) :
    s.rotatedTo (Fingerprint.of P card.identity) = none ∧
      Turns P env (Learned P env card rotation) s s' ∧
      ∃ attestations, s'.admissible P cfg env card attestations assoc = .ok st := by
  obtain ⟨t, ht, hdrop⟩ := standing_turns P cfg env s card cert rotation assoc
  rw [h] at hdrop
  obtain rfl : s' = t := hdrop.resolve_right (fun h => nomatch h.1)
  unfold Server.standing at h
  dsimp only at h
  split at h
  · cases h
  next hfree =>
  split at h
  · cases h
  split at h
  · cases h
  split at h
  · cases h
  · obtain ⟨hok, rfl⟩ := Prod.mk.inj h
    exact ⟨hfree, ht, _, hok⟩

/-! ## Past standing -/

/-- The accounts changed, and the count of those created. -/
def Associated (s s' : Server A) : Prop :=
  ∃ created, s' = { s with accounts := s'.accounts, tables := { s.tables with created } }

theorem associated_of_accounts {s s' : Server A} (h : s' = { s with accounts := s'.accounts }) :
    Associated s s' :=
  ⟨s.tables.created, h⟩

theorem Associated.tokens {s s' : Server A} (h : Associated s s') : s'.tables.tokens = s.tables.tokens := by
  obtain ⟨created, h⟩ := h
  rw [h]

theorem linkExclusive_accounts {s s' : Server A} {login : String} {fp : Fingerprint}
    {r : Except AuthRefused LinkOutcome} (h : s.linkExclusive env login fp = (r, s')) :
    s' = { s with accounts := s'.accounts } := by
  obtain ⟨-, rfl⟩ := Prod.mk.inj h
  rfl

theorem linkAtAuth_accounts (s : Server A) (fp : Fingerprint) (cert : DeviceCert) (assoc : Association)
    (login : String) (password : List UInt8) :
    (s.linkAtAuth env fp cert assoc login password).2 =
      { s with accounts := (s.linkAtAuth env fp cert assoc login password).2.accounts } := by
  unfold Server.linkAtAuth
  split
  · rfl
  · rfl
  dsimp only
  split
  · rfl
  split
  · rfl
  split
  · rfl
  split
  · rfl
  split
  · rfl
  split
  · rfl
  · rfl
  · split
    all_goals
      next heq => exact linkExclusive_accounts env heq

theorem creationAllowed_associated (s : Server A) :
    Associated s (s.creationAllowed cfg env).2 ∧ (s.creationAllowed cfg env).2.accounts = s.accounts := by
  unfold Server.creationAllowed
  split
  · exact ⟨⟨_, rfl⟩, rfl⟩
  · exact ⟨⟨_, rfl⟩, rfl⟩

theorem chargeCreation_associated (s : Server A) :
    Associated s (s.chargeCreation cfg env) ∧ (s.chargeCreation cfg env).accounts = s.accounts := by
  unfold Server.chargeCreation
  split
  · exact ⟨⟨_, rfl⟩, rfl⟩
  · exact ⟨⟨_, rfl⟩, rfl⟩

theorem create_associated (s : Server A) (st : Standing) (card : Card) :
    Associated s (s.create cfg env st card).2 := by
  obtain ⟨⟨created, hallowed⟩, -⟩ := creationAllowed_associated cfg env s
  unfold Server.create
  split
  · next heq =>
    rw [heq] at hallowed
    exact ⟨created, hallowed⟩
  · next heq =>
    rw [heq] at hallowed
    dsimp only at hallowed ⊢
    split
    · exact ⟨created, by rw [hallowed]⟩
    · split
      · obtain ⟨⟨charged, hcharge⟩, -⟩ := chargeCreation_associated cfg env _
        exact ⟨charged, by rw [hcharge, hallowed]⟩
      · exact ⟨created, by rw [hallowed]⟩

/-- An association changes the accounts and the count of those created, and nothing else. -/
theorem associate_associated (s : Server A) (st : Standing) (card : Card) (cert : DeviceCert)
    (req : AuthRequest) (assoc : Association) :
    Associated s (s.associate cfg env st card cert req assoc).2 := by
  unfold Server.associate
  have hatAuth : ∀ x : Except AuthRefused (Option Account × Bool) × Server A,
      (req.classic = none → x = (.ok (none, false), s)) →
      (∀ login password, req.classic = some (login, password) →
        x = s.linkAtAuth env st.fingerprint cert assoc login password) →
      x.2 = { s with accounts := x.2.accounts } := by
    intro x hnone hsome
    cases hclassic : req.classic with
    | none =>
      rw [hnone hclassic]
    | some credentials =>
      rw [hsome _ _ hclassic]
      exact linkAtAuth_accounts env s st.fingerprint cert assoc credentials.1 credentials.2
  dsimp only
  split
  · next heq =>
    exact associated_of_accounts
      (hatAuth _ (fun h => heq.symm.trans (by rw [h])) (fun _ _ h => heq.symm.trans (by rw [h])))
  · next linked pending s₁ heq =>
    have hs : s₁ = { s with accounts := s₁.accounts } :=
      hatAuth _ (fun h => heq.symm.trans (by rw [h])) (fun _ _ h => heq.symm.trans (by rw [h]))
    split
    · exact associated_of_accounts hs
    · split <;> exact associated_of_accounts hs
    · split
      · exact associated_of_accounts hs
      split
      · exact associated_of_accounts hs
      split
      · exact associated_of_accounts hs
      split
      · exact associated_of_accounts hs
      split
      · exact associated_of_accounts hs
      split
      · exact associated_of_accounts hs
      · obtain ⟨created, hcreate⟩ := create_associated cfg env s₁ st card
        exact ⟨created, by rw [hcreate, hs]⟩

theorem proofAccount_accounts (s : Server A) (fp : Fingerprint) (cert : DeviceCert) (login : String)
    (cardShown encrypted : Bool) :
    (s.proofAccount env fp cert login cardShown encrypted).2 =
      { s with accounts := (s.proofAccount env fp cert login cardShown encrypted).2.accounts } := by
  unfold Server.proofAccount
  split
  · rfl
  · split
    · split <;> rfl
    split
    · rfl
    split
    · rfl
    split
    · rfl
    split
    · rfl
    split
    · rfl
    split
    · rfl
    · split
      all_goals
        next heq => exact linkExclusive_accounts env heq

/-- What an admission found, and left, where it passed. -/
structure Passed (card : Card) (cert : DeviceCert) (certBytes : List UInt8) (rotation : Option (List UInt8))
    (s t s' : Server A) (ident : TransportIdentity) : Prop where
  turns : Turns P env (Learned P env card rotation) s t
  associated : Associated t s'
  notRotated : s.rotatedTo (Fingerprint.of P card.identity) = none
  committed : successorChanged (t.committedSuccessor (Fingerprint.of P card.identity)) card = false
  fingerprint : ident.fingerprint = Fingerprint.of P card.identity
  identity : ident.identity = card.identity
  device : ident.device = cert.device
  deviceExpires : ident.deviceExpires = cert.expires
  deviceCert : ident.deviceCert = certBytes

/-- Whatever comes of an admission, its changes are a rotation's turns, the drop of a revoked device and
an association. -/
theorem admitted_cases (s : Server A) (v : Verified) (req : AuthRequest) (assoc : Association) :
    (∃ e, (s.admitted P cfg env v req assoc).1 = .error e ∧
      ∃ t u, Turns P env (Learned P env v.card req.rotation) s t ∧ (u = t ∨ u = t.dropDevice v.cert.device) ∧
        Associated u (s.admitted P cfg env v req assoc).2) ∨
    ∃ ident t, (s.admitted P cfg env v req assoc).1 = .ok ident ∧
      Passed P env v.card v.cert v.certBytes req.rotation s t (s.admitted P cfg env v req assoc).2 ident := by
  unfold Server.admitted
  split
  · next e s₁ hstanding =>
    obtain ⟨t, ht, hdrop⟩ := standing_turns P cfg env s v.card v.cert req.rotation assoc
    rw [hstanding] at hdrop
    exact .inl ⟨e, rfl, t, s₁, ht, hdrop.imp_right And.right, associated_of_accounts rfl⟩
  · next st t hstanding =>
    obtain ⟨hfree, ht, attestations, hadmissible⟩ := standing_eq_ok P cfg env hstanding
    obtain ⟨hfp, hchanged, -⟩ := admissible_eq_ok P cfg env hadmissible
    have hassociated := associate_associated cfg env t st v.card v.cert req assoc
    split
    · next e s₁ heq =>
      rw [heq] at hassociated
      exact .inl ⟨e, rfl, t, t, ht, .inl rfl, hassociated⟩
    · next outcome account s₁ heq =>
      rw [heq] at hassociated
      exact .inr ⟨_, t, rfl, ⟨ht, hassociated, hfree, hchanged, hfp, rfl, rfl, rfl, rfl⟩⟩

theorem deviceAdmitted_cases (s : Server A) (v : Verified) (login : String) (cardShown encrypted : Bool) :
    (∃ e, (s.deviceAdmitted P cfg env v login cardShown encrypted).1 = .error e ∧
      ∃ t u, Turns P env (Learned P env v.card none) s t ∧ (u = t ∨ u = t.dropDevice v.cert.device) ∧
        Associated u (s.deviceAdmitted P cfg env v login cardShown encrypted).2) ∨
    ∃ ident t, (s.deviceAdmitted P cfg env v login cardShown encrypted).1 = .ok ident ∧
      Passed P env v.card v.cert v.certBytes none s t
        (s.deviceAdmitted P cfg env v login cardShown encrypted).2 ident := by
  unfold Server.deviceAdmitted
  split
  · next e s₁ hstanding =>
    obtain ⟨t, ht, hdrop⟩ := standing_turns P cfg env s v.card v.cert none .write
    rw [hstanding] at hdrop
    exact .inl ⟨e, rfl, t, s₁, ht, hdrop.imp_right And.right, associated_of_accounts rfl⟩
  · next st t hstanding =>
    obtain ⟨hfree, ht, attestations, hadmissible⟩ := standing_eq_ok P cfg env hstanding
    obtain ⟨hfp, hchanged, -⟩ := admissible_eq_ok P cfg env hadmissible
    have haccounts := proofAccount_accounts env t st.fingerprint v.cert login cardShown encrypted
    split
    · next e s₁ heq =>
      rw [heq] at haccounts
      exact .inl ⟨e, rfl, t, t, ht, .inl rfl, associated_of_accounts haccounts⟩
    · next account s₁ heq =>
      rw [heq] at haccounts
      split
      · exact .inl ⟨_, rfl, t, t, ht, .inl rfl, associated_of_accounts haccounts⟩
      · exact .inr ⟨_, t, rfl,
          ⟨ht, associated_of_accounts haccounts, hfree, hchanged, hfp, rfl, rfl, rfl, rfl⟩⟩

end HxdNg.Admission
