import HxdNg.Admission.Steps
import HxdNg.Lib.Results

/-!
# What is on file

* `Calm` : what every step but the three writes does to the commitments, the rotations and the tables;
  `step_calm`;
* `evictOldest_get`, `rememberToken_get`, `rememberDevice_get`, `rememberCard_get` : what a table holds after
  an insertion;
* `World.Sound` : all that is on file or in flight was verified; `step_sound`, `run_sound`, `filed_sound`.
-/

namespace HxdNg.Admission

open Identity Assoc

variable {A : Type} (P : Primitives) (canonicalHost : String → Option String) (serverKey : PublicKey)
  (cfg : IdentityConfig)

/-- The successor anchored for an identity. -/
def Server.anchored (s : Server A) (fp : Fingerprint) : Option (Bytes 32) := s.anchors.bind (·.get fp)

/-- The card cached for an identity. -/
def Server.cached (s : Server A) (fp : Fingerprint) : Option CardRecord := s.tables.cards.get fp

theorem committedSuccessor_of_anchored {s : Server A} {fp : Fingerprint} {x : Bytes 32}
    (h : s.anchored fp = some x) : s.committedSuccessor fp = some x := by
  unfold Server.anchored at h
  rw [Server.committedSuccessor, h]
  rfl

/-- Nothing anchored and nothing taken on file, and each rotation accepted one to the key anchored, if any,
with the cards of its predecessor dropped. -/
structure Calm (s t : Server A) : Prop where
  anchored : ∀ fp, t.anchored fp = s.anchored fp
  cached : ∀ fp e, t.cached fp = some e → s.cached fp = some e
  devices : ∀ d r, t.tables.devices.get d = some r → s.tables.devices.get d = some r
  tokens : ∀ k x, t.tables.tokens.get k = some x → s.tables.tokens.get k = some x
  rotated : ∀ fp y, s.rotatedTo fp = some y → t.rotatedTo fp = some y
  accepted : ∀ fp y, s.rotatedTo fp = none → t.rotatedTo fp = some y →
    t.cached fp = none ∧ fp ∈ t.refused.rotated ∧ ∀ x, s.anchored fp = some x → y = x
  refused : ∀ fp ∈ s.refused.rotated, fp ∈ t.refused.rotated

/-- Only the tables changed, and there only what is dropped or is not on file. -/
theorem Calm.of_tables {s t : Server A} (hanchors : t.anchors = s.anchors)
    (hrefused : t.refused.rotated = s.refused.rotated)
    (hcached : ∀ fp e, t.cached fp = some e → s.cached fp = some e)
    (hdevices : ∀ d r, t.tables.devices.get d = some r → s.tables.devices.get d = some r)
    (htokens : ∀ k x, t.tables.tokens.get k = some x → s.tables.tokens.get k = some x) : Calm s t where
  anchored fp := by rw [Server.anchored, hanchors, Server.anchored]
  cached := hcached
  devices := hdevices
  tokens := htokens
  rotated fp y h := by rwa [Server.rotatedTo, hanchors]
  accepted fp y h h' := by
    rw [Server.rotatedTo, hanchors] at h'
    cases h.symm.trans h'
  refused fp h := by rwa [hrefused]

theorem Calm.refl (s : Server A) : Calm s s :=
  .of_tables rfl rfl (fun _ _ h => h) (fun _ _ h => h) fun _ _ h => h

theorem Calm.trans {s t u : Server A} (h : Calm s t) (h' : Calm t u) : Calm s u where
  anchored fp := (h'.anchored fp).trans (h.anchored fp)
  cached fp e he := h.cached fp e (h'.cached fp e he)
  devices d r hr := h.devices d r (h'.devices d r hr)
  tokens k x hx := h.tokens k x (h'.tokens k x hx)
  rotated fp y hy := h'.rotated fp y (h.rotated fp y hy)
  accepted fp y hs hu := by
    cases ht : t.rotatedTo fp with
    | none =>
      obtain ⟨hcached, hrefused, hanchored⟩ := h'.accepted fp y ht hu
      exact ⟨hcached, hrefused, fun x hx => hanchored x ((h.anchored fp).trans hx)⟩
    | some z =>
      obtain rfl : z = y := Option.some.inj ((h'.rotated fp z ht).symm.trans hu)
      obtain ⟨hcached, hrefused, hanchored⟩ := h.accepted fp z hs ht
      refine ⟨?_, h'.refused fp hrefused, hanchored⟩
      cases hcached' : u.cached fp with
      | none => rfl
      | some e => exact absurd (hcached.symm.trans (h'.cached fp e hcached')) (by nofun)
  refused fp hfp := h'.refused fp (h.refused fp hfp)

theorem rotatedTo_rotated (s : Server A) {anchors : Anchors} (hanchors : s.anchors = some anchors)
    (from_ to_ fp : Fingerprint) :
    (s.rotated P anchors from_ to_).rotatedTo fp = if fp = from_ then some to_ else s.rotatedTo fp := by
  simp only [Server.rotatedTo, Server.rotated, hanchors, Option.bind_some, Anchors.rotatedTo, Map.get_set]
  split <;> rfl

variable {P} in
theorem Turn.calm {env : Env A} {known : Fingerprint → Fingerprint → Prop} {s t : Server A}
    (h : Turn P env known s t) : Calm s t := by
  cases h with
  | accept from_ to_ hknown hanchors hnew hcommitted =>
    constructor
    · intro fp
      rw [Server.anchored, Server.anchored, hanchors]
      rfl
    · intro fp e he
      exact (Map.get_drop_some he).2
    · intro d r hr
      exact ((Option.filter_eq_some_iff).mp ((Map.get_filter _ _).symm.trans hr)).1
    · intro k x hx
      exact ((Option.filter_eq_some_iff).mp ((Map.get_filter _ _).symm.trans hx)).1
    · intro fp y hy
      rw [rotatedTo_rotated P s hanchors, if_neg]
      · exact hy
      · rintro rfl
        cases hnew.symm.trans hy
    · intro fp y hs ht
      rw [rotatedTo_rotated P s hanchors] at ht
      split at ht
      · next hfp =>
        subst hfp
        refine ⟨?_, List.mem_cons_self, fun x hx => ?_⟩
        · show ((s.tables.cards.drop fp).get fp) = none
          rw [Map.get_drop, if_pos rfl]
        · rw [← Option.some.inj ht]
          exact (hcommitted x (committedSuccessor_of_anchored hx)).symm
      · cases hs.symm.trans ht
    · intro fp hfp
      exact List.mem_cons_of_mem _ hfp
  | relink from_ to_ hrotated =>
    exact .of_tables rfl rfl (fun _ _ h => h) (fun _ _ h => h) fun _ _ h => h
  | moved from_ hanchors =>
    rename_i anchors
    have hrotatedTo : ∀ fp, ({ s with anchors := some (anchors.moved from_) } : Server A).rotatedTo fp =
        s.rotatedTo fp := by
      intro fp
      simp only [Server.rotatedTo, hanchors, Option.bind_some, rotatedTo_moved]
    constructor
    · intro fp
      rw [Server.anchored, Server.anchored, hanchors]
      rfl
    · exact fun _ _ h => h
    · exact fun _ _ h => h
    · exact fun _ _ h => h
    · intro fp y hy
      rwa [hrotatedTo]
    · intro fp y hs ht
      rw [hrotatedTo] at ht
      cases hs.symm.trans ht
    · exact fun _ h => h

variable {P} in
theorem Turns.calm {env : Env A} {known : Fingerprint → Fingerprint → Prop} {s t : Server A}
    (h : Turns P env known s t) : Calm s t := by
  induction h with
  | refl => exact .refl _
  | tail _ hturn ih => exact ih.trans hturn.calm

theorem Associated.calm {s t : Server A} (h : Associated s t) : Calm s t := by
  obtain ⟨created, h⟩ := h
  rw [h]
  exact .of_tables rfl rfl (fun _ _ h => h) (fun _ _ h => h) fun _ _ h => h

theorem dropDevice_calm {s t : Server A} {device : PublicKey} (h : t = s ∨ t = s.dropDevice device) :
    Calm s t := by
  rcases h with rfl | rfl
  · exact .refl _
  · exact .of_tables rfl rfl (fun _ _ h => h) (fun _ _ h => (Map.get_drop_some h).2) fun _ _ h => h

theorem admitted_calm (env : Env A) (s : Server A) (v : Verified) (req : AuthRequest) (assoc : Association) :
    Calm s (s.admitted P cfg env v req assoc).2 := by
  rcases admitted_cases P cfg env s v req assoc with ⟨e, -, t, u, ht, hu, hassociated⟩ | ⟨ident, t, -, h⟩
  · exact ht.calm.trans ((dropDevice_calm hu).trans hassociated.calm)
  · exact h.turns.calm.trans h.associated.calm

theorem deviceAdmitted_calm (env : Env A) (s : Server A) (v : Verified) (login : String)
    (cardShown encrypted : Bool) : Calm s (s.deviceAdmitted P cfg env v login cardShown encrypted).2 := by
  rcases deviceAdmitted_cases P cfg env s v login cardShown encrypted with
    ⟨e, -, t, u, ht, hu, hassociated⟩ | ⟨ident, t, -, h⟩
  · exact ht.calm.trans ((dropDevice_calm hu).trans hassociated.calm)
  · exact h.turns.calm.trans h.associated.calm

/-! ## Steps -/

/-- The writes of an admission and of a card update. -/
def Op.Writes : Op A → Prop
  | .remember _ | .anchor _ | .replaceCard _ => True
  | _ => False

@[simp] theorem check_server (w : World A) (card : Card) (cardBytes : List UInt8)
    (token : Option (Bytes 32)) (downstream : Downstream)
    (r : Except AuthRefused TransportIdentity × Server A) :
    (w.check card cardBytes token downstream r).server = r.2 := by
  obtain ⟨_ | _, _⟩ := r <;> rfl

/-- Only challenges and tokens changed, of which none was added to the last. -/
theorem calm_of_file {s : Server A} {t : Tables} (hcards : t.cards = s.tables.cards)
    (hdevices : t.devices = s.tables.devices)
    (htokens : ∀ k x, t.tokens.get k = some x → s.tables.tokens.get k = some x) :
    Calm s { s with tables := t } := by
  refine .of_tables rfl rfl (fun fp e he => ?_) (fun d r hr => ?_) htokens
  · rw [Server.cached, ← hcards]
    exact he
  · rw [← hdevices]
    exact hr

theorem step_calm (w : World A) (act : Act A) (h : ¬ act.op.Writes) :
    Calm w.server (w.step P canonicalHost serverKey cfg act).server := by
  obtain ⟨env, op⟩ := act
  unfold World.step
  dsimp only
  cases op with
  | remember i => exact absurd trivial h
  | anchor i => exact absurd trivial h
  | replaceCard i => exact absurd trivial h
  | issueChallenge drawn =>
    have hissue : Calm w.server (w.server.issueChallenge P env drawn).2 := by
      unfold Server.issueChallenge
      dsimp only
      split
      · split <;> exact calm_of_file rfl rfl fun _ _ h => h
      · split <;> exact calm_of_file rfl rfl fun _ _ h => h
    dsimp only
    split
    · next heq =>
      rw [heq] at hissue
      exact hissue
    · next heq =>
      rw [heq] at hissue
      exact hissue
  | verifyProof card cert proof host =>
    have hverify : Calm w.server (w.server.verifyProof P canonicalHost serverKey cfg env card cert proof host).2 := by
      unfold Server.verifyProof
      split
      · exact .refl _
      · dsimp only
        split
        · exact calm_of_file rfl rfl fun _ _ h => h
        split
        · exact calm_of_file rfl rfl fun _ _ h => h
        split
        · exact calm_of_file rfl rfl fun _ _ h => h
        split
        · exact calm_of_file rfl rfl fun _ _ h => h
        split <;> exact calm_of_file rfl rfl fun _ _ h => h
    dsimp only
    split
    · next heq =>
      rw [heq] at hverify
      exact hverify
    · next heq =>
      rw [heq] at hverify
      exact hverify
  | verifyPresented card cert device =>
    dsimp only
    split <;> exact .refl _
  | admitLogin i req drawn =>
    dsimp only
    split
    · exact .refl _
    · rw [check_server]
      exact admitted_calm P cfg env _ _ _ _
  | admitDevice i login cardShown encrypted =>
    dsimp only
    split
    · exact .refl _
    · rw [check_server]
      exact deviceAdmitted_calm P cfg env _ _ _ _ _
  | identityForDevice device =>
    dsimp only
    split
    · exact .refl _
    · rw [check_server]
      exact admitted_calm P cfg env _ _ _ _
  | checkCard i bytes =>
    dsimp only
    split
    · exact .refl _
    · split <;> exact .refl _
  | redeem token consume =>
    have hredeem : Calm w.server (w.server.redeem P env token consume).2 := by
      unfold Server.redeem
      dsimp only
      split
      · exact calm_of_file rfl rfl fun _ _ h => (Map.get_drop_some h).2
      · split
        · exact calm_of_file rfl rfl fun _ _ h => (Map.get_drop_some h).2
        split
        · exact calm_of_file rfl rfl fun _ _ h => (Map.get_drop_some h).2
        split
        · exact calm_of_file rfl rfl fun _ _ h => (Map.get_drop_some h).2
        · exact .refl _
    dsimp only
    split
    · next heq =>
      rw [heq] at hredeem
      exact hredeem
    · next heq =>
      rw [heq] at hredeem
      exact hredeem
  | publishRotation from_ to_ =>
    have hturns : Turns P env (fun _ _ => True) w.server (w.server.acceptRotation P env from_ to_) :=
      acceptRotation_turns P env w.server trivial
    exact hturns.calm
  | revoke refused => exact .of_tables rfl rfl (fun _ _ h => h) (fun _ _ h => h) fun _ _ h => h
  | evictCard fp =>
    exact .of_tables rfl rfl (fun _ _ h => (Map.get_drop_some h).2) (fun _ _ h => h) fun _ _ h => h
  | changeAccounts accounts => exact .of_tables rfl rfl (fun _ _ h => h) (fun _ _ h => h) fun _ _ h => h

/-! ## The tables -/

section Tables
variable {κ ν : Type} [DecidableEq κ]

theorem evictOldest_get {key : ν → Instant} {m : Map κ ν} {k : κ} {v : ν}
    (h : (evictOldest key m).get k = some v) : m.get k = some v := by
  unfold evictOldest at h
  split at h
  · exact (Map.get_drop_some h).2
  · exact h

end Tables

theorem rememberToken_get {tokens : Map (Bytes 32) (TransportIdentity × Instant)} {key k : Bytes 32}
    {ident : TransportIdentity} {now : Instant} {cap : Nat} {x : TransportIdentity × Instant}
    (h : (rememberToken tokens key ident now cap).get k = some x) :
    k = key ∧ x = (ident, now) ∨ k ≠ key ∧ tokens.get k = some x := by
  unfold rememberToken at h
  refine (Map.get_set_cases h).imp_right fun ⟨hk, hx⟩ => ⟨hk, ?_⟩
  split at hx
  · exact Map.get_of_filter (evictOldest_get hx)
  · exact Map.get_of_filter hx

theorem rememberDevice_get {devices : Map PublicKey DeviceRecord} {key d : PublicKey} {rec r : DeviceRecord}
    {now : UInt64} (h : (rememberDevice devices key rec now).get d = some r) :
    d = key ∧ r = rec ∨ d ≠ key ∧ devices.get d = some r := by
  unfold rememberDevice at h
  refine (Map.get_set_cases h).imp_right fun ⟨hd, hr⟩ => ⟨hd, ?_⟩
  split at hr
  · dsimp only at hr
    split at hr
    · exact Map.get_of_filter (evictOldest_get hr)
    · exact Map.get_of_filter hr
  · exact hr

theorem rememberCard_self (cards : Map Fingerprint CardRecord) (fp : Fingerprint) (card : Card)
    (bytes : List UInt8) (seen : Instant) :
    (rememberCard cards fp card bytes seen).get fp =
      some (((cards.get fp).getD ⟨0, none, [], seen⟩).refreshed card bytes seen) := by
  unfold rememberCard
  rw [Map.get_set, if_pos rfl]
  congr 3
  split
  · next hfull =>
    rw [hfull.2]
    cases hget : (evictOldest (·.seen) cards).get fp with
    | none => rfl
    | some e => cases hfull.2.symm.trans (evictOldest_get hget)
  · rfl

/-- What a card leaves is made of the entry there was, evictions or not. -/
theorem rememberCard_get {cards : Map Fingerprint CardRecord} {fp fp' : Fingerprint} {card : Card}
    {bytes : List UInt8} {seen : Instant} {e : CardRecord}
    (h : (rememberCard cards fp card bytes seen).get fp' = some e) :
    fp' = fp ∧ e = ((cards.get fp).getD ⟨0, none, [], seen⟩).refreshed card bytes seen ∨
      fp' ≠ fp ∧ cards.get fp' = some e := by
  by_cases hfp : fp' = fp
  · rw [hfp, rememberCard_self] at h
    exact .inl ⟨hfp, (Option.some.inj h).symm⟩
  · refine .inr ⟨hfp, ?_⟩
    unfold rememberCard at h
    rw [Map.get_set, if_neg hfp] at h
    split at h
    · exact evictOldest_get h
    · exact h

/-! ## What was verified -/

theorem verifyPresented_eq_ok {card cert : List UInt8} {device : PublicKey} {now skew : UInt64} {c : Card}
    {dc : DeviceCert} :
    verifyPresented P card cert device now skew = .ok (c, dc) ↔
      DeviceCert.parse P cert = .ok dc ∧ dc.device = device ∧ dc.checkValid now skew = .ok () ∧
        dc.require caps.login = .ok () ∧ Card.parse P card = .ok c ∧ c.identity = dc.identity := by
  unfold verifyPresented
  simp only [bind_eq_ok, ite_throw_eq_ok, pure_eq_ok, not_not, ne_eq, Prod.mk.injEq]
  constructor
  · rintro ⟨dc', hdc, hdevice, u, hvalid, u', hlogin, c', hc, hidentity, rfl, rfl⟩
    exact ⟨hdc, hdevice, hvalid, hlogin, hc, hidentity⟩
  · rintro ⟨hdc, hdevice, hvalid, hlogin, hc, hidentity⟩
    exact ⟨dc, hdc, hdevice, (), hvalid, (), hlogin, c, hc, hidentity, rfl, rfl⟩

theorem verifyLogin_eq_ok {canonicalHost : String → Option String} {card cert proof : List UInt8}
    {ctx : LoginContext} {c : Card} {dc : DeviceCert} {p : LoginProof}
    (h : verifyLogin P canonicalHost card cert proof ctx = .ok (c, dc, p)) :
    LoginProof.parse P canonicalHost proof = .ok p ∧
      verifyPresented P card cert p.device ctx.now ctx.skew = .ok (c, dc) := by
  unfold verifyLogin at h
  simp only [bind_eq_ok, pure_eq_ok, Prod.mk.injEq] at h
  obtain ⟨p', hp, u, hcheck, ⟨c', dc'⟩, hpresented, rfl, rfl, rfl⟩ := h
  exact ⟨hp, hpresented⟩

/-- The objects of a login are what its bytes say. -/
structure Authentic (v : Verified) : Prop where
  card : Card.parse P v.cardBytes = .ok v.card
  cert : DeviceCert.parse P v.certBytes = .ok v.cert
  identity : v.card.identity = v.cert.identity
  login : v.cert.require caps.login = .ok ()

theorem authentic_of_presented {card cert : List UInt8} {device : PublicKey} {now skew : UInt64} {c : Card}
    {dc : DeviceCert} (h : verifyPresented P card cert device now skew = .ok (c, dc)) :
    Authentic P ⟨c, dc, card, cert⟩ := by
  obtain ⟨hcert, -, -, hlogin, hcard, hidentity⟩ := (verifyPresented_eq_ok P).mp h
  exact ⟨hcard, hcert, hidentity, hlogin⟩

/-- Bytes that parse to a certificate of a device of an identity, good for a login until it expires. -/
def CertOf (bytes : List UInt8) (device identity : PublicKey) (expires : UInt64) : Prop :=
  ∃ cert, DeviceCert.parse P bytes = .ok cert ∧ cert.device = device ∧ cert.identity = identity ∧
    cert.expires = expires ∧ cert.require caps.login = .ok ()

/-- Bytes that parse to a card, of the identity of a fingerprint. -/
def CardOf (bytes : List UInt8) (fp : Fingerprint) (card : Card) : Prop :=
  Card.parse P bytes = .ok card ∧ Fingerprint.of P card.identity = fp

/-- All that is on file was verified, and every key rotated away from is refused. -/
structure Server.Sound (s : Server A) : Prop where
  cached : ∀ fp e, s.cached fp = some e → ∃ card, CardOf P e.bytes fp card
  devices : ∀ d r, s.tables.devices.get d = some r → CertOf P r.cert d r.identity r.expires
  tokens : ∀ k x, s.tables.tokens.get k = some x → x.1.fingerprint = Fingerprint.of P x.1.identity
  refused : ∀ fp y, s.rotatedTo fp = some y → fp ∈ s.refused.rotated

/-- What is about to be written is what was verified. -/
structure Pending.Sound (p : Pending) : Prop where
  card : CardOf P p.cardBytes p.ident.fingerprint p.card
  identity : p.ident.identity = p.card.identity
  cert : CertOf P p.ident.deviceCert p.ident.device p.ident.identity p.ident.deviceExpires

/-- All that is on file or in flight was verified. -/
structure World.Sound (w : World A) : Prop where
  server : w.server.Sound P
  verified : ∀ v ∈ w.verified, Authentic P v
  admitted : ∀ p ∈ w.admitted, p.Sound P
  known : ∀ ident ∈ w.known, ident.fingerprint = Fingerprint.of P ident.identity
  updates : ∀ u ∈ w.updates, CardOf P u.bytes u.ident.fingerprint u.card

variable {P}

theorem Pending.Sound.fingerprint {p : Pending} (h : p.Sound P) :
    p.ident.fingerprint = Fingerprint.of P p.ident.identity := by
  rw [h.identity, h.card.2]

theorem Calm.sound {s t : Server A} (h : Calm s t) (hs : s.Sound P) : t.Sound P where
  cached fp e he := hs.cached fp e (h.cached fp e he)
  devices d r hr := hs.devices d r (h.devices d r hr)
  tokens k x hx := hs.tokens k x (h.tokens k x hx)
  refused fp y hy := by
    cases hrotated : s.rotatedTo fp with
    | none => exact (h.accepted fp y hrotated hy).2.1
    | some z => exact h.refused fp (hs.refused fp z hrotated)

theorem Passed.sound {env : Env A} {v : Verified} {rotation : Option (List UInt8)} {s t s' : Server A}
    {ident : TransportIdentity} (h : Passed P env v.card v.cert v.certBytes rotation s t s' ident)
    (hv : Authentic P v) (token : Option (Bytes 32)) (downstream : Downstream) :
    (⟨ident, token, v.card, v.cardBytes, downstream⟩ : Pending).Sound P where
  card := ⟨hv.card, h.fingerprint.symm⟩
  identity := h.identity
  cert := by
    refine ⟨v.cert, ?_, h.device.symm, ?_, h.deviceExpires.symm, hv.login⟩
    · rw [h.deviceCert]
      exact hv.cert
    · rw [h.identity, hv.identity]

/-- A check that passes leaves an admission pending, and one that does not leaves none. -/
theorem check_sound {env : Env A} {w : World A} (hw : w.Sound P) {v : Verified} (hv : Authentic P v)
    {rotation : Option (List UInt8)} (token : Option (Bytes 32)) (downstream : Downstream)
    {r : Except AuthRefused TransportIdentity × Server A} (hcalm : Calm w.server r.2)
    (hpassed : ∀ ident, r.1 = .ok ident →
      ∃ t, Passed P env v.card v.cert v.certBytes rotation w.server t r.2 ident) :
    (w.check v.card v.cardBytes token downstream r).Sound P := by
  obtain ⟨_ | ident, server⟩ := r
  · exact { hw with server := hcalm.sound hw.server }
  · obtain ⟨t, ht⟩ := hpassed ident rfl
    refine { hw with server := hcalm.sound hw.server, admitted := fun p hp => ?_ }
    rcases List.mem_cons.mp hp with rfl | hp
    · exact ht.sound hv token downstream
    · exact hw.admitted p hp

theorem admitted_passed {env : Env A} {s : Server A} {v : Verified} {req : AuthRequest}
    {assoc : Association} {ident : TransportIdentity}
    (h : (s.admitted P cfg env v req assoc).1 = .ok ident) :
    ∃ t, Passed P env v.card v.cert v.certBytes req.rotation s t (s.admitted P cfg env v req assoc).2 ident := by
  rcases admitted_cases P cfg env s v req assoc with ⟨e, he, -⟩ | ⟨ident', t, hok, hpassed⟩
  · cases he.symm.trans h
  · obtain rfl := Except.ok.inj (hok.symm.trans h)
    exact ⟨t, hpassed⟩

theorem deviceAdmitted_passed {env : Env A} {s : Server A} {v : Verified} {login : String}
    {cardShown encrypted : Bool} {ident : TransportIdentity}
    (h : (s.deviceAdmitted P cfg env v login cardShown encrypted).1 = .ok ident) :
    ∃ t, Passed P env v.card v.cert v.certBytes none s t
      (s.deviceAdmitted P cfg env v login cardShown encrypted).2 ident := by
  rcases deviceAdmitted_cases P cfg env s v login cardShown encrypted with ⟨e, he, -⟩ | ⟨ident', t, hok, hpassed⟩
  · cases he.symm.trans h
  · obtain rfl := Except.ok.inj (hok.symm.trans h)
    exact ⟨t, hpassed⟩

theorem verifyProof_eq_ok {env : Env A} {s s' : Server A} {card cert proof : List UInt8}
    {host : Option String} {v : Verified}
    (h : s.verifyProof P canonicalHost serverKey cfg env card cert proof host = (.ok v, s')) :
    ∃ p, LoginProof.parse P canonicalHost proof = .ok p ∧ Authentic P v ∧
      s' = { s with tables := { s.tables with challenges := s.tables.challenges.drop (P.sha256 p.challenge.val) } } ∧
      ∃ issued, s.tables.challenges.get (P.sha256 p.challenge.val) = some issued ∧
        since env.now issued < ttl := by
  unfold Server.verifyProof at h
  split at h
  · cases (Prod.mk.inj h).1
  next p hp =>
  dsimp only at h
  split at h
  · cases (Prod.mk.inj h).1
  next hissued =>
  split at h
  · cases (Prod.mk.inj h).1
  split at h
  · cases (Prod.mk.inj h).1
  split at h
  · cases (Prod.mk.inj h).1
  split at h
  · cases (Prod.mk.inj h).1
  · next hverified =>
    obtain ⟨hv, rfl⟩ := Prod.mk.inj h
    obtain rfl := Except.ok.inj hv
    refine ⟨p, hp, authentic_of_presented P (verifyLogin_eq_ok P hverified).2, rfl, ?_⟩
    cases hget : s.tables.challenges.get (P.sha256 p.challenge.val) with
    | none =>
      rw [hget] at hissued
      exact absurd rfl hissued
    | some issued =>
      rw [hget] at hissued
      exact ⟨issued, rfl, by simpa using hissued⟩

theorem verifyPresentedTo_authentic {env : Env A} {card cert : List UInt8} {device : PublicKey} {v : Verified}
    (h : Server.verifyPresentedTo P cfg env card cert device = .ok v) : Authentic P v := by
  unfold Server.verifyPresentedTo at h
  split at h
  · cases h
  split at h
  · cases h
  · next hpresented =>
    obtain rfl := Except.ok.inj h
    exact authentic_of_presented P hpresented

theorem deviceOnFile_authentic {env : Env A} {s : Server A} {device : PublicKey} {v : Verified}
    {downstream : Downstream} (h : s.deviceOnFile P cfg env device = some (v, downstream)) :
    Authentic P v := by
  unfold Server.deviceOnFile at h
  obtain ⟨rec, -, h⟩ := Option.bind_eq_some_iff.mp h
  split at h
  · cases h
  obtain ⟨entry, -, h⟩ := Option.bind_eq_some_iff.mp h
  split at h
  · cases h
  · next hpresented =>
    obtain ⟨rfl, -⟩ := Prod.mk.inj (Option.some.inj h)
    exact authentic_of_presented P hpresented

theorem cardChecked_eq_ok {s : Server A} {ident : TransportIdentity} {bytes : List UInt8} {card : Card}
    (h : s.cardChecked P ident bytes = .ok card) :
    Card.parse P bytes = .ok card ∧ card.identity = ident.identity ∧
      successorChanged (s.committedSuccessor ident.fingerprint) card = false := by
  unfold Server.cardChecked at h
  split at h
  · cases h
  next hparse =>
  split at h
  · cases h
  next hidentity =>
  split at h
  · cases h
  next hchanged =>
  obtain rfl := Except.ok.inj h
  exact ⟨hparse, not_not.mp hidentity, by simpa using hchanged⟩

theorem redeem_eq_some {env : Env A} {s s' : Server A} {token : List UInt8} {consume : Bool}
    {ident : TransportIdentity} (h : s.redeem P env token consume = (some ident, s')) :
    ∃ issued, s.tables.tokens.get (P.sha256 token) = some (ident, issued) ∧ since env.now issued < ttl ∧
      s.refused.isRevoked ident.fingerprint (Fingerprint.of P ident.device) = false ∧
      s' = if consume then
        { s with tables := { s.tables with tokens := s.tables.tokens.drop (P.sha256 token) } } else s := by
  unfold Server.redeem at h
  dsimp only at h
  split at h
  · cases (Prod.mk.inj h).1
  next ident' issued hget =>
  split at h
  · cases (Prod.mk.inj h).1
  next hlive =>
  split at h
  · cases (Prod.mk.inj h).1
  next hrevoked =>
  split at h
  · next hconsume =>
    obtain ⟨hident, rfl⟩ := Prod.mk.inj h
    obtain rfl := Option.some.inj hident
    exact ⟨issued, hget, not_le.mp hlive, by simpa using hrevoked, (if_pos hconsume).symm⟩
  · next hconsume =>
    obtain ⟨hident, rfl⟩ := Prod.mk.inj h
    obtain rfl := Option.some.inj hident
    exact ⟨issued, hget, not_le.mp hlive, by simpa using hrevoked, (if_neg hconsume).symm⟩

/-- A token of a key rotated away from is not redeemed. -/
theorem redeem_notRotated {s : Server A} (hs : s.Sound P) {env : Env A} {token : List UInt8} {consume : Bool}
    {ident : TransportIdentity} (h : (s.redeem P env token consume).1 = some ident) :
    s.rotatedTo ident.fingerprint = none := by
  cases heq : s.redeem P env token consume with
  | mk r s' =>
    rw [heq] at h
    obtain ⟨issued, -, -, hrevoked, -⟩ := redeem_eq_some (heq.trans (congrArg (·, s') h))
    cases hrotated : s.rotatedTo ident.fingerprint with
    | none => rfl
    | some y =>
      have hmem := hs.refused _ y hrotated
      simp [Refused.isRevoked, hmem] at hrevoked

/-! ## Writes -/

/-- A card refreshed keeps the bytes there were, or has the card's own. -/
theorem refreshed_cardOf {entry : Option CardRecord} {fp : Fingerprint} {card : Card} {bytes : List UInt8}
    {seen : Instant} (hentry : ∀ e, entry = some e → ∃ c, CardOf P e.bytes fp c) (hcard : CardOf P bytes fp card) :
    ∃ c, CardOf P ((entry.getD ⟨0, none, [], seen⟩).refreshed card bytes seen).bytes fp c := by
  unfold CardRecord.refreshed
  dsimp only
  split
  · exact ⟨card, hcard⟩
  · next hold =>
    cases entry with
    | none => exact absurd (.inl rfl) hold
    | some e => exact hentry e rfl

theorem rememberCard_cardOf {s : Server A} (hs : s.Sound P) {fp : Fingerprint} {card : Card}
    {bytes : List UInt8} {seen : Instant} (hcard : CardOf P bytes fp card) {fp' : Fingerprint} {e : CardRecord}
    (h : (rememberCard s.tables.cards fp card bytes seen).get fp' = some e) : ∃ c, CardOf P e.bytes fp' c := by
  rcases rememberCard_get h with ⟨rfl, rfl⟩ | ⟨-, h⟩
  · exact refreshed_cardOf (fun e he => hs.cached _ e he) hcard
  · exact hs.cached fp' e h

theorem remember_sound {env : Env A} {s : Server A} (hs : s.Sound P) {p : Pending} (hp : p.Sound P) :
    (s.remember P env p.ident p.token p.card p.cardBytes p.downstream).Sound P where
  cached fp e h := rememberCard_cardOf hs hp.card h
  devices d r h := by
    rcases rememberDevice_get h with ⟨rfl, rfl⟩ | ⟨-, h⟩
    · exact hp.cert
    · exact hs.devices d r h
  tokens k x h := by
    unfold Server.remember at h
    cases htoken : p.token with
    | none =>
      rw [htoken] at h
      exact hs.tokens k x h
    | some token =>
      rw [htoken] at h
      rcases rememberToken_get h with ⟨-, rfl⟩ | ⟨-, h⟩
      · exact hp.fingerprint
      · exact hs.tokens k x h
  refused := hs.refused

theorem anchors_rotatedTo_commit (a : Anchors) (fp : Fingerprint) (successor : Bytes 32) (fp' : Fingerprint) :
    (a.commit fp successor).rotatedTo fp' = a.rotatedTo fp' := by
  unfold Anchors.commit
  split
  · rfl
  split
  · rfl
  split
  · rfl
  · rfl

theorem anchor_rotatedTo (s : Server A) (ident : TransportIdentity) (successor : Bytes 32)
    (fp : Fingerprint) : (s.anchor cfg ident successor).rotatedTo fp = s.rotatedTo fp := by
  unfold Server.anchor
  split
  · rfl
  · next anchors hanchors =>
    dsimp only
    split
    · simp only [Server.rotatedTo, hanchors, Option.bind_some, anchors_rotatedTo_commit]
    · rfl

theorem anchor_fields (s : Server A) (ident : TransportIdentity) (successor : Bytes 32) :
    (s.anchor cfg ident successor).tables = s.tables ∧ (s.anchor cfg ident successor).refused = s.refused := by
  unfold Server.anchor
  split
  · exact ⟨rfl, rfl⟩
  · dsimp only
    split <;> exact ⟨rfl, rfl⟩

theorem anchor_sound {s : Server A} (hs : s.Sound P) (ident : TransportIdentity) (successor : Bytes 32) :
    (s.anchor cfg ident successor).Sound P := by
  obtain ⟨htables, hrefused⟩ := anchor_fields cfg s ident successor
  constructor
  · intro fp e h
    rw [Server.cached, htables] at h
    exact hs.cached fp e h
  · rw [htables]
    exact hs.devices
  · rw [htables]
    exact hs.tokens
  · intro fp y h
    rw [anchor_rotatedTo] at h
    rw [hrefused]
    exact hs.refused fp y h

/-- A card update's write is refused, or replaces an older card or none. -/
theorem replaceCard_cases (env : Env A) (s : Server A) (ident : TransportIdentity) (card : Card)
    (bytes : List UInt8) :
    s.replaceCard env ident card bytes = (false, s) ∨
      (∀ e, s.cached ident.fingerprint = some e → e.updated < card.updated) ∧
        s.replaceCard env ident card bytes = (true, { s with
          tables := { s.tables with
            cards := rememberCard s.tables.cards ident.fingerprint card bytes env.now } }) := by
  unfold Server.replaceCard
  split
  · exact .inl rfl
  · next hnew =>
    refine .inr ⟨fun e he => ?_, rfl⟩
    rw [Server.cached] at he
    rw [he, Option.any_some, decide_eq_true_iff] at hnew
    exact UInt64.not_le.mp hnew

theorem erase_sound {w : World A} (hw : w.Sound P) (i : Nat) :
    ({ w with verified := w.verified.eraseIdx i } : World A).Sound P :=
  { hw with verified := fun v hv => hw.verified v (List.mem_of_mem_eraseIdx hv) }

theorem step_sound {w : World A} (hw : w.Sound P) (act : Act A) :
    (w.step P canonicalHost serverKey cfg act).Sound P := by
  by_cases hwrites : act.op.Writes
  · obtain ⟨env, op⟩ := act
    unfold World.step
    cases op with
    | remember i =>
      dsimp only
      split
      · exact hw
      next p hp =>
      have hpending := hw.admitted p (List.mem_of_getElem? hp)
      refine ⟨remember_sound hw.server hpending, hw.verified, fun q hq => ?_, fun ident hident => ?_, hw.updates⟩
      · exact hw.admitted q (List.mem_of_mem_eraseIdx hq)
      · rcases List.mem_cons.mp hident with rfl | hident
        · exact hpending.fingerprint
        · exact hw.known ident hident
    | anchor i =>
      dsimp only
      split
      · exact hw
      · exact { hw with server := anchor_sound cfg hw.server _ _ }
    | replaceCard i =>
      dsimp only
      split
      · exact hw
      next u hu =>
      have hupdate := hw.updates u (List.mem_of_getElem? hu)
      have herase : ∀ u' ∈ w.updates.eraseIdx i, CardOf P u'.bytes u'.ident.fingerprint u'.card :=
        fun u' hu' => hw.updates u' (List.mem_of_mem_eraseIdx hu')
      rcases replaceCard_cases env w.server u.ident u.card u.bytes with hsame | ⟨-, hset⟩
      · rw [hsame]
        exact { hw with updates := herase }
      · rw [hset]
        refine { hw with server := ?_, updates := herase }
        exact { hw.server with cached := fun fp e h => rememberCard_cardOf hw.server hupdate h }
    | _ => exact hwrites.elim
  · have hserver := (step_calm P canonicalHost serverKey cfg w act hwrites).sound hw.server
    obtain ⟨env, op⟩ := act
    unfold World.step at hserver ⊢
    cases op with
    | remember i => exact absurd trivial hwrites
    | anchor i => exact absurd trivial hwrites
    | replaceCard i => exact absurd trivial hwrites
    | issueChallenge drawn =>
      dsimp only at hserver ⊢
      split at hserver <;> exact { hw with server := hserver }
    | verifyProof card cert proof host =>
      dsimp only at hserver ⊢
      split at hserver
      · next heq =>
        exact { hw with server := hserver }
      · next v server heq =>
        obtain ⟨p, -, hv, -⟩ := verifyProof_eq_ok canonicalHost serverKey cfg heq
        refine { hw with server := hserver, verified := fun v' hv' => ?_ }
        rcases List.mem_cons.mp hv' with rfl | hv'
        · exact hv
        · exact hw.verified v' hv'
    | verifyPresented card cert device =>
      dsimp only at hserver ⊢
      split
      · exact hw
      · next v heq =>
        refine { hw with verified := fun v' hv' => ?_ }
        rcases List.mem_cons.mp hv' with rfl | hv'
        · exact verifyPresentedTo_authentic cfg heq
        · exact hw.verified v' hv'
    | admitLogin i req drawn =>
      dsimp only
      split
      · exact hw
      · next v hv =>
        exact check_sound (erase_sound hw i)
          (hw.verified v (List.mem_of_getElem? hv)) (some drawn) req.downstream
          (admitted_calm P cfg env w.server v req .write) fun ident hident => admitted_passed cfg hident
    | admitDevice i login cardShown encrypted =>
      dsimp only
      split
      · exact hw
      · next v hv =>
        exact check_sound (erase_sound hw i)
          (hw.verified v (List.mem_of_getElem? hv)) none .loopback
          (deviceAdmitted_calm P cfg env w.server v login cardShown encrypted)
          fun ident hident => deviceAdmitted_passed cfg hident
    | identityForDevice device =>
      dsimp only
      split
      · exact hw
      · next v downstream hv =>
        exact check_sound hw (deviceOnFile_authentic cfg hv) none downstream
          (admitted_calm P cfg env w.server v (.plain downstream) .readOnly)
          fun ident hident => admitted_passed cfg hident
    | checkCard i bytes =>
      dsimp only
      split
      · exact hw
      next ident hident =>
      split
      · exact hw
      next card hcard =>
      obtain ⟨hparse, hidentity, -⟩ := cardChecked_eq_ok hcard
      refine { hw with updates := fun u hu => ?_ }
      rcases List.mem_cons.mp hu with rfl | hu
      · refine ⟨hparse, ?_⟩
        rw [hidentity, hw.known ident (List.mem_of_getElem? hident)]
      · exact hw.updates u hu
    | redeem token consume =>
      dsimp only at hserver ⊢
      split at hserver
      · exact { hw with server := hserver }
      · next ident server heq =>
        obtain ⟨issued, hget, -⟩ := redeem_eq_some heq
        refine { hw with server := hserver, known := fun ident' hident' => ?_ }
        rcases List.mem_cons.mp hident' with rfl | hident'
        · exact hw.server.tokens _ _ hget
        · exact hw.known ident' hident'
    | publishRotation from_ to_ => exact { hw with server := hserver }
    | revoke refused => exact { hw with server := hserver }
    | evictCard fp => exact { hw with server := hserver }
    | changeAccounts accounts => exact { hw with server := hserver }

theorem finishRotations_calm (P : Primitives) (env : Env A) (s : Server A) (to_ : Option Fingerprint) :
    Calm s (s.finishRotations env to_) := by
  have hturns : Turns P env (fun _ _ => True) s (s.finishRotations env to_) := finishRotations_turns P env s to_
  exact hturns.calm

theorem sound_of_empty {s : Server A} (htables : s.tables = {})
    (hrefused : ∀ fp y, s.rotatedTo fp = some y → fp ∈ s.refused.rotated) : s.Sound P where
  cached fp e h := by
    rw [Server.cached, htables] at h
    cases h
  devices d r h := by
    rw [htables] at h
    cases h
  tokens k x h := by
    rw [htables] at h
    cases h
  refused := hrefused

theorem start_sound (env : Env A) (anchors : Option Anchors) (refused : Refused) (accounts : A) :
    (World.start env anchors refused accounts).Sound P where
  server := by
    refine (finishRotations_calm P env _ none).sound (sound_of_empty rfl fun fp y h => ?_)
    cases anchors with
    | none => cases h
    | some a =>
      obtain ⟨e, he, -⟩ := Option.map_eq_some_iff.mp (show (a.rotated.get fp).map (·.1) = some y from h)
      exact Map.mem_keys he
  verified v hv := nomatch hv
  admitted p hp := nomatch hp
  known ident hident := nomatch hident
  updates u hu := nomatch hu

theorem run_sound {w : World A} (hw : w.Sound P) (acts : List (Act A)) :
    (w.run P canonicalHost serverKey cfg acts).Sound P := by
  induction acts generalizing w with
  | nil => exact hw
  | cons act acts ih => exact ih (step_sound canonicalHost serverKey cfg hw act)

/-- Whatever a server is asked after its start, in whatever order and each call's writes whenever they come,
what it has on file and what is on its way there was verified. -/
theorem filed_sound (P : Primitives) (env : Env A) (anchors : Option Anchors) (refused : Refused) (accounts : A)
    (acts : List (Act A)) :
    ((World.start env anchors refused accounts).run P canonicalHost serverKey cfg acts).Sound P :=
  run_sound canonicalHost serverKey cfg (start_sound env anchors refused accounts) acts

end HxdNg.Admission
