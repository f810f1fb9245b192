import HxdNg.Admission.Backend
import HxdNg.Admission.Changes
import HxdNg.Identity.Vectors

/-!
# What a refused login writes

* `Wrote` : what a call did to the accounts: nothing, a link for one identity, or an account made for it;
* `linkAtAuth_eq`, `associate_eq` : a call that fails writes none of it, one that succeeds at most one;
* `Refused.Untouched` : what a refusal leaves.
-/

namespace HxdNg.Admission

open Identity Assoc Cbor

variable {A : Type} (P : Primitives) (cfg : IdentityConfig) (env : Env A)

/-- What a call wrote for an identity, and what allowed it. -/
inductive Wrote (b : AuthBackend A) (fp : Fingerprint) (mayLink : Account → Prop) (mayCreate : Prop)
    (a : A) : A → Prop
  | nothing : Wrote b fp mayLink mayCreate a a
  | link {acc : Account} {a' : A} (hmay : mayLink acc)
    (hlink : b.linkIdentity a acc.login fp = (.ok (.linked acc), a')) : Wrote b fp mayLink mayCreate a a'
  | account {acc : Account} {a' : A} {proposed name : String} {access : Accounts.AccessBits}
    (hmay : mayCreate) (hcreate : b.findOrCreateLinked a proposed name fp access = (.ok (acc, true), a')) :
    Wrote b fp mayLink mayCreate a a'

/-- The link a login may write with it. -/
structure MayLink (cert : DeviceCert) (assoc : Association) (acc : Account) : Prop where
  write : assoc = .write
  manage : cert.allows caps.manage = true
  identityLogin : acc.identityLogin = true
  unbanned : env.personBanned (some acc.login) none none = false

/-- The account a login may make. -/
structure MayCreate (assoc : Association) : Prop where
  write : assoc = .write
  create : cfg.newAccounts = .create

theorem findLinked_eq_ok {s : Server A} {fp : Fingerprint} {x : Option Account}
    (h : s.findLinked env fp = .ok x) : env.auth.findByFingerprint s.accounts fp = .ok x := by
  unfold Server.findLinked at h
  cases hfind : env.auth.findByFingerprint s.accounts fp with
  | error e =>
    rw [hfind] at h
    cases h
  | ok y =>
    rw [hfind] at h
    rw [Except.ok.inj h]

section Lawful
variable {env} (hauth : env.auth.Lawful) {s s' : Server A}
include hauth

theorem linkExclusive_eq {login : String} {fp : Fingerprint} {r : Except AuthRefused LinkOutcome}
    (h : s.linkExclusive env login fp = (r, s')) :
    (∃ acc, r = .ok (.linked acc) ∧ s' = { s with accounts := s'.accounts } ∧
      env.auth.linkIdentity s.accounts login fp = (.ok (.linked acc), s'.accounts)) ∨
    s' = s ∧ ∀ acc, r ≠ .ok (.linked acc) := by
  unfold Server.linkExclusive at h
  cases hlink : env.auth.linkIdentity s.accounts login fp with
  | mk outcome accounts =>
    rw [hlink] at h
    obtain ⟨rfl, rfl⟩ := Prod.mk.inj h
    cases outcome with
    | error e =>
      obtain rfl := hauth.link_error hlink
      exact .inr ⟨rfl, fun acc => nofun⟩
    | ok outcome =>
      cases outcome with
      | linked acc => exact .inl ⟨acc, rfl, rfl, rfl⟩
      | already acc =>
        obtain rfl := (hauth.link_already hlink).1
        exact .inr ⟨rfl, fun acc => nofun⟩
      | taken acc =>
        obtain rfl := hauth.link_taken hlink
        exact .inr ⟨rfl, fun acc => nofun⟩
      | refused acc =>
        obtain rfl := hauth.link_refused hlink
        exact .inr ⟨rfl, fun acc => nofun⟩

theorem linkExclusive_already {login : String} {fp : Fingerprint} {acc : Account}
    (h : s.linkExclusive env login fp = (.ok (.already acc), s')) :
    env.auth.Links s.accounts acc fp := by
  unfold Server.linkExclusive at h
  cases hlink : env.auth.linkIdentity s.accounts login fp with
  | mk outcome accounts =>
    rw [hlink] at h
    cases outcome with
    | error e => cases (Prod.mk.inj h).1
    | ok outcome =>
      obtain rfl := Except.ok.inj (Prod.mk.inj h).1
      exact (hauth.link_already hlink).2

theorem linked_of_find {login : String} {fp : Fingerprint} {account acc : Account} {a a' : A}
    (hfind : env.auth.find a login = .ok account)
    (h : env.auth.linkIdentity a login fp = (.ok (.linked acc), a')) :
    account.fingerprint = none ∧ account.hasPassword = true ∧ account.allowSelfLink = true ∧
      acc = { account with fingerprint := some fp } := by
  obtain ⟨-, -, before, hbefore, hnone, hpassword, hself, rfl⟩ := hauth.link_linked h
  obtain rfl : account = before := Except.ok.inj (hfind.symm.trans hbefore)
  exact ⟨hnone, hpassword, hself, rfl⟩

theorem linkAtAuth_eq {fp : Fingerprint} {cert : DeviceCert} {assoc : Association} {login : String}
    {password : List UInt8} {r : Except AuthRefused (Option Account × Bool)}
    (h : s.linkAtAuth env fp cert assoc login password = (r, s')) :
    (s' = s ∧ ∀ acc pending, r = .ok (some acc, pending) → env.auth.Links s.accounts acc fp) ∨
    ∃ acc, r = .ok (some acc, false) ∧ MayLink env cert assoc acc ∧
      s' = { s with accounts := s'.accounts } ∧
      env.auth.linkIdentity s.accounts acc.login fp = (.ok (.linked acc), s'.accounts) := by
  unfold Server.linkAtAuth at h
  cases hauthenticate : env.auth.authenticate s.accounts login password with
  | error e =>
    rw [hauthenticate] at h
    cases e <;> obtain ⟨rfl, rfl⟩ := Prod.mk.inj h <;> exact .inl ⟨rfl, by nofun⟩
  | ok account =>
    rw [hauthenticate] at h
    have hfind := hauth.authenticate_find hauthenticate
    dsimp only at h
    split at h
    · obtain ⟨rfl, rfl⟩ := Prod.mk.inj h
      exact .inl ⟨rfl, by nofun⟩
    split at h
    · obtain ⟨rfl, rfl⟩ := Prod.mk.inj h
      exact .inl ⟨rfl, by nofun⟩
    next hbanned =>
    split at h
    · next hlinks =>
      obtain ⟨rfl, rfl⟩ := Prod.mk.inj h
      refine .inl ⟨rfl, fun acc pending hacc => ?_⟩
      obtain rfl := Option.some.inj (Prod.mk.inj (Except.ok.inj hacc)).1
      exact ⟨hfind, hlinks⟩
    split at h
    · obtain ⟨rfl, rfl⟩ := Prod.mk.inj h
      exact .inl ⟨rfl, by nofun⟩
    next hwrite =>
    split at h
    · obtain ⟨rfl, rfl⟩ := Prod.mk.inj h
      exact .inl ⟨rfl, by nofun⟩
    next hmanage =>
    split at h
    · obtain ⟨rfl, rfl⟩ := Prod.mk.inj h
      exact .inl ⟨rfl, by nofun⟩
    · obtain ⟨rfl, rfl⟩ := Prod.mk.inj h
      exact .inl ⟨rfl, by nofun⟩
    next hyet =>
    cases hexclusive : s.linkExclusive env account.login fp with
    | mk outcome s₁ =>
      rw [hexclusive] at h
      rcases linkExclusive_eq hauth hexclusive with ⟨acc, rfl, hs, hlink⟩ | ⟨rfl, hnot⟩
      · -- The link is written only where the account takes identity login.
        obtain ⟨rfl, rfl⟩ := Prod.mk.inj h
        obtain ⟨hnone, hpassword, hself, rfl⟩ := linked_of_find hauth hfind hlink
        have hassoc : assoc = .write := by
          cases assoc with
          | write => rfl
          | readOnly => exact absurd rfl hwrite
        refine .inr ⟨_, rfl, ⟨hassoc, by simpa using hmanage, ?_, by simpa [hassoc] using hbanned⟩, hs, hlink⟩
        by_contra hoff
        rw [if_pos ⟨by simp [hnone, hpassword, hself], hoff⟩] at hyet
        cases hlinked : s.findLinked env fp with
        | error e =>
          rw [hlinked] at hyet
          cases hyet
        | ok x =>
          rw [hlinked] at hyet
          cases x with
          | none => cases hyet
          | some x => exact (hauth.link_linked hlink).2.1 x (findLinked_eq_ok env hlinked)
      · cases outcome with
        | error e =>
          obtain ⟨rfl, rfl⟩ := Prod.mk.inj h
          exact .inl ⟨rfl, by nofun⟩
        | ok outcome =>
          cases outcome with
          | linked acc => exact absurd rfl (hnot acc)
          | already acc =>
            obtain ⟨rfl, rfl⟩ := Prod.mk.inj h
            refine .inl ⟨rfl, fun acc' pending hacc => ?_⟩
            obtain rfl := Option.some.inj (Prod.mk.inj (Except.ok.inj hacc)).1
            exact linkExclusive_already hauth hexclusive
          | taken acc =>
            obtain ⟨rfl, rfl⟩ := Prod.mk.inj h
            exact .inl ⟨rfl, by nofun⟩
          | refused acc =>
            obtain ⟨rfl, rfl⟩ := Prod.mk.inj h
            exact .inl ⟨rfl, by nofun⟩

theorem create_eq {st : Standing} {card : Card} {assoc : Association} (hmay : MayCreate cfg assoc)
    {mayLink : Account → Prop} {r : Except AuthRefused (Outcome × Option String)}
    (h : s.create cfg env st card = (r, s')) :
    Associated s s' ∧ (∀ e, r = .error e → s'.accounts = s.accounts) ∧
      ∀ outcome account, r = .ok (outcome, account) →
        Wrote env.auth st.fingerprint mayLink (MayCreate cfg assoc) s.accounts s'.accounts ∧
          ∀ login, account = some login → ∃ acc, acc.login = login ∧
            env.auth.Links s'.accounts acc st.fingerprint := by
  unfold Server.create at h
  split at h
  · next s₁ hallowed =>
    obtain ⟨hassociated, haccounts⟩ := creationAllowed_associated cfg env s
    rw [hallowed] at hassociated haccounts
    dsimp only at haccounts
    obtain ⟨rfl, rfl⟩ := Prod.mk.inj h
    refine ⟨hassociated, by nofun, fun outcome account hr => ?_⟩
    obtain ⟨-, rfl⟩ := Prod.mk.inj (Except.ok.inj hr)
    rw [haccounts]
    exact ⟨.nothing, by nofun⟩
  · next s₁ hallowed =>
    obtain ⟨⟨created, hassociated⟩, haccounts⟩ := creationAllowed_associated cfg env s
    rw [hallowed] at hassociated haccounts
    dsimp only at hassociated haccounts
    dsimp only at h
    split at h
    · next e accounts hcreate =>
      obtain ⟨rfl, rfl⟩ := Prod.mk.inj h
      exact ⟨⟨created, by rw [hassociated]⟩, fun _ _ => (hauth.create_error hcreate).trans haccounts, by nofun⟩
    · next acc isNew accounts hcreate =>
      rw [haccounts] at hcreate
      cases isNew with
      | true =>
        obtain ⟨rfl, rfl⟩ := Prod.mk.inj h
        obtain ⟨⟨charged, hcharge⟩, haccounts⟩ := chargeCreation_associated cfg env { s₁ with accounts }
        refine ⟨⟨charged, by rw [hcharge, hassociated]⟩, by nofun, fun outcome account hr => ?_⟩
        obtain ⟨-, rfl⟩ := Prod.mk.inj (Except.ok.inj hr)
        rw [haccounts]
        refine ⟨.account hmay hcreate, fun login hlogin => ⟨acc, Option.some.inj hlogin, ?_⟩⟩
        exact (hauth.create_new hcreate).1
      | false =>
        obtain ⟨rfl, rfl⟩ := Prod.mk.inj h
        obtain ⟨rfl, hfound⟩ := hauth.create_found hcreate
        refine ⟨⟨created, by rw [hassociated]⟩, by nofun, fun outcome account hr => ?_⟩
        obtain ⟨-, rfl⟩ := Prod.mk.inj (Except.ok.inj hr)
        exact ⟨.nothing, fun login hlogin =>
          ⟨acc, Option.some.inj hlogin, hauth.findByFingerprint_links hfound⟩⟩

/-- What an association comes to: a refusal wrote nothing, a success at most a link or an account. -/
theorem associate_eq {st : Standing} {card : Card} {cert : DeviceCert} {req : AuthRequest}
    {assoc : Association} {r : Except AuthRefused (Outcome × Option String)}
    (h : s.associate cfg env st card cert req assoc = (r, s')) :
    Associated s s' ∧ (∀ e, r = .error e → s'.accounts = s.accounts) ∧
      ∀ outcome account, r = .ok (outcome, account) →
        Wrote env.auth st.fingerprint (MayLink env cert assoc) (MayCreate cfg assoc) s.accounts s'.accounts ∧
          (account = none → cfg.newAccounts ≠ .deny) ∧
          ∀ login, account = some login → ∃ acc, acc.login = login ∧
            env.auth.Links s'.accounts acc st.fingerprint := by
  unfold Server.associate at h
  -- What the credentials left: nothing, or a link to an account that takes identity login.
  have hatAuth : ∀ x : Except AuthRefused (Option Account × Bool) × Server A,
      (req.classic = none → x = (.ok (none, false), s)) →
      (∀ login password, req.classic = some (login, password) →
        x = s.linkAtAuth env st.fingerprint cert assoc login password) →
      (x.2 = s ∧ ∀ acc pending, x.1 = .ok (some acc, pending) →
        env.auth.Links s.accounts acc st.fingerprint) ∨
      ∃ acc, x.1 = .ok (some acc, false) ∧ MayLink env cert assoc acc ∧
        x.2 = { s with accounts := x.2.accounts } ∧
        env.auth.linkIdentity s.accounts acc.login st.fingerprint = (.ok (.linked acc), x.2.accounts) := by
    intro x hnone hsome
    cases hclassic : req.classic with
    | none =>
      rw [hnone hclassic]
      exact .inl ⟨rfl, fun acc pending hok => by cases hok⟩
    | some credentials =>
      exact linkAtAuth_eq hauth (hsome _ _ hclassic).symm
  dsimp only at h
  split at h
  · next e s₁ h₁ =>
    obtain ⟨rfl, rfl⟩ := Prod.mk.inj h
    rcases hatAuth _ (fun hc => h₁.symm.trans (by rw [hc])) (fun _ _ hc => h₁.symm.trans (by rw [hc]))
      with ⟨rfl, -⟩ | ⟨acc, hacc, -⟩
    · exact ⟨associated_of_accounts rfl, fun _ _ => rfl, by simp⟩
    · cases hacc
  · next linked pending s₁ h₁ =>
    rcases hatAuth _ (fun hc => h₁.symm.trans (by rw [hc])) (fun _ _ hc => h₁.symm.trans (by rw [hc]))
      with ⟨rfl, hlinks⟩ | ⟨acc, hacc, hmay, hs, hlink⟩
    · -- Nothing is written yet.
      have hfound : ∀ found x : Except AuthRefused (Option Account),
          (linked = none → found = s₁.findLinked env st.fingerprint) →
          (∀ a, linked = some a → found = .ok (some a)) → found = x →
          ∀ acc, x = .ok (some acc) → env.auth.Links s₁.accounts acc st.fingerprint := by
        rintro found _ hnone hsome rfl acc hx
        cases linked with
        | none => exact hauth.findByFingerprint_links (findLinked_eq_ok env ((hnone rfl).symm.trans hx))
        | some a =>
          obtain rfl := Option.some.inj (Except.ok.inj ((hsome a rfl).symm.trans hx))
          exact hlinks a pending rfl
      split at h
      · obtain ⟨rfl, rfl⟩ := Prod.mk.inj h
        exact ⟨associated_of_accounts rfl, fun _ _ => rfl, by simp⟩
      · next x hx =>
        split at h
        · obtain ⟨rfl, rfl⟩ := Prod.mk.inj h
          refine ⟨associated_of_accounts rfl, by simp, fun outcome account hr => ?_⟩
          obtain ⟨-, rfl⟩ := Prod.mk.inj (Except.ok.inj hr)
          exact ⟨.nothing, by simp, fun login hlogin =>
            ⟨x, Option.some.inj hlogin, hfound _ _ (fun hl => by rw [hl]) (fun a hl => by rw [hl]) hx x rfl⟩⟩
        · obtain ⟨rfl, rfl⟩ := Prod.mk.inj h
          exact ⟨associated_of_accounts rfl, fun _ _ => rfl, by simp⟩
      · split at h
        · obtain ⟨rfl, rfl⟩ := Prod.mk.inj h
          exact ⟨associated_of_accounts rfl, fun _ _ => rfl, by simp⟩
        next hdeny =>
        have hguest : ∀ {outcome : Outcome}, ((.ok (outcome, none), s₁) : Except AuthRefused _ × Server A) =
            (r, s') → Associated s₁ s' ∧ (∀ e, r = .error e → s'.accounts = s₁.accounts) ∧
            ∀ outcome account, r = .ok (outcome, account) →
              Wrote env.auth st.fingerprint (MayLink env cert assoc) (MayCreate cfg assoc) s₁.accounts
                s'.accounts ∧ (account = none → cfg.newAccounts ≠ .deny) ∧
              ∀ login, account = some login → ∃ acc, acc.login = login ∧
                env.auth.Links s'.accounts acc st.fingerprint := by
          intro outcome hr
          obtain ⟨rfl, rfl⟩ := Prod.mk.inj hr
          refine ⟨associated_of_accounts rfl, by simp, fun outcome account hr => ?_⟩
          obtain ⟨-, rfl⟩ := Prod.mk.inj (Except.ok.inj hr)
          exact ⟨.nothing, fun _ => hdeny, by simp⟩
        split at h
        · exact hguest h
        split at h
        · exact hguest h
        split at h
        · exact hguest h
        next hwrite =>
        split at h
        · exact hguest h
        next hnotGuest =>
        split at h
        · exact hguest h
        have hmay : MayCreate cfg assoc := by
          constructor
          · cases assoc with
            | write => rfl
            | readOnly => exact absurd rfl hwrite
          · cases hnew : cfg.newAccounts with
            | deny => exact absurd hnew hdeny
            | guest => exact absurd hnew hnotGuest
            | create => rfl
        obtain ⟨hassociated, herror, hok⟩ := create_eq cfg hauth hmay h
        exact ⟨hassociated, herror, fun outcome account hr =>
          ⟨(hok outcome account hr).1, fun _ => hdeny, (hok outcome account hr).2⟩⟩
    · obtain ⟨rfl, rfl⟩ := Prod.mk.inj (Except.ok.inj hacc)
      dsimp only at h
      rw [if_pos hmay.identityLogin] at h
      obtain ⟨rfl, rfl⟩ := Prod.mk.inj h
      refine ⟨associated_of_accounts hs, by simp, fun outcome account hr => ?_⟩
      obtain ⟨-, rfl⟩ := Prod.mk.inj (Except.ok.inj hr)
      exact ⟨.link hmay hlink, by simp, fun login hlogin =>
        ⟨acc, Option.some.inj hlogin, (hauth.link_linked hlink).1⟩⟩

theorem proofAccount_eq {fp : Fingerprint} {cert : DeviceCert} {login : String} {cardShown encrypted : Bool}
    {r : Except AuthRefused Account} (h : s.proofAccount env fp cert login cardShown encrypted = (r, s')) :
    (∀ acc, r = .ok acc → env.auth.Links s'.accounts acc fp) ∧
      (s' = s ∨ ∃ acc, r = .ok acc ∧ MayLink env cert .write acc ∧ s' = { s with accounts := s'.accounts } ∧
        env.auth.linkIdentity s.accounts acc.login fp = (.ok (.linked acc), s'.accounts)) := by
  unfold Server.proofAccount at h
  split at h
  · obtain ⟨rfl, rfl⟩ := Prod.mk.inj h
    exact ⟨by nofun, .inl rfl⟩
  next account hlookup =>
  have hfind := hauth.find_find hlookup
  split at h
  · next f hf =>
    split at h
    · next heq =>
      obtain ⟨rfl, rfl⟩ := Prod.mk.inj h
      refine ⟨fun acc hacc => ?_, .inl rfl⟩
      obtain rfl := Except.ok.inj hacc
      exact ⟨hfind, heq ▸ hf⟩
    · obtain ⟨rfl, rfl⟩ := Prod.mk.inj h
      exact ⟨by nofun, .inl rfl⟩
  · split at h
    · obtain ⟨rfl, rfl⟩ := Prod.mk.inj h
      exact ⟨by nofun, .inl rfl⟩
    split at h
    · obtain ⟨rfl, rfl⟩ := Prod.mk.inj h
      exact ⟨by nofun, .inl rfl⟩
    split at h
    · obtain ⟨rfl, rfl⟩ := Prod.mk.inj h
      exact ⟨by nofun, .inl rfl⟩
    next hmanage =>
    split at h
    · obtain ⟨rfl, rfl⟩ := Prod.mk.inj h
      exact ⟨by nofun, .inl rfl⟩
    split at h
    · obtain ⟨rfl, rfl⟩ := Prod.mk.inj h
      exact ⟨by nofun, .inl rfl⟩
    next hlogin =>
    split at h
    · obtain ⟨rfl, rfl⟩ := Prod.mk.inj h
      exact ⟨by nofun, .inl rfl⟩
    next hbanned =>
    cases hexclusive : s.linkExclusive env account.login fp with
    | mk outcome s₁ =>
      rw [hexclusive] at h
      rcases linkExclusive_eq hauth hexclusive with ⟨acc, rfl, hs, hlink⟩ | ⟨rfl, hnot⟩
      · obtain ⟨rfl, rfl⟩ := Prod.mk.inj h
        obtain ⟨-, -, -, rfl⟩ := linked_of_find hauth hfind hlink
        refine ⟨fun acc hacc => ?_, .inr ⟨_, rfl, ⟨rfl, ?_, ?_, ?_⟩, hs, hlink⟩⟩
        · obtain rfl := Except.ok.inj hacc
          exact (hauth.link_linked hlink).1
        · simpa using hmanage
        · simpa using hlogin
        · simpa using hbanned
      · cases outcome with
        | error e =>
          obtain ⟨rfl, rfl⟩ := Prod.mk.inj h
          exact ⟨by nofun, .inl rfl⟩
        | ok outcome =>
          cases outcome with
          | linked acc => exact absurd rfl (hnot acc)
          | already acc =>
            obtain ⟨rfl, rfl⟩ := Prod.mk.inj h
            refine ⟨fun acc' hacc => ?_, .inl rfl⟩
            obtain rfl := Except.ok.inj hacc
            exact linkExclusive_already hauth hexclusive
          | taken acc =>
            obtain ⟨rfl, rfl⟩ := Prod.mk.inj h
            exact ⟨by nofun, .inl rfl⟩
          | refused acc =>
            obtain ⟨rfl, rfl⟩ := Prod.mk.inj h
            exact ⟨by nofun, .inl rfl⟩

end Lawful

/-! ## The calls -/

/-- The accounts, tokens, cards, devices and anchors of the two are the same. -/
structure Same (s s' : Server A) : Prop where
  accounts : s'.accounts = s.accounts
  tokens : s'.tables.tokens = s.tables.tokens
  cards : s'.tables.cards = s.tables.cards
  devices : s'.tables.devices = s.tables.devices
  anchors : s'.anchors = s.anchors

theorem Same.refl (s : Server A) : Same s s := ⟨rfl, rfl, rfl, rfl, rfl⟩

theorem Associated.same {s s' : Server A} (h : Associated s s') (haccounts : s'.accounts = s.accounts) :
    Same s s' := by
  obtain ⟨created, h⟩ := h
  rw [h]
  exact ⟨haccounts, rfl, rfl, rfl, rfl⟩

/-- What a refusal leaves: what it found, but for rotations learned or finished and the entry of a
device refused as revoked. -/
def Untouched (card : Card) (rotation : Option (List UInt8)) (device : PublicKey) (e : AuthRefused)
    (s s' : Server A) : Prop :=
  ∃ t, Turns P env (Learned P env card rotation) s t ∧
    (Same t s' ∨ e = .revoked ∧ Same (t.dropDevice device) s')

/-- What letting an identity in leaves of the accounts. -/
structure LetIn (card : Card) (rotation : Option (List UInt8)) (mayLink : Account → Prop) (mayCreate : Prop)
    (s s' : Server A) (ident : TransportIdentity) : Prop where
  wrote : ∃ t, Turns P env (Learned P env card rotation) s t ∧
    Wrote env.auth ident.fingerprint mayLink mayCreate t.accounts s'.accounts
  /-- Under `new_accounts = deny`, it has a linked account. -/
  linked : cfg.newAccounts = .deny →
    ∃ acc, ident.account = some acc.login ∧ env.auth.Links s'.accounts acc ident.fingerprint

theorem untouched_of_dropped {card : Card} {rotation : Option (List UInt8)} {device : PublicKey} {α : Type}
    {e : AuthRefused} {s t s' : Server A} (ht : Turns P env (Learned P env card rotation) s t)
    (hdrop : Dropped device (.error e : Except AuthRefused α) t s') :
    Untouched P env card rotation device e s s' := by
  refine ⟨t, ht, ?_⟩
  rcases hdrop with rfl | ⟨he, rfl⟩
  · exact .inl (.refl _)
  · exact .inr ⟨Except.error.inj he, .refl _⟩

theorem anchor_eq (s : Server A) (ident : TransportIdentity) (successor : Bytes 32) :
    ∃ anchors, s.anchor cfg ident successor = { s with anchors } := by
  unfold Server.anchor
  split
  · exact ⟨s.anchors, rfl⟩
  · dsimp only
    split
    · exact ⟨_, rfl⟩
    · exact ⟨s.anchors, rfl⟩

theorem keep_eq (s : Server A) (ident : TransportIdentity) (token : Option (Bytes 32)) (card : Card)
    (cardBytes : List UInt8) (downstream : Downstream) :
    ∃ anchors, s.keep P cfg env ident token card cardBytes downstream =
      { s.remember P env ident token card cardBytes downstream with anchors } := by
  unfold Server.keep
  cases card.successor with
  | none => exact ⟨_, rfl⟩
  | some successor => exact anchor_eq cfg _ ident successor

@[simp] theorem keep_accounts (s : Server A) (ident : TransportIdentity) (token : Option (Bytes 32))
    (card : Card) (cardBytes : List UInt8) (downstream : Downstream) :
    (s.keep P cfg env ident token card cardBytes downstream).accounts = s.accounts := by
  obtain ⟨anchors, hkeep⟩ := keep_eq P cfg env s ident token card cardBytes downstream
  rw [hkeep]
  rfl

theorem wrote_readOnly {env : Env A} {cert : DeviceCert} {assoc : Association} {fp : Fingerprint} {a a' : A}
    (hreadOnly : assoc = .readOnly)
    (h : Wrote env.auth fp (MayLink env cert assoc) (MayCreate cfg assoc) a a') : a' = a := by
  cases h with
  | nothing => rfl
  | link hmay hlink => exact absurd (hmay.write.symm.trans hreadOnly) (by nofun)
  | account hmay hcreate => exact absurd (hmay.write.symm.trans hreadOnly) (by nofun)

theorem keep_tokens (s : Server A) (ident : TransportIdentity) (card : Card) (cardBytes : List UInt8)
    (downstream : Downstream) :
    (s.keep P cfg env ident none card cardBytes downstream).tables.tokens = s.tables.tokens := by
  obtain ⟨anchors, hkeep⟩ := keep_eq P cfg env s ident none card cardBytes downstream
  rw [hkeep]
  rfl

section Calls
variable {env} (hauth : env.auth.Lawful) {s s' : Server A}
include hauth

theorem admitted_eq {v : Verified} {req : AuthRequest} {assoc : Association}
    {r : Except AuthRefused TransportIdentity} (h : s.admitted P cfg env v req assoc = (r, s')) :
    (∀ e, r = .error e → Untouched P env v.card req.rotation v.cert.device e s s') ∧
      ∀ ident, r = .ok ident →
        LetIn P cfg env v.card req.rotation (MayLink env v.cert assoc) (MayCreate cfg assoc) s s' ident ∧
          (assoc = .write → identityBanned env ident.fingerprint ident.handle v.card = false) ∧
          ∃ t, Turns P env (Learned P env v.card req.rotation) s t ∧ Associated t s' ∧
            (assoc = .readOnly → s'.accounts = t.accounts) := by
  unfold Server.admitted at h
  split at h
  · next e s₁ hstanding =>
    obtain ⟨rfl, rfl⟩ := Prod.mk.inj h
    refine ⟨fun e' he => ?_, by nofun⟩
    obtain rfl := Except.error.inj he
    obtain ⟨t, ht, hdrop⟩ := standing_turns P cfg env s v.card v.cert req.rotation assoc
    rw [hstanding] at hdrop
    exact untouched_of_dropped P env ht hdrop
  · next st t hstanding =>
    obtain ⟨-, ht, attestations, hadmissible⟩ := standing_eq_ok P cfg env hstanding
    obtain ⟨-, -, hbanned⟩ := admissible_eq_ok P cfg env hadmissible
    split at h
    · next e s₁ hassociate =>
      obtain ⟨rfl, rfl⟩ := Prod.mk.inj h
      obtain ⟨hassociated, herror, -⟩ := associate_eq cfg hauth hassociate
      exact ⟨fun e' _ => ⟨t, ht, .inl (hassociated.same (herror e rfl))⟩, by nofun⟩
    · next outcome account s₁ hassociate =>
      obtain ⟨rfl, rfl⟩ := Prod.mk.inj h
      obtain ⟨hassociated, -, hok⟩ := associate_eq cfg hauth hassociate
      obtain ⟨hwrote, hdeny, hlinks⟩ := hok outcome account rfl
      refine ⟨by nofun, fun ident hident => ?_⟩
      obtain rfl := Except.ok.inj hident
      refine ⟨⟨⟨t, ht, hwrote⟩, fun hcfg => ?_⟩, hbanned, t, ht, hassociated, fun hreadOnly => ?_⟩
      · cases account with
        | none => exact absurd hcfg (hdeny rfl)
        | some login =>
          obtain ⟨acc, rfl, hacc⟩ := hlinks login rfl
          exact ⟨acc, rfl, hacc⟩
      · exact wrote_readOnly cfg hreadOnly hwrote

theorem deviceAdmitted_eq {v : Verified} {login : String} {cardShown encrypted : Bool}
    {r : Except AuthRefused TransportIdentity}
    (h : s.deviceAdmitted P cfg env v login cardShown encrypted = (r, s')) :
    (∀ e, r = .error e → Untouched P env v.card none v.cert.device e s s') ∧
      ∀ ident, r = .ok ident →
        LetIn P cfg env v.card none (MayLink env v.cert .write) False s s' ident ∧
          identityBanned env ident.fingerprint ident.handle v.card = false := by
  unfold Server.deviceAdmitted at h
  split at h
  · next e s₁ hstanding =>
    obtain ⟨rfl, rfl⟩ := Prod.mk.inj h
    refine ⟨fun e' he => ?_, by nofun⟩
    obtain rfl := Except.error.inj he
    obtain ⟨t, ht, hdrop⟩ := standing_turns P cfg env s v.card v.cert none .write
    rw [hstanding] at hdrop
    exact untouched_of_dropped P env ht hdrop
  · next st t hstanding =>
    obtain ⟨-, ht, attestations, hadmissible⟩ := standing_eq_ok P cfg env hstanding
    obtain ⟨-, -, hbanned⟩ := admissible_eq_ok P cfg env hadmissible
    split at h
    · next e s₁ hproof =>
      obtain ⟨rfl, rfl⟩ := Prod.mk.inj h
      rcases (proofAccount_eq hauth hproof).2 with rfl | ⟨acc, hacc, -⟩
      · exact ⟨fun e' _ => ⟨_, ht, .inl (.refl _)⟩, by nofun⟩
      · cases hacc
    · next account s₁ hproof =>
      obtain ⟨hlinks, hwrote⟩ := proofAccount_eq hauth hproof
      split at h
      · next hoff =>
        obtain ⟨rfl, rfl⟩ := Prod.mk.inj h
        rcases hwrote with rfl | ⟨acc, hacc, hmay, -⟩
        · exact ⟨fun e' _ => ⟨_, ht, .inl (.refl _)⟩, by nofun⟩
        · obtain rfl := Except.ok.inj hacc
          exact absurd hmay.identityLogin hoff
      · obtain ⟨rfl, rfl⟩ := Prod.mk.inj h
        refine ⟨by nofun, fun ident hident => ?_⟩
        obtain rfl := Except.ok.inj hident
        refine ⟨⟨⟨t, ht, ?_⟩, fun _ => ⟨account, rfl, hlinks account rfl⟩⟩, hbanned rfl⟩
        rcases hwrote with rfl | ⟨acc, hacc, hmay, -, hlink⟩
        · exact .nothing
        · exact .link hmay hlink

theorem link_eq {ident : TransportIdentity} {login : String} {password : List UInt8}
    {r : Except AuthRefused Account} (h : s.link env ident login password = (r, s')) :
    (∀ e, r = .error e → s' = s) ∧ s' = { s with accounts := s'.accounts } ∧
      Wrote env.auth ident.fingerprint
        (fun acc => ident.allows caps.manage = true ∧
          env.personBanned (some acc.login) (some ident.fingerprint) ident.handle = false)
        False s.accounts s'.accounts := by
  unfold Server.link at h
  split at h
  · obtain ⟨rfl, rfl⟩ := Prod.mk.inj h
    exact ⟨fun _ _ => rfl, rfl, .nothing⟩
  next hmanage =>
  split at h
  · obtain ⟨rfl, rfl⟩ := Prod.mk.inj h
    exact ⟨fun _ _ => rfl, rfl, .nothing⟩
  · obtain ⟨rfl, rfl⟩ := Prod.mk.inj h
    exact ⟨fun _ _ => rfl, rfl, .nothing⟩
  next account hauthenticate =>
  have hfind := hauth.authenticate_find hauthenticate
  split at h
  · obtain ⟨rfl, rfl⟩ := Prod.mk.inj h
    exact ⟨fun _ _ => rfl, rfl, .nothing⟩
  split at h
  · obtain ⟨rfl, rfl⟩ := Prod.mk.inj h
    exact ⟨fun _ _ => rfl, rfl, .nothing⟩
  next hbanned =>
  cases hexclusive : s.linkExclusive env account.login ident.fingerprint with
  | mk outcome s₁ =>
    rw [hexclusive] at h
    rcases linkExclusive_eq hauth hexclusive with ⟨acc, rfl, hs, hlink⟩ | ⟨rfl, hnot⟩
    · obtain ⟨rfl, rfl⟩ := Prod.mk.inj h
      obtain ⟨-, -, -, hacc⟩ := linked_of_find hauth hfind hlink
      have hlogin : account.login = acc.login := by rw [hacc]
      rw [hlogin] at hlink hbanned
      exact ⟨by nofun, hs, .link ⟨by simpa using hmanage, by simpa using hbanned⟩ hlink⟩
    · have hs : s' = s₁ := by
        cases outcome with
        | error e => exact (Prod.mk.inj h).2.symm
        | ok outcome => cases outcome <;> exact (Prod.mk.inj h).2.symm
      subst hs
      exact ⟨fun _ _ => rfl, rfl, .nothing⟩

omit hauth in
theorem turns_tokens {known : Fingerprint → Fingerprint → Prop} {t : Server A} (h : Turns P env known s t)
    {key : Bytes 32} {x : TransportIdentity × Instant} (hx : t.tables.tokens.get key = some x) :
    s.tables.tokens.get key = some x := by
  induction h with
  | refl => exact hx
  | tail _ hturn ih =>
    refine ih ?_
    cases hturn with
    | accept from_ to_ hknown hanchors hnew hcommitted =>
      exact ((Option.filter_eq_some_iff).mp ((Map.get_filter _ _).symm.trans hx)).1
    | relink from_ to_ hrotated => exact hx
    | moved from_ hanchors => exact hx

/-- Re-admitting a device on file writes no account and no link, and leaves no token. -/
theorem identityForDevice_eq {device : PublicKey} {r : Option TransportIdentity}
    (h : s.identityForDevice P cfg env device = (r, s')) :
    (s' = s ∨ ∃ card t, Turns P env (Learned P env card none) s t ∧ s'.accounts = t.accounts) ∧
      (∀ key x, s'.tables.tokens.get key = some x → s.tables.tokens.get key = some x) ∧
      ∀ ident, r = some ident → cfg.newAccounts = .deny →
        ∃ acc, ident.account = some acc.login ∧ env.auth.Links s'.accounts acc ident.fingerprint := by
  unfold Server.identityForDevice at h
  split at h
  · obtain ⟨rfl, rfl⟩ := Prod.mk.inj h
    exact ⟨.inl rfl, fun _ _ hx => hx, by simp⟩
  next v downstream hfile =>
  split at h
  · next e s₁ hadmitted =>
    obtain ⟨rfl, rfl⟩ := Prod.mk.inj h
    obtain ⟨t, ht, hsame⟩ := (admitted_eq P cfg hauth hadmitted).1 e rfl
    have hleft : s₁.accounts = t.accounts ∧ s₁.tables.tokens = t.tables.tokens := by
      rcases hsame with hsame | ⟨-, hsame⟩ <;> exact ⟨hsame.accounts, hsame.tokens⟩
    refine ⟨.inr ⟨v.card, t, ht, hleft.1⟩, fun key x hx => turns_tokens P ht ?_, by simp⟩
    rwa [hleft.2] at hx
  · next ident s₁ hadmitted =>
    obtain ⟨rfl, rfl⟩ := Prod.mk.inj h
    obtain ⟨hin, -, t, ht, hassociated, haccounts⟩ := (admitted_eq P cfg hauth hadmitted).2 ident rfl
    refine ⟨.inr ⟨v.card, t, ht, ?_⟩, fun key x hx => turns_tokens P ht ?_, fun ident' hident hdeny => ?_⟩
    · rw [keep_accounts]
      exact haccounts rfl
    · rwa [keep_tokens, hassociated.tokens] at hx
    · obtain rfl := Option.some.inj hident
      rw [keep_accounts]
      exact hin.linked hdeny

end Calls

/-! ## A login -/

namespace Trial

/-- The identity of seed 1, on the device of seed 2. -/
def identity : PublicKey := Vectors.identityKey

def fingerprint : Fingerprint := Vectors.identityFingerprint

def seed : Bytes 32 := Bytes.replicate 32 1

def device : PublicKey := Vectors.deviceKey

/-- The fingerprints of the keys of seeds 3 and 4: one to rotate to, one rotated away. -/
def successor : Fingerprint := beArray 32 0xb62e867fa2f33afe62d5d6b1642e1621d543307846b2a57b897e710919b76709

def older : Fingerprint := beArray 32 0xc5b940ed3f65c391965de8295fc5d25f474fa57b48d36eb10ad363b8539c1b79

def card (updated : UInt64) (successor : Option (Bytes 32)) : Card :=
  ⟨identity, updated, "alice", none, none, [], [], [], successor⟩

def cert (expires : UInt64) : DeviceCert :=
  ⟨identity, device, Bytes.replicate 32 9, 1000, expires, none, none⟩

/-- The expiry nothing outlives. -/
def never : UInt64 := 0xffffffffffffffff

/-- The keys, the signatures and the hashes of the logins below. -/
def table : Table where
  publicKeys := [(seed, identity)]
  signatures := [
    ((identity, domainMessage Card.domain (encode ((card 5000 none).unsigned []))), beArray 64
      0xa5a05e561da2f3a1cb6beb10845fc04b2ec1cfb94e631455f9584b64e07a11d1_7f4e318404d0bf04b58da1a2ce1e22f6bf2875046aa9d29953384074fcc8e802),
    ((identity, domainMessage Card.domain (encode ((card 3000 (some successor)).unsigned []))), beArray 64
      0xf64e80144ad6a2cdd43d6587a47d22516611401de1221dd46d932fde0dc942f3_a3c3ba18f523563865379a63947d09a95b07df3d6b759aaf64a9e41b57d8e30e),
    ((identity, domainMessage DeviceCert.domain (encode (cert 1000000).unsigned)), beArray 64
      0x2f7fb9e20772d1a414ebce26f57ac051ac3f7d01b396ec6e2fdab81f0f8fee95_b87c75b9bd81ad9bdca9544b4978a954a2614275de8ab697987fef3d11487b05),
    ((identity, domainMessage DeviceCert.domain (encode (cert never).unsigned)), beArray 64
      0x6d64f987a6ef2bff33122bfa5484b1d6e73be0bcdb03293b15a82a7f5796637a_d782deb9ea942d8194c3e590da3ec9aa04b8dbff87ed325d6fd550fce6a8e706)]
  hashes := [
    (identity.val, fingerprint),
    (device.val, beArray 32 0x6a3803d5f059902a1c6dafbc9ba4729212f7caac08634cc3ae76b27529f03827)]
  encKeys := []

def cardBytes (updated : UInt64) (successor : Option (Bytes 32)) : List UInt8 :=
  (card updated successor).sealed table.primitives seed []

def certBytes (expires : UInt64) : List UInt8 := (cert expires).sign table.primitives seed

def verified (updated : UInt64) (successor : Option (Bytes 32)) (expires : UInt64) : Verified :=
  ⟨card updated successor, cert expires, cardBytes updated successor, certBytes expires⟩

/-- A server of default policy, which makes no accounts. -/
def policy : IdentityConfig :=
  ⟨.guest, [], 0, .allow, [], 300, none, none, .deny, [], 0, ["hl.example"], false⟩

/-- Alone with its accounts, at 6000 on the clock. -/
def outside (banned : Option Fingerprint) : Env MemAuth.Accounts where
  now := 0
  unix := 6000
  auth := memAuth
  personBanned _ fp _ := fp.isSome && fp = banned
  registrar := none
  registrars := none
  firstSeen _ now := now
  rotateIdentity _ _ := true

def account (login : String) (fingerprint : Option Fingerprint) (identityLogin : Bool) : Account :=
  ⟨login, login, true, 0, fingerprint, identityLogin, true⟩

/-- With one account, and a rotation accepted whose moves have not landed. -/
def server (acc : Account) : Server MemAuth.Accounts where
  tables := {}
  anchors := some ⟨.empty, Map.empty.set older (fingerprint, false), true⟩
  refused := { rotated := [older] }
  accounts := Map.empty.set acc.login acc

def ident : TransportIdentity :=
  ⟨identity, device, fingerprint, none, 0, .guest, none, 1000000, certBytes 1000000, Bytes.replicate 32 9, none,
    false, none⟩

end Trial

/-- A refused login leaves the accounts, the links, the tokens, the cached cards and devices and the anchors
as they were, but for what rotations it learns of, or finishes, move. One let in writes at most the one link
or account its certificate and the policy allow it, and never one for a banned identity; and under
`new_accounts = deny` only an identity with a linked account is let in. -/
theorem refused_login_writes_nothing (hauth : env.auth.Lawful) (s : Server A) :
    (∀ v req assoc drawn e s', s.admitLogin P cfg env v req assoc drawn = (.error e, s') →
      Untouched P env v.card req.rotation v.cert.device e s s') ∧
    (∀ v login cardShown encrypted e s', s.admitDevice P cfg env v login cardShown encrypted = (.error e, s') →
      Untouched P env v.card none v.cert.device e s s') ∧
    (∀ ident login password e s', s.link env ident login password = (.error e, s') → s' = s) ∧
    (∀ v req assoc drawn token ident s',
      s.admitLogin P cfg env v req assoc drawn = (.ok (token, ident), s') →
      LetIn P cfg env v.card req.rotation (MayLink env v.cert assoc) (MayCreate cfg assoc) s s' ident ∧
      (assoc = .write → identityBanned env ident.fingerprint ident.handle v.card = false)) ∧
    (∀ v login cardShown encrypted ident s',
      s.admitDevice P cfg env v login cardShown encrypted = (.ok ident, s') →
      LetIn P cfg env v.card none (MayLink env v.cert .write) False s s' ident ∧
      identityBanned env ident.fingerprint ident.handle v.card = false) ∧
    (∀ ident login password acc s', s.link env ident login password = (.ok acc, s') →
      s' = { s with accounts := s'.accounts } ∧
      Wrote env.auth ident.fingerprint
        (fun acc => ident.allows caps.manage = true ∧
          env.personBanned (some acc.login) (some ident.fingerprint) ident.handle = false)
        False s.accounts s'.accounts) ∧
    (∀ ident x, cfg.newAccounts = .deny → s.accountFor cfg env ident = .ok x →
      ∃ acc, x = some acc ∧ env.auth.Links s.accounts acc ident.fingerprint) ∧
    ∀ device r s', s.identityForDevice P cfg env device = (r, s') →
      (s' = s ∨ ∃ card t, Turns P env (Learned P env card none) s t ∧ s'.accounts = t.accounts) ∧
      (∀ key x, s'.tables.tokens.get key = some x → s.tables.tokens.get key = some x) ∧
      ∀ ident, r = some ident → cfg.newAccounts = .deny →
        ∃ acc, ident.account = some acc.login ∧ env.auth.Links s'.accounts acc ident.fingerprint := by
  refine ⟨?_, ?_, fun ident login password e s' h => (link_eq hauth h).1 e rfl, ?_, ?_,
    fun ident login password acc s' h => (link_eq hauth h).2, ?_,
    fun device r s' h => identityForDevice_eq P cfg hauth h⟩
  · intro v req assoc drawn e s' h
    unfold Server.admitLogin at h
    split at h
    · next hadmitted =>
      obtain ⟨he, rfl⟩ := Prod.mk.inj h
      obtain rfl := Except.error.inj he
      exact (admitted_eq P cfg hauth hadmitted).1 _ rfl
    · cases (Prod.mk.inj h).1
  · intro v login cardShown encrypted e s' h
    unfold Server.admitDevice at h
    split at h
    · next hadmitted =>
      obtain ⟨he, rfl⟩ := Prod.mk.inj h
      obtain rfl := Except.error.inj he
      exact (deviceAdmitted_eq P cfg hauth hadmitted).1 _ rfl
    · cases (Prod.mk.inj h).1
  · intro v req assoc drawn token ident s' h
    unfold Server.admitLogin at h
    split at h
    · cases (Prod.mk.inj h).1
    · next hadmitted =>
      obtain ⟨hident, rfl⟩ := Prod.mk.inj h
      obtain ⟨-, rfl⟩ := Prod.mk.inj (Except.ok.inj hident)
      obtain ⟨hin, hbanned, -⟩ := (admitted_eq P cfg hauth hadmitted).2 _ rfl
      refine ⟨⟨?_, ?_⟩, hbanned⟩
      · rw [keep_accounts]
        exact hin.wrote
      · rw [keep_accounts]
        exact hin.linked
  · intro v login cardShown encrypted ident s' h
    unfold Server.admitDevice at h
    split at h
    · cases (Prod.mk.inj h).1
    · next hadmitted =>
      obtain ⟨hident, rfl⟩ := Prod.mk.inj h
      obtain rfl := Except.ok.inj hident
      obtain ⟨hin, hbanned⟩ := (deviceAdmitted_eq P cfg hauth hadmitted).2 _ rfl
      refine ⟨⟨?_, ?_⟩, hbanned⟩
      · rw [keep_accounts]
        exact hin.wrote
      · rw [keep_accounts]
        exact hin.linked
  · intro ident x hdeny h
    unfold Server.accountFor at h
    split at h
    · cases h
    · next acc hfound =>
      split at h
      · exact ⟨acc, (Except.ok.inj h).symm, hauth.findByFingerprint_links (findLinked_eq_ok env hfound)⟩
      · cases h
    · rw [if_pos hdeny] at h
      cases h

open Trial in
theorem refused_login_writes_nothing_alice :
    memAuth.Lawful ∧ ∀ ident login password e s',
      (server (account "alice" none true)).link (outside none) ident login password = (.error e, s') →
        s' = server (account "alice" none true) :=
  ⟨memAuth_lawful, (refused_login_writes_nothing table.primitives policy (outside none) memAuth_lawful
    (server (account "alice" none true))).2.2.1⟩

open Trial in
/-- A login refused as banned finishes the moves of a rotation accepted before it; and a link asked for
once in is written to an account that refuses identity login. -/
theorem refused_login_writes :
    verifyPresented table.primitives (cardBytes 5000 none) (certBytes 1000000) device 6000 300 =
      .ok (card 5000 none, cert 1000000) ∧
    ((server (account "alice" (some older) true)).admitLogin table.primitives policy (outside (some fingerprint))
      (verified 5000 none 1000000) (.plain .loopback) .write (Bytes.replicate 32 7)).1 = .error .banned ∧
    ((server (account "alice" (some older) true)).admitLogin table.primitives policy (outside (some fingerprint))
      (verified 5000 none 1000000) (.plain .loopback) .write (Bytes.replicate 32 7)).2.accounts =
      Map.empty.set "alice" (account "alice" (some fingerprint) true) ∧
    ((server (account "kiosk" none false)).link (outside none) ident "kiosk" "pw".toUTF8.toList).1 =
      .ok (account "kiosk" (some fingerprint) false) := by
  decide +kernel

end HxdNg.Admission
