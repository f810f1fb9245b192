import HxdNg.Admission.State

/-!
# Account backends

* `AuthBackend.Lawful` : what the trait documents of a backend, as far as admission relies on it;
* `memAuth` : the backend the unit tests run on, accounts in memory by login, with the password `pw`
  or none; `memAuth_lawful`.
-/

namespace HxdNg.Admission

open Identity Assoc
open Accounts (AccessBits)

namespace AuthBackend

variable {A : Type}

/-- An account on file that links an identity. -/
def Links (b : AuthBackend A) (a : A) (acc : Account) (fp : Fingerprint) : Prop :=
  b.find a acc.login = .ok acc ∧ acc.fingerprint = some fp

structure Lawful (b : AuthBackend A) : Prop where
  authenticate_find {a : A} {login : String} {password : List UInt8} {acc : Account}
    (h : b.authenticate a login password = .ok acc) : b.find a acc.login = .ok acc
  find_find {a : A} {login : String} {acc : Account} (h : b.find a login = .ok acc) :
    b.find a acc.login = .ok acc
  findByFingerprint_links {a : A} {fp : Fingerprint} {acc : Account}
    (h : b.findByFingerprint a fp = .ok (some acc)) : b.Links a acc fp
  link_linked {a a' : A} {login : String} {fp : Fingerprint} {acc : Account}
    (h : b.linkIdentity a login fp = (.ok (.linked acc), a')) :
    b.Links a' acc fp ∧ (∀ x, b.findByFingerprint a fp ≠ .ok (some x)) ∧
      ∃ before, b.find a login = .ok before ∧ before.fingerprint = none ∧ before.hasPassword = true ∧
        before.allowSelfLink = true ∧ acc = { before with fingerprint := some fp }
  link_already {a a' : A} {login : String} {fp : Fingerprint} {acc : Account}
    (h : b.linkIdentity a login fp = (.ok (.already acc), a')) : a' = a ∧ b.Links a acc fp
  link_taken {a a' : A} {login : String} {fp : Fingerprint} {acc : Account}
    (h : b.linkIdentity a login fp = (.ok (.taken acc), a')) : a' = a
  link_refused {a a' : A} {login : String} {fp : Fingerprint} {acc : Account}
    (h : b.linkIdentity a login fp = (.ok (.refused acc), a')) : a' = a
  link_error {a a' : A} {login : String} {fp : Fingerprint} {e : AuthError}
    (h : b.linkIdentity a login fp = (.error e, a')) : a' = a
  create_new {a a' : A} {proposed name : String} {fp : Fingerprint} {access : AccessBits} {acc : Account}
    (h : b.findOrCreateLinked a proposed name fp access = (.ok (acc, true), a')) :
    b.Links a' acc fp ∧ ∀ x, b.findByFingerprint a fp ≠ .ok (some x)
  create_found {a a' : A} {proposed name : String} {fp : Fingerprint} {access : AccessBits} {acc : Account}
    (h : b.findOrCreateLinked a proposed name fp access = (.ok (acc, false), a')) :
    a' = a ∧ b.findByFingerprint a fp = .ok (some acc)
  create_error {a a' : A} {proposed name : String} {fp : Fingerprint} {access : AccessBits} {e : AuthError}
    (h : b.findOrCreateLinked a proposed name fp access = (.error e, a')) : a' = a

end AuthBackend

/-! ## A backend in memory -/

namespace MemAuth

/-- Accounts by login. -/
abbrev Accounts := Map String Account

variable (a : Accounts)

/-- An empty login means the guest account. -/
def find (login : String) : Option Account :=
  let login := if login = "" then "guest" else login
  (a.get login).map fun acc => { acc with login }

def authenticate (login : String) (password : List UInt8) : Except AuthError Account :=
  match find a login with
  | none => .error .noSuchAccount
  | some acc =>
    -- No password and a linked identity: the key is the credential.
    if ¬ acc.hasPassword ∧ acc.fingerprint.isSome then .error .badProof
    else
      let want := if acc.hasPassword then "pw".toUTF8.toList else []
      if password ≠ want then .error .badProof else .ok acc

def findByFingerprint (fp : Fingerprint) : Option Account :=
  (a.entries.find? fun e => e.2.fingerprint = some fp ∧ e.1 ≠ "").map fun e => { e.2 with login := e.1 }

def linkIdentity (login : String) (fp : Fingerprint) : Except AuthError LinkOutcome × Accounts :=
  match find a login with
  | none => (.error .noSuchAccount, a)
  | some acc =>
    if acc.fingerprint = some fp then (.ok (.already acc), a)
    else if acc.fingerprint.isSome ∨ ¬ acc.allowSelfLink ∨ ¬ acc.hasPassword then (.ok (.refused acc), a)
    else
      match findByFingerprint a fp with
      | some other => (.ok (.taken other), a)
      | none =>
        let acc := { acc with fingerprint := some fp }
        (.ok (.linked acc), a.set acc.login acc)

def rotateLink (from_ to_ : Fingerprint) : Except AuthError (Option Account) × Accounts :=
  if (findByFingerprint a to_).isSome then (.ok none, a)
  else
    match findByFingerprint a from_ with
    | none => (.ok none, a)
    | some acc =>
      let acc := { acc with fingerprint := some to_ }
      (.ok (some acc), a.set acc.login acc)

/-- The login proposed, or another where that is taken. -/
def freeLogin (proposed : String) : String :=
  if proposed = "" ∨ (a.get proposed).isSome then proposed ++ "-2" else proposed

def findOrCreateLinked (proposed name : String) (fp : Fingerprint) (access : AccessBits) :
    Except AuthError (Account × Bool) × Accounts :=
  match findByFingerprint a fp with
  | some acc => (.ok (acc, false), a)
  | none =>
    let acc : Account := ⟨freeLogin a proposed, name, false, access, some fp, true, true⟩
    (.ok (acc, true), a.set acc.login acc)

end MemAuth

def memAuth : AuthBackend MemAuth.Accounts where
  authenticate := MemAuth.authenticate
  find a login := (MemAuth.find a login).elim (.error .noSuchAccount) .ok
  findByFingerprint a fp := .ok (MemAuth.findByFingerprint a fp)
  linkIdentity := MemAuth.linkIdentity
  rotateLink := MemAuth.rotateLink
  findOrCreateLinked := MemAuth.findOrCreateLinked

namespace MemAuth

variable {a : Accounts}

theorem find_login_ne {login : String} {acc : Account} (h : find a login = some acc) : acc.login ≠ "" := by
  obtain ⟨stored, -, rfl⟩ := Option.map_eq_some_iff.mp h
  show (if login = "" then "guest" else login) ≠ ""
  split
  · decide
  · assumption

theorem find_of_ne {login : String} (h : login ≠ "") :
    find a login = (a.get login).map fun acc => { acc with login } := by
  rw [find, if_neg h]

theorem find_find {login : String} {acc : Account} (h : find a login = some acc) :
    find a acc.login = some acc := by
  rw [find_of_ne (find_login_ne h)]
  obtain ⟨stored, hstored, rfl⟩ := Option.map_eq_some_iff.mp h
  exact Option.map_eq_some_iff.mpr ⟨stored, hstored, rfl⟩

theorem find_set {acc : Account} (h : acc.login ≠ "") : find (a.set acc.login acc) acc.login = some acc := by
  rw [find_of_ne h, Map.get_set, if_pos rfl]
  rfl

theorem freeLogin_ne (proposed : String) : freeLogin a proposed ≠ "" := by
  unfold freeLogin
  split
  · intro h
    have hlen := congrArg String.length h
    rw [String.length_append] at hlen
    have : "-2".length = 2 := by decide
    simp only [this, String.length_empty] at hlen
    omega
  · next h => exact fun h' => h (.inl h')

theorem find_of_findByFingerprint {fp : Fingerprint} {acc : Account} (h : findByFingerprint a fp = some acc) :
    find a acc.login = some acc ∧ acc.fingerprint = some fp := by
  obtain ⟨⟨login, stored⟩, hfound, rfl⟩ := Option.map_eq_some_iff.mp h
  obtain ⟨hfp, hne⟩ : stored.fingerprint = some fp ∧ login ≠ "" := by
    simpa using List.find?_some hfound
  refine ⟨?_, hfp⟩
  rw [find_of_ne hne, Map.mem_entries_iff.mp (List.mem_of_find?_eq_some hfound)]
  rfl

end MemAuth

theorem memAuth_find {a : MemAuth.Accounts} {login : String} {acc : Account} :
    memAuth.find a login = .ok acc ↔ MemAuth.find a login = some acc := by
  show (MemAuth.find a login).elim (Except.error AuthError.noSuchAccount) Except.ok = Except.ok acc ↔ _
  cases MemAuth.find a login <;> simp

theorem memAuth_links {a : MemAuth.Accounts} {fp : Fingerprint} {acc : Account}
    (h : MemAuth.findByFingerprint a fp = some acc) : memAuth.Links a acc fp :=
  ⟨memAuth_find.mpr (MemAuth.find_of_findByFingerprint h).1, (MemAuth.find_of_findByFingerprint h).2⟩

theorem memAuth_link (a : MemAuth.Accounts) (login : String) (fp : Fingerprint) :
    match memAuth.linkIdentity a login fp with
    | (.ok (.linked acc), a') =>
      memAuth.Links a' acc fp ∧ MemAuth.findByFingerprint a fp = none ∧
        ∃ before, memAuth.find a login = .ok before ∧ before.fingerprint = none ∧ before.hasPassword = true ∧
          before.allowSelfLink = true ∧ acc = { before with fingerprint := some fp }
    | (.ok (.already acc), a') => a' = a ∧ memAuth.Links a acc fp
    | (_, a') => a' = a := by
  show match MemAuth.linkIdentity a login fp with
    | (.ok (.linked acc), a') => _
    | (.ok (.already acc), a') => _
    | (_, a') => _
  unfold MemAuth.linkIdentity
  cases hfind : MemAuth.find a login with
  | none => rfl
  | some before =>
    have hself := memAuth_find.mpr (MemAuth.find_find hfind)
    dsimp only
    by_cases halready : before.fingerprint = some fp
    · rw [if_pos halready]
      exact ⟨rfl, hself, halready⟩
    rw [if_neg halready]
    by_cases hrefused : before.fingerprint.isSome ∨ ¬ before.allowSelfLink ∨ ¬ before.hasPassword
    · rw [if_pos hrefused]
    rw [if_neg hrefused]
    simp only [not_or, Option.not_isSome_iff_eq_none, not_not] at hrefused
    cases hother : MemAuth.findByFingerprint a fp with
    | some other => rfl
    | none =>
      have hne : before.login ≠ "" := MemAuth.find_login_ne hfind
      have hset := MemAuth.find_set (a := a) (show { before with fingerprint := some fp }.login ≠ "" from hne)
      exact ⟨⟨memAuth_find.mpr hset, rfl⟩, rfl, before, memAuth_find.mpr hfind, hrefused.1, hrefused.2.2,
        hrefused.2.1, rfl⟩

theorem memAuth_create (a : MemAuth.Accounts) (proposed name : String) (fp : Fingerprint)
    (access : AccessBits) :
    match memAuth.findOrCreateLinked a proposed name fp access with
    | (.ok (acc, true), a') => memAuth.Links a' acc fp ∧ MemAuth.findByFingerprint a fp = none
    | (.ok (acc, false), a') => a' = a ∧ memAuth.findByFingerprint a fp = .ok (some acc)
    | (.error _, a') => a' = a := by
  show match MemAuth.findOrCreateLinked a proposed name fp access with
    | (.ok (acc, true), a') => _
    | (.ok (acc, false), a') => _
    | (.error _, a') => _
  unfold MemAuth.findOrCreateLinked
  cases hfound : MemAuth.findByFingerprint a fp with
  | some acc => exact ⟨rfl, congrArg Except.ok hfound⟩
  | none =>
    exact ⟨⟨memAuth_find.mpr (MemAuth.find_set (MemAuth.freeLogin_ne proposed)), rfl⟩, rfl⟩

theorem memAuth_lawful : memAuth.Lawful where
  authenticate_find {a login password acc} h := by
    refine memAuth_find.mpr ?_
    replace h : MemAuth.authenticate a login password = .ok acc := h
    unfold MemAuth.authenticate at h
    cases hfind : MemAuth.find a login with
    | none =>
      rw [hfind] at h
      cases h
    | some found =>
      rw [hfind] at h
      dsimp only at h
      generalize (if found.hasPassword then "pw".toUTF8.toList else []) = want at h
      split at h
      · cases h
      split at h
      · cases h
      · obtain rfl := Except.ok.inj h
        exact MemAuth.find_find hfind
  find_find h := memAuth_find.mpr (MemAuth.find_find (memAuth_find.mp h))
  findByFingerprint_links h := memAuth_links (Except.ok.inj h)
  link_linked {a a' login fp acc} h := by
    have hlink := memAuth_link a login fp
    rw [h] at hlink
    obtain ⟨hlinks, hnone, hbefore⟩ := hlink
    refine ⟨hlinks, fun x hx => ?_, hbefore⟩
    rw [Except.ok.inj hx] at hnone
    cases hnone
  link_already {a a' login fp acc} h := by
    have hlink := memAuth_link a login fp
    rwa [h] at hlink
  link_taken {a a' login fp acc} h := by
    have hlink := memAuth_link a login fp
    rwa [h] at hlink
  link_refused {a a' login fp acc} h := by
    have hlink := memAuth_link a login fp
    rwa [h] at hlink
  link_error {a a' login fp e} h := by
    have hlink := memAuth_link a login fp
    rwa [h] at hlink
  create_new {a a' proposed name fp access acc} h := by
    have hcreate := memAuth_create a proposed name fp access
    rw [h] at hcreate
    refine ⟨hcreate.1, fun x hx => ?_⟩
    have hnone := hcreate.2
    rw [Except.ok.inj hx] at hnone
    cases hnone
  create_found {a a' proposed name fp access acc} h := by
    have hcreate := memAuth_create a proposed name fp access
    rwa [h] at hcreate
  create_error {a a' proposed name fp access e} h := by
    have hcreate := memAuth_create a proposed name fp access
    rwa [h] at hcreate

end HxdNg.Admission
