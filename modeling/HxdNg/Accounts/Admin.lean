import HxdNg.Accounts.Files
import HxdNg.Lib.Results
import HxdNg.Lib.Runs

/-!
# Account administration

* `beyond`, `grantsBeyond`, `actor`, `roleMay` : whom an administrator may change;
* `FileAuth.Call`, `FileAuth.call` : the calls its sessions make;
* `Confined` : nobody is raised above the administrator; `Confined.trans`, `confined_of_touched`;
* `administration_confined` : no run of its calls raises anyone above it.
-/

namespace HxdNg.Accounts

open Assoc

/-- May `target` do anything `actor` may not: hold an access bit, a policy its file grants, or a role
a gate names? -/
def beyond (actor target : Account) (gated : List String) : Bool :=
  let letIn (r : String) : Bool := gated.contains r && !actor.config.roles.contains r
  (!actor.extra.manageRoles && target.config.roles.any letIn) ||
    target.access &&& ~~~actor.access ≠ 0 ||
    [(target.extra.setSubject, actor.extra.setSubject),
      (target.extra.fileList, actor.extra.fileList),
      (target.extra.fileGetinfo, actor.extra.fileGetinfo),
      (target.extra.attachNews, actor.extra.attachNews),
      (target.extra.moderate, actor.extra.moderate),
      (target.extra.canSpam, actor.extra.canSpam),
      (target.extra.manageRoles, actor.extra.manageRoles),
      (target.extra.manageRooms, actor.extra.manageRooms)].any fun (t, a) => t && !a

/-- Does `role` grant anything `actor` may not do? -/
def grantsBeyond (actor : Account) (role : Role) : Bool :=
  role.access &&& ~~~actor.access ≠ 0 ||
    EXTRA_KEYS.any fun (_, p) => role.extra.policy p && !actor.extra.policy p

/-- What the session asking for a change has, whatever its mask leaves of its account. -/
structure Session where
  login : String
  has : Nat → Bool
  managesRoles : Bool

inductive WriteMode where
  | create
  | modify
  | createOrModify
  deriving DecidableEq

def WriteMode.need : WriteMode → Nat
  | .create => bit.CREATE_USERS
  | _ => bit.MODIFY_USERS

namespace FileAuth

/-- The account `login` names, as its file reads now, holding `need` there. -/
def actor (s : FileAuth) (login : String) (need : Nat) : Except AdminError Account :=
  match s.readAccount login with
  | .error .noSuchAccount => .error .notAllowed
  | .error e => .error e
  | .ok account => if !account.access.has need then .error .notAllowed else .ok account

/-- What an account write is checked for. -/
def mayWrite (s : FileAuth) (login : String) (mode : WriteMode) (gated : List String)
    (existing : Option Account) (after : Account) : Except AdminError Unit := do
  let actor ← s.actor login mode.need
  if mode = .create ∧ existing.isSome then .error .exists_
  else if mode = .modify ∧ existing.isNone then .error .noSuchAccount
  else if existing.isNone ∧ !actor.access.has bit.CREATE_USERS then .error .notAllowed
  else if existing.any (beyond actor · gated) || beyond actor after gated then .error .outranked
  else .ok ()

/-- Apply an edit for a session, as `mode` says. `gated` are the roles gates name. -/
def accountWrite (s : FileAuth) (by_ : Session) (gated : List String) (edit : AccountEdit)
    (mode : WriteMode) (ok : Bool) : Except AdminError (Account × FileAuth) :=
  if !by_.has mode.need then .error .notAllowed
  else s.writeAccount edit (s.mayWrite by_.login mode gated) ok

def accountDelete (s : FileAuth) (by_ : Session) (gated : List String) (login : String) (ok : Bool) :
    Except AdminError FileAuth :=
  if !by_.has bit.DELETE_USERS then .error .notAllowed
  else s.deleteAccount login (fun account => do
    let actor ← s.actor by_.login bit.DELETE_USERS
    if beyond actor account gated then .error .outranked else .ok ()) ok

/-- May the account `login` names make a role `before` into `after`, with its holders reading as `now`
and then as `after_`? -/
def roleMay (s : FileAuth) (login : String) (before after : Option Role) (now then_ : List Account) :
    Except AdminError Unit :=
  match s.readAccount login with
  | .error .noSuchAccount => .error .notAllowed
  | .error e => .error e
  | .ok actor =>
    if !actor.extra.manageRoles then .error .notAllowed
    else if (before.toList ++ after.toList).any (grantsBeyond actor) ||
        (now ++ then_).any (beyond actor · []) then
      -- No gate is beyond one who may manage roles.
      .error .outranked
    else .ok ()

def roleWrite (s : FileAuth) (by_ : Session) (edit : RoleEdit) (create : Bool) (ok : Bool) :
    Except AdminError (Role × FileAuth) :=
  if !by_.managesRoles then .error .notAllowed
  else s.writeRole edit create (s.roleMay by_.login) ok

def roleDelete (s : FileAuth) (by_ : Session) (gated : List String) (name : String)
    (relisted : String → Option (Option AccountFile)) (ok : String → Bool) (rolesOk : Bool) :
    Except AdminError Unit × FileAuth :=
  if !by_.managesRoles then (.error .notAllowed, s)
  else if gated.contains name then (.error .roleInUse, s)
  else s.deleteRole name (s.roleMay by_.login) relisted ok rolesOk

/-- A call an administrator's session makes, with what the gates name and what the disk takes then. -/
inductive Call where
  | accountWrite (has : Nat → Bool) (gated : List String) (edit : AccountEdit) (mode : WriteMode)
      (ok : Bool)
  | accountDelete (has : Nat → Bool) (gated : List String) (login : String) (ok : Bool)
  | roleWrite (managesRoles : Bool) (edit : RoleEdit) (create ok : Bool)
  | roleDelete (managesRoles : Bool) (gated : List String) (name : String)
      (relisted : String → Option (Option AccountFile)) (ok : String → Bool) (rolesOk : Bool)

/-- One call by a session of account `A`. -/
def call (A : String) (s : FileAuth) : Call → Except AdminError Unit × FileAuth
  | .accountWrite has gated edit mode ok =>
    match s.accountWrite ⟨A, has, false⟩ gated edit mode ok with
    | .error e => (.error e, s)
    | .ok (_, s) => (.ok (), s)
  | .accountDelete has gated login ok =>
    match s.accountDelete ⟨A, has, false⟩ gated login ok with
    | .error e => (.error e, s)
    | .ok s => (.ok (), s)
  | .roleWrite manages edit create ok =>
    match s.roleWrite ⟨A, fun _ => false, manages⟩ edit create ok with
    | .error e => (.error e, s)
    | .ok (_, s) => (.ok (), s)
  | .roleDelete manages gated name relisted ok rolesOk =>
    s.roleDelete ⟨A, fun _ => false, manages⟩ gated name relisted ok rolesOk

/-- May the account `login` names do `c`? -/
def can (s : FileAuth) (login : String) (c : Capability) : Bool :=
  match s.readAccount login with
  | .ok account => account.can c
  | .error _ => false

end FileAuth

/-! ## Confinement -/

/-- Nobody may do more than before but what `A` could, and whoever could do something `A` could not is
as before. -/
structure Confined (A : String) (s s' : FileAuth) : Prop where
  within : ∀ l c, s'.can l c = true → s.can l c = true ∨ s.can A c = true
  above : ∀ l, (∃ c, s.can l c = true ∧ s.can A c = false) → ∀ c, s'.can l c = s.can l c

namespace Confined

variable {A : String} {s s' s'' : FileAuth}

theorem refl (A : String) (s : FileAuth) : Confined A s s := ⟨fun _ _ => .inl, fun _ _ _ => rfl⟩

theorem own (h : Confined A s s') {c : Capability} (hc : s'.can A c = true) : s.can A c = true :=
  (h.within A c hc).elim id id

theorem trans (h : Confined A s s') (h' : Confined A s' s'') : Confined A s s'' where
  within l c hc := by
    rcases h'.within l c hc with hc | hc
    · exact h.within l c hc
    · exact .inr (h.own hc)
  above l := by
    rintro ⟨c, hc, hA⟩ c'
    have hsame := h.above l ⟨c, hc, hA⟩
    rw [← hsame c']
    refine h'.above l ⟨c, (hsame c).trans hc, ?_⟩ c'
    exact Bool.eq_false_iff.2 fun hc => by rw [h.own hc] at hA; cases hA

end Confined

/-- What an account may do went from `f` to `g`: unchanged, or within what the administrator may do on
both sides. -/
def Touched (may f g : Capability → Bool) : Prop :=
  f = g ∨ (∀ c, f c = true → may c = true) ∧ ∀ c, g c = true → may c = true

theorem confined_of_touched {A : String} {s s' : FileAuth}
    (h : ∀ l, Touched (s.can A) (s.can l) (s'.can l)) : Confined A s s' where
  within l c hc := by
    rcases h l with heq | ⟨-, hg⟩
    · exact .inl ((congrFun heq c).trans hc)
    · exact .inr (hg c hc)
  above l := by
    rintro ⟨c, hc, hA⟩ c'
    rcases h l with heq | ⟨hf, -⟩
    · exact (congrFun heq c').symm
    · rw [hf c hc] at hA
      cases hA

/-- An account that is not beyond another may do no more. -/
theorem can_of_not_beyond {actor target : Account} {gated : List String}
    (h : beyond actor target gated = false) {c : Capability} (hc : target.can c = true) :
    actor.can c = true := by
  simp only [beyond, Bool.or_eq_false_iff, decide_eq_false_iff_not, not_not, List.any_cons,
    List.any_nil, Bool.and_eq_false_iff, Bool.not_eq_false'] at h
  obtain ⟨⟨-, haccess⟩, hextra⟩ := h
  cases c with
  | bit n => exact AccessBits.within_iff.1 haccess n hc
  | policy p =>
    have hp : ∀ {t a : Bool}, (t = false ∨ a = true) → t = true → a = true := fun h ht =>
      h.resolve_left fun hf => by rw [ht] at hf; cases hf
    cases p with
    | setSubject => exact hp hextra.1 hc
    | fileList => exact hp hextra.2.1 hc
    | fileGetinfo => exact hp hextra.2.2.1 hc
    | attachNews => exact hp hextra.2.2.2.1 hc
    | moderate => exact hp hextra.2.2.2.2.1 hc
    | canSpam => exact hp hextra.2.2.2.2.2.1 hc
    | manageRoles => exact hp hextra.2.2.2.2.2.2.1 hc
    | manageRooms => exact hp hextra.2.2.2.2.2.2.2.1 hc

/-! ## What the files let do -/

namespace FileAuth

/-- What the file of a stem lets do. -/
def stemCan (s : FileAuth) (k : String) (c : Capability) : Bool :=
  match s.load k with
  | .ok file => (file.configureWith (s.roles.held file.roles)).can c
  | .error _ => false

variable {s s' : FileAuth} {A k l name : String} {file : AccountFile} {a : Account}

theorem stemCan_ok (h : s.load k = .ok file) :
    s.stemCan k = fun c => (file.configureWith (s.roles.held file.roles)).can c := by
  funext c
  rw [stemCan, h]

theorem stemCan_error {e : AuthError} (h : s.load k = .error e) : s.stemCan k = fun _ => false := by
  funext c
  rw [stemCan, h]

theorem can_eq (s : FileAuth) (l : String) (c : Capability) :
    s.can l c = match adminLogin l with
      | .ok k => s.stemCan k c
      | .error _ => false := by
  unfold can readAccount
  cases adminLogin l with
  | error e => rfl
  | ok k =>
    show _ = s.stemCan k c
    rw [ok_bind, stemCan]
    cases s.load k with
    | error e => rfl
    | ok file => exact can_accountWith file k _ c

theorem touched_of_stems {may : Capability → Bool}
    (h : ∀ k, Canonical k → Touched may (s.stemCan k) (s'.stemCan k)) (l : String) :
    Touched may (s.can l) (s'.can l) := by
  rw [show s.can l = _ from funext (s.can_eq l), show s'.can l = _ from funext (s'.can_eq l)]
  cases hl : adminLogin l with
  | error e => exact .inl rfl
  | ok k => exact h k (canonical_of_adminLogin hl)

theorem readAccount_can (h : s.readAccount A = .ok a) (c : Capability) : a.can c = s.can A c := by
  rw [can, h]

theorem actor_can {need : Nat} (h : s.actor A need = .ok a) (c : Capability) : a.can c = s.can A c := by
  unfold actor at h
  split at h
  case h_1 => cases h
  case h_2 => cases h
  case h_3 account hread =>
    rw [ite_error_eq_ok] at h
    exact Except.ok.inj h.2 ▸ readAccount_can hread c

/-! ## What the checks leave -/

theorem mayWrite_ok {mode : WriteMode} {gated : List String} {existing : Option Account}
    {after : Account} (h : s.mayWrite A mode gated existing after = .ok ()) :
    (∀ t ∈ existing, ∀ c, t.can c = true → s.can A c = true) ∧
      ∀ c, after.can c = true → s.can A c = true := by
  simp only [mayWrite, bind_eq_ok, ite_error_eq_ok, and_true, Bool.not_eq_true,
    Bool.or_eq_false_iff] at h
  obtain ⟨actor, hactor, -, -, -, hexisting, hafter⟩ := h
  have hcan := fun t => actor_can (c := t) hactor
  refine ⟨fun t ht c hc => ?_, fun c hc => ?_⟩
  · have hnot : beyond actor t gated = false := by
      rw [ht] at hexisting
      exact hexisting
    exact (hcan c).symm.trans (can_of_not_beyond hnot hc)
  · exact (hcan c).symm.trans (can_of_not_beyond hafter hc)

theorem roleMay_ok {before after : Option Role} {now then_ : List Account}
    (h : s.roleMay A before after now then_ = .ok ()) {t : Account} (ht : t ∈ now ++ then_)
    {c : Capability} (hc : t.can c = true) : s.can A c = true := by
  unfold roleMay at h
  split at h
  case h_1 => cases h
  case h_2 => cases h
  case h_3 actor hread =>
    simp only [ite_error_eq_ok, and_true, Bool.not_eq_true, Bool.or_eq_false_iff] at h
    have hnot : beyond actor t [] = false := by
      refine Bool.eq_false_iff.2 fun hb => ?_
      exact absurd (List.any_eq_true.2 ⟨t, ht, hb⟩) (Bool.eq_false_iff.1 h.2.2)
    exact (readAccount_can hread c).symm.trans (can_of_not_beyond hnot hc)

theorem mem_holders {roles : Roles} (hk : Canonical k) (hload : s.load k = .ok file)
    (hholds : name = EVERYONE ∨ name ∈ file.roles) :
    file.intoAccount k roles ∈ s.holders name roles := by
  obtain ⟨hres, hget⟩ := load_eq_ok.1 hload
  refine List.mem_filter.2 ⟨List.mem_filterMap.2 ⟨k, List.mem_filter.2 ⟨?_, ?_⟩, ?_⟩, ?_⟩
  · exact mem_sortBy.2 (List.mem_filter.2 ⟨Map.mem_keys hget, hk.valid⟩)
  · rw [hres]
    rfl
  · rw [hload]
  · rw [Holds, Bool.or_eq_true, decide_eq_true_eq, List.contains_iff_mem]
    exact hholds

theorem holders_login {roles : Roles} (h : a ∈ s.holders name roles) :
    ∃ file, s.load a.login = .ok file ∧ a = file.intoAccount a.login roles := by
  obtain ⟨stem, -, ha⟩ := List.mem_filterMap.1 (List.mem_filter.1 h).1
  cases hload : s.load stem with
  | error e =>
    rw [hload] at ha
    cases ha
  | ok file =>
    rw [hload] at ha
    obtain rfl := Option.some.inj ha
    exact ⟨file, hload, rfl⟩

/-- A file in place of another, its account within the administrator before and after. -/
theorem touched_set {may : Capability → Bool} {login : String} {file' : Option AccountFile}
    (hold : ∀ c, s.stemCan login c = true → may c = true)
    (hnew : ∀ c, ({ s with files := s.files.set login file' } : FileAuth).stemCan login c = true →
      may c = true) (k : String) :
    Touched may (s.stemCan k) (({ s with files := s.files.set login file' } : FileAuth).stemCan k) := by
  by_cases hk : k = login
  · rw [hk]
    exact .inr ⟨hold, hnew⟩
  · refine .inl (funext fun c => ?_)
    unfold stemCan load
    rw [show ({ s with files := s.files.set login file' } : FileAuth).files.get k = s.files.get k from
      (Map.get_set ..).trans (if_neg hk)]
    rfl

theorem accountWrite_touched {by_ : Session} {gated : List String} {edit : AccountEdit}
    {mode : WriteMode} {ok : Bool} {after : Account}
    (h : s.accountWrite by_ gated edit mode ok = .ok (after, s')) (l : String) :
    Touched (s.can by_.login) (s.can l) (s'.can l) := by
  simp only [accountWrite, ite_error_eq_ok, writeAccount, bind_eq_ok, Except.ok.injEq,
    Prod.mk.injEq] at h
  obtain ⟨-, login, -, hfree, old, hold, file, -, ⟨⟩, hcheck, -, rfl, rfl⟩ := h
  obtain ⟨hexisting, hafter⟩ := mayWrite_ok hcheck
  have hput : ({ s with files := s.files.set login (some file) } : FileAuth).load login = .ok file := by
    rw [Bool.or_eq_true, not_or, Bool.not_eq_true] at hfree
    exact load_eq_ok.2 ⟨hfree.1, (Map.get_set ..).trans (if_pos rfl)⟩
  refine touched_of_stems (fun k _ => touched_set (fun c hc => ?_) (fun c hc => ?_) k) l
  · cases hload : s.load login with
    | error e =>
      rw [stemCan_error hload] at hc
      cases hc
    | ok file =>
      rw [stemCan_ok hload] at hc
      have hread : old = some file := by
        unfold readOld at hold
        rw [(load_eq_ok.1 hload).2] at hold
        exact (Except.ok.inj hold).symm
      refine hexisting (file.intoAccount login s.roles) ?_ c ((can_accountWith ..).trans hc)
      rw [hread]
      rfl
  · rw [stemCan_ok hput] at hc
    exact hafter c ((can_accountWith ..).trans hc)

theorem accountDelete_touched {by_ : Session} {gated : List String} {login : String} {ok : Bool}
    (h : s.accountDelete by_ gated login ok = .ok s') (l : String) :
    Touched (s.can by_.login) (s.can l) (s'.can l) := by
  simp only [accountDelete, ite_error_eq_ok, deleteAccount, bind_eq_ok, Except.ok.injEq,
    Bool.not_eq_true] at h
  obtain ⟨-, k₀, hk₀, account, hread, -, ⟨actor, hactor, hnot, -⟩, -, rfl⟩ := h
  have hgone : ({ s with files := s.files.drop k₀ } : FileAuth).files.get k₀ = none :=
    (Map.get_drop ..).trans (if_pos rfl)
  refine touched_of_stems (fun k hk => ?_) l
  by_cases hkk : k = k₀
  · subst hkk
    refine .inr ⟨fun c hc => ?_, fun c hc => ?_⟩
    · have hcan : s.can k c = s.stemCan k c := by
        rw [can_eq, show adminLogin k = .ok k from hk]
      rw [← hcan, ← readAccount_can hread c] at hc
      exact (actor_can hactor c).symm.trans (can_of_not_beyond hnot hc)
    · cases hload : ({ s with files := s.files.drop k } : FileAuth).load k with
      | error e =>
        rw [stemCan_error hload] at hc
        cases hc
      | ok file =>
        rw [(load_eq_ok.1 hload).2] at hgone
        cases hgone
  · refine .inl (funext fun c => ?_)
    unfold stemCan load
    rw [show ({ s with files := s.files.drop k₀ } : FileAuth).files.get k = s.files.get k from
      (Map.get_drop ..).trans (if_neg hkk)]
    rfl

/-- The roles held where none but `name` changed and it is neither `everyone` nor listed. -/
theorem held_congr {roles roles' : Roles} (hroles : ∀ n ≠ name, roles'.get n = roles.get n)
    {listed : List String} (hname : ¬(name = EVERYONE ∨ name ∈ listed)) :
    roles'.held listed = roles.held listed := by
  refine List.filterMap_congr fun n hn => hroles n fun heq => hname ?_
  rcases List.mem_cons.1 hn with h | h
  · exact .inl (heq ▸ h)
  · exact .inr (heq ▸ h)

/-- Fewer roles there are, and fewer listed, are fewer held. -/
theorem held_subset {roles roles' : Roles} (hroles : ∀ n, roles'.get n = none ∨ roles'.get n = roles.get n)
    {listed listed' : List String} (hlisted : ∀ n ∈ listed', n ∈ listed) :
    ∀ r ∈ roles'.held listed', r ∈ roles.held listed := by
  intro r hr
  obtain ⟨n, hn, hget⟩ := List.mem_filterMap.1 hr
  refine List.mem_filterMap.2 ⟨n, ?_, ?_⟩
  · rcases List.mem_cons.1 hn with rfl | hn
    · exact List.mem_cons_self
    · exact List.mem_cons_of_mem _ (hlisted n hn)
  · rcases hroles n with h | h
    · rw [h] at hget
      cases hget
    · rw [← h, hget]

theorem roleWrite_touched {by_ : Session} {edit : RoleEdit} {create ok : Bool} {role : Role}
    (h : s.roleWrite by_ edit create ok = .ok (role, s')) (l : String) :
    Touched (s.can by_.login) (s.can l) (s'.can l) := by
  simp only [roleWrite, ite_error_eq_ok, writeRole, bind_eq_ok, Except.ok.injEq,
    Prod.mk.injEq] at h
  obtain ⟨-, -, -, -, -, -, ⟨⟩, hcheck, -, -, rfl⟩ := h
  generalize hafter : s.roles.set edit.name _ = after at hcheck ⊢
  have hrest : ∀ n ≠ edit.name, after.get n = s.roles.get n := fun n hn => by
    rw [← hafter]
    exact (Map.get_set ..).trans (if_neg hn)
  refine touched_of_stems (fun k hk => ?_) l
  cases hload : s.load k with
  | error e =>
    exact .inl ((stemCan_error hload).trans (stemCan_error (s := { s with roles := after }) hload).symm)
  | ok file =>
    rw [stemCan_ok hload, stemCan_ok (s := { s with roles := after }) hload]
    by_cases hholds : edit.name = EVERYONE ∨ edit.name ∈ file.roles
    · refine .inr ⟨fun c hc => ?_, fun c hc => ?_⟩
      · exact roleMay_ok hcheck (List.mem_append_left _ (mem_holders hk hload hholds))
          ((can_accountWith ..).trans hc)
      · exact roleMay_ok hcheck (List.mem_append_right _ (mem_holders hk hload hholds))
          ((can_accountWith ..).trans hc)
    · refine .inl ?_
      rw [held_congr hrest hholds]

/-! ## Deleting a role -/

/-- Each account's file is as it was, or lists one role fewer, one of `stems`. -/
structure Thinned (s₀ s : FileAuth) (name : String) (stems : List String) : Prop where
  roles : s.roles = s₀.roles
  reserved : s.reserved = s₀.reserved
  files : ∀ k, Canonical k → s.files.get k = s₀.files.get k ∨
    k ∈ stems ∧ ∃ file, s₀.files.get k = some (some file) ∧
      s.files.get k = some (some { file with roles := file.roles.filter (· ≠ name) })

variable {s₀ : FileAuth} {stems : List String} {relisted : String → Option (Option AccountFile)}
variable {ok : String → Bool}

theorem Thinned.unlist (h : Thinned s₀ s name stems) {stem : String} (hmem : stem ∈ stems)
    (hread : ∃ file, s₀.load stem = .ok file)
    (hs : s.unlist name relisted ok stem = .ok s') : Thinned s₀ s' name stems := by
  simp only [FileAuth.unlist, bind_eq_ok, ite_error_eq_ok, Except.ok.injEq] at hs
  obtain ⟨login, hlogin, file', hfile, -, rfl⟩ := hs
  refine ⟨h.roles, h.reserved, fun k hk => ?_⟩
  by_cases hks : k = stem
  · subst hks
    obtain rfl : k = login := Except.ok.inj (hk.symm.trans hlogin)
    obtain ⟨file, hread⟩ := hread
    obtain ⟨hres, hget⟩ := load_eq_ok.1 hread
    have hfree : s.isReserved k = false := by
      unfold isReserved at hres ⊢
      rw [h.reserved]
      exact hres
    have hwrite : file' = some { file with roles := file.roles.filter (· ≠ name) } := by
      unfold unlisted at hfile
      rw [hfree] at hfile
      rcases h.files k hk with hsame | ⟨-, file₂, hget₂, hthin⟩
      · rw [hsame, hget] at hfile
        exact (Except.ok.inj hfile).symm
      · -- Taken off before, it is not listed twice.
        obtain rfl := Option.some.inj (Option.some.inj (hget.symm.trans hget₂))
        rw [hthin] at hfile
        refine (Except.ok.inj hfile).symm.trans ?_
        simp only [List.filter_filter, Bool.and_self]
    refine .inr ⟨hmem, file, hget, ?_⟩
    rw [← hwrite]
    exact (Map.get_set ..).trans (if_pos rfl)
  · have hsame : (s.files.set stem file').get k = s.files.get k := (Map.get_set ..).trans (if_neg hks)
    exact hsame ▸ h.files k hk

theorem Thinned.unlistAll (todo : List String) (hmem : ∀ stem ∈ todo, stem ∈ stems)
    (hread : ∀ stem ∈ todo, ∃ file, s₀.load stem = .ok file) (h : Thinned s₀ s name stems) :
    Thinned s₀ (unlistAll name relisted ok todo s).2 name stems := by
  induction todo generalizing s with
  | nil => exact h
  | cons stem todo ih =>
    unfold FileAuth.unlistAll
    cases hs : s.unlist name relisted ok stem with
    | error e => exact h
    | ok s' =>
      refine ih (fun t ht => hmem t (List.mem_cons_of_mem _ ht))
        (fun t ht => hread t (List.mem_cons_of_mem _ ht)) ?_
      exact h.unlist (hmem stem List.mem_cons_self) (hread stem List.mem_cons_self) hs

/-- A role taken off the files listing it, and from the roles or not, lets nobody do more, and changes
only what those listing it may do. -/
theorem Thinned.touched {may : Capability → Bool} {roles : Roles}
    (h : Thinned s₀ s name ((s₀.holders name s₀.roles).map (·.login)))
    (hroles : roles = s₀.roles ∨ roles = s₀.roles.drop name)
    (hmay : ∀ t ∈ s₀.holders name s₀.roles, ∀ c, t.can c = true → may c = true) (l : String) :
    Touched may (s₀.can l) (({ s with roles := roles } : FileAuth).can l) := by
  have hsub : ∀ n, roles.get n = none ∨ roles.get n = s₀.roles.get n := fun n => by
    rcases hroles with rfl | rfl
    · exact .inr rfl
    · rw [Map.get_drop]
      split
      · exact .inl rfl
      · exact .inr rfl
  have hrest : ∀ n ≠ name, roles.get n = s₀.roles.get n := fun n hn => by
    rcases hroles with rfl | rfl
    · rfl
    · exact (Map.get_drop ..).trans (if_neg hn)
  have hreserved : ∀ k, s.isReserved k = s₀.isReserved k := fun k => by
    unfold isReserved
    rw [h.reserved]
  refine touched_of_stems (fun k hk => ?_) l
  cases hload : s₀.load k with
  | error e =>
    have hsame : s.files.get k = s₀.files.get k ∨ s₀.isReserved k = true := by
      rcases h.files k hk with hsame | ⟨-, file, hget, -⟩
      · exact .inl hsame
      · refine .inr (by_contra fun hres => ?_)
        rw [load_eq_ok.2 ⟨Bool.eq_false_iff.2 hres, hget⟩] at hload
        cases hload
    have hload' : ({ s with roles := roles } : FileAuth).load k = .error e := by
      rw [← hload]
      unfold load
      rw [show ({ s with roles := roles } : FileAuth).isReserved k = s₀.isReserved k from hreserved k]
      rcases hsame with hsame | hres
      · rw [show ({ s with roles := roles } : FileAuth).files.get k = s₀.files.get k from hsame]
      · rw [hres]
        rfl
    exact .inl ((stemCan_error hload).trans (stemCan_error hload').symm)
  | ok file =>
    obtain ⟨hres, hget⟩ := load_eq_ok.1 hload
    have hstem : ∀ file', s.files.get k = some (some file') → ∀ c,
        ({ s with roles := roles } : FileAuth).stemCan k c =
          (file'.configureWith (roles.held file'.roles)).can c := fun file' hget =>
      congrFun (stemCan_ok (s := { s with roles := roles }) (load_eq_ok.2 ⟨(hreserved k).trans hres, hget⟩))
    have hstem₀ := congrFun (stemCan_ok hload)
    have hheld : file.intoAccount k s₀.roles ∈ s₀.holders name s₀.roles →
        ∀ c, s₀.stemCan k c = true → may c = true := fun hm c hc =>
      hmay _ hm c ((can_accountWith ..).trans ((hstem₀ c).symm.trans hc))
    rcases h.files k hk with hsame | ⟨hmem, file₂, hget₂, hthin⟩
    · have hstem := hstem file (hsame.trans hget)
      by_cases hlists : name = EVERYONE ∨ name ∈ file.roles
      · refine .inr ⟨hheld (mem_holders hk hload hlists), fun c hc => ?_⟩
        refine hheld (mem_holders hk hload hlists) c ?_
        rw [hstem₀]
        exact can_mono file (held_subset hsub fun _ => id) ((hstem c).symm.trans hc)
      · refine .inl (funext fun c => ?_)
        rw [hstem₀, hstem, held_congr hrest hlists]
    · obtain rfl := Option.some.inj (Option.some.inj (hget.symm.trans hget₂))
      obtain ⟨t, ht, hlogin⟩ := List.mem_map.1 hmem
      have hin : file.intoAccount k s₀.roles ∈ s₀.holders name s₀.roles := by
        obtain ⟨file₃, hload₃, heq⟩ := holders_login ht
        rw [hlogin] at hload₃ heq
        obtain rfl := Except.ok.inj (hload.symm.trans hload₃)
        exact heq ▸ ht
      refine .inr ⟨hheld hin, fun c hc => hheld hin c ?_⟩
      rw [hstem₀]
      exact can_mono file (held_subset hsub fun _ hn => List.mem_of_mem_filter hn)
        ((hstem _ hthin c).symm.trans hc)

theorem roleDelete_touched {by_ : Session} {gated : List String} {rolesOk : Bool} (l : String) :
    Touched (s.can by_.login) (s.can l)
      ((s.roleDelete by_ gated name relisted ok rolesOk).2.can l) := by
  unfold roleDelete
  split
  case isTrue => exact .inl rfl
  split
  case isTrue => exact .inl rfl
  unfold deleteRole
  split
  case isTrue => exact .inl rfl
  split
  case isTrue => exact .inl rfl
  split
  case h_1 => exact .inl rfl
  dsimp only
  split
  case h_1 => exact .inl rfl
  case h_2 role hrole hcheck =>
  have hmay : ∀ t ∈ s.holders name s.roles, ∀ c, t.can c = true → s.can by_.login c = true :=
    fun t ht c hc => roleMay_ok hcheck (List.mem_append_left _ ht) hc
  have hthin : Thinned s (unlistAll name relisted ok ((s.holders name s.roles).map (·.login)) s).2 name
      ((s.holders name s.roles).map (·.login)) := by
    refine Thinned.unlistAll _ (fun _ => id) (fun stem hstem => ?_) ⟨rfl, rfl, fun _ _ => .inl rfl⟩
    obtain ⟨t, ht, rfl⟩ := List.mem_map.1 hstem
    obtain ⟨file, hload, -⟩ := holders_login ht
    exact ⟨file, hload⟩
  have hkept : ∀ left, (unlistAll name relisted ok ((s.holders name s.roles).map (·.login)) s).2 = left →
      Touched (s.can by_.login) (s.can l) (left.can l) := fun left hleft => by
    rw [hleft] at hthin
    have := hthin.touched (.inl rfl) hmay l
    rwa [show ({ left with roles := s.roles } : FileAuth) = left by rw [← hthin.roles]] at this
  split
  case h_1 e left hleft => exact hkept left (congrArg Prod.snd hleft)
  case h_2 left hleft =>
  split
  case isTrue =>
    rw [hleft] at hthin
    have hroles : left.roles = s.roles := hthin.roles
    rw [hroles]
    exact hthin.touched (.inr rfl) hmay l
  case isFalse => exact hkept left (congrArg Prod.snd hleft)

/-! ## Runs -/

theorem call_confined (A : String) (s : FileAuth) (i : Call) : Confined A s (s.call A i).2 := by
  refine confined_of_touched fun l => ?_
  cases i with
  | accountWrite has gated edit mode ok =>
    dsimp only [call]
    split
    case h_1 => exact .inl rfl
    case h_2 h => exact accountWrite_touched h l
  | accountDelete has gated login ok =>
    dsimp only [call]
    split
    case h_1 => exact .inl rfl
    case h_2 h => exact accountDelete_touched h l
  | roleWrite manages edit create ok =>
    dsimp only [call]
    split
    case h_1 => exact .inl rfl
    case h_2 h => exact roleWrite_touched h l
  | roleDelete manages gated name relisted ok rolesOk => exact roleDelete_touched l

end FileAuth

theorem runs_confined (A : String) (s : FileAuth) (calls : List FileAuth.Call) :
    Confined A s (runs (FileAuth.call A) s calls).2 :=
  runs_invariant (Confined A s) (fun s' i h => h.trans (FileAuth.call_confined A s' i)) (.refl A s) calls

/-- No run of an administrator's calls raises an account above what it and the administrator could do,
or changes what one could do that the administrator could not; and what a file resolves to is monotone
in what its roles grant, so a role fewer is never a capability more. -/
theorem administration_confined :
    (∀ (s : FileAuth) (A : String) (calls : List FileAuth.Call),
      let s' := (runs (FileAuth.call A) s calls).2
      (∀ l c, s'.can l c = true → s.can l c = true ∨ s.can A c = true) ∧
      (∀ c, s'.can A c = true → s.can A c = true) ∧
      ∀ l, (∃ c, s.can l c = true ∧ s.can A c = false) → ∀ c, s'.can l c = s.can l c) ∧
    (∀ (file : AccountFile) (login : String) (roles roles' : Roles),
      (∀ n, (roles.granted file.roles).has n = true → (roles'.granted file.roles).has n = true) →
      (∀ p, (grantedExtras (roles.held file.roles)).policy p = true →
        (grantedExtras (roles'.held file.roles)).policy p = true) →
      ∀ c, (file.intoAccount login roles).can c = true → (file.intoAccount login roles').can c = true) ∧
    ∀ (file : AccountFile) (login name : String) (roles : Roles) (c : Capability),
      ((({ file with roles := file.roles.filter (· ≠ name) } : AccountFile).intoAccount login
        roles).can c = true → (file.intoAccount login roles).can c = true) ∧
      ((file.intoAccount login (roles.drop name)).can c = true →
        (file.intoAccount login roles).can c = true) := by
  refine ⟨fun s A calls => ?_, fun file login roles roles' hbits hextra c hc => ?_,
    fun file login name roles c => ⟨fun hc => ?_, fun hc => ?_⟩⟩
  · have h := runs_confined A s calls
    exact ⟨h.within, fun c hc => h.own hc, h.above⟩
  · exact (can_accountWith ..).trans
      (can_of_grants file hbits hextra ((can_accountWith _ login _ c).symm.trans hc))
  · refine (can_accountWith ..).trans (can_mono file ?_ ((can_accountWith _ login _ c).symm.trans hc))
    exact FileAuth.held_subset (fun _ => .inr rfl) fun _ hn => List.mem_of_mem_filter hn
  · refine (can_accountWith ..).trans (can_mono file ?_ ((can_accountWith _ login _ c).symm.trans hc))
    refine FileAuth.held_subset (fun n => ?_) fun _ => id
    rw [Map.get_drop]
    split
    · exact .inl rfl
    · exact .inr rfl

end HxdNg.Accounts
