import HxdNg.Accounts.Account

/-!
# The flat-file backend

A directory of account files by the stem of their names, and the roles file as it is in memory and on
disk alike.

* `FileAuth.load`, `readAccount`, `holders` : what the files read as;
* `FileAuth.writeAccount`, `deleteAccount`, `writeRole`, `deleteRole` : an administrator's writes, each
  under the check its caller gives;
* `writeAccess`, `writeOverrides` : how an account's own keys are rewritten over its roles.
-/

namespace HxdNg.Accounts

open Assoc

inductive AuthError where
  | noSuchAccount
  | badProof
  | backend
  deriving DecidableEq

inductive AdminError where
  | notAllowed
  | outranked
  | noSuchAccount
  | noSuchRole
  | badRole (why : String)
  | roleInUse
  | exists_
  | invalidLogin
  | unsupported
  | backend
  deriving DecidableEq

/-! ## Logins -/

/-- A login is a filename component. -/
def validLogin (login : String) : Bool :=
  login ≠ "" && login.utf8ByteSize ≤ 31 &&
    login.toList.all (fun c => c.isAlphanum || c = '_' || c = '-' || c = '.' || c = '@') &&
    login.toList.head? ≠ some '.'

/-- A login beginning with `@` names a role in the user editor. -/
def isRoleLogin (login : String) : Bool := login.toList.head? = some '@'

/-- An administrator's login, canonical. -/
def adminLogin (login : String) : Except AdminError String :=
  let login := login.toLower
  if validLogin login then .ok login else .error .invalidLogin

def adminError : AuthError → AdminError
  | .noSuchAccount => .noSuchAccount
  | _ => .backend

theorem char_toLower_toLower (c : Char) : c.toLower.toLower = c.toLower := by
  have hout : ∀ d : Char, ¬(d.val ≥ 65 ∧ d.val ≤ 90) → d.toLower = d := fun d h => dif_neg h
  by_cases hc : c.val ≥ 65 ∧ c.val ≤ 90
  · refine hout _ ?_
    rw [show c.toLower.val = c.val + 32 from congrArg Char.val (dif_pos hc)]
    rintro ⟨-, h⟩
    have h1 := hc.1
    have h2 := hc.2
    simp only [UInt32.le_iff_toNat_le, ge_iff_le, UInt32.toNat_add] at h h1 h2
    have : (32 : UInt32).toNat = 32 := rfl
    have : (65 : UInt32).toNat = 65 := rfl
    have : (90 : UInt32).toNat = 90 := rfl
    omega
  · rw [hout c hc]
    exact hout c hc

@[simp] theorem toLower_toLower (l : String) : l.toLower.toLower = l.toLower := by
  unfold String.toLower
  rw [String.map_map]
  exact congrArg (String.map · l) (funext char_toLower_toLower)

/-- A login as it names a file. -/
def Canonical (k : String) : Prop := adminLogin k = .ok k

theorem canonical_of_adminLogin {l k : String} (h : adminLogin l = .ok k) : Canonical k := by
  unfold adminLogin at h
  simp only at h
  split at h
  case isTrue hv =>
    obtain rfl := Except.ok.inj h
    unfold Canonical adminLogin
    simp only [toLower_toLower, hv, if_true]
  case isFalse => cases h

theorem Canonical.valid {k : String} (h : Canonical k) : validLogin k = true := by
  unfold Canonical adminLogin at h
  simp only at h
  split at h
  case isTrue hv => exact Except.ok.inj h ▸ hv
  case isFalse => cases h

theorem Canonical.lower {k : String} (h : Canonical k) : k.toLower = k := by
  unfold Canonical adminLogin at h
  simp only at h
  split at h
  case isTrue => exact Except.ok.inj h
  case isFalse => cases h

/-! ## Reading -/

structure FileAuth where
  /-- By stem: what the file reads as, `none` for one that does not parse. -/
  files : Map String (Option AccountFile)
  reserved : Option String
  rolesFile : Bool
  roles : Roles
  deriving DecidableEq

namespace FileAuth

def isReserved (s : FileAuth) (login : String) : Bool := s.reserved = some login

def load (s : FileAuth) (login : String) : Except AuthError AccountFile :=
  if s.isReserved login then .error .noSuchAccount
  else match s.files.get login with
    | none => .error .noSuchAccount
    | some none => .error .backend
    | some (some file) => .ok file

theorem load_eq_ok {s : FileAuth} {k : String} {file : AccountFile} :
    s.load k = .ok file ↔ s.isReserved k = false ∧ s.files.get k = some (some file) := by
  unfold load
  cases s.isReserved k with
  | true => simp
  | false =>
    rcases s.files.get k with _ | _ | file' <;> simp

def readAccount (s : FileAuth) (login : String) : Except AdminError Account := do
  let login ← adminLogin login
  match s.load login with
  | .ok file => .ok (file.intoAccount login s.roles)
  | .error e => .error (adminError e)

/-- The stem of every account file, in order. -/
def entries (s : FileAuth) : List String := sortBy id (s.files.keys.filter validLogin)

/-- Does an account hold a role, as its file lists them? -/
def Holds (name : String) (a : Account) : Bool := name = EVERYONE || a.roles.contains name

/-- Every account holding role `name`, all of them for `everyone`, as `roles` resolves them. -/
def holders (s : FileAuth) (name : String) (roles : Roles) : List Account :=
  ((s.entries.filter (!s.isReserved ·)).filterMap fun login =>
    match s.load login with
    | .ok file => some (file.intoAccount login roles)
    | .error _ => none).filter (Holds name)

end FileAuth

/-! ## Writing an account -/

inductive RoleChange where
  | add (name : String)
  | remove (name : String)
  | set (names : List String)
  deriving DecidableEq

structure AccountEdit where
  login : String
  name : Option String := none
  password : Option String := none
  access : Option AccessBits := none
  editorTier : Option Nat := none
  shown : Option AccessBits := none
  overrides : Option (AccessBits × AccessBits) := none
  roles : List RoleChange := []

/-- The list one change leaves. -/
def changeListed (roles : Roles) (listed : List String) : RoleChange → Except AdminError (List String)
  | .add name =>
    if name = EVERYONE ∨ roles.get name = none then .error .noSuchRole
    else if listed.contains name then .ok listed else .ok (listed ++ [name])
  | .remove name =>
    if listed.contains name then .ok (listed.filter (· ≠ name)) else .error .noSuchRole
  | .set names =>
    if names.any fun name => name = EVERYONE || roles.get name = none && !listed.contains name then
      .error .noSuchRole
    else .ok (names.foldl (fun l name => if l.contains name then l else l ++ [name]) [])

/-- A list of bit numbers, as it is written. -/
def numbers (bits : List Nat) : List Nat := (sortBy id bits).dedup

/-- The older key of bit 56 under its name now. -/
def renameHistory (named : Map String Bool) : Map String Bool :=
  match named.get "chat_history" with
  | none => named
  | some old =>
    let named := named.drop "chat_history"
    if named.get "read_chat_history" = none then named.set "read_chat_history" old else named

/-- An access table saying `access` over the bits its roles give, changing no more of it than that
takes. A bit above `tier` is not touched. -/
def writeAccess (table : AccessTable) (access baseline : AccessBits) (tier : Option Nat) :
    AccessTable :=
  let every : AccessBits := ~~~0
  let said := tier.elim every fun t => every <<< (63 - min t 63)
  let unsaid (b : Nat) : Bool := b < 64 && !said.has b
  let access := access &&& said
  let baseline := baseline &&& said
  let start := if unsaid bit.CHAT_HISTORY then table.named else renameHistory table.named
  let named := NAMES.foldl (fun named (key, b) =>
    if unsaid b then named
    else
      let history := b = bit.CHAT_HISTORY
      let on := access.has b
      if baseline.has b then (if on then named.drop key else named.set key false)
      else match named.get key with
        | some _ => named.set key on
        | none =>
          if (on && !history) || (history && on != access.has bit.READ_CHAT) then named.set key on
          else named) start
  { named
    rawBits := numbers ((namesOf (access &&& ~~~baseline)).2 ++ table.rawBits.filter unsaid)
    rawDeny := numbers
      (table.rawDeny.filter (!access.has ·) ++ (namesOf (baseline &&& ~~~access)).2) }

/-- An access table setting exactly `grant` and withholding exactly `deny`. -/
def writeOverrides (table : AccessTable) (grant deny : AccessBits) : AccessTable where
  named := NAMES.foldl (fun named (key, b) =>
    if grant.has b || deny.has b then named.set key (grant.has b) else named.drop key)
    (renameHistory table.named)
  rawBits := numbers (namesOf grant).2
  rawDeny := numbers (namesOf deny).2

/-- The file an edit leaves. -/
def AccountEdit.apply (edit : AccountEdit) (roles : Roles) (login : String)
    (old : Option AccountFile) : Except AdminError AccountFile := do
  let doc := old.getD {}
  let name := edit.name.or doc.name
  let password := match edit.password with
    | some "" => none
    | some password => some password
    | none => doc.password
  let listed ← edit.roles.foldlM (changeListed roles) doc.roles
  -- A bit the editor sends as it was shown keeps what the account has now.
  let access := match edit.access, edit.shown, old with
    | some sent, some shown, some file =>
      let now := (file.intoAccount login roles).access
      let changed := sent ^^^ shown
      some (now &&& ~~~changed ||| sent &&& changed)
    | access, _, _ => access
  let table := match edit.overrides, access with
    | some (grant, deny), _ => writeOverrides doc.access grant deny
    | none, some access => writeAccess doc.access access (roles.granted listed) edit.editorTier
    | none, none => doc.access
  return { doc with name := name, password := password, roles := listed, access := table }

namespace FileAuth

/-- What the file of a login reads as, if it has one. -/
def readOld (s : FileAuth) (login : String) : Except AdminError (Option AccountFile) :=
  match s.files.get login with
  | none => .ok none
  | some none => .error .backend
  | some (some file) => .ok (some file)

/-- Write the account an edit names, if `check` passes what it reads as before and after. `ok` is
whether the disk takes the write. -/
def writeAccount (s : FileAuth) (edit : AccountEdit)
    (check : Option Account → Account → Except AdminError Unit) (ok : Bool) :
    Except AdminError (Account × FileAuth) := do
  let login ← adminLogin edit.login
  if s.isReserved login || isRoleLogin login then .error .invalidLogin
  else
    let old ← s.readOld login
    let file ← edit.apply s.roles login old
    let after := file.intoAccount login s.roles
    check (old.map (·.intoAccount login s.roles)) after
    if !ok then .error .backend
    else .ok (after, { s with files := s.files.set login (some file) })

def deleteAccount (s : FileAuth) (login : String) (check : Account → Except AdminError Unit)
    (ok : Bool) : Except AdminError FileAuth := do
  let login ← adminLogin login
  check (← s.readAccount login)
  if !ok then .error .backend else .ok { s with files := s.files.drop login }

end FileAuth

/-! ## Writing a role -/

def FIELD_MAX_CHARS : Nat := 31

structure RoleEdit where
  name : String
  title : Option String := none
  /-- `some none` clears it. -/
  color : Option (Option Nat) := none
  position : Option Int := none
  mentionable : Option Bool := none
  access : Option AccessBits := none
  /-- The `[extra]` keys it grants. -/
  extra : Option (List String) := none

/-- The `[extra]` keys a role may grant. -/
def EXTRA_KEYS : List (String × Policy) :=
  [("set_subject", .setSubject), ("file_list", .fileList), ("file_getinfo", .fileGetinfo),
    ("attach_news", .attachNews), ("moderate", .moderate), ("can_spam", .canSpam),
    ("manage_roles", .manageRoles), ("manage_rooms", .manageRooms)]

def Extras.grant (x : Extras Bool) : Policy → Extras Bool
  | .setSubject => { x with setSubject := true }
  | .fileList => { x with fileList := true }
  | .fileGetinfo => { x with fileGetinfo := true }
  | .attachNews => { x with attachNews := true }
  | .moderate => { x with moderate := true }
  | .canSpam => { x with canSpam := true }
  | .manageRoles => { x with manageRoles := true }
  | .manageRooms => { x with manageRooms := true }

/-- A role's name: 1 to 30 lowercase letters, digits, `-` and `_`, starting with one of the first
two. -/
def validName (name : String) : Bool :=
  let word (c : Char) : Bool := c.isLower || c.isDigit
  name.utf8ByteSize ≤ 30 && name.toList.head?.any word &&
    name.toList.all fun c => word c || c = '-' || c = '_'

/-- A role granting nothing. -/
def Role.empty (name : String) : Role := ⟨name, name, none, 0, false, 0, .all false⟩

/-- The bits named, and those numbered. -/
def readGrants (grants : List String × List Nat) : AccessBits :=
  grants.2.foldl (·.withBit ·)
    (grants.1.foldl (fun a key => (namedBit key).elim a a.withBit) 0)

/-- A role as an edit leaves it: each field it names replaced. -/
def Role.apply (role : Role) (edit : RoleEdit) : Role :=
  { role with
    title := edit.title.getD role.title
    color := edit.color.getD role.color
    position := edit.position.getD role.position
    mentionable := edit.mentionable.getD role.mentionable
    access := edit.access.elim role.access fun a => readGrants (namesOf a)
    extra := edit.extra.elim role.extra fun keys =>
      keys.foldl (fun x key => (lookup EXTRA_KEYS key).elim x x.grant) (.all false) }

/-- May an edit be a role's at all? -/
def RoleEdit.wellFormed (edit : RoleEdit) : Except AdminError Unit :=
  if !validName edit.name then
    .error (.badRole ("A role's name is 1 to 30 lowercase letters, digits, - and _, " ++
      "starting with a letter or digit."))
  else if (edit.extra.getD []).any fun key => lookup EXTRA_KEYS key = none then
    .error (.badRole "A role grants only the [extra] keys that say what an account may do.")
  else if edit.title.any fun t => t = "" || FIELD_MAX_CHARS < t.length then
    .error (.badRole "A title is 1 to 31 characters.")
  else if (edit.color.getD none).any (0xffffff < ·) then .error (.badRole "A color is 0xRRGGBB.")
  else .ok ()

/-- What a role write asks before it lands. -/
abbrev RoleCheck := Option Role → Option Role → List Account → List Account → Except AdminError Unit

namespace FileAuth

def writeRole (s : FileAuth) (edit : RoleEdit) (create : Bool) (check : RoleCheck) (ok : Bool) :
    Except AdminError (Role × FileAuth) :=
  if !s.rolesFile then .error .unsupported
  else do
    edit.wellFormed
    let before := s.roles.get edit.name
    if before.isSome && create then .error .exists_
    else if before.isNone && !create then .error .noSuchRole
    else
      let role := (before.getD (.empty edit.name)).apply edit
      let after := s.roles.set edit.name role
      check before (some role) (s.holders edit.name s.roles) (s.holders edit.name after)
      if !ok then .error .backend else .ok (role, { s with roles := after })

/-- What the document of a login reads as without role `name` on its list. `relisted` is what one that
is no account reads as then, if it is a document at all. -/
def unlisted (s : FileAuth) (name : String) (relisted : String → Option (Option AccountFile))
    (login : String) : Except AdminError (Option AccountFile) :=
  if s.isReserved login then .error .noSuchAccount
  else match s.files.get login with
    | none => .error .noSuchAccount
    | some none => match relisted login with
      | none => .error .backend
      | some file => .ok file
    | some (some file) => .ok (some { file with roles := file.roles.filter (· ≠ name) })

/-- Take role `name` off the list in an account's file. The document read is that of its login
canonical; `ok` is whether the disk takes the write. -/
def unlist (s : FileAuth) (name : String) (relisted : String → Option (Option AccountFile))
    (ok : String → Bool) (stem : String) : Except AdminError FileAuth := do
  let login ← adminLogin stem
  let file ← s.unlisted name relisted login
  if !ok stem then .error .backend else .ok { s with files := s.files.set stem file }

/-- The same in each file, as far as the disk takes it. -/
def unlistAll (name : String) (relisted : String → Option (Option AccountFile)) (ok : String → Bool) :
    List String → FileAuth → Except AdminError Unit × FileAuth
  | [], s => (.ok (), s)
  | stem :: stems, s =>
    match s.unlist name relisted ok stem with
    | .error e => (.error e, s)
    | .ok s => unlistAll name relisted ok stems s

/-- Delete a role: from every account listing it, then from the roles. One cut short has taken it
from some. -/
def deleteRole (s : FileAuth) (name : String) (check : RoleCheck)
    (relisted : String → Option (Option AccountFile)) (ok : String → Bool) (rolesOk : Bool) :
    Except AdminError Unit × FileAuth :=
  if !s.rolesFile then (.error .unsupported, s)
  else if name = EVERYONE then
    (.error (.badRole "everyone is every account, and cannot be deleted."), s)
  else match s.roles.get name with
    | none => (.error .noSuchRole, s)
    | some role =>
      let held := s.holders name s.roles
      match check (some role) none held [] with
      | .error e => (.error e, s)
      | .ok () =>
        match unlistAll name relisted ok (held.map (·.login)) s with
        | (.error e, s) => (.error e, s)
        | (.ok (), s) =>
          if rolesOk then (.ok (), { s with roles := s.roles.drop name }) else (.error .backend, s)

end FileAuth

end HxdNg.Accounts
