import Mathlib
import HxdNg.Accounts.Access
import HxdNg.Identity.FingerprintText
import HxdNg.Lib.Assoc
import HxdNg.Lib.Sorting

/-!
# Accounts and roles

* `Extras`, `AccountFile`, `Role` : what the files say;
* `AccountFile.configure`, `AccountConfig.derive` : the bits and policies an account's file and the
  roles resolve to;
* `Capability`, `Account.can` : what an account may do; `can_mono` : more roles never take one away.
-/

namespace HxdNg.Accounts

open Identity (Fingerprint)
open Assoc

/-- One value per `[extra]` key. -/
structure Extras (α : Type) where
  canDetach : α
  setSubject : α
  inbox : α
  fileList : α
  fileGetinfo : α
  attachNews : α
  setAvatar : α
  moderate : α
  canSpam : α
  manageRoles : α
  manageRooms : α
  deriving DecidableEq

namespace Extras

def all {α : Type} (x : α) : Extras α := ⟨x, x, x, x, x, x, x, x, x, x, x⟩

/-- Each key of two combined. -/
def zipWith {α β γ : Type} (f : α → β → γ) (x : Extras α) (y : Extras β) : Extras γ where
  canDetach := f x.canDetach y.canDetach
  setSubject := f x.setSubject y.setSubject
  inbox := f x.inbox y.inbox
  fileList := f x.fileList y.fileList
  fileGetinfo := f x.fileGetinfo y.fileGetinfo
  attachNews := f x.attachNews y.attachNews
  setAvatar := f x.setAvatar y.setAvatar
  moderate := f x.moderate y.moderate
  canSpam := f x.canSpam y.canSpam
  manageRoles := f x.manageRoles y.manageRoles
  manageRooms := f x.manageRooms y.manageRooms

end Extras

/-- The policies an administrator is measured by. -/
inductive Policy where
  | setSubject
  | fileList
  | fileGetinfo
  | attachNews
  | moderate
  | canSpam
  | manageRoles
  | manageRooms
  deriving DecidableEq

def Extras.policy {α : Type} (x : Extras α) : Policy → α
  | .setSubject => x.setSubject
  | .fileList => x.fileList
  | .fileGetinfo => x.fileGetinfo
  | .attachNews => x.attachNews
  | .moderate => x.moderate
  | .canSpam => x.canSpam
  | .manageRoles => x.manageRoles
  | .manageRooms => x.manageRooms

theorem Extras.policy_zipWith {α β γ : Type} (f : α → β → γ) (x : Extras α) (y : Extras β)
    (p : Policy) : (x.zipWith f y).policy p = f (x.policy p) (y.policy p) := by
  cases p <;> rfl

/-! ## Files -/

structure AccessTable where
  rawBits : List Nat := []
  rawDeny : List Nat := []
  named : Map String Bool := .empty
  deriving DecidableEq

structure IdentityTable where
  fingerprint : Option String := none
  login : Option Bool := none
  allowSelfLink : Option Bool := none
  reserveName : Option Bool := none
  deriving DecidableEq

/-- An account file, as it parses. -/
structure AccountFile where
  name : Option String := none
  password : Option String := none
  roles : List String := []
  access : AccessTable := {}
  extra : Extras (Option Bool) := .all none
  identity : IdentityTable := {}
  deriving DecidableEq

/-- One role, as its file defines it. -/
structure Role where
  name : String
  title : String
  color : Option Nat
  position : Int
  mentionable : Bool
  access : AccessBits
  extra : Extras Bool
  deriving DecidableEq

/-- The role every account holds. -/
def EVERYONE : String := "everyone"

/-- Every role the file defines, and `everyone` whether it does or not. -/
abbrev Roles := Map String Role

/-- `everyone`, and each role listed that exists. -/
def Roles.held (roles : Roles) (listed : List String) : List Role :=
  (EVERYONE :: listed).filterMap roles.get

/-- The bits roles grant together. -/
def grantedBits (held : List Role) : AccessBits := held.foldl (fun a r => a ||| r.access) 0

def grantedExtras (held : List Role) : Extras Bool :=
  held.foldl (fun x r => x.zipWith (· || ·) r.extra) (.all false)

def Roles.granted (roles : Roles) (listed : List String) : AccessBits := grantedBits (roles.held listed)

/-! ## What they resolve to -/

/-- What an account's files say, before any default derives. -/
structure AccountConfig where
  access : AccessBits
  historyNamed : Bool
  extra : Extras (Option Bool)
  grant : AccessBits
  deny : AccessBits
  roles : List String
  deriving DecidableEq

/-- The bits of a configuration being read. -/
structure Bits where
  access : AccessBits
  grant : AccessBits
  deny : AccessBits
  historyNamed : Bool

namespace Bits

def setBit (s : Bits) (b : Nat) (on : Bool) : Bits :=
  if on then { s with access := s.access.withBit b, grant := s.grant.withBit b, deny := s.deny.without b }
  else { s with access := s.access.without b, grant := s.grant.without b, deny := s.deny.withBit b }

def nameHistory (s : Bits) (b : Nat) : Bits :=
  { s with historyNamed := s.historyNamed || b = bit.CHAT_HISTORY }

def readNamed (s : Bits) (entry : String × Bool) : Bits :=
  match namedBit entry.1 with
  | some b => (s.setBit b entry.2).nameHistory b
  | none => s

def readRaw (s : Bits) (b : Nat) : Bits := s.setBit b true

def readDeny (s : Bits) (b : Nat) : Bits := (s.setBit b false).nameHistory b

/-- A file's own keys over what its roles grant. -/
def readTable (s : Bits) (t : AccessTable) : Bits :=
  t.rawDeny.foldl readDeny (t.rawBits.foldl readRaw
    ((sortBy Prod.fst t.named.entries).foldl readNamed s))

end Bits

/-- What `everyone` and the listed roles grant, then the file's own keys over it either way. -/
def AccountFile.configureWith (file : AccountFile) (held : List Role) : AccountConfig :=
  let access := grantedBits held
  let bits := Bits.readTable ⟨access, 0, 0, access.has bit.CHAT_HISTORY⟩ file.access
  { access := bits.access
    historyNamed := bits.historyNamed
    extra := file.extra.zipWith (fun own role => own.or (if role then some true else none))
      (grantedExtras held)
    grant := bits.grant
    deny := bits.deny
    roles := (held.filter (·.name ≠ EVERYONE)).map (·.name) }

def AccountFile.configure (file : AccountFile) (roles : Roles) : AccountConfig :=
  file.configureWith (roles.held file.roles)

/-- What a session is denied whatever its account says. -/
structure DenyMask where
  access : AccessBits := 0
  extra : Extras Bool := .all false
  deriving DecidableEq

/-- The bits and policies a configuration resolves to under a mask. Bit 56, not named, follows bit
9. -/
def AccountConfig.derive (c : AccountConfig) (person : Bool) (mask : DenyMask) :
    AccessBits × Extras Bool :=
  let denied := mask.access.has
  let access := c.access &&& ~~~mask.access
  let access :=
    if !c.historyNamed && access.has bit.READ_CHAT then access.withBit bit.CHAT_HISTORY else access
  let access := if denied bit.READ_CHAT || denied bit.CHAT_HISTORY then access.without bit.CHAT_HISTORY
    else access
  let kick := access.has bit.DISCONNECT_USERS
  let unkick := denied bit.DISCONNECT_USERS
  let media := access.has bit.SEND_MEDIA
  let x := c.extra
  let m := mask.extra
  let key (named : Option Bool) (default masked : Bool) : Bool := !masked && named.getD default
  (access,
    { canDetach := key x.canDetach person m.canDetach
      inbox := key x.inbox person m.inbox
      setAvatar := key x.setAvatar person m.setAvatar
      fileList := key x.fileList true m.fileList
      fileGetinfo := key x.fileGetinfo true m.fileGetinfo
      setSubject := key x.setSubject kick (m.setSubject || unkick)
      moderate := key x.moderate kick (m.moderate || unkick)
      canSpam := key x.canSpam kick (m.canSpam || unkick)
      manageRoles := key x.manageRoles false m.manageRoles
      manageRooms := key x.manageRooms false m.manageRooms
      attachNews := key x.attachNews media (m.attachNews || denied bit.SEND_MEDIA) })

structure IdentityLink where
  fingerprint : Option Fingerprint
  identityLogin : Bool
  allowSelfLink : Bool
  reserveName : Bool
  deriving DecidableEq

structure Account where
  login : String
  name : String
  access : AccessBits
  extra : Extras Bool
  hasPassword : Bool
  roles : List String
  identity : IdentityLink
  config : AccountConfig
  deriving DecidableEq

/-- An account as its configuration resolves for it, with nothing masked. -/
def Account.new (login name : String) (hasPassword : Bool) (identity : IdentityLink)
    (roles : List String) (config : AccountConfig) : Account :=
  let (access, extra) := config.derive (hasPassword || identity.fingerprint.isSome) {}
  ⟨login, name, access, extra, hasPassword, roles, identity, config⟩

/-- The account a file and the roles held make. -/
def AccountFile.accountWith (file : AccountFile) (login : String) (held : List Role) : Account :=
  let hasPassword := file.password.getD "" ≠ ""
  let identity : IdentityLink :=
    { fingerprint := file.identity.fingerprint.bind Fingerprint.parse
      identityLogin := !hasPassword || file.identity.login.getD true
      allowSelfLink := file.identity.allowSelfLink.getD true
      reserveName := file.identity.reserveName.getD false }
  .new login (file.name.getD login) hasPassword identity file.roles (file.configureWith held)

def AccountFile.intoAccount (file : AccountFile) (login : String) (roles : Roles) : Account :=
  file.accountWith login (roles.held file.roles)

/-! ## Capabilities -/

/-- What an account may do to anyone: an access bit or a policy. -/
inductive Capability where
  | bit (n : Nat)
  | policy (p : Policy)
  deriving DecidableEq

def Account.can (a : Account) : Capability → Bool
  | .bit n => a.access.has n
  | .policy p => a.extra.policy p

/-- What a configuration resolves to, unmasked. -/
def AccountConfig.can (c : AccountConfig) : Capability → Bool
  | .bit n => (c.derive true {}).1.has n
  | .policy p => (c.derive true {}).2.policy p

/-- Neither its login nor whether it is a person decides what an account may do. -/
theorem can_accountWith (file : AccountFile) (login : String) (held : List Role) (c : Capability) :
    (file.accountWith login held).can c = (file.configureWith held).can c := by
  cases c with
  | bit n => rfl
  | policy p => cases p <;> rfl

section Monotone

theorem has_grantedBits {held : List Role} {n : Nat} :
    (grantedBits held).has n = true ↔ ∃ r ∈ held, r.access.has n = true := by
  have hfold : ∀ (a : AccessBits), (held.foldl (fun a r => a ||| r.access) a).has n = true ↔
      a.has n = true ∨ ∃ r ∈ held, r.access.has n = true := by
    induction held with
    | nil => simp
    | cons r held ih =>
      intro a
      rw [List.foldl_cons, ih, AccessBits.has_or, Bool.or_eq_true, or_assoc]
      simp
  rw [grantedBits, hfold, AccessBits.has_empty]
  simp

theorem policy_grantedExtras {held : List Role} {p : Policy} :
    (grantedExtras held).policy p = true ↔ ∃ r ∈ held, r.extra.policy p = true := by
  have hfold : ∀ x : Extras Bool, (held.foldl (fun x r => x.zipWith (· || ·) r.extra) x).policy p = true ↔
      x.policy p = true ∨ ∃ r ∈ held, r.extra.policy p = true := by
    induction held with
    | nil => simp
    | cons r held ih =>
      intro x
      rw [List.foldl_cons, ih, Extras.policy_zipWith, Bool.or_eq_true, or_assoc]
      simp
  rw [grantedExtras, hfold]
  cases p <;> simp [Extras.all, Extras.policy]

/-- Bits being read over fewer grants: none more is set, and bit 56 is named for more only by being
set. -/
structure Bits.Le (s t : Bits) : Prop where
  access : ∀ n, s.access.has n = true → t.access.has n = true
  named : s.historyNamed = true → t.historyNamed = true
  history : s.historyNamed = false → t.historyNamed = true → t.access.has bit.CHAT_HISTORY = true

variable {s t : Bits}

theorem Bits.Le.setBit (h : s.Le t) (b : Nat) (on : Bool) (hb : b ≠ bit.CHAT_HISTORY ∨ on = true) :
    (s.setBit b on).Le (t.setBit b on) := by
  cases on with
  | true =>
    refine ⟨fun n hn => ?_, h.named, fun hs ht => ?_⟩
    · show (t.access.withBit b).has n = true
      replace hn : (s.access.withBit b).has n = true := hn
      rw [AccessBits.has_withBit, Bool.or_eq_true] at hn ⊢
      exact hn.imp_left (h.access n)
    · show (t.access.withBit b).has bit.CHAT_HISTORY = true
      rw [AccessBits.has_withBit, h.history hs ht, Bool.true_or]
  | false =>
    have hne := hb.resolve_right nofun
    refine ⟨fun n hn => ?_, h.named, fun hs ht => ?_⟩
    · show (t.access.without b).has n = true
      replace hn : (s.access.without b).has n = true := hn
      rw [AccessBits.has_without, Bool.and_eq_true] at hn ⊢
      exact hn.imp_left (h.access n)
    · show (t.access.without b).has bit.CHAT_HISTORY = true
      rw [AccessBits.has_without, h.history hs ht, decide_eq_true hne.symm]
      rfl

theorem Bits.Le.setNamed (h : s.Le t) (b : Nat) (on : Bool) :
    ((s.setBit b on).nameHistory b).Le ((t.setBit b on).nameHistory b) := by
  by_cases hb : b = bit.CHAT_HISTORY
  · -- Both name it, so neither follows bit 9.
    have hnamed : ∀ x : Bits, (x.nameHistory b).historyNamed = true := fun x => by
      show (x.historyNamed || decide (b = bit.CHAT_HISTORY)) = true
      rw [decide_eq_true hb, Bool.or_true]
    refine ⟨fun n hn => ?_, fun _ => hnamed _, fun hs => ?_⟩
    · cases on with
      | true => exact (h.setBit b true (.inr rfl)).access n hn
      | false =>
        replace hn : (s.access.without b).has n = true := hn
        show (t.access.without b).has n = true
        rw [AccessBits.has_without, Bool.and_eq_true] at hn ⊢
        exact hn.imp_left (h.access n)
    · rw [hnamed] at hs
      cases hs
  · have hsame : ∀ x : Bits, (x.nameHistory b).historyNamed = x.historyNamed := fun x => by
      show (x.historyNamed || decide (b = bit.CHAT_HISTORY)) = _
      rw [decide_eq_false hb, Bool.or_false]
    have hset := h.setBit b on (.inl hb)
    exact ⟨hset.access, fun hs => by rw [hsame] at hs ⊢; exact hset.named hs,
      fun hs ht => hset.history (by rw [← hsame]; exact hs) (by rw [← hsame]; exact ht)⟩

theorem Bits.Le.readNamed (h : s.Le t) (entry : String × Bool) :
    (s.readNamed entry).Le (t.readNamed entry) := by
  unfold Bits.readNamed
  cases namedBit entry.1 with
  | none => exact h
  | some b => exact h.setNamed b entry.2

theorem Bits.Le.foldl {α : Type} {f : Bits → α → Bits}
    (hf : ∀ {s t : Bits}, s.Le t → ∀ a, (f s a).Le (f t a)) (l : List α) (h : s.Le t) :
    (l.foldl f s).Le (l.foldl f t) := by
  induction l generalizing s t with
  | nil => exact h
  | cons a l ih => exact ih (hf h a)

theorem Bits.Le.readTable (h : s.Le t) (table : AccessTable) :
    (s.readTable table).Le (t.readTable table) := by
  refine .foldl (fun h b => h.setNamed b false) _ ?_
  refine .foldl (fun h b => h.setBit b true (.inr rfl)) _ ?_
  exact .foldl (fun h e => h.readNamed e) _ h

/-- Bit 56 aside, deriving unmasked leaves the bits; it follows bit 9 where it is not named. -/
theorem has_derive (c : AccountConfig) (person : Bool) (n : Nat) :
    (c.derive person {}).1.has n = (c.access.has n ||
      (!c.historyNamed && c.access.has bit.READ_CHAT && decide (n = bit.CHAT_HISTORY))) := by
  have hmask : c.access &&& ~~~(0 : AccessBits) = c.access := BitVec.and_allOnes
  have hnone : ∀ b, (({} : DenyMask).access).has b = false := AccessBits.has_empty
  unfold AccountConfig.derive
  simp only [hnone, Bool.or_self, Bool.false_eq_true, if_false]
  rw [show c.access &&& ~~~(({} : DenyMask).access) = c.access from hmask]
  split
  case isTrue h =>
    rw [AccessBits.has_withBit, h, Bool.true_and]
    refine congrArg (c.access.has n || ·) (decide_eq_decide.2 ⟨fun h => h.1, fun h => ⟨h, ?_⟩⟩)
    rw [h]
    decide
  case isFalse h => rw [Bool.eq_false_iff.2 h, Bool.false_and, Bool.or_false]

/-- What a policy resolves to unmasked: as named, or as its default derives. -/
theorem policy_derive (c : AccountConfig) (person : Bool) (p : Policy) :
    (c.derive person {}).2.policy p = (c.extra.policy p).getD (match p with
      | .setSubject => (c.derive person {}).1.has bit.DISCONNECT_USERS
      | .moderate => (c.derive person {}).1.has bit.DISCONNECT_USERS
      | .canSpam => (c.derive person {}).1.has bit.DISCONNECT_USERS
      | .attachNews => (c.derive person {}).1.has bit.SEND_MEDIA
      | .fileList => true
      | .fileGetinfo => true
      | .manageRoles => false
      | .manageRooms => false) := by
  have hnone : ∀ b, (({} : DenyMask).access).has b = false := AccessBits.has_empty
  cases p <;> simp only [AccountConfig.derive, Extras.policy, hnone, Extras.all, Bool.or_false,
    Bool.not_false, Bool.true_and]

/-- What a file resolves to is monotone in what its roles grant. -/
theorem can_of_grants (file : AccountFile) {held held' : List Role}
    (hbits : ∀ n, (grantedBits held).has n = true → (grantedBits held').has n = true)
    (hextra : ∀ p, (grantedExtras held).policy p = true → (grantedExtras held').policy p = true)
    {c : Capability} (hc : (file.configureWith held).can c = true) :
    (file.configureWith held').can c = true := by
  have hstart : Bits.Le ⟨grantedBits held, 0, 0, (grantedBits held).has bit.CHAT_HISTORY⟩
      ⟨grantedBits held', 0, 0, (grantedBits held').has bit.CHAT_HISTORY⟩ :=
    ⟨hbits, fun hs => hbits bit.CHAT_HISTORY hs, fun _ ht => ht⟩
  have hle := hstart.readTable file.access
  have haccess : ∀ n, ((file.configureWith held).derive true {}).1.has n = true →
      ((file.configureWith held').derive true {}).1.has n = true := fun n hn => by
    rw [has_derive, Bool.or_eq_true] at hn ⊢
    rcases hn with hn | hn
    · exact .inl (hle.access n hn)
    · simp only [Bool.and_eq_true, Bool.not_eq_true', decide_eq_true_eq] at hn
      obtain ⟨⟨hnamed, hread⟩, rfl⟩ := hn
      cases hn' : (file.configureWith held').historyNamed with
      | false =>
        refine .inr ?_
        rw [Bool.not_false, Bool.true_and, Bool.and_eq_true]
        exact ⟨hle.access _ hread, decide_eq_true rfl⟩
      | true => exact .inl (hle.history hnamed hn')
  have hpolicy : ∀ p, ((file.configureWith held).derive true {}).2.policy p = true →
      ((file.configureWith held').derive true {}).2.policy p = true := fun p hp => by
    rw [policy_derive] at hp ⊢
    have hown : ∀ held : List Role, (file.configureWith held).extra.policy p = (file.extra.policy p).or
        (if (grantedExtras held).policy p then some true else none) := fun held =>
      Extras.policy_zipWith _ _ _ _
    rw [hown] at hp ⊢
    cases hown : file.extra.policy p with
    | some own =>
      rw [hown] at hp
      exact hp
    | none =>
      rw [hown, Option.none_or] at hp
      rw [Option.none_or]
      by_cases hg' : (grantedExtras held').policy p = true
      · rw [if_pos hg']
        rfl
      · rw [if_neg fun hg => hg' (hextra p hg)] at hp
        rw [if_neg hg']
        cases p with
        | setSubject => exact haccess _ hp
        | moderate => exact haccess _ hp
        | canSpam => exact haccess _ hp
        | attachNews => exact haccess _ hp
        | fileList => exact hp
        | fileGetinfo => exact hp
        | manageRoles => exact hp
        | manageRooms => exact hp
  cases c with
  | bit n => exact haccess n hc
  | policy p => exact hpolicy p hc

/-- More roles never take a capability away. -/
theorem can_mono (file : AccountFile) {held held' : List Role} (h : ∀ r ∈ held, r ∈ held')
    {c : Capability} (hc : (file.configureWith held).can c = true) :
    (file.configureWith held').can c = true := by
  refine can_of_grants file (fun n hn => ?_) (fun p hp => ?_) hc
  · obtain ⟨r, hr, hn⟩ := has_grantedBits.1 hn
    exact has_grantedBits.2 ⟨r, h r hr, hn⟩
  · obtain ⟨r, hr, hp⟩ := policy_grantedExtras.1 hp
    exact policy_grantedExtras.2 ⟨r, h r hr, hp⟩

end Monotone

end HxdNg.Accounts
