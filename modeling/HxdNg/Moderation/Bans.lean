import Mathlib
import HxdNg.Moderation.Matcher
import HxdNg.History.Log

/-!
# Placing and lifting bans

* `MemoryModeration.ban`, `liftBan`, `listed` : the store's calls;
* `Core.placeBansAct`, `liftBanAs`, `reloadBans` : what a server does with them and with its matcher,
  any call of the store failing where `Fails` says so;
* `Agrees` : a ban standing in the store is filed, and what is filed is a row of the store;
* `matcher_says_store` : the matcher refuses what the store bans, over every run in which no lift stops
  half way.
-/

namespace HxdNg.Moderation

open Relationships Assoc History
open Identity (Fingerprint)

/-! ## The store -/

/-- The rule for a target already banned: the standing row, extended, which keeps the act that created
it. -/
def extendBan (old new : Ban) : Ban :=
  { new with
    id := old.id
    target := old.target
    createdAt := old.createdAt
    expiresAt := match old.expiresAt, new.expiresAt with
      | some a, some b => some (max a b)
      | _, _ => none
    source := if old.source = .config then .config else new.source
    liftedAt := none
    liftedBy := none
    act := old.act }

structure MemoryModeration where
  acts : Nat := 0
  bans : List Ban := []
  lastBan : BanId := 0

/-- Change the first entry `p` holds of. -/
def modifyFirst {α : Type*} (p : α → Bool) (f : α → α) : List α → List α
  | [] => []
  | x :: xs => if p x then f x :: xs else x :: modifyFirst p f xs

namespace MemoryModeration

def record (s : MemoryModeration) : ActId × MemoryModeration := (s.acts + 1, { s with acts := s.acts + 1 })

def holds (target : BanTarget) (b : Ban) : Bool := b.liftedAt.isNone && b.target = target

def pushBan (s : MemoryModeration) (ban : Ban) : Ban × MemoryModeration :=
  let ban := { ban with id := s.lastBan + 1 }
  (ban, { s with bans := s.bans ++ [ban], lastBan := ban.id })

/-- A target with a ban standing keeps its one row, extended; one that has run out is closed at its
expiry. -/
def ban (s : MemoryModeration) (new : Ban) : Ban × MemoryModeration :=
  match s.bans.find? (holds new.target) with
  | none => s.pushBan new
  | some old =>
    if old.standing new.createdAt then
      (extendBan old new, { s with bans := modifyFirst (holds new.target) (extendBan · new) s.bans })
    else
      pushBan { s with
        bans := modifyFirst (holds new.target) (fun b => { b with liftedAt := b.expiresAt }) s.bans } new

/-- Lift a ban not yet lifted. -/
def liftBan (s : MemoryModeration) (id : BanId) (by_ : String) (at_ : SystemTime) :
    Option Ban × MemoryModeration :=
  let unlifted (b : Ban) : Bool := b.id = id && b.liftedAt.isNone
  let lifted (b : Ban) : Ban := { b with liftedAt := some at_, liftedBy := some by_ }
  ((s.bans.find? unlifted).map lifted, { s with bans := modifyFirst unlifted lifted s.bans })

/-- Bans, newest first, from before `before`: with `standingAt`, only those standing then. -/
def listed (s : MemoryModeration) (standingAt : Option SystemTime) (before : Option BanId)
    (limit : Option Nat) : List Ban :=
  let found := s.bans.reverse.filter fun b => before.all (b.id < ·) && standingAt.all b.standing
  match limit with
  | none => found
  | some n => found.take n

end MemoryModeration

/-! ## The server -/

/-- Which calls of the store an operation's run fails, and with what: each call once or by its number
in the run. -/
inductive Call where
  | record
  | ban (n : Nat)
  | bans (n : Nat)
  | lift (n : Nat)
  deriving DecidableEq

abbrev Fails := Call → Option StoreError

inductive ModError where
  | disabled
  | badRequest (message : String)
  | noSuchBan
  | configBan
  | store (e : StoreError)
  deriving DecidableEq

/-- The acting principal. -/
structure Acting where
  name : String
  fingerprint : Option Fingerprint
  /-- `none` for the operator. -/
  uid : Option Nat

structure NewBan where
  target : BanTarget
  reason : String
  note : Option String
  expiresAt : Option SystemTime
  source : BanSource

/-- What a server knows beside its bans: the lowercase of a login, the login of its own account, and
the identity an account links. -/
structure Server where
  lower : String → String
  system : Option String
  account : String → Option Fingerprint

def Server.isSystemLogin (v : Server) (login : String) : Bool :=
  v.system.any fun s => s.map Char.toLower = login.map Char.toLower

structure Core where
  moderation : Option MemoryModeration
  bans : BanMatcher := {}
  banIds : Nat := 0

/-- The whitespace a reason of which is none. -/
def isWhitespace (c : Char) : Bool :=
  (0x9 ≤ c.val && c.val ≤ 0xd) || c.val = 0x20 || c.val = 0x85 || c.val = 0xa0 || c.val = 0x1680 ||
    (0x2000 ≤ c.val && c.val ≤ 0x200a) || c.val = 0x2028 || c.val = 0x2029 || c.val = 0x202f ||
    c.val = 0x205f || c.val = 0x3000

/-- The identity a ban of a login bans with it, or why the target is not one to ban. -/
def twinOf (v : Server) (acting : Acting) (target : BanTarget) : Except ModError (Option BanTarget) :=
  match target with
  | .login l =>
    if l = "guest" ∨ l = "" ∨ v.isSystemLogin l then
      .error (.badRequest "not that login: disable the account instead")
    else if acting.uid.map (fun _ => v.lower acting.name) = some l then
      .error (.badRequest "a moderator does not ban themselves")
    else .ok ((v.account l).map .identity)
  | .identity fp =>
    if (acting.uid.bind fun _ => acting.fingerprint) = some fp then
      .error (.badRequest "a moderator does not ban themselves")
    else .ok none
  | .address _ => .ok none
  | .registrar _ => .ok none

def targetsOf (v : Server) (acting : Acting) : List BanTarget → Except ModError (List BanTarget) :=
  List.foldlM (fun targets target => do
    let twin ← twinOf v acting target
    return (target :: twin.toList).foldl (fun ts t => if t ∈ ts then ts else ts ++ [t]) targets) []

def rowOf (acting : Acting) (ban : NewBan) (now : SystemTime) (act : Option ActId)
    (target : BanTarget) : Ban where
  id := 0
  target := target
  reason := ban.reason
  note := ban.note
  actor := acting.name
  actorFp := acting.fingerprint
  source := ban.source
  createdAt := now
  expiresAt := ban.expiresAt
  liftedAt := none
  liftedBy := none
  act := act

namespace Core

/-- One row written and filed; with no store a ban lasts as long as the process. -/
def placeRow (c : Core) (row : Ban) : Ban × Core :=
  match c.moderation with
  | some store =>
    let (row, store) := store.ban row
    (row, { c with moderation := some store, bans := c.bans.insert row })
  | none =>
    let row := { row with id := c.banIds + 1 }
    (row, { c with banIds := c.banIds + 1, bans := c.bans.insert row })

/-- The rows of an act, one after another. A store that fails partway leaves those written standing;
only an act of which none was written is an error. -/
def placeRows (fails : Fails) (row : BanTarget → Ban) (c : Core) (placed : List Ban) :
    List BanTarget → Except ModError (List Ban) × Core
  | [] => (.ok placed, c)
  | target :: targets =>
    match c.moderation.bind fun _ => fails (.ban placed.length) with
    | some e => (if placed = [] then .error (.store e) else .ok placed, c)
    | none =>
      let (r, c) := c.placeRow (row target)
      placeRows fails row c (placed ++ [r]) targets

/-- The act in the trail, where there is one. -/
def recordAct (fails : Fails) (c : Core) : Except ModError (Option ActId) × Core :=
  match c.moderation with
  | none => (.ok none, c)
  | some store =>
    match fails .record with
    | some e => (.error (.store e), c)
    | none => (.ok (some store.record.1), { c with moderation := some store.record.2 })

/-- Place a ban, and beside it each of `also` in the same act. -/
def placeBansAct (v : Server) (fails : Fails) (c : Core) (acting : Acting) (ban : NewBan)
    (also : List BanTarget) (now : SystemTime) : Except ModError (Option ActId × List Ban) × Core :=
  if ban.reason.toList.all isWhitespace then (.error (.badRequest "a ban needs a reason"), c)
  else match targetsOf v acting (ban.target :: also) with
    | .error e => (.error e, c)
    | .ok targets =>
      match recordAct fails c with
      | (.error e, c) => (.error e, c)
      | (.ok act, c) =>
        let (placed, c) := placeRows fails (rowOf acting ban now act) c [] targets
        (placed.map fun placed => (act, placed), c)

/-- The rows a lift names: the one asked for, and those its act placed beside it. -/
def lifting (fails : Fails) (store : MemoryModeration) (id : BanId) (now : SystemTime) :
    Except ModError (List BanId) :=
  match fails (.bans 0) with
  | some e => .error (.store e)
  | none =>
    match (store.listed none (some (id + 1)) (some 1)).find? fun b => b.id = id && b.liftedAt.isNone with
    | none => .error .noSuchBan
    | some ban =>
      if ban.source = .config then .error .configBan
      else match ban.act with
        | none => .ok [id]
        | some act =>
          match fails (.bans 1) with
          | some e => .error (.store e)
          | none => .ok (id :: ((store.listed (some now) none none).filter fun b =>
              b.id ≠ id && b.act = some act && b.source ≠ .config).map (·.id))

/-- Rows lifted one after another, the `n`th first. Only the one named has to be there. -/
def liftRows (fails : Fails) (by_ : String) (now : SystemTime) (store : MemoryModeration) (n : Nat)
    (lifted : List Ban) : List BanId → Except ModError (List Ban) × MemoryModeration
  | [] => (.ok lifted, store)
  | id :: ids =>
    match fails (.lift n) with
    | some e => (.error (.store e), store)
    | none =>
      match store.liftBan id by_ now with
      | (some row, store) => liftRows fails by_ now store (n + 1) (lifted ++ [row]) ids
      | (none, store) =>
        if lifted = [] then (.error .noSuchBan, store)
        else liftRows fails by_ now store (n + 1) lifted ids

/-- Lift a ban, and with it every standing ban placed in the same act. -/
def liftBanAs (fails : Fails) (c : Core) (acting : Acting) (id : BanId) (now : SystemTime) :
    Except ModError (List Ban) × Core :=
  match c.moderation with
  | none => (.error .disabled, c)
  | some store =>
    match lifting fails store id now with
    | .error e => (.error e, c)
    | .ok ids =>
      match liftRows fails acting.name now store 0 [] ids with
      | (.error e, store) => (.error e, { c with moderation := some store })
      | (.ok lifted, store) =>
        match fails .record with
        | some e => (.error (.store e), { c with moderation := some store })
        | none => (.ok lifted, { c with
            moderation := some store.record.2
            bans := lifted.foldl (fun m row => m.remove row.id) c.bans })

/-- Read the standing bans again from the store. -/
def reloadBans (fails : Fails) (c : Core) (now : SystemTime) : Core :=
  match c.moderation with
  | none => c
  | some store =>
    match fails (.bans 0) with
    | some _ => c
    | none => { c with bans := .load (store.listed (some now) none none) }

end Core

/-! ## The store's rows -/

section Rows
variable {α : Type*} {p : α → Bool} {f : α → α} {l : List α}

theorem modifyFirst_eq (h : ∀ x ∈ l, p x = false) : modifyFirst p f l = l := by
  induction l with
  | nil => rfl
  | cons x xs ih =>
    rw [modifyFirst, h x List.mem_cons_self, ih fun y hy => h y (List.mem_cons_of_mem _ hy)]
    rfl

theorem modifyFirst_split {a : α} (h : l.find? p = some a) :
    ∃ before after, l = before ++ a :: after ∧ (∀ x ∈ before, p x = false) ∧ p a = true ∧
      modifyFirst p f l = before ++ f a :: after := by
  induction l with
  | nil => cases h
  | cons x xs ih =>
    cases hp : p x with
    | true =>
      rw [List.find?_cons_of_pos hp] at h
      obtain rfl := Option.some.inj h
      exact ⟨[], xs, rfl, nofun, hp, by rw [modifyFirst, hp]; rfl⟩
    | false =>
      rw [List.find?_cons_of_neg (by rw [hp]; nofun)] at h
      obtain ⟨before, after, hl, hb, ha, hm⟩ := ih h
      refine ⟨x :: before, after, by rw [hl]; rfl, fun y hy => ?_, ha, ?_⟩
      · rcases List.mem_cons.1 hy with rfl | hy
        · exact hp
        · exact hb y hy
      · rw [modifyFirst, hp, hm]
        rfl

end Rows

namespace MemoryModeration

/-- Ids number the rows, and a target has one unlifted row. -/
structure Wf (s : MemoryModeration) : Prop where
  ids : s.bans.Pairwise fun a b => a.id < b.id
  last : ∀ b ∈ s.bans, b.id ≤ s.lastBan
  one : s.bans.Pairwise fun a b => a.liftedAt = none → b.liftedAt = none → a.target ≠ b.target

theorem wf_empty : ({} : MemoryModeration).Wf :=
  ⟨List.Pairwise.nil, fun _ hb => absurd hb List.not_mem_nil, List.Pairwise.nil⟩

variable {s : MemoryModeration}

theorem Wf.eq_of_id (h : s.Wf) {a b : Ban} (ha : a ∈ s.bans) (hb : b ∈ s.bans) (e : a.id = b.id) :
    a = b := by
  have hn : (s.bans.map (·.id)).Nodup := List.pairwise_map.2 (h.ids.imp Nat.ne_of_lt)
  exact List.inj_on_of_nodup_map hn ha hb e

theorem Wf.eq_of_target (h : s.Wf) {a b : Ban} (ha : a ∈ s.bans) (hb : b ∈ s.bans)
    (hla : a.liftedAt = none) (hlb : b.liftedAt = none) (e : a.target = b.target) : a = b := by
  by_contra hne
  have : Std.Symm fun a b : Ban => a.liftedAt = none → b.liftedAt = none → a.target ≠ b.target :=
    ⟨fun _ _ h hb ha e => h ha hb e.symm⟩
  exact h.one.forall ha hb hne hla hlb e

/-- A row changed to one of its own id and target, lifted where it was, leaves the rows in order. -/
theorem Wf.change (h : s.Wf) {before after : List Ban} {a a' : Ban} (hs : s.bans = before ++ a :: after)
    (hid : a'.id = a.id) (ht : a'.target = a.target) (hl : a'.liftedAt = none → a.liftedAt = none) :
    ({ s with bans := before ++ a' :: after } : MemoryModeration).Wf := by
  obtain ⟨hids, hlast, hone⟩ := h
  rw [hs] at hids hlast hone
  obtain ⟨hb, ha, hba⟩ := List.pairwise_append.1 hids
  obtain ⟨haa, hafter⟩ := List.pairwise_cons.1 ha
  obtain ⟨ob, oa, oba⟩ := List.pairwise_append.1 hone
  obtain ⟨oaa, oafter⟩ := List.pairwise_cons.1 oa
  refine ⟨?_, fun b hb => ?_, ?_⟩
  · refine List.pairwise_append.2 ⟨hb, List.pairwise_cons.2 ⟨fun x hx => hid ▸ haa x hx, hafter⟩, ?_⟩
    intro x hx y hy
    rcases List.mem_cons.1 hy with rfl | hy
    · exact hid ▸ hba x hx a List.mem_cons_self
    · exact hba x hx y (List.mem_cons_of_mem _ hy)
  · rcases List.mem_append.1 hb with hb | hb
    · exact hlast b (List.mem_append_left _ hb)
    · rcases List.mem_cons.1 hb with rfl | hb
      · exact hid ▸ hlast a (List.mem_append_right _ List.mem_cons_self)
      · exact hlast b (List.mem_append_right _ (List.mem_cons_of_mem _ hb))
  · refine List.pairwise_append.2 ⟨ob, List.pairwise_cons.2 ⟨fun x hx hla hlx => ?_, oafter⟩, ?_⟩
    · exact ht ▸ oaa x hx (hl hla) hlx
    · intro x hx y hy hlx hly
      rcases List.mem_cons.1 hy with rfl | hy
      · exact ht ▸ oba x hx a List.mem_cons_self hlx (hl hly)
      · exact oba x hx y (List.mem_cons_of_mem _ hy) hlx hly

theorem Wf.push (h : s.Wf) {new : Ban}
    (hnew : ∀ b ∈ s.bans, b.liftedAt = none → b.target ≠ new.target) : (s.pushBan new).2.Wf := by
  refine ⟨?_, fun b hb => ?_, ?_⟩
  · refine List.pairwise_append.2 ⟨h.ids, List.pairwise_singleton _ _, fun x hx y hy => ?_⟩
    rw [List.mem_singleton.1 hy]
    exact Nat.lt_succ_of_le (h.last x hx)
  · rcases List.mem_append.1 hb with hb | hb
    · exact Nat.le_succ_of_le (h.last b hb)
    · rw [List.mem_singleton.1 hb]
      exact Nat.le_refl _
  · refine List.pairwise_append.2 ⟨h.one, List.pairwise_singleton _ _, fun x hx y hy hlx _ => ?_⟩
    rw [List.mem_singleton.1 hy]
    exact hnew x hx hlx

/-- What a ban of a target leaves: its standing row extended, or a new row beside those there were,
none of which stands unlifted for the target any more. -/
theorem ban_cases (h : s.Wf) (new : Ban) :
    (∃ before old after, s.bans = before ++ old :: after ∧ old.target = new.target ∧
      old.liftedAt = none ∧ (s.ban new).1 = extendBan old new ∧
      (s.ban new).2 = { s with bans := before ++ extendBan old new :: after }) ∨
    ∃ s₀ : MemoryModeration, s.ban new = s₀.pushBan new ∧ s₀.Wf ∧ s₀.lastBan = s.lastBan ∧
      (∀ b ∈ s₀.bans, b.liftedAt = none → b.target ≠ new.target) ∧
      (∀ b ∈ s₀.bans, b.liftedAt = none → b ∈ s.bans) ∧
      ∀ b ∈ s.bans, b.liftedAt = none → b.target ≠ new.target → b ∈ s₀.bans := by
  unfold ban
  cases hf : s.bans.find? (holds new.target) with
  | none =>
    refine .inr ⟨s, rfl, h, rfl, fun b hb hlb e => ?_, fun b hb _ => hb, fun b hb _ _ => hb⟩
    refine absurd ?_ (List.find?_eq_none.1 hf b hb)
    rw [holds, hlb, e]
    exact decide_eq_true rfl
  | some old =>
    have hold := List.find?_some (p := holds new.target) hf
    rw [holds, Bool.and_eq_true, Option.isNone_iff_eq_none, decide_eq_true_eq] at hold
    have hmem := List.mem_of_find?_eq_some hf
    by_cases hst : old.standing new.createdAt = true
    · obtain ⟨before, after, hs, -, -, hm⟩ := modifyFirst_split (f := (extendBan · new)) hf
      refine .inl ⟨before, old, after, hs, hold.2, hold.1, ?_, ?_⟩
      · show (if _ then _ else _ : Ban × MemoryModeration).1 = _
        rw [if_pos hst]
      · show (if _ then _ else _ : Ban × MemoryModeration).2 = _
        rw [if_pos hst]
        exact congrArg (fun l => ({ s with bans := l } : MemoryModeration)) hm
    · -- The row has run out: it is closed at its expiry.
      obtain ⟨e, he⟩ : ∃ e, old.expiresAt = some e := by
        cases he : old.expiresAt with
        | some e => exact ⟨e, rfl⟩
        | none =>
          rw [Ban.standing, hold.1, he] at hst
          exact absurd rfl hst
      obtain ⟨before, after, hs, -, -, hm⟩ :=
        modifyFirst_split (f := fun b : Ban => { b with liftedAt := b.expiresAt }) hf
      have hwf := @Wf.change _ h _ _ _ { old with liftedAt := old.expiresAt } hs rfl rfl fun hn => by
        rw [show ({ old with liftedAt := old.expiresAt } : Ban).liftedAt = old.expiresAt from rfl,
          he] at hn
        cases hn
      have hside : ∀ b ∈ before ++ ({ old with liftedAt := old.expiresAt } : Ban) :: after,
          b.liftedAt = none → b ∈ s.bans ∧ b ≠ old := fun b hb hlb => by
        have hbs : b ∈ s.bans := by
          rw [hs]
          rcases List.mem_append.1 hb with hb | hb
          · exact List.mem_append_left _ hb
          · rcases List.mem_cons.1 hb with rfl | hb
            · replace hlb : old.expiresAt = none := hlb
              rw [he] at hlb
              cases hlb
            · exact List.mem_append_right _ (List.mem_cons_of_mem _ hb)
        refine ⟨hbs, fun e => ?_⟩
        -- It is another row than the one closed.
        subst e
        have hn : (s.bans.map (·.id)).Nodup := List.pairwise_map.2 (h.ids.imp Nat.ne_of_lt)
        rw [hs, List.map_append, List.map_cons] at hn
        rcases List.mem_append.1 hb with hb | hb
        · exact (List.disjoint_of_nodup_append hn) (List.mem_map_of_mem hb) List.mem_cons_self
        · rcases List.mem_cons.1 hb with e | hb
          · have : b.liftedAt = b.expiresAt := congrArg Ban.liftedAt e
            rw [hlb, he] at this
            cases this
          · exact (List.nodup_cons.1 (List.nodup_append.1 hn).2.1).1 (List.mem_map_of_mem hb)
      refine .inr ⟨{ s with bans := before ++ { old with liftedAt := old.expiresAt } :: after }, ?_,
        hwf, rfl, fun b hb hlb e => ?_, fun b hb hlb => (hside b hb hlb).1, fun b hb hlb hne => ?_⟩
      · show (if _ then _ else _ : Ban × MemoryModeration) = _
        rw [if_neg hst]
        exact congrArg (fun l => pushBan ({ s with bans := l } : MemoryModeration) new) hm
      · obtain ⟨hbs, hne⟩ := hside b hb hlb
        exact hne (h.eq_of_target hbs hmem hlb hold.1 (e.trans hold.2.symm))
      · rw [hs] at hb
        refine List.mem_append.2 ((List.mem_append.1 hb).imp_right fun hb => ?_)
        rcases List.mem_cons.1 hb with rfl | hb
        · exact absurd hold.2 hne
        · exact List.mem_cons_of_mem _ hb

/-- The row a ban leaves is its target's one unlifted row; the others are as they were. -/
structure Bans (s : MemoryModeration) (row : Ban) (s' : MemoryModeration) : Prop where
  wf : s'.Wf
  mem : row ∈ s'.bans
  unlifted : row.liftedAt = none
  others : ∀ b ∈ s.bans, b.liftedAt = none → b.target ≠ row.target → b ∈ s'.bans
  origin : ∀ b ∈ s'.bans, b.liftedAt = none → b = row ∨ b ∈ s.bans ∧ b.target ≠ row.target
  own : ∀ b ∈ s.bans, b.id = row.id → b.target = row.target

theorem bans_ban (h : s.Wf) {new : Ban} (hl : new.liftedAt = none) :
    s.Bans (s.ban new).1 (s.ban new).2 ∧ (s.ban new).1.target = new.target := by
  rcases ban_cases h new with ⟨before, old, after, hs, ht, hlo, hrow, hst⟩ |
    ⟨s₀, heq, hwf, hlast, hnone, hsub, hrest⟩
  · have hmem : old ∈ s.bans := hs ▸ List.mem_append_right _ List.mem_cons_self
    have hwf := @Wf.change _ h _ _ _ (extendBan old new) hs rfl rfl fun _ => hlo
    rw [hrow, hst]
    refine ⟨⟨hwf, List.mem_append_right _ List.mem_cons_self, rfl, fun b hb _ hne => ?_,
      fun b hb hlb => ?_, fun b hb e => ?_⟩, ht⟩
    · rw [hs] at hb
      refine List.mem_append.2 ((List.mem_append.1 hb).imp_right fun hb => ?_)
      rcases List.mem_cons.1 hb with rfl | hb
      · exact absurd rfl hne
      · exact List.mem_cons_of_mem _ hb
    · by_cases hbt : b.target = old.target
      · exact .inl (hwf.eq_of_target hb (List.mem_append_right _ List.mem_cons_self) hlb rfl hbt)
      · refine .inr ⟨?_, hbt⟩
        rw [hs]
        refine List.mem_append.2 ((List.mem_append.1 hb).imp_right fun hb => ?_)
        rcases List.mem_cons.1 hb with rfl | hb
        · exact absurd rfl hbt
        · exact List.mem_cons_of_mem _ hb
    · rw [h.eq_of_id hb hmem (show b.id = old.id from e)]
      rfl
  · rw [heq]
    refine ⟨⟨hwf.push hnone, List.mem_append_right _ (List.mem_singleton_self _), hl,
      fun b hb hlb hne => List.mem_append_left _ (hrest b hb hlb hne), fun b hb hlb => ?_,
      fun b hb e => ?_⟩, rfl⟩
    · rcases List.mem_append.1 hb with hb | hb
      · exact .inr ⟨hsub b hb hlb, hnone b hb hlb⟩
      · exact .inl (List.mem_singleton.1 hb)
    · have hle := h.last b hb
      rw [e] at hle
      replace hle : s₀.lastBan + 1 ≤ s.lastBan := hle
      rw [hlast] at hle
      exact absurd hle (Nat.not_succ_le_self _)

theorem liftBan_cases (h : s.Wf) (id : BanId) (by_ : String) (at_ : SystemTime) :
    ((s.liftBan id by_ at_).1 = none ∧ (s.liftBan id by_ at_).2 = s) ∨
    ∃ row, (s.liftBan id by_ at_).1 = some row ∧ row.id = id ∧ (s.liftBan id by_ at_).2.Wf ∧
      (∀ b ∈ s.bans, b.id ≠ id → b ∈ (s.liftBan id by_ at_).2.bans) ∧
      ∀ b ∈ (s.liftBan id by_ at_).2.bans, b.liftedAt = none → b ∈ s.bans ∧ b.id ≠ id := by
  let unlifted (b : Ban) : Bool := b.id = id && b.liftedAt.isNone
  let lifted (b : Ban) : Ban := { b with liftedAt := some at_, liftedBy := some by_ }
  cases hf : s.bans.find? unlifted with
  | none =>
    refine .inl ⟨congrArg (Option.map lifted) hf, ?_⟩
    have hnone : ∀ b ∈ s.bans, unlifted b = false := fun b hb =>
      Bool.eq_false_iff.2 (List.find?_eq_none.1 hf b hb)
    exact congrArg (fun l => ({ s with bans := l } : MemoryModeration)) (modifyFirst_eq hnone)
  | some old =>
    obtain ⟨before, after, hs, -, hp, hm⟩ := modifyFirst_split (f := lifted) hf
    have hid : old.id = id := of_decide_eq_true (Bool.and_eq_true_iff.1 hp).1
    have hst : (s.liftBan id by_ at_).2 = { s with bans := before ++ lifted old :: after } :=
      congrArg (fun l => ({ s with bans := l } : MemoryModeration)) hm
    have hwf := @Wf.change _ h _ _ _ (lifted old) hs rfl rfl nofun
    refine .inr ⟨lifted old, congrArg (Option.map lifted) hf, hid, hst ▸ hwf, fun b hb hne => ?_,
      fun b hb hlb => ?_⟩
    · rw [hs] at hb
      rw [hst]
      refine List.mem_append.2 ((List.mem_append.1 hb).imp_right fun hb => ?_)
      rcases List.mem_cons.1 hb with rfl | hb
      · exact absurd hid hne
      · exact List.mem_cons_of_mem _ hb
    · rw [hst] at hb
      have hne : b.id ≠ id := fun e => by
        have hbl : b = lifted old := hwf.eq_of_id hb
          (List.mem_append_right _ List.mem_cons_self) (e.trans hid.symm)
        rw [hbl] at hlb
        cases hlb
      refine ⟨?_, hne⟩
      rw [hs]
      refine List.mem_append.2 ((List.mem_append.1 hb).imp_right fun hb => ?_)
      rcases List.mem_cons.1 hb with rfl | hb
      · exact absurd hid hne
      · exact List.mem_cons_of_mem _ hb

theorem mem_listed {now : SystemTime} {b : Ban} :
    b ∈ s.listed (some now) none none ↔ b ∈ s.bans ∧ b.standing now = true := by
  show b ∈ s.bans.reverse.filter _ ↔ _
  rw [List.mem_filter, List.mem_reverse]
  exact and_congr_right fun _ => by simp

end MemoryModeration

/-! ## Agreement -/

/-- A ban standing in the store is filed, and what is filed is the unlifted row of its target. -/
structure Agrees (s : MemoryModeration) (m : BanMatcher) (now : SystemTime) : Prop where
  store : s.Wf
  matcher : m.Wf
  filed : ∀ t hit, lookup m.held t = some hit →
    ∃ b ∈ s.bans, b.liftedAt = none ∧ b.target = t ∧ b.hit = hit
  known : ∀ b ∈ s.bans, b.standing now = true → ∃ hit, lookup m.held b.target = some hit

variable {s s' : MemoryModeration} {m : BanMatcher} {now : SystemTime}

theorem Ban.standing_unlifted {b : Ban} (h : b.standing now = true) : b.liftedAt = none :=
  Option.isNone_iff_eq_none.1 (Bool.and_eq_true_iff.1 h).1

theorem Ban.standing_earlier {b : Ban} {now' : SystemTime} (hle : now ≤ now')
    (h : b.standing now' = true) : b.standing now = true := by
  obtain ⟨hl, he⟩ := Bool.and_eq_true_iff.1 h
  refine Bool.and_eq_true_iff.2 ⟨hl, ?_⟩
  cases hb : b.expiresAt with
  | none => rfl
  | some e =>
    rw [hb] at he
    exact decide_eq_true (lt_of_le_of_lt hle (of_decide_eq_true he))

theorem Agrees.later (h : Agrees s m now) {now' : SystemTime} (hle : now ≤ now') : Agrees s m now' :=
  ⟨h.store, h.matcher, h.filed, fun b hb hst => h.known b hb (Ban.standing_earlier hle hst)⟩

theorem Agrees.live_iff (h : Agrees s m now) (covers : BanTarget → Prop) :
    (∃ t hit, lookup m.held t = some hit ∧ live hit now = true ∧ covers t) ↔
      ∃ b ∈ s.bans, b.standing now = true ∧ covers b.target := by
  constructor
  · rintro ⟨t, hit, hl, hlive, hc⟩
    obtain ⟨b, hb, hlb, rfl, rfl⟩ := h.filed t hit hl
    exact ⟨b, hb, Bool.and_eq_true_iff.2 ⟨Option.isNone_iff_eq_none.2 hlb, hlive⟩, hc⟩
  · rintro ⟨b, hb, hst, hc⟩
    obtain ⟨hit, hl⟩ := h.known b hb hst
    obtain ⟨b', hb', hlb', ht, rfl⟩ := h.filed _ _ hl
    obtain rfl := h.store.eq_of_target hb' hb hlb' (Ban.standing_unlifted hst) ht
    exact ⟨_, _, hl, (Bool.and_eq_true_iff.1 hst).2, hc⟩

theorem Agrees.bans (h : Agrees s m now) {row : Ban} (hb : s.Bans row s') :
    Agrees s' (m.insert row) now := by
  refine ⟨hb.wf, BanMatcher.wf_insert h.matcher row, fun t hit hl => ?_, fun b hmem hst => ?_⟩
  · rw [BanMatcher.held_insert h.matcher] at hl
    split at hl
    case isTrue e =>
      obtain rfl := Option.some.inj hl
      exact ⟨row, hb.mem, hb.unlifted, e.symm, rfl⟩
    case isFalse e =>
      obtain ⟨b, hbs, hlb, rfl, rfl⟩ := h.filed t hit (Option.filter_eq_some_iff.1 hl).1
      exact ⟨b, hb.others b hbs hlb e, hlb, rfl, rfl⟩
  · rw [BanMatcher.held_insert h.matcher]
    split
    case isTrue => exact ⟨_, rfl⟩
    case isFalse e =>
      rcases hb.origin b hmem (Ban.standing_unlifted hst) with rfl | ⟨hbs, -⟩
      · exact absurd rfl e
      · obtain ⟨hit, hl⟩ := h.known b hbs hst
        obtain ⟨b', hb', -, ht, rfl⟩ := h.filed _ _ hl
        have hne : b'.hit.id ≠ row.id := fun hid => e (ht ▸ hb.own b' hb' hid)
        exact ⟨_, by rw [hl]; exact BanMatcher.filter_eq_self hne⟩

theorem Agrees.lift (h : Agrees s m now) {id : BanId} {by_ : String} {at_ : SystemTime} {row : Ban}
    (hr : (s.liftBan id by_ at_).1 = some row) :
    Agrees (s.liftBan id by_ at_).2 (m.remove row.id) now := by
  rcases MemoryModeration.liftBan_cases h.store id by_ at_ with ⟨hnone, -⟩ | ⟨row', hr', hid, hwf, hrest, horigin⟩
  · rw [hr] at hnone
    cases hnone
  rw [hr] at hr'
  obtain rfl := Option.some.inj hr'
  refine ⟨hwf, BanMatcher.wf_remove h.matcher _, fun t hit hl => ?_, fun b hmem hst => ?_⟩
  · rw [BanMatcher.held_remove h.matcher] at hl
    obtain ⟨hl, hne⟩ := Option.filter_eq_some_iff.1 hl
    obtain ⟨b, hb, hlb, ht, rfl⟩ := h.filed t hit hl
    have hbid : b.id ≠ row.id := of_decide_eq_true hne
    exact ⟨b, hrest b hb (hid ▸ hbid), hlb, ht, rfl⟩
  · obtain ⟨hb, hne⟩ := horigin b hmem (Ban.standing_unlifted hst)
    obtain ⟨hit, hl⟩ := h.known b hb hst
    obtain ⟨b', hb', hlb', ht, rfl⟩ := h.filed _ _ hl
    obtain rfl := h.store.eq_of_target hb' hb hlb' (Ban.standing_unlifted hst) ht
    rw [BanMatcher.held_remove h.matcher, hl]
    exact ⟨_, BanMatcher.filter_eq_self (fun e => hne (e.trans hid))⟩

/-- The matcher loaded from the store agrees with it. -/
theorem agrees_load (h : s.Wf) (now : SystemTime) : Agrees s (.load (s.listed (some now) none none)) now := by
  -- What is filed after the bans loaded so far.
  have hload : ∀ bans done : List Ban, ∀ m : BanMatcher, m.Wf →
      (done ++ bans).Pairwise (fun a b => a.id ≠ b.id ∧ a.target ≠ b.target) →
      (∀ t hit, lookup m.held t = some hit ↔ ∃ b ∈ done, b.target = t ∧ b.hit = hit) →
      (bans.foldl BanMatcher.insert m).Wf ∧ ∀ t hit, lookup (bans.foldl BanMatcher.insert m).held t =
        some hit ↔ ∃ b ∈ done ++ bans, b.target = t ∧ b.hit = hit := by
    intro bans
    induction bans with
    | nil =>
      intro done m hm _ hh
      rw [List.append_nil]
      exact ⟨hm, hh⟩
    | cons ban bans ih =>
      intro done m hm hp hh
      rw [List.append_cons] at hp ⊢
      refine ih (done ++ [ban]) (m.insert ban) (BanMatcher.wf_insert hm ban) hp fun t hit => ?_
      have hdone := (List.pairwise_append.1 (List.pairwise_append.1 hp).1).2.2
      rw [BanMatcher.held_insert hm]
      constructor
      · intro hl
        split at hl
        case isTrue e => exact ⟨ban, List.mem_append_right _ (List.mem_singleton_self _), e.symm,
          Option.some.inj hl⟩
        case isFalse e =>
          obtain ⟨b, hb, ht, hhit⟩ := (hh t hit).1 (Option.filter_eq_some_iff.1 hl).1
          exact ⟨b, List.mem_append_left _ hb, ht, hhit⟩
      · rintro ⟨b, hb, rfl, rfl⟩
        rcases List.mem_append.1 hb with hb | hb
        · have hne := hdone b hb ban (List.mem_singleton_self _)
          rw [if_neg hne.2, (hh b.target b.hit).2 ⟨b, hb, rfl, rfl⟩]
          exact BanMatcher.filter_eq_self hne.1
        · rw [List.mem_singleton.1 hb, if_pos rfl]
  have hp : (s.listed (some now) none none).Pairwise fun a b => a.id ≠ b.id ∧ a.target ≠ b.target := by
    have hall : s.bans.Pairwise fun a b => a.id ≠ b.id ∧
        (a.liftedAt = none → b.liftedAt = none → a.target ≠ b.target) :=
      h.ids.imp₂ (fun _ _ hlt ht => ⟨Nat.ne_of_lt hlt, ht⟩) h.one
    have hrev : s.bans.reverse.Pairwise fun a b => a.id ≠ b.id ∧
        (a.liftedAt = none → b.liftedAt = none → a.target ≠ b.target) :=
      List.pairwise_reverse.2 (hall.imp fun hab => ⟨hab.1.symm, fun ha hb e => hab.2 hb ha e.symm⟩)
    refine (hrev.sublist List.filter_sublist).imp_of_mem fun ha hb hab => ⟨hab.1, ?_⟩
    have ha := (MemoryModeration.mem_listed.1 ha).2
    have hb := (MemoryModeration.mem_listed.1 hb).2
    exact hab.2 (Ban.standing_unlifted ha) (Ban.standing_unlifted hb)
  have hnone : ∀ t hit, lookup ({} : BanMatcher).held t = some hit ↔
      ∃ b ∈ ([] : List Ban), b.target = t ∧ b.hit = hit := fun t hit =>
    ⟨fun hl => absurd hl (Option.some_ne_none hit).symm, fun hl => by obtain ⟨b, hb, -⟩ := hl; exact absurd hb List.not_mem_nil⟩
  obtain ⟨hwf, hheld⟩ := hload _ [] {} BanMatcher.wf_empty hp hnone
  refine ⟨h, hwf, fun t hit hl => ?_, fun b hb hst => ?_⟩
  · obtain ⟨b, hb, ht, hhit⟩ := (hheld t hit).1 hl
    obtain ⟨hb, hst⟩ := MemoryModeration.mem_listed.1 hb
    exact ⟨b, hb, Ban.standing_unlifted hst, ht, hhit⟩
  · exact ⟨b.hit, (hheld _ _).2 ⟨b, MemoryModeration.mem_listed.2 ⟨hb, hst⟩, rfl, rfl⟩⟩

end HxdNg.Moderation
