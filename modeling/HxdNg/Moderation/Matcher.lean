import HxdNg.Moderation.Target
import HxdNg.Lib.Assoc

/-!
# The ban matcher

Every standing ban, filed for matching without the store.

* `BanMatcher.insert`, `remove`, `address`, `person` : filing a ban, unfiling one, and who is refused;
* `Wf` : an entry is filed under the id that names it; `held_insert`, `held_remove` : what each
  leaves filed;
* `address_isSome`, `person_isSome` : somebody is refused exactly where a live entry covers them.
-/

namespace HxdNg.Moderation

open Relationships Assoc
open Identity (Fingerprint)

abbrev BanId := Nat

abbrev ActId := Nat

/-- Where a ban came from. -/
inductive BanSource where
  | kick
  | moderator
  | cli
  | config
  deriving DecidableEq

/-- One ban, standing or not. -/
structure Ban where
  id : BanId
  target : BanTarget
  reason : String
  note : Option String
  actor : String
  actorFp : Option Fingerprint
  source : BanSource
  createdAt : SystemTime
  /-- `none` is until lifted. -/
  expiresAt : Option SystemTime
  liftedAt : Option SystemTime
  liftedBy : Option String
  act : Option ActId
  deriving DecidableEq

/-- Is it refusing anyone at `now`? -/
def Ban.standing (b : Ban) (now : SystemTime) : Bool := b.liftedAt.isNone && b.expiresAt.all (now < ·)

/-- What a refused client is told. -/
structure BanHit where
  id : BanId
  reason : String
  expiresAt : Option SystemTime
  deriving DecidableEq

def Ban.hit (b : Ban) : BanHit := ⟨b.id, b.reason, b.expiresAt⟩

def live (hit : BanHit) (now : SystemTime) : Bool := hit.expiresAt.all (now < ·)

structure BanMatcher where
  held : List (BanTarget × BanHit) := []
  byId : List (BanId × BanTarget) := []

namespace BanMatcher

/-- Unfile a ban. Only its own entry goes. -/
def remove (m : BanMatcher) (id : BanId) : BanMatcher :=
  match lookup m.byId id with
  | none => m
  | some target =>
    { held := if (lookup m.held target).any (·.id = id) then erase target m.held else m.held
      byId := erase id m.byId }

/-- File a ban, replacing whatever was filed under its id or its target. -/
def insert (m : BanMatcher) (ban : Ban) : BanMatcher :=
  let m := m.remove ban.id
  let byId := match lookup m.held ban.target with
    | some old => erase old.id m.byId
    | none => m.byId
  { held := Assoc.insert ban.target ban.hit m.held
    byId := Assoc.insert ban.id ban.target byId }

def load (bans : List Ban) : BanMatcher := bans.foldl insert {}

def contains (m : BanMatcher) (id : BanId) : Bool := (lookup m.byId id).isSome

/-- The block an address falls in at a length. -/
def blockOf (octets : Bytes 16) (len : Fin 129) : Option Block :=
  if h : mask (mask octets len) len = mask octets len then
    some ⟨mask octets len, len, Nat.le_of_lt_succ len.isLt, h⟩
  else none

/-- Each family matches only its own bans: every IPv4 block is 96 bits or longer, mapped. -/
def shortest (ip : IpAddr) : Nat := if ip.isIpv4 then 96 else 0

/-- The ban refusing an address. -/
def address (m : BanMatcher) (ip : IpAddr) (now : SystemTime) : Option BanHit :=
  (List.finRange 129).findSome? fun len =>
    if shortest ip ≤ len.val then
      ((blockOf (v6Octets ip) len).bind fun b => lookup m.held (.address b)).filter (live · now)
    else none

/-- The ban refusing a person: by login, by identity, and by the registrar that issued the handle. -/
def person (lower : String → String) (m : BanMatcher) (p : Person) (now : SystemTime) :
    Option BanHit :=
  let byLogin := p.login.bind fun l => lookup m.held (.login (lower l))
  let byIdentity := p.identity.bind fun fp => lookup m.held (.identity fp)
  let byRegistrar := p.registrar.bind fun host => lookup m.held (.registrar host)
  ([byLogin, byIdentity, byRegistrar].filterMap id).find? (live · now)

/-! ## What is filed -/

/-- A target holds one ban, and the id it is filed under is the one that names it. -/
structure Wf (m : BanMatcher) : Prop where
  held : Valid m.held
  byId : Valid m.byId
  named : ∀ id t, lookup m.byId id = some t ↔ ∃ hit, lookup m.held t = some hit ∧ hit.id = id

variable {m : BanMatcher}

theorem wf_empty : ({} : BanMatcher).Wf :=
  ⟨List.nodup_nil, List.nodup_nil, fun _ _ => ⟨nofun, nofun⟩⟩

theorem filter_eq_self {hit : BanHit} {id : BanId} (h : hit.id ≠ id) :
    (some hit).filter (fun hit => hit.id ≠ id) = some hit :=
  Option.filter_eq_some_iff.2 ⟨rfl, decide_eq_true h⟩

theorem filter_eq_none {hit : BanHit} {id : BanId} (h : hit.id = id) :
    (some hit).filter (fun hit => hit.id ≠ id) = none :=
  if_neg fun he => absurd h (of_decide_eq_true he)

theorem held_remove (h : m.Wf) (id : BanId) (t : BanTarget) : lookup (m.remove id).held t =
    (lookup m.held t).filter fun hit => hit.id ≠ id := by
  unfold remove
  cases hid : lookup m.byId id with
  | none =>
    cases ht : lookup m.held t with
    | none => rfl
    | some hit =>
      have hne : hit.id ≠ id := fun e => by
        have := (h.named id t).2 ⟨hit, ht, e⟩
        rw [hid] at this
        cases this
      exact (filter_eq_self hne).symm
  | some target =>
    obtain ⟨hit, hheld, rfl⟩ := (h.named _ _).1 hid
    have hany : (lookup m.held target).any (·.id = hit.id) = true := by
      rw [hheld]
      exact decide_eq_true rfl
    show lookup (if _ then _ else _) t = _
    rw [if_pos hany, lookup_erase h.held]
    split
    case isTrue e =>
      rw [e, hheld]
      exact (filter_eq_none rfl).symm
    case isFalse e =>
      cases ht : lookup m.held t with
      | none => rfl
      | some hit' =>
        have hne : hit'.id ≠ hit.id := fun he => by
          have := (h.named _ t).2 ⟨hit', ht, he⟩
          rw [hid] at this
          exact e (Option.some.inj this).symm
        exact (filter_eq_self hne).symm

theorem wf_remove (h : m.Wf) (id : BanId) : (m.remove id).Wf := by
  have hheld := held_remove h id
  refine ⟨?_, ?_, fun id' t => ?_⟩
  · unfold remove
    split
    · exact h.held
    · show Valid (if _ then _ else _)
      split
      · exact valid_alter h.held _ _
      · exact h.held
  · unfold remove
    split
    · exact h.byId
    · exact valid_alter h.byId _ _
  · have hby : lookup (m.remove id).byId id' = if id' = id then none else lookup m.byId id' := by
      unfold remove
      cases hid : lookup m.byId id with
      | none =>
        show lookup m.byId id' = _
        split
        case isTrue e => rw [e, hid]
        case isFalse => rfl
      | some target => exact lookup_erase h.byId _ _
    rw [hby, hheld]
    constructor
    · intro he
      split at he
      case isTrue => cases he
      case isFalse hne =>
      obtain ⟨hit, hl, rfl⟩ := (h.named _ _).1 he
      exact ⟨hit, by rw [hl]; exact filter_eq_self hne, rfl⟩
    · rintro ⟨hit, hl, rfl⟩
      obtain ⟨hl, hne⟩ := Option.filter_eq_some_iff.1 hl
      rw [if_neg (of_decide_eq_true hne)]
      exact (h.named _ _).2 ⟨hit, hl, rfl⟩

theorem held_insert (h : m.Wf) (ban : Ban) (t : BanTarget) : lookup (m.insert ban).held t =
    if t = ban.target then some ban.hit else (lookup m.held t).filter fun hit => hit.id ≠ ban.id := by
  unfold insert
  show lookup (Assoc.insert ban.target ban.hit (m.remove ban.id).held) t = _
  rw [lookup_insert (wf_remove h ban.id).held, held_remove h]

theorem wf_insert (h : m.Wf) (ban : Ban) : (m.insert ban).Wf := by
  have hr := wf_remove h ban.id
  -- Under the ban's id nothing is filed any more.
  have hnone : lookup (m.remove ban.id).byId ban.id = none := by
    cases hl : lookup (m.remove ban.id).byId ban.id with
    | none => rfl
    | some t =>
      obtain ⟨hit, hheld, he⟩ := (hr.named _ _).1 hl
      rw [held_remove h] at hheld
      exact absurd he (of_decide_eq_true (Option.filter_eq_some_iff.1 hheld).2)
  -- Displacing unfiles the id that held the target.
  obtain ⟨byId, hins, hkept, hsome⟩ : ∃ byId, (m.insert ban).byId = Assoc.insert ban.id ban.target byId ∧
      (lookup (m.remove ban.id).held ban.target = none → byId = (m.remove ban.id).byId) ∧
      ∀ old, lookup (m.remove ban.id).held ban.target = some old →
        byId = erase old.id (m.remove ban.id).byId :=
    ⟨_, rfl, fun h => by rw [h], fun old h => by rw [h]⟩
  have hvalid : Valid byId := by
    cases hold : lookup (m.remove ban.id).held ban.target with
    | none =>
      rw [hkept hold]
      exact hr.byId
    | some old =>
      rw [hsome old hold]
      exact valid_alter hr.byId _ _
  have hby : ∀ id t, id ≠ ban.id → (lookup byId id = some t ↔
      t ≠ ban.target ∧ lookup (m.remove ban.id).byId id = some t) := fun id t hid => by
    cases hold : lookup (m.remove ban.id).held ban.target with
    | none =>
      rw [hkept hold]
      refine ⟨fun hl => ⟨fun e => ?_, hl⟩, fun hl => hl.2⟩
      obtain ⟨hit, hh, -⟩ := (hr.named _ _).1 hl
      rw [e, hold] at hh
      cases hh
    | some old =>
      rw [hsome old hold, lookup_erase hr.byId]
      have hnamed := (hr.named old.id ban.target).2 ⟨old, hold, rfl⟩
      split
      case isTrue e =>
        refine ⟨(by simp), fun hl => absurd ?_ hl.1⟩
        rw [e, hnamed] at hl
        exact (Option.some.inj hl.2).symm
      case isFalse e =>
        refine ⟨fun hl => ⟨fun et => e ?_, hl⟩, fun hl => hl.2⟩
        obtain ⟨hit, hh, hi⟩ := (hr.named _ _).1 hl
        rw [et, hold] at hh
        rw [← hi, ← Option.some.inj hh]
  refine ⟨valid_alter hr.held _ _, ?_, fun id t => ?_⟩
  · rw [hins]
    exact valid_alter hvalid _ _
  have hheld : lookup (m.insert ban).held t =
      if t = ban.target then some ban.hit else lookup (m.remove ban.id).held t :=
    lookup_insert hr.held _ _ _
  have hbyId : lookup (m.insert ban).byId id = if id = ban.id then some ban.target else lookup byId id := by
    rw [hins, lookup_insert hvalid]
  rw [hheld, hbyId]
  by_cases hid : id = ban.id
  · rw [if_pos hid]
    constructor
    · intro he
      obtain rfl := Option.some.inj he
      exact ⟨ban.hit, if_pos rfl, hid.symm⟩
    · rintro ⟨hit, hl, rfl⟩
      split at hl
      case isTrue e => rw [e]
      case isFalse e =>
      have := (hr.named _ _).2 ⟨hit, hl, rfl⟩
      rw [hid, hnone] at this
      cases this
  · rw [if_neg hid, hby id t hid]
    constructor
    · rintro ⟨hne, hl⟩
      obtain ⟨hit, hh, hi⟩ := (hr.named _ _).1 hl
      exact ⟨hit, by rw [if_neg hne]; exact hh, hi⟩
    · rintro ⟨hit, hl, rfl⟩
      split at hl
      case isTrue e =>
        obtain rfl := Option.some.inj hl
        exact absurd rfl hid
      case isFalse e => exact ⟨e, (hr.named _ _).2 ⟨hit, hl, rfl⟩⟩

/-! ## Who is refused -/

theorem mask_mask (octets : Bytes 16) (len : Nat) : mask (mask octets len) len = mask octets len := by
  refine octets_ext fun i hi => ?_
  rw [bit_mask _ _ hi, bit_mask _ _ hi, ← Bool.and_assoc, Bool.and_self]

/-- The block an address falls in at the length of a block that covers it is that block. -/
theorem blockOf_eq_iff {octets : Bytes 16} {len : Fin 129} {b : Block} :
    blockOf octets len = some b ↔ b.len = len.val ∧ ∀ i < b.len, bit octets i = bit b.net i := by
  rw [blockOf, dif_pos (mask_mask octets len)]
  constructor
  · intro h
    obtain rfl := Option.some.inj h
    exact ⟨rfl, (mask_eq_iff _ octets).1 rfl⟩
  · rintro ⟨hlen, hbits⟩
    have hmask := (mask_eq_iff b octets).2 hbits
    obtain ⟨net, blen, hle, hmasked⟩ := b
    obtain rfl : blen = len.val := hlen
    refine congrArg some ?_
    simp only [Block.mk.injEq, and_true]
    exact hmask

/-- An address is refused exactly where a live entry covers it. -/
theorem address_isSome (m : BanMatcher) (ip : IpAddr) (now : SystemTime) :
    (m.address ip now).isSome = true ↔
      ∃ t hit, lookup m.held t = some hit ∧ live hit now = true ∧ t.CoversAddress ip := by
  have hshort : ∀ len : Nat, shortest ip ≤ len ↔ (ip.isIpv4 = true → 96 ≤ len) := fun len => by
    unfold shortest
    split
    case isTrue h => exact ⟨fun hl _ => hl, fun hl => hl h⟩
    case isFalse h => exact ⟨fun _ hc => absurd hc h, fun _ => Nat.zero_le _⟩
  unfold address
  rw [List.findSome?_isSome_iff]
  constructor
  · rintro ⟨len, -, hsome⟩
    split at hsome
    case isFalse => cases hsome
    case isTrue hle =>
    obtain ⟨hit, hhit⟩ := Option.isSome_iff_exists.1 hsome
    obtain ⟨hbind, hlive⟩ := Option.filter_eq_some_iff.1 hhit
    obtain ⟨b, hb, hl⟩ := Option.bind_eq_some_iff.1 hbind
    obtain ⟨hlen, hbits⟩ := blockOf_eq_iff.1 hb
    exact ⟨.address b, hit, hl, hlive, b, rfl, hlen ▸ (hshort _).1 hle, hbits⟩
  · rintro ⟨t, hit, hl, hlive, b, rfl, hfamily, hbits⟩
    refine ⟨⟨b.len, Nat.lt_succ_of_le b.le⟩, List.mem_finRange _, ?_⟩
    have hb : blockOf (v6Octets ip) ⟨b.len, Nat.lt_succ_of_le b.le⟩ = some b :=
      blockOf_eq_iff.2 ⟨rfl, hbits⟩
    rw [if_pos ((hshort _).2 hfamily), hb, Option.bind_some, hl]
    rw [Option.isSome_iff_exists]
    exact ⟨hit, Option.filter_eq_some_iff.2 ⟨rfl, hlive⟩⟩

/-- A person is refused exactly where a live entry covers them. -/
theorem person_isSome (lower : String → String) (m : BanMatcher) (p : Person) (now : SystemTime) :
    (m.person lower p now).isSome = true ↔
      ∃ t hit, lookup m.held t = some hit ∧ live hit now = true ∧ t.CoversPerson lower p := by
  unfold person
  rw [List.find?_isSome]
  constructor
  · rintro ⟨hit, hmem, hlive⟩
    rw [List.mem_filterMap] at hmem
    obtain ⟨o, ho, he⟩ := hmem
    obtain rfl : o = some hit := he
    simp only [List.mem_cons, List.not_mem_nil, or_false] at ho
    rcases ho with ho | ho | ho
    · obtain ⟨l, hl, hheld⟩ := Option.bind_eq_some_iff.1 ho.symm
      exact ⟨_, hit, hheld, hlive, by show p.login.map lower = _; rw [hl]; rfl⟩
    · obtain ⟨fp, hfp, hheld⟩ := Option.bind_eq_some_iff.1 ho.symm
      exact ⟨_, hit, hheld, hlive, hfp⟩
    · obtain ⟨host, hh, hheld⟩ := Option.bind_eq_some_iff.1 ho.symm
      exact ⟨_, hit, hheld, hlive, hh⟩
  · rintro ⟨t, hit, hheld, hlive, hcovers⟩
    refine ⟨hit, List.mem_filterMap.2 ⟨some hit, ?_, rfl⟩, hlive⟩
    simp only [List.mem_cons, List.not_mem_nil, or_false]
    cases t with
    | address b => exact hcovers.elim
    | login l =>
      obtain ⟨l', hl', rfl⟩ := Option.map_eq_some_iff.1 hcovers
      exact .inl (by rw [hl', Option.bind_some, hheld])
    | identity fp =>
      have hfp : p.identity = some fp := hcovers
      exact .inr (.inl (by rw [hfp, Option.bind_some, hheld]))
    | registrar host =>
      have hh : p.registrar = some host := hcovers
      exact .inr (.inr (by rw [hh, Option.bind_some, hheld]))

end BanMatcher

end HxdNg.Moderation
