import HxdNg.Link.Wire

/-!
# Servers and users on a link

* `ServerGroup`, `ServerGroup.parse` : one server; `checkTag`, `sameTag` : its tag;
* `neverCrosses`, `admissibleExtra` : what a link must never carry, and how much beside the baseline;
* `UserGroup`, `UserGroup.parse` : one user, kept whole as it arrived;
* `LocalUser`, `ofLocal` : one of this server's, as it exports it;
* `farther`, `relayedGroup` : each as this server passes it on.
-/

namespace HxdNg.Link

/-- A server's permanent identifier. -/
abbrev ServerId := Bytes 8

abbrev Epoch := Bytes 8

inductive TagError where
  | length | character
  deriving DecidableEq, Repr

/-- A tag is 1-8 characters of printable ASCII, excluding `@` and whitespace. -/
def checkTag (tag : String) : Except TagError Unit := do
  if tag = "" ∨ 8 < (utf8 tag).length then throw .length
  if !(utf8 tag).all fun b => decide (0x21 ≤ b ∧ b ≤ 0x7e) && b != 0x40 then throw .character

/-- A byte with its ASCII capital made small. -/
def lower (b : UInt8) : UInt8 := if 0x41 ≤ b ∧ b ≤ 0x5a then b + 0x20 else b

/-- `eq_ignore_ascii_case`. -/
def sameTag (a b : String) : Bool := (utf8 a).map lower == (utf8 b).map lower

theorem sameTag_iff {a b : String} : sameTag a b = true ↔ (utf8 a).map lower = (utf8 b).map lower :=
  beq_iff_eq

theorem sameTag_comm (a b : String) : sameTag a b = sameTag b a := by
  rw [Bool.eq_iff_iff, sameTag_iff, sameTag_iff]
  exact eq_comm

/-- The most bytes of fields outside the baseline a group may carry, field headers included. -/
def MAX_EXTRA : Nat := 1024

/-- The longest server name and the longest user name accepted, in bytes. -/
def MAX_NAME : Nat := 255

/-- A login, password material, access privileges, a messaging Login, and HOPE's login fields. -/
def neverCrosses (id : UInt16) : Bool :=
  id == 105 || id == 106 || id == 110 || id == 0x0600 || decide (0x0e00 ≤ id ∧ id ≤ 0x0eff)

/-- The bytes some fields take, their headers included. -/
def weight (fields : List Field) : Nat := (fields.map fun f => 4 + f.data.length).sum

def admissibleExtraWithin (extra : List Field) (bound : Nat) : Except String Unit := do
  if extra.any fun f => neverCrosses f.id then throw "a field that never crosses a link"
  if bound < weight extra then throw "over the field bound"

def admissibleExtra (extra : List Field) : Except String Unit := admissibleExtraWithin extra MAX_EXTRA

/-! ## Servers -/

structure ServerGroup where
  id : ServerId
  tag : String
  name : String
  hops : UInt16
  color : Option UInt32 := none
  extra : List Field := []
  deriving DecidableEq, Repr

inductive ServerGroupError where
  | notAGroup
  | missing (id : UInt16)
  | malformed (id : UInt16)
  | tag (e : TagError)
  deriving DecidableEq, Repr

namespace ServerGroup

def admissible (g : ServerGroup) : Except String Unit := do
  if MAX_NAME < (utf8 g.name).length then throw "server name too long"
  admissibleExtra g.extra

def toFields (g : ServerGroup) : List Field :=
  [⟨field.SERVER_ID, g.id.val⟩, ⟨field.TAG, utf8 g.tag⟩, ⟨field.SERVER_NAME, utf8 g.name⟩,
    Field.u16 field.HOPS g.hops] ++ (g.color.map (Field.u32 field.COLOR)).toList ++ g.extra

/-- What has been read of a group so far. -/
structure Read where
  tag : Option String := none
  name : Option String := none
  hops : Option UInt16 := none
  color : Option UInt32 := none
  extra : List Field := []

/-- A field's data as text. -/
def text (f : Field) : Except ServerGroupError String :=
  (fromUtf8 f.data).elim (throw (.malformed f.id)) pure

/-- One field after the group's server ID. -/
def read (r : Read) (f : Field) : Except ServerGroupError Read :=
  if f.id = field.TAG then do return { r with tag := some (← text f) }
  else if f.id = field.SERVER_NAME then do return { r with name := some (← text f) }
  else if f.id = field.HOPS then
    f.fixedU16.elim (throw (.malformed f.id)) fun v => pure { r with hops := some v }
  else if f.id = field.COLOR then
    f.uint.elim (throw (.malformed f.id)) fun v => pure { r with color := some v }
  -- The transaction's, not the group's, wherever it sits.
  else if f.id = field.MORE then pure r
  else pure { r with extra := r.extra ++ [f] }

/-- The group that opens `fields`, which must start with its server ID and runs to the next one. -/
def parse : List Field → Except ServerGroupError ServerGroup
  | [] => throw .notAGroup
  | first :: rest => do
    if first.id ≠ field.SERVER_ID then throw .notAGroup
    let id ← (first.fixed 8).elim (throw (.malformed field.SERVER_ID)) pure
    let r ← (rest.takeWhile fun f => f.id != field.SERVER_ID).foldlM read {}
    let tag ← r.tag.elim (throw (.missing field.TAG)) pure
    (checkTag tag).mapError .tag
    let name ← r.name.elim (throw (.missing field.SERVER_NAME)) pure
    let hops ← r.hops.elim (throw (.missing field.HOPS)) pure
    return ⟨id, tag, name, hops, r.color, r.extra⟩

/-- Every group in a Link Servers part, in order. -/
def parseAll (fields : List Field) : Except ServerGroupError (List ServerGroup) :=
  (fields.tails.filter fun t => t.head?.any fun f => f.id == field.SERVER_ID).mapM parse

end ServerGroup

/-- A server group as this server passes it on: one hop farther. -/
def farther (g : ServerGroup) : ServerGroup :=
  { g with hops := if g.hops = 0xffff then 0xffff else g.hops + 1 }

@[simp] theorem farther_id (g : ServerGroup) : (farther g).id = g.id := rfl

@[simp] theorem farther_extra (g : ServerGroup) : (farther g).extra = g.extra := rfl

/-! ## Users -/

namespace flag

def AWAY : UInt16 := 1
def ADMIN : UInt16 := 2
def REFUSES_MESSAGES : UInt16 := 4
def REFUSES_CHAT : UInt16 := 8

end flag

/-! `DATA_LINK_USER_KEY_FLAGS`. -/
namespace keyFlag

def SIGNS : UInt16 := 1
def SEALED : UInt16 := 2

end keyFlag

/-- How a user is connected to its home server. -/
inductive RemoteTransport where
  | encrypted | cleartext
  | weak
  deriving DecidableEq, Repr

structure UserGroup where
  id : UInt16
  home : ServerId
  name : String
  icon : UInt16
  flags : UInt16
  color : Option UInt32 := none
  exclude : List ServerId := []
  transport : Option RemoteTransport := none
  key : Option (Bytes 32) := none
  keyFlags : UInt16 := 0
  fields : List Field
  deriving DecidableEq, Repr

inductive UserGroupError where
  | notAGroup
  | missing (id : UInt16)
  | malformed (id : UInt16)
  | inadmissible (why : String)
  deriving DecidableEq, Repr

namespace UserGroup

/-- What has been read of a group so far. -/
structure Read where
  home : Option ServerId := none
  name : Option String := none
  icon : Option UInt16 := none
  flags : Option UInt16 := none
  color : Option UInt32 := none
  exclude : List ServerId := []
  transport : Option RemoteTransport := none
  key : Option (Bytes 32) := none
  keyFlags : UInt16 := 0
  extra : List Field := []
  kept : List Field

/-- A baseline field given twice is malformed, as one that cannot be read is. -/
def once {α β : Type} (given : Option α) (f : Field) (read : Option β) : Except UserGroupError β :=
  if given.isSome then throw (.malformed f.id) else read.elim (throw (.malformed f.id)) pure

/-- A UInt16 in either width. -/
def short (f : Field) : Option UInt16 :=
  (f.uint.filter fun n => decide (n < 0x10000)).map fun n => n.toUInt16

/-- A value this server does not know is unknown. -/
def transportOf (value : Option UInt32) : Option RemoteTransport :=
  if value = some 1 then some .encrypted
  else if value = some 2 then some .cleartext
  else if value = some 3 then some .weak
  else none

/-- One field after the group's user ID. -/
def read (r : Read) (f : Field) : Except UserGroupError Read :=
  -- The transaction's, not the group's, wherever it sits.
  if f.id = field.MORE then pure r
  else do
    let r' ←
      if f.id = field.SERVER_ID then do
        pure { r with home := some (← once r.home f (f.fixed 8)) }
      else if f.id = field.USER_NAME then do
        pure { r with name := some (← once r.name f (fromUtf8 f.data)) }
      else if f.id = field.USER_ICON then do
        pure { r with icon := some (← once r.icon f (short f)) }
      else if f.id = field.USER_FLAGS then do
        pure { r with flags := some (← once r.flags f (short f)) }
      else if f.id = field.COLOR then do
        pure { r with color := some (← once r.color f f.uint) }
      else if f.id = field.EXCLUDE then
        (f.fixed 8).elim (throw (.malformed f.id)) fun id =>
          pure { r with exclude := r.exclude ++ [id] }
      -- Outside the baseline, so these count as any other field does.
      else if f.id = field.USER_TRANSPORT then
        pure { r with transport := transportOf f.uint, extra := r.extra ++ [f] }
      else if f.id = field.USER_KEY then
        pure { r with key := f.fixed 32, extra := r.extra ++ [f] }
      else if f.id = field.USER_KEY_FLAGS then
        pure { r with keyFlags := f.uint.elim 0 UInt32.toUInt16, extra := r.extra ++ [f] }
      else pure { r with extra := r.extra ++ [f] }
    return { r' with kept := r.kept ++ [f] }

/-- The group that opens `fields`, which must start with its user ID and runs to the next one. -/
def parse : List Field → Except UserGroupError UserGroup
  | [] => throw .notAGroup
  | first :: rest => do
    if first.id ≠ field.USER_ID then throw .notAGroup
    let id ← first.fixedU16.elim (throw (.malformed field.USER_ID)) pure
    let r ← (rest.takeWhile fun f => f.id != field.USER_ID).foldlM read { kept := [first] }
    let name ← r.name.elim (throw (.missing field.USER_NAME)) pure
    if MAX_NAME < (utf8 name).length then throw (.inadmissible "name too long")
    (admissibleExtra r.extra).mapError .inadmissible
    let home ← r.home.elim (throw (.missing field.SERVER_ID)) pure
    let icon ← r.icon.elim (throw (.missing field.USER_ICON)) pure
    let flags ← r.flags.elim (throw (.missing field.USER_FLAGS)) pure
    let keyFlags := if r.key.isSome then r.keyFlags &&& (keyFlag.SIGNS ||| keyFlag.SEALED) else 0
    return ⟨id, home, name, icon, flags, r.color, r.exclude, r.transport, r.key, keyFlags, r.kept⟩

/-- Every group in a Link Snapshot part, in order, each read or refused where it stands. -/
def parseAll (fields : List Field) : List (Except UserGroupError UserGroup) :=
  (fields.tails.filter fun t => t.head?.any fun f => f.id == field.USER_ID).map parse

end UserGroup

/-- A user of this server, as a link describes it. -/
structure LocalUser where
  uid : UInt16
  nick : String
  icon : UInt16
  away : Bool := false
  color : Option UInt32 := none
  exclude : List ServerId := []
  encrypted : Option Bool := none
  fingerprint : Option (Bytes 32) := none
  signs : Bool := false
  sealed : Bool := false

/-- The key's flags, as the user's home server states them. -/
def LocalUser.keyFlags (u : LocalUser) : UInt16 :=
  (if u.signs then keyFlag.SIGNS else 0) ||| if u.sealed then keyFlag.SEALED else 0

/-- A local user's group, as this server exports it, with how the user is connected when `transport`
and the identity the user's connection proved when `keys`. -/
def ofLocal (u : LocalUser) (home : ServerId) (transport keys : Bool) : List Field :=
  [Field.u16 field.USER_ID u.uid, ⟨field.SERVER_ID, home.val⟩, ⟨field.USER_NAME, utf8 u.nick⟩,
      Field.u16 field.USER_ICON u.icon,
      -- Private chat never crosses a link.
      Field.u16 field.USER_FLAGS (flag.REFUSES_CHAT ||| if u.away then flag.AWAY else 0)] ++
    (u.color.map (Field.u32 field.COLOR)).toList ++
    u.exclude.map (fun id => ⟨field.EXCLUDE, id.val⟩) ++
    ((u.encrypted.filter fun _ => transport).map fun encrypted =>
      Field.u16 field.USER_TRANSPORT (if encrypted then 1 else 2)).toList ++
    (u.fingerprint.filter fun _ => keys).elim [] fun fp =>
      ⟨field.USER_KEY, fp.val⟩ ::
        if u.keyFlags = 0 then [] else [Field.u16 field.USER_KEY_FLAGS u.keyFlags]

/-- A ghost's user group as this server passes it on: every field as it came, but the ID this server
gives the user and this server's own flag rules. -/
def relayedGroup (uid : UInt16) (g : UserGroup) (features : UInt32) : List Field :=
  let kept := g.flags &&& (flag.AWAY ||| flag.REFUSES_MESSAGES) ||| flag.REFUSES_CHAT
  let flags :=
    if feature.has features feature.PRIVATE_MESSAGES then kept else kept ||| flag.REFUSES_MESSAGES
  g.fields.map fun f =>
    if f.id = field.USER_ID then Field.u16 field.USER_ID uid
    else if f.id = field.USER_FLAGS then Field.u16 field.USER_FLAGS flags
    else f

/-- A User Gone this server makes itself, for a user it gives `uid`. -/
def goneFields (uid : UInt16) (why : Reason) : List Field :=
  [Field.u16 field.USER_ID uid, Field.u16 field.REASON why.code]

end HxdNg.Link
