import HxdNg.Lib.Machine

/-!
# The link's numbers, and transactions as ordered field lists

* `tx`, `field`, `feature` : the numbers of the protocol; `Reason` : `DATA_LINK_REASON`;
* `Field`, `find` : a transaction kept as the list it arrived as; `Frame` : one as it was read.
-/

namespace HxdNg.Link

def VERSION : UInt16 := 1

namespace tx

def HELLO : UInt32 := 900
def SNAPSHOT : UInt32 := 901
def USER_UPDATE : UInt32 := 902
def USER_GONE : UInt32 := 903
def CHAT : UInt32 := 904
def PRIVATE_MESSAGE : UInt32 := 905
def USER_INFO : UInt32 := 906
def KICK : UInt32 := 907
def BAN : UInt32 := 908
def UNBAN : UInt32 := 909
def PING : UInt32 := 910
def CLOSE : UInt32 := 911
def SERVERS : UInt32 := 912
def SERVER_UPDATE : UInt32 := 913
def SERVER_GONE : UInt32 := 914
def DEVICE_KEYS : UInt32 := 915

end tx

namespace field

def DATA : UInt16 := 101
def USER_NAME : UInt16 := 102
def USER_ICON : UInt16 := 104
def CHAT_OPTIONS : UInt16 := 109
def USER_FLAGS : UInt16 := 112
def OPTIONS : UInt16 := 113
def QUOTING : UInt16 := 214
def COLOR : UInt16 := 0x0500
def LINK_VERSION : UInt16 := 0x0630
def FEATURES : UInt16 := 0x0631
def SERVER_NAME : UInt16 := 0x0632
def EPOCH : UInt16 := 0x0633
def USER_ID : UInt16 := 0x0634
def TARGET_ID : UInt16 := 0x0635
def MORE : UInt16 := 0x0636
def REASON : UInt16 := 0x0637
def BAN_ID : UInt16 := 0x0638
def DURATION : UInt16 := 0x0639
def SERVER_ID : UInt16 := 0x063A
def TAG : UInt16 := 0x063B
def HOPS : UInt16 := 0x063C
def EXCLUDE : UInt16 := 0x063D
def REQUESTER : UInt16 := 0x063E
def LINE_ID : UInt16 := 0x063F
def USER_KEY : UInt16 := 0x0642
def DEVICE_CERT : UInt16 := 0x0643
def USER_TRANSPORT : UInt16 := 0x0645
def USER_KEY_FLAGS : UInt16 := 0x0649

end field

namespace feature

def PUBLIC_CHAT : UInt32 := 1
def PRIVATE_MESSAGES : UInt32 := 2
def USER_INFO : UInt32 := 4
def TRANSIT : UInt32 := 8
def USER_KEYS : UInt32 := 16

/-- `features & bit != 0`. -/
def has (features bit : UInt32) : Bool := features &&& bit != 0

end feature

/-- `DATA_LINK_REASON`. -/
inductive Reason where
  | ok | disconnected | notExported | unknownUser | refusesMessages | rateLimited
  | featureNotNegotiated | unknownBan | unreachable | excluded | banned | invalidRequester
  | refusedFields | noDeviceKeys | badSignature | senderUnkeyed | shutdown | unlinked
  | protocolError | versionUnsupported | replaced | loop | tagConflict | hopLimit | suspended
  deriving DecidableEq, Repr

def Reason.code : Reason → UInt16
  | .ok => 0
  | .disconnected => 1
  | .notExported => 2
  | .unknownUser => 3
  | .refusesMessages => 4
  | .rateLimited => 5
  | .featureNotNegotiated => 6
  | .unknownBan => 7
  | .unreachable => 8
  | .excluded => 9
  | .banned => 10
  | .invalidRequester => 11
  | .refusedFields => 12
  | .noDeviceKeys => 13
  | .badSignature => 14
  | .senderUnkeyed => 15
  | .shutdown => 16
  | .unlinked => 17
  | .protocolError => 18
  | .versionUnsupported => 19
  | .replaced => 20
  | .loop => 21
  | .tagConflict => 22
  | .hopLimit => 23
  | .suspended => 24

/-- One field of a transaction, kept as it arrived. -/
structure Field where
  id : UInt16
  data : List UInt8
  deriving DecidableEq, Repr

namespace Field

def u16 (id v : UInt16) : Field := ⟨id, beBytes 2 v.toNat⟩

def u32 (id : UInt16) (v : UInt32) : Field := ⟨id, beBytes 4 v.toNat⟩

/-- A UInt16 or UInt32 field's value; anything else is malformed. -/
def uint (f : Field) : Option UInt32 :=
  if f.data.length = 2 ∨ f.data.length = 4 then some (UInt32.ofNat (ofBe f.data)) else none

def fixed (f : Field) (n : Nat) : Option (Bytes n) := Bytes.ofList n f.data

/-- `fixed().map(u16::from_be_bytes)`. -/
def fixedU16 (f : Field) : Option UInt16 := (f.fixed 2).map fun b => UInt16.ofNat (ofBe b.val)

@[simp] theorem fixedU16_u16 (id v : UInt16) : (u16 id v).fixedU16 = some v := by
  have hlen : (beBytes 2 v.toNat).length = 2 := length_beBytes 2 v.toNat
  show (Bytes.ofList 2 (beBytes 2 v.toNat)).map _ = _
  rw [Bytes.ofList, dif_pos hlen, Option.map_some]
  show some (UInt16.ofNat (ofBe (beBytes 2 v.toNat))) = some v
  rw [ofBe_beBytes (by simpa using v.toNat_lt), UInt16.ofNat_toNat]

end Field

/-- The first field `id` in `fields`. -/
def find (fields : List Field) (id : UInt16) : Option Field := fields.find? fun f => f.id == id

/-- A transaction as a link reads it. -/
structure Frame where
  ty : UInt32
  trans : UInt32 := 0
  flag : UInt32 := 0
  fields : List Field := []
  deriving DecidableEq, Repr

/-- The reply flag sits in the type word's second byte. -/
def Frame.isReply (f : Frame) : Bool := (f.ty >>> 16) &&& 0xff == 1

end HxdNg.Link
