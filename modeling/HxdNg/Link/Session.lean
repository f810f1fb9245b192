import HxdNg.Link.Hub

/-!
# One link session

What a session does with each frame it reads, the same whichever side dialed: a frame is read to the
calls it makes on the hub, which are made one at a time, and the next frame waits for them.

* `Hello.parse` : the first transaction each way;
* `Call`, `Session` : what is still to be done; what a session keeps;
* `readHello`, `readServers`, `handle` : a frame at each stage; `Session.read` : at whichever it is.
-/

namespace HxdNg.Link

open Assoc (Map)

/-- The link features this build implements. -/
def SUPPORTED : UInt32 :=
  feature.PUBLIC_CHAT ||| feature.PRIVATE_MESSAGES ||| feature.USER_INFO ||| feature.TRANSIT

/-- The most servers one link may put behind it. -/
def MAX_SERVERS : Nat := 256

/-- Requests one link waits on at once. -/
def MAX_PENDING : Nat := 256

def MAX_LINK_TEXT : Nat := 8192

structure Hello where
  version : UInt16
  features : UInt32
  epoch : Epoch
  server : ServerGroup
  deriving DecidableEq, Repr

inductive HelloError where
  | missing (id : UInt16)
  | server (e : ServerGroupError)
  | hops
  deriving DecidableEq, Repr

def Hello.parse (fields : List Field) : Except HelloError Hello := do
  let get {α : Type} (id : UInt16) (read : Field → Option α) : Except HelloError α :=
    ((find fields id).bind read).elim (throw (.missing id)) pure
  let version ← get field.LINK_VERSION Field.fixedU16
  let features ← get field.FEATURES Field.uint
  let epoch ← get field.EPOCH fun f => f.fixed 8
  let start := fields.dropWhile fun f => f.id != field.SERVER_ID
  if start = [] then throw (.missing field.SERVER_ID)
  let server ← (ServerGroup.parse start).mapError .server
  if server.hops ≠ 0 then throw .hops
  return ⟨version, features, epoch, server⟩

/-- What a session has still to do before it reads its next frame. -/
inductive Call where
  | greet (hello : Hello)
  | resume (hello : Hello)
  | relayOpen
  | take (group : ServerGroup) (establishing : Bool)
  | accept (group : ServerGroup) (known establishing : Bool)
  | forget (id : ServerId) (came : Option (List Field))
  | settle
  | subscribe
  | snapshot (taken : Subscribed)
  | claimStale (groups : List UserGroup)
  | unlisted (groups : List UserGroup)
  | userGone (id : UInt16) (came : List Field)
  | applyUser (group : UserGroup)
  | chat (id : UInt16) (fields : List Field)
  | forward (target : UInt16) (request : Frame) (feature : UInt32) (sender : Option UInt16)
  | requester (id : ServerId) (request : Frame)
  | requestFor (home : ServerId) (request : Frame)

inductive Phase where
  | hello | servers | established
  | closing
  | ended
  deriving DecidableEq, Repr

/-- What this server sends over a link of what came over others, and its replies to what the peer
asked of them. -/
inductive Sent where
  | servers (groups : List ServerGroup)
  | snapshot (relayed : List (List Field))
  | passed (what : Relay)
  | request (ty trans : UInt32) (fields : List Field) (asker : Asker)
  | reply (trans : UInt32) (error : Bool) (fields : List Field)
  deriving DecidableEq, Repr

structure Session where
  entry : PeerEntry
  phase : Phase := .hello
  calls : List Call := []
  features : UInt32 := 0
  peerId : Option ServerId := none
  snapshot : Option (List UserGroup) := none
  pending : Map UInt32 Asker := Map.empty
  nextTrans : UInt32 := 1
  sent : List Sent := []

namespace Session

def closing (t : Session) : Session := { t with phase := .closing, calls := [] }

/-- The features this side offers. -/
def offered (e : PeerEntry) : UInt32 :=
  e.features &&& SUPPORTED ||| if e.userKeys then feature.USER_KEYS else 0

/-- The first frame that is not for the session itself. `ofKey` is the ID of a server's key. -/
def readHello (ofKey : Bytes 32 → ServerId) (t : Session) (f : Frame) : Session :=
  if f.ty ≠ tx.HELLO then t.closing
  else match Hello.parse f.fields with
    | .error _ => t.closing
    | .ok hello =>
      if hello.version = 0 then t.closing
      else if hello.server.admissible.toOption.isNone then t.closing
      else if hello.server.id ≠ ofKey t.entry.key then t.closing
      else { t with calls := [.greet hello] }

/-- Whether a transaction says more parts follow. -/
def more (fields : List Field) : Bool := (find fields field.MORE).bind Field.uint == some 1

/-- A part of the peer's Link Servers. -/
def readServers (t : Session) (f : Frame) : Session :=
  if f.ty ≠ tx.SERVERS then t.closing
  else match ServerGroup.parseAll f.fields with
    | .error _ => t.closing
    | .ok groups =>
      { t with calls := groups.map (.take · true) ++ if more f.fields then [] else [.settle] }

/-- The fields of a transaction outside its baseline. -/
def beside (baseline : List UInt16) (fields : List Field) : List Field :=
  fields.filter fun f => !baseline.contains f.id

def chatBaseline : List UInt16 := [field.USER_ID, field.DATA, field.CHAT_OPTIONS, field.LINE_ID]

def messageBaseline : List UInt16 :=
  [field.USER_ID, field.TARGET_ID, field.DATA, field.QUOTING, field.OPTIONS]

def keysBaseline : List UInt16 := [field.USER_ID, field.TARGET_ID]

def infoBaseline : List UInt16 := [field.TARGET_ID]

def moderationBaseline (ty : UInt32) : List UInt16 :=
  if ty = tx.KICK then [field.TARGET_ID, field.REQUESTER, field.DATA]
  else if ty = tx.BAN then [field.TARGET_ID, field.REQUESTER, field.DURATION, field.DATA]
  else [field.BAN_ID, field.SERVER_ID, field.REQUESTER]

def idIn (fields : List Field) (which : UInt16) : Option UInt16 :=
  (find fields which).bind Field.fixedU16

def serverIn (fields : List Field) (which : UInt16) : Option ServerId :=
  (find fields which).bind fun f => f.fixed 8

def textIn (fields : List Field) : Option String :=
  (find fields field.DATA).bind fun d => fromUtf8 d.data

/-- A ghost's line: dropped over a link without public chat, or over a bound. -/
def chat (t : Session) (fields : List Field) : List Call :=
  if !feature.has t.features feature.PUBLIC_CHAT then []
  else match idIn fields field.USER_ID, textIn fields with
    | some id, some text =>
      if MAX_LINK_TEXT < (utf8 text).length then []
      else if (admissibleExtra (beside chatBaseline fields)).toOption.isNone then []
      else [.chat id fields]
    | _, _ => []

/-- Link Private Message: on toward a ghost's home, unless it is refused. -/
def privateMessage (t : Session) (f : Frame) : List Call :=
  if !feature.has t.features feature.PRIVATE_MESSAGES then []
  else if (admissibleExtraWithin (beside messageBaseline f.fields)
      (2 * MAX_LINK_TEXT + MAX_EXTRA)).toOption.isNone then []
  else if (find f.fields field.QUOTING).any fun q => decide (MAX_LINK_TEXT < q.data.length) then []
  else
    let text := (textIn f.fields).filter fun t => decide ((utf8 t).length ≤ MAX_LINK_TEXT)
    match idIn f.fields field.USER_ID, idIn f.fields field.TARGET_ID, text with
    | some sender, some target, some _ =>
      [.forward target f feature.PRIVATE_MESSAGES (some sender)]
    | _, _, _ => []

/-- Link Device Keys. -/
def deviceKeys (t : Session) (f : Frame) : List Call :=
  if (admissibleExtra (beside keysBaseline f.fields)).toOption.isNone then []
  else if !feature.has t.features feature.USER_KEYS then []
  else (idIn f.fields field.TARGET_ID).elim [] fun target =>
    [.forward target f feature.USER_KEYS (idIn f.fields field.USER_ID)]

/-- Link User Info. -/
def userInfo (t : Session) (f : Frame) : List Call :=
  if !feature.has t.features feature.USER_INFO then []
  else if (admissibleExtra (beside infoBaseline f.fields)).toOption.isNone then []
  else (idIn f.fields field.TARGET_ID).elim [] fun target =>
    [.forward target f feature.USER_INFO none]

/-- Link Kick, Ban or Unban: only for a requester that lies behind the link. -/
def moderation (f : Frame) : List Call :=
  if (admissibleExtra (beside (moderationBaseline f.ty) f.fields)).toOption.isNone then []
  else (serverIn f.fields field.REQUESTER).elim [] fun by_ => [.requester by_ f]

/-- A moderation request whose requester lies behind the link: on toward a ghost's home, or toward
the server whose ban is to be lifted. -/
def moderate (own : ServerId) (t : Session) (f : Frame) : List Call :=
  let target := idIn f.fields field.TARGET_ID
  let reason := (find f.fields field.DATA).all fun d =>
    (fromUtf8 d.data).any fun text => decide ((utf8 text).length ≤ MAX_LINK_TEXT)
  if !reason then []
  else if f.ty = tx.KICK ∨ f.ty = tx.BAN then
    target.elim [] fun uid => [.forward uid f 0 none]
  else
    let home := serverIn f.fields field.SERVER_ID
    if home = some own ∨ !transit t.features then []
    else home.elim [] fun home => [.requestFor home f]

/-- One part of the peer's snapshot, which is applied as one. -/
def snapshotPart (t : Session) (fields : List Field) : Session :=
  -- Held to the link's ghost bound.
  let read := (UserGroup.parseAll fields).filterMap Except.toOption
  let groups := (t.snapshot.getD [] ++ read).take t.entry.ghosts
  if more fields then { t with snapshot := some groups }
  else { t with snapshot := none, calls := [.claimStale groups, .unlisted groups] }

/-- One transaction once the link is established, a reply apart. -/
def handle (t : Session) (f : Frame) : Session :=
  if f.ty = tx.CLOSE then t.closing
  else if f.ty = tx.SERVER_UPDATE then
    match ServerGroup.parse f.fields with
    | .ok g => { t with calls := [.take g false] }
    | .error _ => t.closing
  else if f.ty = tx.SERVER_GONE then
    -- The peer itself goes only with the link.
    match (serverIn f.fields field.SERVER_ID).filter fun id => some id != t.peerId with
    | some id => { t with calls := [.forget id (some f.fields)] }
    | none => t
  else if f.ty = tx.SNAPSHOT then t.snapshotPart f.fields
  else if f.ty = tx.USER_UPDATE then
    if t.snapshot.isSome then t
    else match UserGroup.parse f.fields with
      | .ok g => { t with calls := [.applyUser g] }
      | .error (.inadmissible _) => t
      | .error _ => t.closing
  else if f.ty = tx.USER_GONE then
    if t.snapshot.isSome then t
    else match idIn f.fields field.USER_ID with
      | some id => { t with calls := [.userGone id f.fields] }
      | none => t
  else if f.ty = tx.CHAT then { t with calls := t.chat f.fields }
  else if f.ty = tx.PRIVATE_MESSAGE then { t with calls := t.privateMessage f }
  else if f.ty = tx.DEVICE_KEYS then { t with calls := t.deviceKeys f }
  else if f.ty = tx.USER_INFO then { t with calls := t.userInfo f }
  else if f.ty = tx.KICK ∨ f.ty = tx.BAN ∨ f.ty = tx.UNBAN then { t with calls := moderation f }
  else t

/-- A frame that is not a reply, at whichever stage the session is. -/
def read (ofKey : Bytes 32 → ServerId) (t : Session) (f : Frame) : Session :=
  if f.ty = tx.PING then t
  else match t.phase with
    | .hello => if f.ty = tx.CLOSE then t.closing else t.readHello ofKey f
    | .servers => if f.ty = tx.CLOSE then t.closing else t.readServers f
    | .established => t.handle f
    | .closing | .ended => t

end Session

end HxdNg.Link
