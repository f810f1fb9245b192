import HxdNg.Lib.Assoc
import HxdNg.Link.Groups

/-!
# The hub

What every link shares: the servers and ghosts of each live link, those held for an interrupted one,
and what each link is passed by the others. Every operation here runs under the hub's lock.

* `Live`, `Held`, `Chan`, `State` : what is kept;
* `relay`, `serversGone`, `forgetHeld` : what links pass on to each other, and what they give up;
* `register`, `hold`, `expire`, `resume`, `settle`, `unregister` : a link's life;
* `acceptServer`, `forgetServer`, `relayOpen`, `subscribe` : the servers behind it, and what it hears;
* `forward`, `request`, `requestFor` : requests, on their way to the link they lie behind;
* `applyUser`, `userGone`, `claimStale`, `unlisted` : the peer's users;
* `suspend`, `reload`, `shutDown` : the operator's acts.
-/

namespace HxdNg.Link

open Assoc (Map)

/-- Links between this server and the farthest one it will accept. -/
def MAX_HOPS : UInt16 := 8

/-- What one link may have waiting from the others. -/
def RELAY_CAP : Nat := 16384

/-- Requests one link may have waiting to be sent. -/
def REQUEST_CAP : Nat := 64

structure Slot where
  uid : UInt16
  group : UserGroup
  deriving DecidableEq, Repr

/-- What links pass on to each other. -/
inductive Relay where
  | server (group : ServerGroup)
  | serverGone (fields : List Field)
  | user (group : List Field)
  | userGone (fields : List Field)
  | chat (fields : List Field)
  deriving DecidableEq, Repr

def Relay.isChat : Relay → Bool
  | .chat _ => true
  | _ => false

/-- Who waits for a request's reply, each under a number of its own. -/
inductive Asker where
  | here (n : Nat)
  | link (generation : Nat) (trans : UInt32) (n : Nat)
  deriving DecidableEq, Repr

structure Request where
  ty : UInt32
  fields : List Field
  reply : Asker
  deriving DecidableEq, Repr

/-- An interrupted link's servers and ghosts. -/
structure Held where
  generation : Nat
  peer : ServerGroup
  epoch : Epoch
  features : UInt32
  servers : Map ServerId ServerGroup
  ghosts : Map UInt16 Slot

structure Live where
  generation : Nat
  epoch : Option Epoch := none
  stale : List Slot := []
  unconfirmed : List ServerId := []
  told : Option Reason := none
  peer : Option ServerGroup := none
  servers : Map ServerId ServerGroup := Map.empty
  features : UInt32 := 0
  asks : Bool := false
  hears : Bool := false
  ghosts : Map UInt16 Slot := Map.empty

/-- What waits for a link's session to send it. -/
structure Chan where
  relays : List (Nat × Relay) := []
  requests : List Request := []

structure State where
  links : Map String Live := Map.empty
  held : Map String Held := Map.empty
  channels : Map Nat Chan := Map.empty
  relaySeq : Nat := 0
  generation : Nat := 0
  shuttingDown : Bool := false
  suspended : List String := []

/-- This server's own name on the network. -/
structure Config where
  serverId : ServerId
  tag : String

/-- One peer this server links with. -/
structure PeerEntry where
  name : String
  dial : Option String := none
  key : Bytes 32
  account : String
  features : UInt32
  ghosts : Nat
  userTransport : Bool := false
  userKeys : Bool := false

/-- Whether two entries for a peer describe the same link. -/
def sameTerms (a b : PeerEntry) : Bool :=
  a.key == b.key && a.account == b.account && a.dial == b.dial && a.features == b.features &&
    a.ghosts == b.ghosts && a.userTransport == b.userTransport && a.userKeys == b.userKeys

def transit (features : UInt32) : Bool := feature.has features feature.TRANSIT

/-- The servers a link shows: its peer, and those behind it. -/
def Live.known (l : Live) : List ServerGroup := l.peer.toList ++ l.servers.values

def Held.known (h : Held) : List ServerGroup := h.peer :: h.servers.values

/-- Whether some server of a link's is `id`. -/
def Live.knows (l : Live) (id : ServerId) : Bool := l.known.any fun g => g.id == id

/-- Tell a link to close, which it is told once. -/
def Live.tell (l : Live) (why : Reason) : Live :=
  if l.told.isNone then { l with told := some why } else l

/-- The link live for `peer`, unless a newer one has replaced generation `g`. -/
def State.current (s : State) (peer : String) (g : Nat) : Option Live :=
  (s.links.get peer).filter fun l => l.generation == g

def State.put (s : State) (peer : String) (l : Live) : State := { s with links := s.links.set peer l }

/-! ## What links pass on to each other -/

/-- Whether a link takes what another passes on. -/
def Live.takes (l : Live) (what : Relay) : Bool :=
  l.hears && transit l.features &&
    (!what.isChat || feature.has l.features feature.PUBLIC_CHAT)

/-- Whether a session's channel has room. -/
def State.room (s : State) (generation : Nat) : Bool :=
  (s.channels.get generation).any fun c => decide (c.relays.length < RELAY_CAP)

/-- The generations of the links that take what `from_`'s passes on. -/
def State.takers (s : State) (from_ : String) (what : Relay) : List Nat :=
  (s.links.entries.filter fun kv => kv.1 != from_ && kv.2.takes what).map fun kv => kv.2.generation

/-- Pass `what` from `from_`'s link to every other; a link too far behind is closed. -/
def relay (s : State) (from_ : String) (what : Relay) : State :=
  let seq := s.relaySeq + 1
  let takers := s.takers from_ what
  { s with
    relaySeq := seq
    links := s.links.mapVals fun name l =>
      if name != from_ && l.takes what && !s.room l.generation then
        { l with hears := false }.tell .shutdown
      else l
    channels := s.channels.mapVals fun generation c =>
      if generation ∈ takers ∧ c.relays.length < RELAY_CAP then
        { c with relays := c.relays ++ [(seq, what)] }
      else c }

def relayAll (s : State) (from_ : String) (whats : List Relay) : State :=
  whats.foldl (fun s what => relay s from_ what) s

/-- Everything behind a link gone: the peer and the servers learned over it. -/
def serversGone (peer : ServerGroup) (servers : List ServerId) : List Relay :=
  (peer.id :: servers).map fun id => .serverGone [⟨field.SERVER_ID, id.val⟩]

/-- What a hold was relayed as is gone. -/
def Held.gone (h : Held) : List Relay :=
  if transit h.features then serversGone h.peer h.servers.keys else []

/-- What an interrupted link was holding, given up: the ghosts to be parted. -/
def giveUp (s : State) (name : String) : State × List Slot :=
  (s.held.get name).elim (s, []) fun h =>
    (relayAll { s with held := s.held.drop name } name h.gone, h.ghosts.values)

/-- What `peers`' interrupted links were holding, given up. -/
def forgetHeld (s : State) : List String → State × List Slot
  | [] => (s, [])
  | name :: peers =>
    let (s, gone) := giveUp s name
    let (s, rest) := forgetHeld s peers
    (s, gone ++ rest)

/-! ## A link's life -/

/-- Ghosts gone, each as the other links hear it. -/
def goneUsers (slots : List Slot) : List Relay :=
  slots.map fun slot => .userGone (goneFields slot.uid .disconnected)

/-- Keep what `live` learned; what it leaves is to be parted. -/
def hold (s : State) (peer : String) (live : Live) : State × List Slot :=
  match live.peer, live.epoch with
  | some server, some epoch =>
    let earlier := (s.held.get peer).elim [] fun h => h.ghosts.values
    let gone := live.stale ++ earlier
    let held : Held :=
      ⟨live.generation, server, epoch, live.features, live.servers, live.ghosts⟩
    let s := { s with held := s.held.set peer held }
    (if transit live.features then relayAll s peer (goneUsers gone) else s, gone)
  | _, _ => (s, live.stale ++ live.ghosts.values)

/-- A link for `peer` is starting: one already live for it is closed, and held. -/
def register (s : State) (peer : String) : State × List Slot :=
  let generation := s.generation + 1
  let refusal : Option Reason :=
    if s.shuttingDown then some .shutdown
    else if peer ∈ s.suspended then some .suspended
    else none
  let old := s.links.get peer
  let s := { s with generation := generation }.put peer { generation := generation, told := refusal }
  match old with
  | none => (s, [])
  | some live => hold s peer (live.tell .replaced)

/-- The grace period of an interruption has run out without the link coming back. -/
def expire (s : State) (peer : String) (generation : Nat) : State × List Slot :=
  match s.held.get peer with
  | none => (s, [])
  | some h =>
    if h.generation = generation then
      (relayAll { s with held := s.held.drop peer } peer h.gone, h.ghosts.values)
    else (s, [])

/-- A hold a peer cannot take back: it is another server, or without the transit it had. -/
def Held.lost (h : Held) (server : ServerId) (features : UInt32) : Bool :=
  h.peer.id != server || (transit h.features && !transit features)

/-- A link with its Hello settled, and what was held taken back. -/
def Live.back (l : Live) (held : Option Held) (epoch : Epoch) (features : UInt32) : Live :=
  let l := { l with epoch := some epoch, features := features }
  held.elim l fun h =>
    let l := { l with unconfirmed := h.servers.keys, servers := l.servers.extend h.servers }
    if h.epoch = epoch then { l with ghosts := h.ghosts } else { l with stale := h.ghosts.values }

/-- The peer is back: take what its interrupted link learned. -/
def resume (s : State) (peer : String) (generation : Nat) (server : ServerId) (epoch : Epoch)
    (features : UInt32) : State × List Slot :=
  match s.current peer generation with
  | none => (s, [])
  | some live =>
    let lost := (s.held.get peer).filter fun h => h.lost server features
    let held := (s.held.get peer).filter fun h => !h.lost server features
    let s := { s with held := s.held.drop peer }
    let s := relayAll s peer (lost.elim [] Held.gone)
    let gone := lost.elim [] fun h => h.ghosts.values
    -- Held without transit and back with it: the other links have been shown none of this yet.
    let gained := held.filter fun h => transit features && !transit h.features
    let servers := gained.elim [] fun h => h.servers.values.map farther
    let users := (gained.filter fun h => h.epoch == epoch).elim [] fun h =>
      h.ghosts.values.map fun slot => relayedGroup slot.uid slot.group features
    let s := s.put peer (live.back held epoch features)
    let s := match live.peer.filter fun _ => transit features with
      | none => s
      | some own =>
        relayAll s peer (.server (farther own) :: (servers.map .server ++ users.map .user))
    (s, gone)

/-- The peer's Link Servers is complete: the held servers it did not name, to be forgotten. -/
def settle (s : State) (peer : String) (generation : Nat) : State × List ServerId :=
  match s.current peer generation with
  | none => (s, [])
  | some live => (s.put peer { live with unconfirmed := [] }, live.unconfirmed)

/-- The link has ended: interrupted, or for good. -/
def unregister (s : State) (peer : String) (generation : Nat) (interrupted : Bool) :
    State × List Slot :=
  match s.current peer generation with
  | none => (s, [])
  | some live =>
    let s := { s with links := s.links.drop peer }
    if interrupted then hold s peer live
    else
      let held := s.held.get peer
      let s := { s with held := s.held.drop peer }
      let s := match live.peer.filter fun _ => transit live.features with
        | none => s
        | some server => relayAll s peer (serversGone server live.servers.keys)
      (relayAll s peer (held.elim [] Held.gone),
        live.ghosts.values ++ live.stale ++ held.elim [] fun h => h.ghosts.values)

/-! ## The servers behind a link -/

/-- A group conflicts with a server some link shows. -/
def conflict (group : ServerGroup) (this : Bool) (known : ServerGroup) : Except Reason Unit := do
  if known.id = group.id ∧ this = false then throw .loop
  if known.id ≠ group.id ∧ sameTag known.tag group.tag then throw .tagConflict

/-- A group conflicts with a server held for another peer's link. -/
def conflictHeld (group known : ServerGroup) : Except Reason Unit := do
  if known.id = group.id then throw .loop
  if sameTag known.tag group.tag then throw .tagConflict

/-- A link with one more server, or its peer described anew. -/
def Live.admitted (l : Live) (group : ServerGroup) (own : Bool) : Live :=
  let l := { l with unconfirmed := l.unconfirmed.filter fun id => id != group.id }
  if own then { l with peer := some group }
  else { l with servers := l.servers.set group.id group }

/-- Accept a server group arriving over `peer`'s link, and record it. `own` is the peer's group from
its Hello. -/
def acceptServer (cfg : Config) (s : State) (peer : String) (generation : Nat) (group : ServerGroup)
    (own : Bool) : Except Reason State :=
  match s.current peer generation with
  | none => throw .replaced
  | some live => do
    if group.id = cfg.serverId then throw .loop
    -- An update about the peer itself replaces what its Hello said.
    let own := own || live.peer.any fun p => p.id == group.id
    if own = false ∧ MAX_HOPS < (farther group).hops then throw .hopLimit
    if sameTag group.tag cfg.tag then throw .tagConflict
    s.links.entries.forM fun kv => kv.2.known.forM (conflict group (kv.1 == peer))
    (s.held.entries.filter fun kv => kv.1 != peer).forM fun kv =>
      kv.2.known.forM (conflictHeld group)
    let s := s.put peer (live.admitted group own)
    return if transit live.features then relay s peer (.server (farther group)) else s

/-- A server is no longer reachable over the link: it goes, and every user homed there with it.
`came` is the Server Gone as it came. -/
def forgetServer (s : State) (peer : String) (generation : Nat) (id : ServerId)
    (came : Option (List Field)) : State × List Slot :=
  match s.current peer generation with
  | none => (s, [])
  | some live =>
    -- A peer speaks for its own side of the network only.
    if (live.servers.get id).isNone then (s, [])
    else
      let gone := (live.ghosts.filter fun kv => kv.2.group.home == id).values
      let s := s.put peer { live with
        servers := live.servers.drop id
        ghosts := live.ghosts.filter fun kv => kv.2.group.home != id }
      let fields := came.getD [⟨field.SERVER_ID, id.val⟩]
      (if transit live.features then relay s peer (.serverGone fields) else s, gone)

def serversBehind (s : State) (peer : String) (generation : Nat) : Nat :=
  (s.current peer generation).elim 0 fun l => l.servers.entries.length

def knowsBehind (s : State) (peer : String) (generation : Nat) (id : ServerId) : Bool :=
  (s.current peer generation).any fun l => (l.servers.get id).isSome

/-- The other transit links, live and held, as a link of `peer`'s is told of them. -/
def State.others (s : State) (peer : String) :
    List (UInt32 × List ServerGroup × Map UInt16 Slot) :=
  ((s.links.entries.filter fun kv => kv.1 != peer && transit kv.2.features).map fun kv =>
      (kv.2.features, kv.2.known, kv.2.ghosts)) ++
    (s.held.entries.filter fun kv => kv.1 != peer && transit kv.2.features).map fun kv =>
      (kv.2.features, kv.2.known, kv.2.ghosts)

/-- What this link's Link Servers names; from here what other links pass on arrives. -/
def relayOpen (s : State) (peer : String) (generation : Nat) : State × List ServerGroup :=
  match (s.current peer generation).filter fun l => transit l.features with
  | none => (s, [])
  | some live =>
    ({ s.put peer { live with hears := true } with channels := s.channels.set generation {} },
      (s.others peer).flatMap fun o => o.2.1.map farther)

/-- The users of the other transit links a snapshot holds, and the relay number they stand at. -/
structure Subscribed where
  relayed : List (List Field)
  relayedUpTo : Nat

def subscribe (s : State) (peer : String) (generation : Nat) : State × Option Subscribed :=
  match s.current peer generation with
  | none => (s, none)
  | some live =>
    let relayed :=
      if transit live.features then
        (s.others peer).flatMap fun o =>
          o.2.2.values.map fun slot => relayedGroup slot.uid slot.group o.1
      else []
    let chan := (s.channels.get generation).getD {}
    ({ s.put peer { live with asks := true } with
        channels := s.channels.set generation { chan with requests := [] } },
      some ⟨relayed, s.relaySeq⟩)

/-! ## Requests -/

inductive PeerRefusal where
  | unreachable | unknownUser | featureNotNegotiated | rateLimited
  deriving DecidableEq, Repr

/-- The reason a refusal is answered with on the wire. -/
def reasonOf : PeerRefusal → Reason
  | .unreachable => .unreachable
  | .unknownUser => .unknownUser
  | .featureNotNegotiated => .featureNotNegotiated
  | .rateLimited => .rateLimited

/-- Hand a request to a link's session loop. -/
def enqueue (s : State) (live : Live) (request : Request) : Except PeerRefusal State :=
  match (s.channels.get live.generation).filter fun _ => live.asks with
  | none => throw .unreachable
  | some chan =>
    if chan.requests.length < REQUEST_CAP then
      let chan := { chan with requests := chan.requests ++ [request] }
      return { s with channels := s.channels.set live.generation chan }
    else throw .rateLimited

/-- The ID `uid` has on a link. -/
def Live.idOf (l : Live) (uid : UInt16) : Option UInt16 :=
  (l.ghosts.entries.find? fun kv => kv.2.uid == uid).map Prod.fst

/-- The link that shows ghost `uid`, and the ID the peer gives it. -/
def State.showing (s : State) (uid : UInt16) : Option (String × Live × UInt16) :=
  s.links.entries.findSome? fun kv => (kv.2.idOf uid).map fun id => (kv.1, kv.2, id)

/-- Kept while its link is interrupted: there, but out of reach. -/
def State.holds (s : State) (uid : UInt16) : Bool :=
  s.held.values.any fun h => h.ghosts.values.any fun slot => slot.uid == uid

/-- A request's fields for the next hop, its IDs translated. -/
def translate (fields : List Field) (target : UInt16) (sender : Option UInt16) : List Field :=
  fields.map fun f =>
    if f.id = field.TARGET_ID then Field.u16 field.TARGET_ID target
    else if f.id = field.USER_ID then (sender.map (Field.u16 field.USER_ID)).getD f
    else f

/-- A request from `from_`'s peer about a user this server shows it as `target`: `none` when that is
no ghost, so the request is this server's to answer. -/
def forward (s : State) (from_ : String) (generation : Nat) (target : UInt16) (request : Frame)
    (feature : UInt32) (sender : Option UInt16) (asker : Asker) : Option (Except Reason State) :=
  match s.showing target with
  | none => if s.holds target then some (throw .unreachable) else none
  | some (name, live, id) => some <|
    match (s.current from_ generation).filter fun o =>
        name != from_ && transit o.features && transit live.features with
    | none => throw .unknownUser
    | some origin => do
      if feature ≠ 0 ∧ live.features &&& feature = 0 then throw .featureNotNegotiated
      let fromUid ← sender.elim (pure none) fun asker =>
        (origin.ghosts.get asker).elim (throw Reason.unknownUser) fun (slot : Slot) =>
          pure (some slot.uid)
      let passed := translate request.fields id fromUid
      (enqueue s live ⟨request.ty, passed, asker⟩).mapError reasonOf

/-- Send the peer that shows ghost `uid` a request built from the ID the peer gave it. -/
def request (s : State) (uid : UInt16) (feature ty : UInt32) (build : UInt16 → List Field)
    (asker : Asker) : Except PeerRefusal State :=
  match s.showing uid with
  | none => throw (if s.holds uid then .unreachable else .unknownUser)
  | some (_, live, id) => do
    if feature ≠ 0 ∧ live.features &&& feature = 0 then throw .featureNotNegotiated
    enqueue s live ⟨ty, build id, asker⟩

/-- Send a request for server `home` over the link it lies behind, never back over `except`. -/
def requestFor (s : State) (home : ServerId) (ty : UInt32) (fields : List Field)
    (except : Option String) (asker : Asker) : Except PeerRefusal State :=
  match s.links.entries.find? fun kv =>
      some kv.1 != except && (except.isNone || transit kv.2.features) && kv.2.knows home with
  | none => throw .unreachable
  | some (_, live) => enqueue s live ⟨ty, fields, asker⟩

/-- The server `id` lies behind the link: a moderation request names no other. -/
def requester (s : State) (peer : String) (generation : Nat) (id : ServerId) : Bool :=
  (s.current peer generation).any fun l => l.knows id

/-! ## The peer's users -/

/-- One user of the peer's, new or changed. `limit` is the link's ghost bound, `maxGhosts` the
server's and `count` how many it shows; `draw` is the uid the core has for a new one. -/
def applyUser (s : State) (peer : String) (generation : Nat) (g : UserGroup)
    (limit maxGhosts count : Nat) (draw : Option UInt16) : Except String (State × Option UInt16) :=
  match s.current peer generation with
  | none => throw "link replaced"
  | some live =>
    if !live.knows g.home then throw "not homed behind this link"
    else match live.ghosts.get g.id with
      | some slot =>
        let s' := s.put peer { live with ghosts := live.ghosts.set g.id ⟨slot.uid, g⟩ }
        -- A snapshot resends everyone: only a change goes on.
        return (if transit live.features && slot.group != g then
            relay s' peer (.user (relayedGroup slot.uid g live.features))
          else s', none)
      | none =>
        if limit ≤ live.ghosts.entries.length ∨ maxGhosts ≤ count then throw "ghost bound reached"
        else match draw with
          | none => throw "no uid to give a ghost"
          | some uid =>
            let s' := s.put peer { live with ghosts := live.ghosts.set g.id ⟨uid, g⟩ }
            return (if transit live.features then
                relay s' peer (.user (relayedGroup uid g live.features))
              else s', some uid)

/-- A User Gone as it came, under this server's ID for the user. -/
def renamed (fields : List Field) (uid : UInt16) : List Field :=
  fields.map fun f => if f.id = field.USER_ID then Field.u16 field.USER_ID uid else f

def userGone (s : State) (peer : String) (generation : Nat) (id : UInt16) (came : List Field) :
    State × List Slot :=
  match s.current peer generation with
  | none => (s, [])
  | some live =>
    match live.ghosts.get id with
    | none => (s, [])
    | some slot =>
      let s := s.put peer { live with ghosts := live.ghosts.drop id }
      (if transit live.features then relay s peer (.userGone (renamed came slot.uid)) else s, [slot])

/-- Take out the element at a place, the last one moved there. -/
def swapRemove {α : Type} (l : List α) (i : Nat) : List α :=
  l.getLast?.elim l fun last => (l.set i last).dropLast

/-- A held ghost is the same user as one shown now from the same home server under the same name and
icon. -/
def Slot.same (slot : Slot) (g : UserGroup) : Bool :=
  slot.group.home == g.home && slot.group.name == g.name && slot.group.icon == g.icon

/-- One group of a restarted peer's snapshot, matched against the ghosts held for it. -/
def Live.claim (l : Live) (g : UserGroup) : Live :=
  -- An ID the snapshot gives once: a repeat claims nothing.
  if !l.knows g.home || (l.ghosts.get g.id).isSome then l
  else match l.stale.findIdx? fun slot => slot.same g with
    | none => l
    | some i => match l.stale[i]? with
      | none => l
      | some slot => { l with ghosts := l.ghosts.set g.id slot, stale := swapRemove l.stale i }

/-- A whole snapshot's first part: held ghosts found again are kept, and the rest are gone. -/
def claimStale (s : State) (peer : String) (generation : Nat) (groups : List UserGroup) :
    State × List Slot :=
  match s.current peer generation with
  | none => (s, [])
  | some live =>
    let live := groups.foldl Live.claim live
    let s := s.put peer { live with stale := [] }
    (if transit live.features then relayAll s peer (goneUsers live.stale) else s, live.stale)

/-- The ghosts shown and not in the snapshot. -/
def unlisted (s : State) (peer : String) (generation : Nat) (groups : List UserGroup) : List UInt16 :=
  (s.current peer generation).elim [] fun l =>
    l.ghosts.keys.filter fun id => !groups.any fun g => g.id == id

/-- A chat line from one of the peer's users, passed on. -/
def chat (s : State) (peer : String) (generation : Nat) (id : UInt16) (fields : List Field) :
    Except String State :=
  match (s.current peer generation).bind fun l => (l.ghosts.get id).map fun slot => (l, slot) with
  | none => throw "no such user on this link"
  | some (live, slot) =>
    return if transit live.features && feature.has live.features feature.PUBLIC_CHAT then
        relay s peer (.chat (renamed fields slot.uid))
      else s

/-! ## The operator's acts -/

/-- The peers the operator has paused. -/
def suspend (s : State) (peers : List String) : State × List Slot :=
  let s := { s with
    links := s.links.mapVals fun name l => if name ∈ peers then l.tell .suspended else l }
  let (s, gone) := forgetHeld s peers
  ({ s with suspended := peers }, gone)

/-- Why a reload closes a link, if it does. -/
def closedBy (old new : List PeerEntry) (name : String) : Option Reason :=
  match old.find? fun p => p.name == name, new.find? fun p => p.name == name with
  | _, none => some .unlinked
  | some was, some now => if sameTerms was now then none else some .protocolError
  | none, some _ => none

/-- New peer entries in place of the old. -/
def reload (s : State) (old new : List PeerEntry) : State × List Slot :=
  let s := { s with
    links := s.links.mapVals fun name l => (closedBy old new name).elim l fun why => l.tell why }
  let removed := s.held.keys.filter fun name => !new.any fun p => p.name == name
  forgetHeld s removed

/-- Stopping: every link is closed. -/
def shutDown (s : State) : State :=
  { s with
    shuttingDown := true
    links := s.links.mapVals fun _ l => l.tell .shutdown }

end HxdNg.Link
