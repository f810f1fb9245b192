import Mathlib
import HxdNg.Link.Session

/-!
# Links, the hub and the core, step by step

* `World` : the hub, the sessions of its links, the ghosts the core shows and those to be parted;
* `perform` : one call of a session on the hub, under its lock; `deliver` : a reply handed to whoever
  waits for it; `pass`, `ask` : what a session sends of what waits in its channel;
* `Op`, `step`, `run` : everything that touches the hub, one locked step at a time.
-/

namespace HxdNg.Link

open Assoc (Map)

/-- What does not change while the server runs. -/
structure Setup extends Config where
  maxGhosts : Nat
  ofKey : Bytes 32 → ServerId

structure World where
  state : State := {}
  peers : List PeerEntry := []
  sessions : Map Nat Session := Map.empty
  core : List UInt16 := []
  leaving : List Slot := []
  attached : List UInt16 := []
  parted : List UInt16 := []
  waiting : List Asker := []
  askers : Nat := 0
  answers : List (Nat × Bool × List Field) := []
  unnamed : String → List ServerId := fun _ => []

namespace World

def putSession (w : World) (g : Nat) (t : Session) : World :=
  { w with sessions := w.sessions.set g t }

/-- The hub's state after an operation, and the slots it took out. -/
def after (w : World) (r : State × List Slot) : World :=
  { w with state := r.1, leaving := w.leaving ++ r.2 }

def unreachable : List Field := [Field.u16 field.REASON Reason.unreachable.code]

/-- Hand a reply to whoever waits for it, if it still does. -/
def deliver (w : World) (asker : Asker) (error : Bool) (fields : List Field) : World :=
  if asker ∈ w.waiting then
    let w := { w with waiting := w.waiting.erase asker }
    match asker with
    | .here n => { w with answers := (n, error, fields) :: w.answers }
    | .link g task _ =>
      match w.sessions.get g with
      | none => w
      | some t =>
        if task = 0 then w
        else w.putSession g { t with sent := t.sent ++ [Sent.reply task error fields] }
  else w

/-- What a session sends of what was passed on before its snapshot, and after. -/
def drained (upTo : Nat) (queue : List (Nat × Relay)) : List Relay × List Relay :=
  let early := queue.filter fun r => decide (r.1 ≤ upTo)
  ((early.map Prod.snd).filter fun what =>
      match what with
      | .server _ | .serverGone _ => true
      | _ => false,
    (queue.filter fun r => decide (upTo < r.1)).map Prod.snd)

/-- A request of a session's on its way through the hub. -/
def asked (w : World) (g : Nat) (t : Session) (task : UInt32)
    (sent : Asker → Option (Except Reason State)) : World :=
  let asker := Asker.link g task w.askers
  let w := w.putSession g t
  match sent asker with
  | some (.ok s) =>
    { w with state := s, waiting := asker :: w.waiting, askers := w.askers + 1 }
  | _ => w

/-- The next call of session `g`, the calls after it left to it. `draw` is the uid the core has for a
new ghost. -/
def perform (cfg : Setup) (w : World) (g : Nat) (t : Session) (draw : Option UInt16) :
    Call → World
  | .greet hello =>
    match acceptServer cfg.toConfig w.state t.entry.name g hello.server true with
    | .error _ => w.putSession g t.closing
    | .ok s =>
      let held := (w.state.held.get t.entry.name).elim [] fun h => h.known.map ServerGroup.id
      let unnamed := Function.update w.unnamed t.entry.name held
      let t := { t with
        features := Session.offered t.entry &&& hello.features
        peerId := some hello.server.id
        calls := [.resume hello] }
      { w with state := s, unnamed := unnamed }.putSession g t
  | .resume hello =>
    (w.after (resume w.state t.entry.name g hello.server.id hello.epoch t.features)).putSession g
      { t with calls := [.relayOpen] }
  | .relayOpen =>
    let (s, groups) := relayOpen w.state t.entry.name g
    { w with state := s }.putSession g
      { t with phase := .servers, sent := t.sent ++ [Sent.servers groups] }
  | .take group establishing =>
    let own := t.peerId == some group.id
    let known := knowsBehind w.state t.entry.name g group.id
    if group.admissible.toOption.isNone then w.putSession g t
    -- Without transit the peer shows only itself.
    else if !own && !transit t.features then w.putSession g t
    else if !own && !known && decide (MAX_SERVERS ≤ serversBehind w.state t.entry.name g) then
      w.putSession g t
    else w.putSession g { t with calls := .accept group known establishing :: t.calls }
  | .accept group known establishing =>
    match acceptServer cfg.toConfig w.state t.entry.name g group false with
    | .ok s =>
      let left := (w.unnamed t.entry.name).filter fun id => id != group.id
      let unnamed := Function.update w.unnamed t.entry.name left
      { w with state := s, unnamed := unnamed }.putSession g t
    | .error why =>
      if establishing || why == .loop then w.putSession g t.closing
      -- A server it can no longer accept is gone from here.
      else if known then w.putSession g { t with calls := .forget group.id none :: t.calls }
      else w.putSession g t
  | .forget id came => (w.after (forgetServer w.state t.entry.name g id came)).putSession g t
  | .settle =>
    let (s, gone) := settle w.state t.entry.name g
    { w with state := s }.putSession g
      { t with calls := gone.map (Call.forget · none) ++ [Call.subscribe] }
  | .subscribe =>
    match subscribe w.state t.entry.name g with
    | (_, none) => w.putSession g t.closing
    | (s, some taken) => { w with state := s }.putSession g { t with calls := [Call.snapshot taken] }
  | .snapshot taken =>
    let queue := (w.state.channels.get g).elim [] Chan.relays
    let (early, late) := drained taken.relayedUpTo queue
    let channels := w.state.channels.mapVals fun g' c =>
      if g' = g then { c with relays := [] } else c
    let t := { t with
      phase := .established
      sent := t.sent ++ (early.map Sent.passed ++ [Sent.snapshot taken.relayed] ++ late.map Sent.passed) }
    { w with state := { w.state with channels := channels } }.putSession g t
  | .claimStale groups =>
    (w.after (claimStale w.state t.entry.name g groups)).putSession g t
  | .unlisted groups =>
    let gone := unlisted w.state t.entry.name g groups
    let calls := gone.map (fun id => Call.userGone id (goneFields id .disconnected)) ++
      groups.map .applyUser
    w.putSession g { t with calls := calls }
  | .userGone id came => (w.after (userGone w.state t.entry.name g id came)).putSession g t
  | .applyUser group =>
    let limit := (w.peers.find? fun p => p.name == t.entry.name).elim 0 PeerEntry.ghosts
    -- A uid no ghost shown has.
    let draw := draw.filter fun uid => !w.core.contains uid
    match applyUser w.state t.entry.name g group limit cfg.maxGhosts w.core.length draw with
    | .ok (s, none) => { w with state := s }.putSession g t
    | .ok (s, some uid) =>
      { w with state := s, core := uid :: w.core, attached := uid :: w.attached }.putSession g t
    | .error _ => w.putSession g t
  | .chat id fields =>
    match chat w.state t.entry.name g id fields with
    | .ok s => { w with state := s }.putSession g t
    | .error _ => w.putSession g t
  | .forward target request feature sender =>
    w.asked g t request.trans fun asker =>
      forward w.state t.entry.name g target request feature sender asker
  | .requester id request =>
    if requester w.state t.entry.name g id then
      w.putSession g { t with calls := Session.moderate cfg.serverId t request ++ t.calls }
    else w.putSession g t
  | .requestFor home request =>
    w.asked g t request.trans fun asker =>
      some ((requestFor w.state home request.ty request.fields (some t.entry.name) asker).mapError
        reasonOf)

/-- A session makes the next of its calls. -/
def go (cfg : Setup) (w : World) (g : Nat) (draw : Option UInt16) : World :=
  match w.sessions.get g with
  | none => w
  | some t =>
    match t.calls with
    | [] => w
    | call :: calls => w.perform cfg g { t with calls := calls } draw call

/-- A session reads its next frame, once its calls are made. -/
def read (cfg : Setup) (w : World) (g : Nat) (f : Frame) : World :=
  match (w.sessions.get g).filter fun t => t.calls.isEmpty with
  | none => w
  | some t =>
    if f.isReply then
      match (t.pending.get f.trans).filter fun _ => t.phase == .established with
      | none => w
      | some asker =>
        (w.putSession g { t with pending := t.pending.drop f.trans }).deliver asker (f.flag != 0)
          f.fields
    else w.putSession g (t.read cfg.ofKey f)

/-- A session that may send what waits in its channel. -/
def sending (w : World) (g : Nat) : Option (Session × Chan) :=
  (w.sessions.get g).bind fun t => (w.state.channels.get g).bind fun c =>
    if t.phase = .established ∧ t.calls = [] then some (t, c) else none

/-- It sends the next thing other links pass on. -/
def pass (w : World) (g : Nat) : World :=
  match w.sending g with
  | none => w
  | some (t, c) =>
    match c.relays with
    | [] => w
    | (_, what) :: rest =>
      let s := { w.state with channels := w.state.channels.set g { c with relays := rest } }
      { w with state := s }.putSession g { t with sent := t.sent ++ [Sent.passed what] }

/-- `wrapping_add(1).max(1)`. -/
def nextTrans (n : UInt32) : UInt32 := if n + 1 = 0 then 1 else n + 1

/-- It sends the next request, unless as many already wait on the peer as it lets wait. -/
def ask (w : World) (g : Nat) : World :=
  match w.sending g with
  | none => w
  | some (t, c) =>
    match c.requests with
    | [] => w
    | r :: rest =>
      let s := { w.state with channels := w.state.channels.set g { c with requests := rest } }
      -- An asker that stopped waiting is no longer owed anything.
      let pending := t.pending.filter fun kv => w.waiting.contains kv.2
      if pending.entries.length < MAX_PENDING then
        let t := { t with
          pending := pending.set t.nextTrans r.reply
          nextTrans := nextTrans t.nextTrans
          sent := t.sent ++ [Sent.request r.ty t.nextTrans r.fields r.reply] }
        { w with state := s }.putSession g t
      else
        ({ w with state := s }.putSession g { t with pending := pending }).deliver r.reply true
          [Field.u16 field.REASON Reason.rateLimited.code]

/-- A session has ended, or been unwound: the hub is told, and its channel is no more. -/
def finish (w : World) (g : Nat) (interrupted : Bool) : World :=
  match (w.sessions.get g).filter fun t => t.phase != .ended with
  | none => w
  | some t =>
    let w := w.after (unregister w.state t.entry.name g interrupted)
    { w with state := { w.state with channels := w.state.channels.drop g } }.putSession g
      { t with phase := .ended, calls := [] }

/-- A slot taken out reaches the core. -/
def part (w : World) (i : Nat) : World :=
  match w.leaving[i]? with
  | none => w
  | some slot => { w with
      leaving := w.leaving.eraseIdx i
      core := w.core.erase slot.uid
      parted := slot.uid :: w.parted }

end World

inductive Op where
  | start (entry : PeerEntry)
  | read (g : Nat) (f : Frame)
  | go (g : Nat) (draw : Option UInt16)
  | pass (g : Nat)
  | ask (g : Nat)
  | ping (g : Nat)
  | finish (g : Nat) (interrupted : Bool)
  | expire (peer : String) (g : Nat)
  | part (i : Nat)
  | suspend (peers : List String)
  | reload (peers : List PeerEntry)
  | shutDown
  /-- Someone here asks the server ghost `uid` is from. -/
  | request (uid : UInt16) (feature ty : UInt32) (build : UInt16 → List Field)
  | requestFor (home : ServerId) (ty : UInt32) (fields : List Field)
  | giveUp (asker : Asker)

def World.asks (w : World) (sent : Asker → Except PeerRefusal State) : World :=
  let asker := Asker.here w.askers
  match sent asker with
  | .ok s => { w with state := s, waiting := asker :: w.waiting, askers := w.askers + 1 }
  | .error _ => w

def step (cfg : Setup) (w : World) : Op → World
  | .start entry =>
    (w.after (register w.state entry.name)).putSession (w.state.generation + 1) { entry := entry }
  | .read g f => w.read cfg g f
  | .go g draw => w.go cfg g draw
  | .pass g => w.pass g
  | .ask g => w.ask g
  | .ping g =>
    (w.sessions.get g).elim w fun t =>
      w.putSession g { t with nextTrans := World.nextTrans t.nextTrans }
  | .finish g interrupted => w.finish g interrupted
  | .expire peer g => w.after (expire w.state peer g)
  | .part i => w.part i
  | .suspend peers => w.after (suspend w.state peers)
  | .reload peers => { w.after (reload w.state w.peers peers) with peers := peers }
  | .shutDown => { w with state := shutDown w.state }
  | .request uid feature ty build => w.asks (request w.state uid feature ty build)
  | .requestFor home ty fields => w.asks (requestFor w.state home ty fields none)
  | .giveUp asker => w.deliver asker true World.unreachable

/-- A run, from a hub that has linked with none of its peers. -/
def run (cfg : Setup) (peers : List PeerEntry) (ops : List Op) : World :=
  ops.foldl (step cfg) { peers := peers }

end HxdNg.Link
