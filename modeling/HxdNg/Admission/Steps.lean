import HxdNg.Admission.Changes

/-!
# A server admitting

Logins proved, admissions and card updates in flight, and a step for each of what goes on at once. An
admission is three steps, its checks, the write of its tables and that of its anchor; a card update is
three too.

* `World`, `Act`, `World.step`, `World.run` : the state and its steps;
* `World.start` : a server just started on a successor file.
-/

namespace HxdNg.Admission

open Identity Assoc

variable {A : Type} (P : Primitives) (canonicalHost : String → Option String) (serverKey : PublicKey)
  (cfg : IdentityConfig)

/-- An admission whose checks passed, before its writes. -/
structure Pending where
  ident : TransportIdentity
  token : Option (Bytes 32)
  card : Card
  cardBytes : List UInt8
  downstream : Downstream

/-- A card update whose checks passed, before its writes. -/
structure Update where
  ident : TransportIdentity
  card : Card
  bytes : List UInt8

/-- What happened to a challenge or a token, by its digest, and when. -/
inductive Event where
  | issued (challenge : Bytes 32) (at_ : Instant)
  | accepted (challenge : Bytes 32) (at_ : Instant)
  | minted (token : Bytes 32) (ident : TransportIdentity) (at_ : Instant)
  | redeemed (token : Bytes 32) (ident : TransportIdentity) (at_ : Instant)
  | consumed (token : Bytes 32) (ident : TransportIdentity) (at_ : Instant)
  deriving DecidableEq

structure World (A : Type) where
  server : Server A
  verified : List Verified
  admitted : List Pending
  anchoring : List (TransportIdentity × Bytes 32)
  known : List TransportIdentity
  updates : List Update
  log : List Event

inductive Op (A : Type) where
  | issueChallenge (drawn : Bytes 32)
  | verifyProof (card cert proof : List UInt8) (host : Option String)
  | verifyPresented (card cert : List UInt8) (device : PublicKey)
  | admitLogin (i : Nat) (req : AuthRequest) (drawn : Bytes 32)
  | admitDevice (i : Nat) (login : String) (cardShown encrypted : Bool)
  | identityForDevice (device : PublicKey)
  | remember (i : Nat)
  | anchor (i : Nat)
  | checkCard (i : Nat) (bytes : List UInt8)
  | replaceCard (i : Nat)
  | redeem (token : List UInt8) (consume : Bool)
  | publishRotation (from_ to_ : Fingerprint)
  | revoke (refused : Refused)
  | evictCard (fp : Fingerprint)
  | changeAccounts (accounts : A)

/-- An operation, and what it reads of the world outside. -/
structure Act (A : Type) where
  env : Env A
  op : Op A

namespace World

/-- An admission's checks, and where they pass what is pending. -/
def check (w : World A) (card : Card) (cardBytes : List UInt8) (token : Option (Bytes 32))
    (downstream : Downstream) : Except AuthRefused TransportIdentity × Server A → World A
  | (.error _, server) => { w with server }
  | (.ok ident, server) =>
    { w with server, admitted := ⟨ident, token, card, cardBytes, downstream⟩ :: w.admitted }

def step (w : World A) (act : Act A) : World A :=
  let env := act.env
  let s := w.server
  match act.op with
  | .issueChallenge drawn =>
    match s.issueChallenge P env drawn with
    | (none, server) => { w with server }
    | (some ch, server) => { w with server, log := .issued (P.sha256 ch.val) env.now :: w.log }
  | .verifyProof card cert proof host =>
    match s.verifyProof P canonicalHost serverKey cfg env card cert proof host with
    | (.error _, server) => { w with server }
    | (.ok v, server) =>
      { w with
        server
        verified := v :: w.verified
        log := ((LoginProof.parse P canonicalHost proof).toOption.map fun p =>
          .accepted (P.sha256 p.challenge.val) env.now).toList ++ w.log }
  | .verifyPresented card cert device =>
    match Server.verifyPresentedTo P cfg env card cert device with
    | .error _ => w
    | .ok v => { w with verified := v :: w.verified }
  | .admitLogin i req drawn =>
    match w.verified[i]? with
    | none => w
    | some v =>
      { w with verified := w.verified.eraseIdx i }.check v.card v.cardBytes (some drawn) req.downstream
        (s.admitted P cfg env v req .write)
  | .admitDevice i login cardShown encrypted =>
    match w.verified[i]? with
    | none => w
    | some v =>
      { w with verified := w.verified.eraseIdx i }.check v.card v.cardBytes none .loopback
        (s.deviceAdmitted P cfg env v login cardShown encrypted)
  | .identityForDevice device =>
    match s.deviceOnFile P cfg env device with
    | none => w
    | some (v, downstream) =>
      w.check v.card v.cardBytes none downstream (s.admitted P cfg env v (.plain downstream) .readOnly)
  | .remember i =>
    match w.admitted[i]? with
    | none => w
    | some p =>
      { w with
        server := s.remember P env p.ident p.token p.card p.cardBytes p.downstream
        admitted := w.admitted.eraseIdx i
        anchoring := (p.card.successor.map fun x => (p.ident, x)).toList ++ w.anchoring
        known := p.ident :: w.known
        log := (p.token.map fun t => .minted (P.sha256 t.val) p.ident env.now).toList ++ w.log }
  | .anchor i =>
    match w.anchoring[i]? with
    | none => w
    | some (ident, x) => { w with server := s.anchor cfg ident x, anchoring := w.anchoring.eraseIdx i }
  | .checkCard i bytes =>
    match w.known[i]? with
    | none => w
    | some ident =>
      match s.cardChecked P ident bytes with
      | .error _ => w
      | .ok card => { w with updates := ⟨ident, card, bytes⟩ :: w.updates }
  | .replaceCard i =>
    match w.updates[i]? with
    | none => w
    | some u =>
      match s.replaceCard env u.ident u.card u.bytes with
      | (false, server) => { w with server, updates := w.updates.eraseIdx i }
      | (true, server) =>
        { w with
          server
          updates := w.updates.eraseIdx i
          anchoring := (u.card.successor.map fun x => (u.ident, x)).toList ++ w.anchoring }
  | .redeem token consume =>
    match s.redeem P env token consume with
    | (none, server) => { w with server }
    | (some ident, server) =>
      let key := P.sha256 token
      { w with
        server
        known := ident :: w.known
        log := (if consume then .consumed key ident env.now else .redeemed key ident env.now) :: w.log }
  | .publishRotation from_ to_ => { w with server := s.acceptRotation P env from_ to_ }
  | .revoke refused => { w with server := { s with refused := { refused with rotated := s.refused.rotated } } }
  | .evictCard fp =>
    { w with server := { s with tables := { s.tables with cards := s.tables.cards.drop fp } } }
  | .changeAccounts accounts => { w with server := { s with accounts } }

def run (w : World A) : List (Act A) → World A
  | [] => w
  | act :: acts => (w.step P canonicalHost serverKey cfg act).run acts

/-- A server just started: nothing in its tables, the keys its file rotated refused, and the moves of
those rotations finished as far as they go. -/
def start (env : Env A) (anchors : Option Anchors) (refused : Refused) (accounts : A) : World A where
  server := ({
    tables := {}
    anchors
    refused := { refused with rotated := anchors.elim [] (·.rotated.keys) }
    accounts } : Server A).finishRotations env none
  verified := []
  admitted := []
  anchoring := []
  known := []
  updates := []
  log := []

end World

end HxdNg.Admission
