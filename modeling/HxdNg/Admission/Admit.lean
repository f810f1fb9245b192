import HxdNg.Admission.Standing

/-!
# Admission

A verified login admitted: the account it associates with, what it leaves behind, and the calls around it.

* `Server.issueChallenge`, `Server.verifyProof`, `Server.verifyPresentedTo` : steps 1 to 3;
* `Server.linkAtAuth`, `Server.associate`, `Server.admitted` : steps 4 on, up to the writes of `Server.keep`;
* `Server.admitLogin`, `Server.deviceAdmitted`, `Server.admitDevice`, `Server.link`, `Server.accountFor` : the
  entry points;
* `Server.redeem`, `Server.identityForDevice`, `Server.updateCard` : a token spent, a device on file, a card
  replaced.
-/

namespace HxdNg.Admission

open Identity Assoc
open Accounts (AccessBits)

variable {A : Type} (P : Primitives) (canonicalHost : String → Option String) (serverKey : PublicKey)
  (cfg : IdentityConfig) (env : Env A)

/-- A verification error as a refusal; `cardLen` tells which object was too large. -/
def classify (e : Error) (cardLen : Nat) : AuthRefused :=
  match e with
  | .tooLarge => if cardLen > Card.maxBytes then .cardTooLarge else .badCert
  | .challengeMismatch | .clockSkew => .badProof
  | .hostMismatch => .wrongHost
  | .expired | .notYetValid | .capabilityMissing => .badCert
  | .keyMismatch => .badProof
  | _ => .badCard

/-- A login whose certificate, card and proof have verified. -/
structure Verified where
  card : Card
  cert : DeviceCert
  cardBytes : List UInt8
  certBytes : List UInt8

/-- What a client asks for beyond proving its key. -/
structure AuthRequest where
  classic : Option (String × List UInt8)
  downstream : Downstream
  create : Bool
  rotation : Option (List UInt8)

def AuthRequest.plain (downstream : Downstream) : AuthRequest := ⟨none, downstream, true, none⟩

namespace Server

/-! ## Challenges -/

/-- `ch` is drawn. -/
def issueChallenge (s : Server A) (ch : Bytes 32) : Option (Bytes 32) × Server A :=
  let t := { s.tables with sinceSweep := s.tables.sinceSweep + 1 }
  let full : Bool := t.challenges.size ≥ maxChallenges
  let t := if t.sinceSweep ≥ sweepEvery ∨ full ∧ since env.now t.swept ≥ second then
      { t with
        sinceSweep := 0
        swept := env.now
        challenges := t.challenges.filter fun e => since env.now e.2 < ttl }
    else t
  if t.challenges.size ≥ maxChallenges then (none, { s with tables := t })
  else (some ch, { s with
    tables := { t with challenges := t.challenges.set (P.sha256 ch.val) env.now } })

def answersAs (host : Option String) : Bool := (host.bind canonicalHost).any (· ∈ cfg.hosts)

/-- Steps 1 to 3 by challenge, which is spent whatever comes of them. -/
def verifyProof (s : Server A) (card cert proof : List UInt8) (host : Option String) :
    Except AuthRefused Verified × Server A :=
  match LoginProof.parse P canonicalHost proof with
  | .error _ => (.error .badProof, s)
  | .ok p =>
    let key := P.sha256 p.challenge.val
    let spent : Server A :=
      { s with tables := { s.tables with challenges := s.tables.challenges.drop key } }
    if (s.tables.challenges.get key).all fun issued => since env.now issued ≥ ttl then
      (.error .unknownChallenge, spent)
    else if p.host.isNone ∧ ¬ cfg.loginProofV1 then (.error .unsupportedProof, spent)
    else if p.host.isSome ∧ ¬ answersAs canonicalHost cfg host then (.error .wrongHost, spent)
    else if cert.length > DeviceCert.maxBytes then (.error .badCert, spent)
    else
      match verifyLogin P canonicalHost card cert proof ⟨p.challenge, serverKey, host, env.unix, cfg.clockSkew⟩ with
      | .error e => (.error (classify e card.length), spent)
      | .ok (c, dc, _) => (.ok ⟨c, dc, card, cert⟩, spent)

/-- Steps 1 to 3 by client certificate. -/
def verifyPresentedTo (card cert : List UInt8) (device : PublicKey) : Except AuthRefused Verified :=
  if cert.length > DeviceCert.maxBytes then .error .badCert
  else
    match verifyPresented P card cert device env.unix cfg.clockSkew with
    | .error e => .error (classify e card.length)
    | .ok (c, dc) => .ok ⟨c, dc, card, cert⟩

/-! ## What an admission leaves -/

/-- The tables' half: the token, the device and the card. -/
def remember (s : Server A) (ident : TransportIdentity) (token : Option (Bytes 32)) (card : Card)
    (cardBytes : List UInt8) (downstream : Downstream) : Server A :=
  { s with
    tables := { s.tables with
      tokens := token.elim s.tables.tokens fun token =>
        rememberToken s.tables.tokens (P.sha256 token.val) ident env.now maxTokens
      devices := rememberDevice s.tables.devices ident.device
        ⟨ident.deviceCert, ident.identity, ident.deviceExpires, downstream, env.now⟩ env.unix
      cards := rememberCard s.tables.cards ident.fingerprint card cardBytes env.now } }

/-- Anchor a commitment of an identity with standing: an account here, or an accepted attestation. -/
def anchor (s : Server A) (ident : TransportIdentity) (successor : Bytes 32) : Server A :=
  match s.anchors with
  | none => s
  | some anchors =>
    let attested : Bool := ident.handle.isSome && ident.age ≥ cfg.minAttestationAge
    if ident.account.isSome ∨ attested then
      { s with anchors := some (anchors.commit ident.fingerprint successor) }
    else s

/-- The anchor is written after the tables, outside their lock. -/
def keep (s : Server A) (ident : TransportIdentity) (token : Option (Bytes 32)) (card : Card)
    (cardBytes : List UInt8) (downstream : Downstream) : Server A :=
  let s := s.remember P env ident token card cardBytes downstream
  card.successor.elim s (s.anchor cfg ident)

/-! ## Accounts -/

def findLinked (s : Server A) (fp : Fingerprint) : Except AuthRefused (Option Account) :=
  (env.auth.findByFingerprint s.accounts fp).mapError fun _ => .backend

/-- One backend call that reads, decides and writes a link. -/
def linkExclusive (s : Server A) (login : String) (fp : Fingerprint) :
    Except AuthRefused LinkOutcome × Server A :=
  let (outcome, accounts) := env.auth.linkIdentity s.accounts login fp
  (outcome.mapError fun _ => .backend, { s with accounts })

/-- Classic credentials verified, then linked if the account allows it: the account linked, if any, and
whether a link is left to the operator. -/
def linkAtAuth (s : Server A) (fp : Fingerprint) (cert : DeviceCert) (assoc : Association) (login : String)
    (password : List UInt8) : Except AuthRefused (Option Account × Bool) × Server A :=
  match env.auth.authenticate s.accounts login password with
  | .error .backend => (.error .backend, s)
  | .error _ => (.error .loginFailed, s)
  | .ok account =>
    if account.login = "guest" then (.ok (none, false), s)
    else if assoc = .write ∧ env.personBanned (some account.login) none none then (.error .banned, s)
    else if account.fingerprint = some fp then (.ok (some account, false), s)
    else if assoc = .readOnly then (.ok (none, true), s)
    else if ¬ cert.allows caps.manage then (.error .noManage, s)
    else
      -- A link its account would refuse is refused before it is written.
      let writes : Bool := account.fingerprint.isNone && account.hasPassword && account.allowSelfLink
      let linkedYet : Except AuthRefused Bool :=
        if writes ∧ ¬ account.identityLogin then (s.findLinked env fp).map (·.isNone) else .ok false
      match linkedYet with
      | .error e => (.error e, s)
      | .ok true => (.error .denied, s)
      | .ok false =>
        match s.linkExclusive env account.login fp with
        | (.error e, s) => (.error e, s)
        | (.ok (.linked a), s) => (.ok (some a, false), s)
        | (.ok (.already a), s) => (.ok (some a, false), s)
        | (.ok (.taken _), s) => (.error .alreadyLinked, s)
        | (.ok (.refused _), s) => (.ok (none, true), s)

def creationAllowed (s : Server A) : Bool × Server A :=
  match cfg.maxNewAccountsPerHour with
  | none => (true, s)
  | some limit =>
    let created := s.tables.created.filter fun at_ => since env.now at_ < 3600 * second
    (created.length < limit, { s with tables := { s.tables with created } })

/-- Count one account against the hour's ceiling. -/
def chargeCreation (s : Server A) : Server A :=
  if cfg.maxNewAccountsPerHour.isSome then
    { s with tables := { s.tables with created := s.tables.created ++ [env.now] } }
  else s

/-- The first digits of the display form. -/
def short (fp : Fingerprint) : String := String.ofList (fp.toText.toList.take 8)

/-- An account made for an identity, or the one it links after all. -/
def create (s : Server A) (standing : Standing) (card : Card) :
    Except AuthRefused (Outcome × Option String) × Server A :=
  match s.creationAllowed cfg env with
  | (false, s) => (.ok (.guest, none), s)
  | (true, s) =>
    let proposed := match standing.handle with
      | some h => String.ofList (h.toList.takeWhile (· ≠ '@'))
      | none => "id-" ++ short standing.fingerprint
    let access := match cfg.defaultAccess with
      | some a => a
      | none => match env.auth.find s.accounts "" with
        | .ok g => g.access
        | .error _ => 0
    match env.auth.findOrCreateLinked s.accounts proposed card.name standing.fingerprint access with
    | (.error _, accounts) => (.error .backend, { s with accounts })
    | (.ok (created, isNew), accounts) =>
      let s : Server A := { s with accounts }
      if isNew then (.ok (.created, some created.login), s.chargeCreation cfg env)
      else (.ok (.linked, some created.login), s)

/-- The account an identity associates with: a link, else the policy for new accounts. -/
def associate (s : Server A) (standing : Standing) (card : Card) (cert : DeviceCert) (req : AuthRequest)
    (assoc : Association) : Except AuthRefused (Outcome × Option String) × Server A :=
  let atAuth : Except AuthRefused (Option Account × Bool) × Server A := match req.classic with
    | none => (.ok (none, false), s)
    | some (login, password) => s.linkAtAuth env standing.fingerprint cert assoc login password
  match atAuth with
  | (.error e, s) => (.error e, s)
  | (.ok (linked, pending), s) =>
    let linked : Except AuthRefused (Option Account) := match linked with
      | some a => .ok (some a)
      | none => s.findLinked env standing.fingerprint
    match linked with
    | .error e => (.error e, s)
    | .ok (some a) =>
      if a.identityLogin then (.ok (.linked, some a.login), s) else (.error .denied, s)
    | .ok none =>
      -- `deny` is decided before any of the guest fallbacks.
      if cfg.newAccounts = .deny then (.error .denied, s)
      else if pending then (.ok (.classicPendingLink, none), s)
      else if ¬ standing.attested ∧ cfg.unattested = .guest then (.ok (.unattestedGuest, none), s)
      else if assoc = .readOnly then (.ok (.guest, none), s)
      else if cfg.newAccounts = .guest then (.ok (.guest, none), s)
      else if req.classic.isSome ∨ ¬ req.create then (.ok (.guest, none), s)
      else s.create cfg env standing card

/-- When a key nobody here answers for may first chat, message or post. -/
def quietUntil (standing : Standing) (account : Option String) : Option UInt64 :=
  if cfg.newcomerDelay > 0 ∧ standing.handle.isNone ∧ account.isNone then
    let until_ := satAdd (env.firstSeen standing.fingerprint env.unix) cfg.newcomerDelay
    if until_ > env.unix then some until_ else none
  else none

/-- An admission up to what it leaves behind. -/
def admitted (s : Server A) (v : Verified) (req : AuthRequest) (assoc : Association) :
    Except AuthRefused TransportIdentity × Server A :=
  match s.standing P cfg env v.card v.cert req.rotation assoc with
  | (.error e, s) => (.error e, s)
  | (.ok standing, s) =>
    match s.associate cfg env standing v.card v.cert req assoc with
    | (.error e, s) => (.error e, s)
    | (.ok (outcome, account), s) =>
      (.ok {
        identity := v.card.identity
        device := v.cert.device
        fingerprint := standing.fingerprint
        handle := standing.handle
        age := standing.age
        outcome
        deviceCaps := v.cert.caps
        deviceExpires := v.cert.expires
        deviceCert := v.certBytes
        deviceEnc := v.cert.deviceEnc
        account
        downstreamCleartext := req.downstream = .cleartext
        quietUntil := quietUntil cfg env standing account }, s)

/-- A token only for a fresh auth, drawn; re-admitting a device on file draws none. -/
def admitLogin (s : Server A) (v : Verified) (req : AuthRequest) (assoc : Association) (drawn : Bytes 32) :
    Except AuthRefused (Option (Bytes 32) × TransportIdentity) × Server A :=
  match s.admitted P cfg env v req assoc with
  | (.error e, s) => (.error e, s)
  | (.ok ident, s) =>
    let token := if assoc = .write then some drawn else none
    (.ok (token, ident), s.keep P cfg env ident token v.card v.cardBytes req.downstream)

/-! ## A device proved on a classic session -/

/-- The account a device proof goes with: the one that links the identity now, or one it links. -/
def proofAccount (s : Server A) (fp : Fingerprint) (cert : DeviceCert) (login : String)
    (cardShown encrypted : Bool) : Except AuthRefused Account × Server A :=
  match env.auth.find s.accounts login with
  | .error _ => (.error .backend, s)
  | .ok account =>
    match account.fingerprint with
    | some f => if f = fp then (.ok account, s) else (.error .notLinked, s)
    | none =>
      if ¬ cardShown then (.error .notLinked, s)
      else if account.login = "guest" then (.error .guestLink, s)
      else if ¬ cert.allows caps.manage then (.error .noManage, s)
      else if ¬ encrypted then (.error .denied, s)
      else if ¬ account.identityLogin then (.error .denied, s)
      else if env.personBanned (some account.login) none none then (.error .banned, s)
      else
        match s.linkExclusive env account.login fp with
        | (.error e, s) => (.error e, s)
        | (.ok (.linked a), s) => (.ok a, s)
        | (.ok (.already a), s) => (.ok a, s)
        | (.ok (.taken _), s) => (.error .alreadyLinked, s)
        | (.ok (.refused _), s) => (.error .denied, s)

/-- Admitting a device to a classic session, up to what it leaves behind. -/
def deviceAdmitted (s : Server A) (v : Verified) (login : String) (cardShown encrypted : Bool) :
    Except AuthRefused TransportIdentity × Server A :=
  match s.standing P cfg env v.card v.cert none .write with
  | (.error e, s) => (.error e, s)
  | (.ok standing, s) =>
    match s.proofAccount env standing.fingerprint v.cert login cardShown encrypted with
    | (.error e, s) => (.error e, s)
    | (.ok account, s) =>
      if ¬ account.identityLogin then (.error .denied, s)
      else
        (.ok {
          identity := v.card.identity
          device := v.cert.device
          fingerprint := standing.fingerprint
          handle := standing.handle
          age := standing.age
          outcome := .linked
          deviceCaps := v.cert.caps
          deviceExpires := v.cert.expires
          deviceCert := v.certBytes
          deviceEnc := v.cert.deviceEnc
          account := some account.login
          downstreamCleartext := false
          quietUntil := none }, s)

def admitDevice (s : Server A) (v : Verified) (login : String) (cardShown encrypted : Bool) :
    Except AuthRefused TransportIdentity × Server A :=
  match s.deviceAdmitted P cfg env v login cardShown encrypted with
  | (.error e, s) => (.error e, s)
  | (.ok ident, s) => (.ok ident, s.keep P cfg env ident none v.card v.cardBytes .loopback)

/-! ## Linking after auth, and the upgrade -/

/-- The password verified, then the link written if the account allows it. -/
def link (s : Server A) (ident : TransportIdentity) (login : String) (password : List UInt8) :
    Except AuthRefused Account × Server A :=
  if ¬ ident.allows caps.manage then (.error .noManage, s)
  else
    match env.auth.authenticate s.accounts login password with
    | .error .backend => (.error .backend, s)
    | .error _ => (.error .loginFailed, s)
    | .ok account =>
      if account.login = "guest" then (.error .guestLink, s)
      else if env.personBanned (some account.login) (some ident.fingerprint) ident.handle then
        (.error .banned, s)
      else
        match s.linkExclusive env account.login ident.fingerprint with
        | (.error e, s) => (.error e, s)
        | (.ok (.linked a), s) => (.ok a, s)
        | (.ok (.already a), s) => (.ok a, s)
        | (.ok (.taken _), s) => (.error .alreadyLinked, s)
        | (.ok (.refused _), s) => (.error .denied, s)

/-- The account an application login lands on, re-read; none is the guest. -/
def accountFor (s : Server A) (ident : TransportIdentity) : Except AuthRefused (Option Account) :=
  match s.findLinked env ident.fingerprint with
  | .error e => .error e
  | .ok (some a) => if a.identityLogin then .ok (some a) else .error .denied
  | .ok none => if cfg.newAccounts = .deny then .error .denied else .ok none

/-! ## Tokens and devices on file -/

/-- Redeem a token, spending it when `consume`. One whose key was revoked dies here. -/
def redeem (s : Server A) (token : List UInt8) (consume : Bool) : Option TransportIdentity × Server A :=
  let key := P.sha256 token
  let removed : Server A := { s with tables := { s.tables with tokens := s.tables.tokens.drop key } }
  match s.tables.tokens.get key with
  | none => (none, removed)
  | some (ident, issued) =>
    if since env.now issued ≥ ttl then (none, removed)
    else if s.refused.isRevoked ident.fingerprint (Fingerprint.of P ident.device) then (none, removed)
    else if consume then (some ident, removed)
    else (some ident, s)

/-- A device on file, with its card, as its key is shown again. The sum is a machine word's. -/
def deviceOnFile (s : Server A) (device : PublicKey) : Option (Verified × Downstream) :=
  (s.tables.devices.get device).bind fun rec =>
    if rec.expires + cfg.clockSkew < env.unix then none
    else
      (s.tables.cards.get (Fingerprint.of P rec.identity)).bind fun entry =>
        match verifyPresented P entry.bytes rec.cert device env.unix cfg.clockSkew with
        | .error _ => none
        | .ok (card, cert) => some (⟨card, cert, entry.bytes, rec.cert⟩, rec.downstream)

/-- It needs no token while its certificate is valid: it is re-admitted, read-only. -/
def identityForDevice (s : Server A) (device : PublicKey) : Option TransportIdentity × Server A :=
  match s.deviceOnFile P cfg env device with
  | none => (none, s)
  | some (v, downstream) =>
    match s.admitted P cfg env v (.plain downstream) .readOnly with
    | (.error _, s) => (none, s)
    | (.ok ident, s) => (some ident, s.keep P cfg env ident none v.card v.cardBytes downstream)

/-! ## A card replaced -/

/-- The checks of a card update. -/
def cardChecked (s : Server A) (ident : TransportIdentity) (bytes : List UInt8) : Except AuthRefused Card :=
  match Card.parse P bytes with
  | .error e => .error (classify e bytes.length)
  | .ok card =>
    if card.identity ≠ ident.identity then .error .badCard
    else if successorChanged (s.committedSuccessor ident.fingerprint) card then .error .badCard
    else .ok card

/-- Its write: the cached card, unless it is as new. -/
def replaceCard (s : Server A) (ident : TransportIdentity) (card : Card) (bytes : List UInt8) :
    Bool × Server A :=
  if (s.tables.cards.get ident.fingerprint).any fun e => card.updated ≤ e.updated then (false, s)
  else (true, { s with
    tables := { s.tables with
      cards := rememberCard s.tables.cards ident.fingerprint card bytes env.now } })

def updateCard (s : Server A) (ident : TransportIdentity) (bytes : List UInt8) :
    Except AuthRefused Bool × Server A :=
  match s.cardChecked P ident bytes with
  | .error e => (.error e, s)
  | .ok card =>
    match s.replaceCard env ident card bytes with
    | (false, s) => (.ok false, s)
    | (true, s) => (.ok true, card.successor.elim s (s.anchor cfg ident))

end Server

end HxdNg.Admission
