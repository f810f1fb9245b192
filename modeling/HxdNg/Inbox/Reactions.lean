import Mathlib
import HxdNg.Inbox.Store
import HxdNg.Lib.Bytes

/-!
# Reactions on a stored private message

Kept by the message store, and seen by each party on its own side's terms: the recipient through the
row while it lives, and either through row or stub while the sender's window holds.

* `Inner.parties`, `Parties.seenBy` : who a message is between, and whether one of them sees it;
* `Inner.reactMessage`, `messageReactions`, `forgetMessageReactions` : the store's calls;
* `reactPm`, `pmAnnounce`, `forgetPmReactions` : the server's, with the events each session is given.

Who may react at all, the rate and the blocks between two accounts are asked elsewhere, and are inputs.
-/

namespace HxdNg.History

/-- The kind byte of an emoji. -/
def emojiKind : UInt8 := 1

def ReactionKey.pack : ReactionKey → List UInt8
  | .emoji s => emojiKind :: utf8 s

/-- The packed bytes back, or none for bytes it never wrote. -/
def ReactionKey.unpack : List UInt8 → Option ReactionKey
  | kind :: rest => if kind = emojiKind then (fromUtf8 rest).map .emoji else none
  | [] => none

end HxdNg.History

namespace HxdNg.Inbox

open Relationships History Assoc
open Identity (Fingerprint)

/-- Who a stored private message is between. -/
structure Parties where
  recipient : Mailbox
  sender : Option Mailbox
  deriving DecidableEq

/-- These parties, if `who` is one of them on its side's terms. -/
def Parties.seenBy (p : Parties) (who : Mailbox) (row : Bool) (sentAt openSince : SystemTime) :
    Option Parties :=
  let isOpen : Bool := openSince ≤ sentAt
  let recipient := is p.recipient who && (row || isOpen)
  let sender := isOpen && p.sender.any (is · who)
  if recipient || sender then some p else none

/-- The party that is not `who`. -/
def Parties.other (p : Parties) (who : Mailbox) : Option Mailbox :=
  if is p.recipient who then p.sender else some p.recipient

/-- A message's rows, as packed keys and who made them, read into what a reader is shown. -/
def shownOf (rows : List (List UInt8 × String)) (reader : Option String) : Reactions :=
  summarize (rows.filterMap fun r => (ReactionKey.unpack r.1).map (·, r.2.toList))
    (reader.map String.toList)

/-- A stored private message's reactions and its parties, for telling whoever may hear it. -/
structure MessageState where
  reference : MessageRef
  recipient : Mailbox
  sender : Option Mailbox
  sentAt : SystemTime
  delivered : Bool
  row : Bool
  keys : List (ReactionKey × Nat)
  held : List (String × ReactionKey)
  deriving DecidableEq

structure MessageReactAct where
  reference : MessageRef
  who : Mailbox
  nick : String
  key : ReactionKey
  add : Bool
  at_ : SystemTime
  openSince : SystemTime
  maxKeys : Nat
  maxPerUser : Nat

inductive MessageReacted where
  | applied (state : MessageState)
  | held
  | dropped

namespace Inner

variable (s : Inner)

/-- The parties of the private message `r` names, when it was sent, whether a row holds it rather than
a stub, and whether it was delivered. -/
def parties (r : MessageRef) : Option (Parties × SystemTime × Bool × Bool) :=
  match s.msgs.find? fun m => m.reference = r with
  | some m =>
    if isPrivate m then some (⟨m.recipient, m.sender⟩, m.sentAt, true, m.deliveredAt.isSome) else none
  | none => (s.stubs.find? fun t => t.reference = r).map fun t =>
      (⟨t.recipient, t.sender⟩, t.sentAt, false, true)

def seen (r : MessageRef) (who : Mailbox) (openSince : SystemTime) : Option Parties := do
  let (parties, sentAt, row, _) ← s.parties r
  parties.seenBy who row sentAt openSince

/-- The reactions on a message, in the order they were made. -/
def on (r : MessageRef) : List Reaction := s.reactions.filter fun x => x.reference = r

def rows (r : MessageRef) : List (List UInt8 × String) := (s.on r).map fun x => (x.key, x.reactor)

def state (r : MessageRef) : Option MessageState := do
  let (parties, sentAt, row, delivered) ← s.parties r
  return {
    reference := r
    recipient := parties.recipient
    sender := parties.sender
    sentAt
    delivered
    row
    keys := (shownOf (s.rows r) none).keys
    held := (s.rows r).filterMap fun x => (ReactionKey.unpack x.1).map (x.2, ·) }

def messageParty (r : MessageRef) (who : Mailbox) (openSince : SystemTime) : Option Parties :=
  s.seen r who openSince

/-- Whether a party may add its key: the message has it or room for one more, and the account room
for one of its own. -/
def hasRoom (act : MessageReactAct) : Bool :=
  let on := s.on act.reference
  let keys := (on.map (·.key)).dedup
  (keys.contains act.key.pack || keys.length < act.maxKeys) &&
    on.countP (·.reactor = reactorKey act.who) < act.maxPerUser

/-- The rows an act leaves. -/
def reactedRows (act : MessageReactAct) : List Reaction :=
  if act.add then
    s.reactions ++ [⟨act.reference, act.key.pack, reactorKey act.who, act.nick, act.at_⟩]
  else s.reactions.filter fun x =>
    ¬ (x.reference = act.reference ∧ x.key = act.key.pack ∧ x.reactor = reactorKey act.who)

def reactMessage (act : MessageReactAct) : MessageReacted × Inner :=
  match s.seen act.reference act.who act.openSince with
  | none => (.dropped, s)
  | some _ =>
    let held := (s.on act.reference).any fun x => x.key = act.key.pack ∧ x.reactor = reactorKey act.who
    if act.add = held then (.held, s)
    else if act.add ∧ ¬ s.hasRoom act then (.dropped, s)
    else
      let s' : Inner := { s with reactions := s.reactedRows act }
      -- A party's message has a state.
      ((s'.state act.reference).elim .dropped .applied, s')

/-- What is shown of one message to a party that sees it, where it has any reactions. -/
def messageReactions (r : MessageRef) (reader : Mailbox) (openSince : SystemTime) : Option Reactions :=
  (s.seen r reader openSince).bind fun _ =>
    let shown := shownOf (s.rows r) (some (reactorKey reader))
    if shown.keys.isEmpty then none else some shown

/-- Every reaction `who` made since `since` taken, and the messages they were on. -/
def forgetMessageReactions (who : Mailbox) (since : SystemTime) : List MessageRef × Inner :=
  let gone (x : Reaction) : Bool := x.reactor = reactorKey who ∧ since ≤ x.at_
  (sortBy (·.val) ((s.reactions.filter gone).map (·.reference)).eraseDups,
    { s with reactions := s.reactions.filter fun x => ¬ gone x })

end Inner

/-! ## The server -/

structure ReactionPolicy where
  maxKeys : Nat
  maxPerUser : Nat
  liveWindow : Nat

structure UserSession where
  uid : Nat
  login : String
  identity : Option Fingerprint
  nick : String
  isPerson : Bool
  system : Bool
  sendChat : Bool
  reactions : Bool
  deriving DecidableEq

def UserSession.mailbox (s : UserSession) : Mailbox := ⟨s.login, s.identity⟩

/-- A message's reactions as they now stand, and which of the keys are the reader's. -/
structure Summary where
  target : MessageRef
  keys : List (ReactionKey × Nat)
  mine : List Nat
  deriving DecidableEq

/-- One event to one session. -/
structure ReactionsChanged where
  uid : Nat
  changes : List Summary
  deriving DecidableEq

inductive ReactError where
  | notAllowed
  | rateLimited
  deriving DecidableEq

/-- The most messages one announcement event names. -/
def pmTold : Nat := 50

/-- The earliest time a clock holds. -/
def firstTime : SystemTime := -9223372036854775808 * 1000000000

/-- `now` less a period, or the epoch where the clock holds no such time. -/
def backFrom (now : SystemTime) (period : Duration) : SystemTime :=
  if now - period < firstTime then 0 else now - period

/-- The earliest time sent still inside a sender's window. -/
def pmOpenSince (now : SystemTime) (unread : Duration) : SystemTime := backFrom now unread

/-- A session that hears stored messages' reactions at all. -/
def pmReader (s : UserSession) : Bool := s.isPerson && s.reactions

/-- Does a session hear a message's reactions change? The recipient's once it was handed over, through
a stub only inside the sender's window; the sender's until the window ends. -/
def pmHears (s : UserSession) (m : MessageState) (openSince : SystemTime) : Bool :=
  let is (p : Mailbox) : Bool := p.matches s.login s.identity
  pmReader s &&
    if is m.recipient then m.delivered && (m.row || openSince ≤ m.sentAt)
    else openSince ≤ m.sentAt && m.sender.any is

/-- A message's state as a reader is told it. -/
def MessageState.summary (m : MessageState) (me : String) : Summary where
  target := m.reference
  keys := m.keys
  mine := (m.keys.zipIdx.filter fun k => m.held.any fun h => h.1 = me ∧ h.2 = k.1.1).map fun k => k.2 % 256

/-- Each session but `except` that hears any of `states` told them in one event. -/
def pmTell (roster : List UserSession) (states : List MessageState) (openSince : SystemTime)
    (except : Option Nat) : List ReactionsChanged :=
  (roster.filter fun s => except ≠ some s.uid).filterMap fun s =>
    let heard := states.filter fun m => pmHears s m openSince
    if heard.isEmpty then none
    else some ⟨s.uid, heard.map fun m => m.summary (Inner.reactorKey s.mailbox)⟩

/-- `xs` in runs of `k`, the last one shorter. -/
def chunks {α : Type*} (k : Nat) : (fuel : Nat) → List α → List (List α)
  | 0, _ => []
  | fuel + 1, xs => if xs.isEmpty then [] else xs.take k :: chunks k fuel (xs.drop k)

/-- The newest first, by when they were sent and then by reference. -/
def newestFirst (states : List MessageState) : List MessageState :=
  sortBy (fun m => OrderDual.toDual (toLex (m.sentAt, m.reference.val))) states

/-- Tell the newest of `refs`, at most a live window of them, to whoever hears each. -/
def pmAnnounce (policy : ReactionPolicy) (unread : Duration) (s : Inner) (roster : List UserSession)
    (refs : List MessageRef) (now : SystemTime) : List ReactionsChanged :=
  let states := (newestFirst ((sortBy (·.val) refs).dedup.filterMap s.state)).take policy.liveWindow
  let openSince := pmOpenSince now unread
  (chunks pmTold states.length states).flatMap fun told => pmTell roster told openSince none

/-- A purge's half on stored messages: `who`'s reactions of the last `within`. -/
def forgetPmReactions (policy : ReactionPolicy) (unread : Duration) (s : Inner)
    (roster : List UserSession) (who : Mailbox) (within : Duration) (now told : SystemTime) :
    List ReactionsChanged × Inner :=
  let (lost, s') := s.forgetMessageReactions who (backFrom now within)
  (pmAnnounce policy unread s' roster lost told, s')

/-- One account's reaction to a stored message, `now` when it is let in and `at_` when it is made. -/
structure PmReaction where
  uid : Nat
  reference : MessageRef
  key : ReactionKey
  add : Bool
  limited : Bool
  blocked : Mailbox → Mailbox → Bool
  now : SystemTime
  at_ : SystemTime

/-- The account's act on the store, unless the message is not its own on its side's terms or a block
stands between the two. -/
def PmReaction.act (a : PmReaction) (policy : ReactionPolicy) (unread : Duration) (s : Inner)
    (sess : UserSession) : Option MessageReactAct := do
  let who := sess.mailbox
  let openSince := pmOpenSince a.now unread
  let parties ← s.messageParty a.reference who openSince
  if (parties.other who).any fun other => a.blocked who other || a.blocked other who then none
  else some {
    reference := a.reference
    who
    nick := sess.nick
    key := a.key
    add := a.add
    at_ := a.at_
    openSince
    maxKeys := policy.maxKeys
    maxPerUser := policy.maxPerUser }

/-- What the server does for a session that may react. -/
def PmReaction.apply (a : PmReaction) (policy : ReactionPolicy) (unread : Duration) (s : Inner)
    (roster : List UserSession) (sess : UserSession) : List ReactionsChanged × Inner :=
  match a.act policy unread s sess with
  | none => ([], s)
  | some act =>
    match s.reactMessage act with
    | (.applied state, s') => (pmTell roster [state] act.openSince (some a.uid), s')
    | (_, s') => ([], s')

/-- Past who may react and the rate, every outcome is answered as an applied reaction is. -/
def reactPm (policy : ReactionPolicy) (unread : Duration) (s : Inner) (roster : List UserSession)
    (a : PmReaction) : Except ReactError Unit × List ReactionsChanged × Inner :=
  match roster.find? fun x => x.uid = a.uid with
  | none => (.error .notAllowed, [], s)
  | some sess =>
    if ¬ sess.isPerson ∨ sess.system ∨ ¬ sess.sendChat then (.error .notAllowed, [], s)
    else if a.limited then (.error .rateLimited, [], s)
    else (.ok (), a.apply policy unread s roster sess)

end HxdNg.Inbox
