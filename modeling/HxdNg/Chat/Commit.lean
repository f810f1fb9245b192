import HxdNg.History.Log
import HxdNg.Lib.LeadTurns

/-!
# Committing a room's public lines

Callers queue lines for one room; whoever leads commits up to `COMMIT_BATCH` of them together and
hands the lead to the line at the head of the queue.

* `ChatError` : why a chat operation is refused;
* `ChatCommit.queue` : how `submit_all` and `lead` take turns, over `LeadQueue`.
-/

namespace HxdNg.Chat

open History LeadQueue

inductive ChatError where
  | noSuchUser | noSuchChat | notAMember | alreadyThere | wrongPassword | mailboxFull | sendQuota
  | tooManyChats | blocked | noInbox | noSuchMedia | flooding | readOnly | signatureRequired
  | equivocation | signedElsewhere | noIdentity | notFriends | requestFull | rosterFull
  | unknownCursor | replyScope | serverError
  deriving DecidableEq

/-- What a line comes to: its id, where the server keeps a log. -/
abbrev Posted := Except ChatError (Option LineId)

/-- The most public lines one commit takes. -/
def COMMIT_BATCH : Nat := 256

/-- The next line waiting leads the next commit. Every line queued has a caller, and `lead` hands
the lead on before it looks whether it has its own answer. -/
def ChatCommit.handOn (_ : Nat → Bool) (queue : List Nat) (_ : Bool) : Next :=
  match queue.head? with
  | some next => .lead next
  | none => .rest

/-- A commit that panics answers each of its lines a server error, and the panic goes on its way
once the caller that led it has an answer for every line of its own. -/
def ChatCommit.queue : Policy Posted where
  max := COMMIT_BATCH
  failed := .error .serverError
  raises := true
  posts := false
  handOn := ChatCommit.handOn

theorem ChatCommit.lawful : ChatCommit.queue.Lawful where
  max_pos := by decide
  lead p q mine i hp hn := by
    replace hn : ChatCommit.handOn p q mine = .lead i := hn
    cases q with
    | nil => cases hn
    | cons x q =>
      obtain rfl := Next.lead.inj hn
      exact List.find?_cons_of_pos (hp rfl x)
  rest p q mine _ hn := by
    replace hn : ChatCommit.handOn p q mine = .rest := hn
    cases q with
    | nil => rfl
    | cons x q => cases hn
  patient := .inl rfl

end HxdNg.Chat
