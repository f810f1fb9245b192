import HxdNg.Lib.Bytes

/-!
# A transfer in sealed records

Past its preamble, everything of a sealed transfer is in records: a length, and what the session's
cipher makes of a plaintext.

* `Aead` : the cipher, as far as a transfer calls it;
* `Socket`, `Reader`, `pollRead` : records read off a socket that gives bytes in pieces;
* `Pipe`, `Writer`, `pollWrite`, `pollFlush` : records written to one that takes them in pieces;
* `reads`, `calls` : one after another, a failure the last.

Where a read or a write fails, the transfer ends: what it leaves behind is not said.
-/

namespace HxdNg.Files

def AEAD_LENGTH_PREFIX : Nat := 4
def AEAD_TAG_SIZE : Nat := 16

/-- The most plaintext one incoming record may carry. -/
def MAX_RECORD : Nat := 2 ^ 20

/-- The cipher's state and calls: how long the record is that starts so, a record of a plaintext, and the
plaintext of a record. -/
structure Aead (σ : Type) where
  peekFrameSize : List UInt8 → Option Nat
  sealRecord : σ → List UInt8 → Option (List UInt8 × σ)
  openRecord : σ → List UInt8 → Option (List UInt8 × σ)

inductive Error where
  | impossibleLength
  | tooLarge
  | notAuthentic
  | unexpectedEof
  | doesNotSeal
  | writeZero
  | socket
  deriving DecidableEq

variable {σ : Type} (A : Aead σ)

/-! ## Reading -/

/-- The bytes still to come, and the pieces they come in: nothing yet, or at most so many and one more.
Past the pieces, as many come as are asked for. -/
structure Socket where
  wire : List UInt8
  cuts : List (Option Nat)

/-- Read into `room` bytes: `none` where nothing is there yet, no bytes at the end. -/
def Socket.pollRead (s : Socket) (room : Nat) : Option (List UInt8) × Socket :=
  match s.cuts with
  | [] => (some (s.wire.take room), { s with wire := s.wire.drop room })
  | none :: cuts => (none, { s with cuts })
  | some n :: cuts =>
    (some (s.wire.take (min (n + 1) room)), ⟨s.wire.drop (min (n + 1) room), cuts⟩)

structure Reader (σ : Type) where
  opener : σ
  framed : List UInt8 := []
  filled : Nat := 0
  plain : List UInt8 := []
  read : Nat := 0

/-- A round of the reader: it answers, or goes on. -/
inductive Round (σ : Type) where
  | ready (bytes : List UInt8) (r : Reader σ) (s : Socket)
  | pending (r : Reader σ) (s : Socket)
  | failed (e : Error)
  | again (r : Reader σ) (s : Socket)

/-- How much of the record is to arrive before it is looked at. -/
def need (r : Reader σ) : Except Error Nat :=
  if r.filled < AEAD_LENGTH_PREFIX then .ok AEAD_LENGTH_PREFIX else
  match A.peekFrameSize (r.framed.take r.filled) with
  | none => .error .impossibleLength
  | some size =>
    if size < AEAD_LENGTH_PREFIX + AEAD_TAG_SIZE ∨
        size - (AEAD_LENGTH_PREFIX + AEAD_TAG_SIZE) > MAX_RECORD then .error .tooLarge
    else .ok size

/-- Bytes put into the buffer at its fill mark. -/
def fill (framed : List UInt8) (start : Nat) (bytes : List UInt8) : List UInt8 :=
  framed.take start ++ bytes ++ framed.drop (start + bytes.length)

def round (r : Reader σ) (s : Socket) (room : Nat) : Round σ :=
  if r.read < r.plain.length then
    let n := min (r.plain.length - r.read) room
    .ready ((r.plain.drop r.read).take n) { r with read := r.read + n } s
  else
    match need A r with
    | .error e => .failed e
    | .ok need =>
      if r.filled = need ∧ need > AEAD_LENGTH_PREFIX then
        match A.openRecord r.opener (r.framed.take need) with
        | none => .failed .notAuthentic
        | some (plain, opener) => .again { r with opener, plain, filled := 0, read := 0 } s
      else
        -- grown once a record, with zeros
        let framed := r.framed ++ List.replicate (need - r.framed.length) 0
        match s.pollRead (need - r.filled) with
        | (none, s) => .pending { r with framed } s
        | (some bytes, s) =>
          let r' := { r with framed := fill framed r.filled bytes, filled := r.filled + bytes.length }
          if bytes.length = 0 then
            if r.filled = 0 then .ready [] r' s else .failed .unexpectedEof
          else .again r' s

inductive Polled (σ : Type) where
  | ready (bytes : List UInt8) (r : Reader σ) (s : Socket)
  | pending (r : Reader σ) (s : Socket)
  | failed (e : Error)

/-- One read, of at most so many rounds. -/
def pollRead : Nat → Reader σ → Socket → Nat → Option (Polled σ)
  | 0, _, _, _ => none
  | n + 1, r, s, room =>
    match round A r s room with
    | .ready bytes r s => some (.ready bytes r s)
    | .pending r s => some (.pending r s)
    | .failed e => some (.failed e)
    | .again r s => pollRead n r s room

/-- Rounds enough for one read: each takes bytes off the wire or off the buffer. -/
def rounds (r : Reader σ) (s : Socket) : Nat := 2 * s.wire.length + r.filled + 1

/-- What one read answered. -/
inductive Answer where
  | bytes (b : List UInt8)
  | pending
  | failed (e : Error)
  deriving DecidableEq

/-- Reads one after another, each into a buffer of its own size, up to the first that fails. -/
def reads (r : Reader σ) (s : Socket) : List Nat → Option (List (Nat × Answer))
  | [] => some []
  | room :: rooms =>
    (pollRead A (rounds r s) r s room).bind fun
      | .ready bytes r s => (reads r s rooms).map ((room, .bytes bytes) :: ·)
      | .pending r s => (reads r s rooms).map ((room, .pending) :: ·)
      | .failed e => some [(room, .failed e)]

/-! ## Writing -/

/-- What the socket does with bytes handed to it: nothing yet, takes at most so many, or fails. -/
inductive Taking where
  | pending
  | takes (n : Nat)
  | fails
  deriving DecidableEq

structure Writer (σ : Type) where
  sealer : σ
  pending : List UInt8 := []
  sent : Nat := 0

/-- A socket as it is written to: what it will do, and what it has been handed. Past its doings it is
full. -/
structure Pipe where
  doings : List Taking
  handed : List UInt8 := []

inductive Drained (σ : Type) where
  | done (w : Writer σ) (p : Pipe)
  | pending (w : Writer σ) (p : Pipe)
  | failed (e : Error) (p : Pipe)

/-- Write what is pending, to a socket that will do so. -/
def drainTo (w : Writer σ) (handed : List UInt8) : List Taking → Drained σ
  | [] =>
    if w.sent < w.pending.length then .pending w ⟨[], handed⟩
    else .done { w with pending := [], sent := 0 } ⟨[], handed⟩
  | doing :: doings =>
    if w.sent < w.pending.length then
      match doing with
      | .pending => .pending w ⟨doings, handed⟩
      | .fails => .failed .socket ⟨doings, handed⟩
      | .takes n =>
        let taken := (w.pending.drop w.sent).take n
        if taken.length = 0 then .failed .writeZero ⟨doings, handed⟩
        else drainTo { w with sent := w.sent + taken.length } (handed ++ taken) doings
    else .done { w with pending := [], sent := 0 } ⟨doing :: doings, handed⟩

def drain (w : Writer σ) (p : Pipe) : Drained σ := drainTo w p.handed p.doings

/-- What one write or flush answered: so many bytes accepted, or all written. -/
inductive Written (σ : Type) where
  | ok (n : Nat) (w : Writer σ) (p : Pipe)
  | pending (w : Writer σ) (p : Pipe)
  | failed (e : Error) (p : Pipe)

/-- One record a call, of what fits in one. -/
def pollWrite (w : Writer σ) (p : Pipe) (buf : List UInt8) : Written σ :=
  match drain w p with
  | .pending w p => .pending w p
  | .failed e p => .failed e p
  | .done w p =>
    if buf.isEmpty then .ok 0 w p else
    let n := min buf.length MAX_RECORD
    match A.sealRecord w.sealer (buf.take n) with
    | none => .failed .doesNotSeal p
    | some (record, sealer) =>
      match drain { w with sealer, pending := record } p with
      | .failed e p => .failed e p
      | .pending w p => .ok n w p
      | .done w p => .ok n w p

def pollFlush (w : Writer σ) (p : Pipe) : Written σ :=
  match drain w p with
  | .pending w p => .pending w p
  | .failed e p => .failed e p
  | .done w p => .ok 0 w p

inductive Call where
  | write (buf : List UInt8)
  | flush

def call (w : Writer σ) (p : Pipe) : Call → Written σ
  | .write buf => pollWrite A w p buf
  | .flush => pollFlush w p

/-- What a run of writes and flushes has come to: the bytes accepted a record at a time, whether the last
call was one that left nothing pending, and the socket. -/
structure Ran (σ : Type) where
  accepted : List (List UInt8)
  writer : Option (Writer σ)
  pipe : Pipe

/-- What one call accepted of its bytes. -/
def Call.accepts : Call → Nat → List (List UInt8)
  | .write buf, n => if n = 0 then [] else [buf.take n]
  | .flush, _ => []

/-- Calls one after another, up to the first that fails. -/
def calls (w : Writer σ) (p : Pipe) : List Call → Ran σ
  | [] => ⟨[], some w, p⟩
  | c :: cs =>
    match call A w p c with
    | .failed _ p => ⟨[], none, p⟩
    | .pending w p => calls w p cs
    | .ok n w p =>
      let ran := calls w p cs
      { ran with accepted := c.accepts n ++ ran.accepted }

end HxdNg.Files
