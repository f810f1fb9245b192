import Mathlib

/-!
# HOPE, the secure login, on the classic wire

The adaptors a connection's socket halves run through, which pass bytes as they are until a HOPE login
agrees a transport, and encode and decode them from then on.

* `Coder` : the transport's two ends, as far as the halves call them;
* `Slots`, `Slots.install` : where a transport goes once it is agreed;
* `HopeRead`, `pollRead` : the reading half;
* `HopeWrite`, `progress`, `pollWrite` : the writing half, which reports a buffer written as its encoding goes;
* `World`, `Op`, `step` : a connection's halves, their socket, and what its reader and its writer do.

A transport that cannot encode or decode is the end of that half: what it leaves behind is not said.
-/

namespace HxdNg.Hope

/-- What a buffer is encoded to and what bytes off the wire decode to, each with the state it leaves. -/
structure Coder (S R : Type) where
  encode : S → List UInt8 → Option (List UInt8 × S)
  decode : R → List UInt8 → Option (List UInt8 × R)

/-- What a socket does when it is polled: nothing yet, moves at most so many bytes, or fails. -/
inductive Offer where
  | pending
  | moves (n : Nat)
  | fails
  deriving DecidableEq

inductive Error where
  | socket
  | broken
  | unencodable
  | writeZero
  deriving DecidableEq

inductive Polled (α : Type) where
  | pending
  | failed (e : Error)
  | ready (a : α)
  deriving DecidableEq

/-- The bytes an answer comes with, and the count it reports. -/
def Polled.bytes : Polled (List UInt8) → List UInt8
  | .ready bytes => bytes
  | _ => []

def Polled.count : Polled Nat → Nat
  | .ready n => n
  | _ => 0

/-- Where a connection's transport goes once a HOPE login agrees one. -/
structure Slots (S R : Type) where
  send : Option S := none
  recv : Option R := none
  passed : Nat := 0

variable {S R : Type} (C : Coder S R)

/-- Install a transport if exactly `read` bytes came before it. -/
def Slots.install (s : Slots S R) (transport : S × R) (read : Nat) : Bool × Slots S R :=
  if s.passed ≠ read then (false, s)
  else (true, { s with send := some transport.1, recv := some transport.2 })

/-! ## Reading -/

structure HopeRead where
  plain : List UInt8 := []
  at_ : Nat := 0

/-- How much is read off the socket at once under a transport. -/
def RAW : Nat := 16 * 2 ^ 10

/-- What a read leaves: its answer, the slots, the half and the wire. -/
structure ReadDone (S R : Type) where
  polled : Polled (List UInt8)
  slots : Slots S R
  reader : HopeRead
  wire : List UInt8

/-- What was decoded before, as much as there is room for. -/
def HopeRead.give (h : HopeRead) (room : Nat) : List UInt8 × HopeRead :=
  let n := min (h.plain.length - h.at_) room
  ((h.plain.drop h.at_).take n,
    if h.at_ + n = h.plain.length then {} else { h with at_ := h.at_ + n })

/-- A read into `room` bytes, of a socket that does as the offers say and then nothing. -/
def pollRead (slots : Slots S R) (h : HopeRead) (wire : List UInt8) (room : Nat) (offers : List Offer) :
    ReadDone S R :=
  if h.at_ < h.plain.length then ⟨.ready (h.give room).1, slots, (h.give room).2, wire⟩
  else
    match slots.recv, offers with
    | _, [] => ⟨.pending, slots, h, wire⟩
    | _, .pending :: _ => ⟨.pending, slots, h, wire⟩
    | _, .fails :: _ => ⟨.failed .socket, slots, h, wire⟩
    | none, .moves n :: _ =>
      let bytes := wire.take (min n room)
      ⟨.ready bytes, { slots with passed := slots.passed + bytes.length }, h, wire.drop (min n room)⟩
    | some recv, .moves n :: offers =>
      if wire.take (min n RAW) = [] then ⟨.ready [], slots, h, wire⟩
      else
        match C.decode recv (wire.take (min n RAW)) with
        | none => ⟨.failed .broken, slots, h, wire.drop (min n RAW)⟩
        | some (plain, recv) =>
          pollRead { slots with recv := some recv } { h with plain := h.plain ++ plain }
            (wire.drop (min n RAW)) room offers

/-! ## Writing -/

structure HopeWrite where
  pending : List UInt8 := []
  sent : Nat := 0
  owed : Nat := 0
  credited : Nat := 0

/-- How much of the plaintext may be reported, in proportion to what has gone; its last byte only once all
of the encoding has. -/
def HopeWrite.target (w : HopeWrite) : Nat :=
  if w.sent = w.pending.length then w.owed
  else min (w.sent * w.owed / w.pending.length) (w.owed - 1)

/-- What a write leaves: its answer, the half, and what the socket has taken. -/
structure WriteDone where
  polled : Polled Nat
  writer : HopeWrite
  took : List UInt8

/-- The encoding written, to a socket that does as the offers say and then nothing, until there is more
to report. -/
def progress (w : HopeWrite) (took : List UInt8) (offers : List Offer) : WriteDone :=
  if w.credited < w.target then
    ⟨.ready (w.target - w.credited), if w.target = w.owed then {} else { w with credited := w.target }, took⟩
  else
    match offers with
    | [] => ⟨.pending, w, took⟩
    | .pending :: _ => ⟨.pending, w, took⟩
    | .fails :: _ => ⟨.failed .socket, w, took⟩
    | .moves n :: offers =>
      let gone := (w.pending.drop w.sent).take n
      if gone.length = 0 then ⟨.failed .writeZero, w, took⟩
      else progress { w with sent := w.sent + gone.length } (took ++ gone) offers

/-- A buffer as it is, to a socket that does as the offers say. -/
def pass (w : HopeWrite) (took buf : List UInt8) : List Offer → WriteDone
  | [] => ⟨.pending, w, took⟩
  | .pending :: _ => ⟨.pending, w, took⟩
  | .fails :: _ => ⟨.failed .socket, w, took⟩
  | .moves n :: _ => ⟨.ready (buf.take n).length, w, took ++ buf.take n⟩

/-- Under a transport a buffer is encoded whole, and the calls that follow it write its encoding. -/
def pollWrite (send : Option S) (w : HopeWrite) (took buf : List UInt8) (offers : List Offer) :
    Option S × WriteDone :=
  if w.owed = 0 then
    match send with
    | none => (none, pass w took buf offers)
    | some send =>
      match C.encode send buf with
      | none => (some send, ⟨.failed .unencodable, w, took⟩)
      | some (encoded, send) =>
        if buf = [] then (some send, ⟨.ready 0, w, took⟩)
        else (some send, progress ⟨encoded, 0, buf.length, 0⟩ took offers)
  else (send, progress w took offers)

/-! ## A connection -/

/-- A buffer handed over under a transport: its encoding, and the counts reported of it. -/
structure Handed where
  text : List UInt8
  coding : List UInt8
  counts : List Nat := []

/-- What has been: what the reader was given, what the writer handed over, and of that what the socket took
as it is, the buffers reported to their ends and the one being written. -/
structure Past where
  delivered : List UInt8 := []
  given : List UInt8 := []
  raw : List UInt8 := []
  done : List Handed := []
  now : Option Handed := none

def Past.handed (p : Past) : List Handed := p.done ++ p.now.toList

structure World (S R : Type) where
  agreed : Option (S × R)
  slots : Slots S R := {}
  reader : HopeRead := {}
  writer : HopeWrite := {}
  wire : List UInt8
  took : List UInt8 := []
  left : List UInt8 := []
  reading : Bool := true
  writing : Bool := true
  past : Past := {}

def World.start (transport : S × R) (wire : List UInt8) : World S R := { agreed := some transport, wire }

/-- The session installs its transport, the reader reads, the writer writes what is left and more. -/
inductive Op where
  | install (read : Nat)
  | read (room : Nat) (offers : List Offer)
  | write (more : List UInt8) (offers : List Offer)

inductive Answer where
  | installed (ok : Bool)
  | bytes (polled : Polled (List UInt8))
  | wrote (polled : Polled Nat)
  | ended
  deriving DecidableEq

def World.install (w : World S R) (read : Nat) : Answer × World S R :=
  match w.agreed with
  | none => (.ended, w)
  | some transport =>
    let installed := w.slots.install transport read
    (.installed installed.1, { w with agreed := none, slots := installed.2 })

def World.read (w : World S R) (room : Nat) (offers : List Offer) : Answer × World S R :=
  if w.reading then
    let d := pollRead C w.slots w.reader w.wire room offers
    (.bytes d.polled,
      if d.polled = .failed .broken then { w with reading := false }
      else
        { w with slots := d.slots, reader := d.reader, wire := d.wire,
                 past := { w.past with delivered := w.past.delivered ++ d.polled.bytes } })
  else (.ended, w)

/-- A buffer is begun when nothing is owed of another. -/
def Past.begins (p : Past) (send : Option S) (w : HopeWrite) (buf : List UInt8) : Past :=
  if w.owed = 0 then
    match send.bind fun send => C.encode send buf with
    | some (coding, _) => { p with now := some ⟨buf, coding, []⟩ }
    | none => p
  else p

def Past.reports (p : Past) (buf : List UInt8) (polled : Polled Nat) (w : HopeWrite) : Past :=
  match polled, p.now with
  | .ready n, none => { p with raw := p.raw ++ buf.take n }
  | .ready n, some u =>
    let u := { u with counts := u.counts ++ [n] }
    if w.owed = 0 then { p with done := p.done ++ [u], now := none } else { p with now := some u }
  | _, _ => p

def World.write (w : World S R) (more : List UInt8) (offers : List Offer) : Answer × World S R :=
  if w.writing then
    let buf := w.left ++ more
    let wrote := pollWrite C w.slots.send w.writer w.took buf offers
    let past := { w.past with given := w.past.given ++ more }.begins C w.slots.send w.writer buf
    (.wrote wrote.2.polled,
      if wrote.2.polled = .failed .unencodable then { w with writing := false }
      else
        { w with slots := { w.slots with send := wrote.1 }, writer := wrote.2.writer, took := wrote.2.took,
                 left := buf.drop wrote.2.polled.count,
                 past := past.reports buf wrote.2.polled wrote.2.writer })
  else (.ended, w)

def step (w : World S R) : Op → Answer × World S R
  | .install read => w.install read
  | .read room offers => w.read C room offers
  | .write more offers => w.write C more offers

end HxdNg.Hope
