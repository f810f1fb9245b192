import HxdNg.Identity.Cert
import HxdNg.Lib.Segments

/-!
# The answer parser

A client's session description, read in one pass over its lines.

* `Line`, `Line.read` : a line, by what it starts with;
* `Reading`, `Reading.line`, `parseAnswer` : the pass, and what it comes to;
* `Section`, `Parts`, `cut` : the text cut at its `m=` lines;
* `Section.entry`, `Section.ssrcs`, `Section.fids` : what a section says by itself.
-/

namespace HxdNg.Sdp

open Identity (isWhitespace trim)

/-- The mid of a client's own microphone section. -/
def MIC_MID : List Char := "send".toList

/-- The mid of a client's own camera section. -/
def CAM_SEND_MID : List Char := "cam-send".toList

/-- The mid of a client's own screen-share section. -/
def SCR_SEND_MID : List Char := "scr-send".toList

/-! ## Numbers -/

/-- The pieces between white space. -/
def words (s : List Char) : List (List Char) := segments (fun c => !isWhitespace c) s

def digitVal (c : Char) : Option Nat :=
  if '0' ≤ c ∧ c ≤ '9' then some (c.toNat - '0'.toNat)
  else if 'a' ≤ c ∧ c ≤ 'f' then some (c.toNat - 'a'.toNat + 10)
  else if 'A' ≤ c ∧ c ≤ 'F' then some (c.toNat - 'A'.toNat + 10)
  else none

/-- A number in a radix up to sixteen, a plus sign before it or none, below a bound. -/
def fromStrRadix (radix bound : Nat) (s : List Char) : Option Nat :=
  let digits := if s.head? = some '+' then s.tail else s
  if digits = [] then none
  else
    digits.foldl (fun n c => n.bind fun n => (digitVal c).bind fun d =>
      if d < radix ∧ n * radix + d < bound then some (n * radix + d) else none) (some 0)

def parseU32 (s : List Char) : Option Nat := fromStrRadix 10 (2 ^ 32) s

structure Fingerprint where
  hashFunc : List Char
  bytes : List UInt8
  deriving DecidableEq

def toAsciiLowercase (c : Char) : Char :=
  if 'A' ≤ c ∧ c ≤ 'Z' then Char.ofNat (c.toNat + 32) else c

def parseFingerprint (v : List Char) : Option Fingerprint :=
  match v.dropWhile fun c => !isWhitespace c with
  | [] => none
  | _ :: hex =>
    (((trim hex).splitOn ':').mapM fun pair => fromStrRadix 16 256 pair).map fun bytes =>
      ⟨(v.takeWhile fun c => !isWhitespace c).map toAsciiLowercase, bytes.map UInt8.ofNat⟩

/-! ## Lines -/

/-- A line, by what it starts with, and what it says. -/
inductive Line where
  | media (rest : List Char)
  | mid (v : List Char)
  | iceUfrag (v : List Char)
  | icePwd (v : List Char)
  | fingerprint (v : Option Fingerprint)
  | setup (v : List Char)
  | ssrc (n : Option Nat)
  | fid (pair : Option (Nat × Nat))
  | other
  deriving DecidableEq

/-- The two SSRCs of a group, where both read. -/
def readFid (v : List Char) : Option (Nat × Nat) :=
  match words v with
  | a :: b :: _ => (parseU32 a).bind fun a => (parseU32 b).map fun b => (a, b)
  | _ => none

def Line.read (line : List Char) : Line :=
  if let some rest := line.dropPrefix? "m=".toList then .media rest
  else if let some v := line.dropPrefix? "a=mid:".toList then .mid (trim v)
  else if let some v := line.dropPrefix? "a=ice-ufrag:".toList then .iceUfrag (trim v)
  else if let some v := line.dropPrefix? "a=ice-pwd:".toList then .icePwd (trim v)
  else if let some v := line.dropPrefix? "a=fingerprint:".toList then .fingerprint (parseFingerprint (trim v))
  else if let some v := line.dropPrefix? "a=setup:".toList then .setup (trim v)
  else if let some v := line.dropPrefix? "a=ssrc:".toList then .ssrc (parseU32 ((words v).head?.getD []))
  else if let some v := line.dropPrefix? "a=ssrc-group:FID ".toList then .fid (readFid v)
  else .other

/-- The lines of a text, each without the carriage return it may end in. -/
def linesOf (sdp : List Char) : List Line :=
  (sdp.splitOn '\n').map fun line =>
    Line.read (if line.getLast? = some '\r' then line.dropLast else line)

/-- What an `m=` line says: the kind, whether its port is not zero, and its formats. -/
structure Media where
  kind : List Char
  live : Bool
  formats : List (List Char)
  deriving DecidableEq

def Media.read (rest : List Char) : Media :=
  let parts := words rest
  { kind := parts.head?.getD []
    live := parts.tail.head?.getD "0".toList ≠ "0".toList
    formats := parts.drop 3 }

/-! ## The pass -/

inductive AnswerError where
  /-- No `a=ice-ufrag` or `a=ice-pwd`. -/
  | noIceCredentials
  /-- No `a=fingerprint`, or none that reads. -/
  | noFingerprint
  | noPcmu
  deriving DecidableEq

/-- One of the client's own video send sections, as its answer described it. -/
structure VideoSendAnswer where
  mid : List Char
  accepted : Bool
  ssrc : Option Nat
  rtxSsrc : Option Nat
  deriving DecidableEq

structure Answer where
  ufrag : List Char
  pass : List Char
  fingerprint : Fingerprint
  clientIsDtlsClient : Bool
  micSsrc : Option Nat
  videoSend : List VideoSendAnswer
  deriving DecidableEq

/-- What the pass carries. -/
structure Reading where
  ufrag : Option (List Char) := none
  pass : Option (List Char) := none
  fingerprint : Option Fingerprint := none
  setup : Option (List Char) := none
  micSsrc : Option Nat := none
  hasPcmu : Bool := false
  videoSend : List VideoSendAnswer := []
  inMicSection : Bool := false
  /-- The section open, when it is a video one: whether its `m=` line accepted VP8. -/
  videoOpen : Option Bool := none
  videoMid : Option (List Char) := none
  videoSsrc : Option Nat := none
  videoFid : Option (Nat × Nat) := none

/-- The group is authoritative where there is one. -/
def pairOf (fid : Option (Nat × Nat)) (first : Option Nat) : Option Nat × Option Nat :=
  match fid with
  | some (primary, rtx) => (some primary, some rtx)
  | none => (first, none)

/-- Close whichever video send section was open, if it was one of ours. -/
def Reading.flush (r : Reading) : Reading :=
  let pair := pairOf r.videoFid r.videoSsrc
  let sent := match r.videoMid with
    | some mid =>
      if mid = CAM_SEND_MID ∨ mid = SCR_SEND_MID then
        [⟨mid, r.videoOpen.getD false, pair.1, pair.2⟩]
      else []
    | none => []
  { r with videoSend := r.videoSend ++ sent
           videoOpen := none, videoMid := none, videoSsrc := none, videoFid := none }

def Reading.line (r : Reading) : Line → Reading
  | .media rest =>
    let r := { r.flush with inMicSection := false }
    let m := Media.read rest
    if m.kind = "audio".toList ∧ m.live ∧ "0".toList ∈ m.formats then { r with hasPcmu := true }
    else if m.kind = "video".toList then { r with videoOpen := some (m.live && "96".toList ∈ m.formats) }
    else r
  | .mid v =>
    { r with inMicSection := v = MIC_MID
             videoMid := if r.videoOpen.isSome then some v else r.videoMid }
  | .iceUfrag v => { r with ufrag := r.ufrag.or (some v) }
  | .icePwd v => { r with pass := r.pass.or (some v) }
  | .fingerprint v => { r with fingerprint := r.fingerprint.or v }
  | .setup v => { r with setup := r.setup.or (some v) }
  | .ssrc n =>
    { r with micSsrc := if r.inMicSection then r.micSsrc.or n else r.micSsrc
             videoSsrc := if r.videoOpen.isSome then r.videoSsrc.or n else r.videoSsrc }
  | .fid pair =>
    { r with videoFid := if r.videoOpen.isSome then r.videoFid.or pair else r.videoFid }
  | .other => r

/-- What the pass comes to. -/
def Reading.answer (r : Reading) : Except AnswerError Answer :=
  if !r.hasPcmu then .error .noPcmu
  else
    match r.ufrag, r.pass with
    | some ufrag, some pass =>
      match r.fingerprint with
      | none => .error .noFingerprint
      | some fingerprint =>
        .ok { ufrag, pass, fingerprint
              clientIsDtlsClient := r.setup ≠ some "passive".toList
              micSsrc := r.micSsrc
              videoSend := r.videoSend }
    | _, _ => .error .noIceCredentials

def parseAnswer (sdp : String) : Except AnswerError Answer :=
  ((linesOf sdp.toList).foldl Reading.line {}).flush.answer

/-! ## Section by section -/

/-- A media section: its `m=` line and the lines to the next. -/
structure Section where
  media : Media
  body : List Line
  deriving DecidableEq

/-- A text cut at its `m=` lines. -/
structure Parts where
  session : List Line
  sections : List Section
  deriving DecidableEq

def cut : List Line → Parts
  | [] => ⟨[], []⟩
  | .media rest :: lines =>
    let parts := cut lines
    ⟨[], ⟨Media.read rest, parts.session⟩ :: parts.sections⟩
  | line :: lines =>
    let parts := cut lines
    ⟨line :: parts.session, parts.sections⟩

def Line.mid? : Line → Option (List Char)
  | .mid v => some v
  | _ => none

def Line.ssrc? : Line → Option Nat
  | .ssrc n => n
  | _ => none

def Line.fid? : Line → Option (Nat × Nat)
  | .fid pair => pair
  | _ => none

def Line.ufrag? : Line → Option (List Char)
  | .iceUfrag v => some v
  | _ => none

def Line.pwd? : Line → Option (List Char)
  | .icePwd v => some v
  | _ => none

def Line.fingerprint? : Line → Option Fingerprint
  | .fingerprint v => v
  | _ => none

def Line.setup? : Line → Option (List Char)
  | .setup v => some v
  | _ => none

namespace Section

def mid (s : Section) : Option (List Char) := s.body.findSome? Line.mid?

/-- The SSRCs a section declares, wherever it does. -/
def ssrcs (s : Section) : List Nat := s.body.filterMap Line.ssrc?

/-- Its well-formed FID groups. -/
def fids (s : Section) : List (Nat × Nat) := s.body.filterMap Line.fid?

def hasPcmu (s : Section) : Bool :=
  s.media.kind = "audio".toList && s.media.live && "0".toList ∈ s.media.formats

def isMic (s : Section) : Bool := s.mid = some MIC_MID

/-- A video section that is one of the client's own: accepted if its port is not zero and VP8 is among its
formats, with the pair of its first group, or else its own first SSRC. -/
def entry (s : Section) : Option VideoSendAnswer :=
  if s.media.kind = "video".toList then
    match s.mid with
    | some mid =>
      if mid = CAM_SEND_MID ∨ mid = SCR_SEND_MID then
        let pair := pairOf s.fids.head? s.ssrcs.head?
        some ⟨mid, s.media.live && "96".toList ∈ s.media.formats, pair.1, pair.2⟩
      else none
    | none => none
  else none

end Section

/-- Of the lines of a part, the first SSRC declared behind an `a=mid:send` line. -/
def heard (body : List Line) : Option Nat :=
  (body.dropWhile fun line => line.mid? ≠ some MIC_MID).findSome? Line.ssrc?

end HxdNg.Sdp
