import Mathlib
import HxdNg.Lib.Runs

/-!
# The offer template and its byte budget

* `SectionMedia`, `OfferSection`, `offer` : the server's session description;
* `sectionBytes`, `candidateBytes` : how many bytes a section is taken to cost before it is added;
* `Peer`, `pushSection`, `PeerOp`, `Peer.step` : the sections of one peer's session, which are only ever
  added to, and the offers made of them.

What a peer tells its stack, and the answer, are left out. A candidate is its attribute line.
-/

namespace HxdNg.Sdp

def dec (n : Nat) : String := n.repr

def PCMU_PT : Nat := 0
def VP8_PT : Nat := 96
def VP8_RTX_PT : Nat := 97

/-- The longest mid this implementation will put on the wire. -/
def MAX_MID_LEN : Nat := 16

/-- What a media section carries. -/
inductive SectionMedia where
  | audio
  | camera
  | screen
  deriving DecidableEq

def SectionMedia.isVideo : SectionMedia → Bool
  | .audio => false
  | _ => true

def SectionMedia.cnamePrefix : SectionMedia → String
  | .audio => "voice"
  | .camera => "video"
  | .screen => "screen"

/-- From the server's point of view. -/
inductive Direction where
  | sendOnly
  | recvOnly
  | inactive
  deriving DecidableEq

def Direction.asStr : Direction → String
  | .sendOnly => "sendonly"
  | .recvOnly => "recvonly"
  | .inactive => "inactive"

/-- One media section of an offer. -/
structure OfferSection where
  mid : String
  media : SectionMedia
  direction : Direction
  ssrc : Option (UInt32 × UInt16)
  rtxSsrc : Option UInt32
  bandwidthKbps : Option UInt32

structure OfferCreds where
  ufrag : String
  pass : String
  hashFunc : String
  fingerprint : List UInt8

/-- Everything the offer needs that is not a section. -/
structure OfferParams extends OfferCreds where
  sessionId : UInt64
  version : UInt64
  candidates : List String

def hexDigit (n : Nat) : String :=
  ["0", "1", "2", "3", "4", "5", "6", "7", "8", "9", "A", "B", "C", "D", "E", "F"].getD n ""

def hexByte (b : UInt8) : String := hexDigit (b.toNat / 16) ++ hexDigit (b.toNat % 16)

/-- The bytes of a fingerprint, a colon before each but the first. -/
def fingerprintHex : List UInt8 → String
  | [] => ""
  | b :: bs => hexByte b ++ String.join (bs.map fun b => ":" ++ hexByte b)

/-- The lines that declare what a section sends: the FID group first, where there is a repair SSRC. -/
def ssrcLines (sec : OfferSection) : String :=
  match sec.ssrc with
  | none => ""
  | some (ssrc, uid) =>
    let source := fun n : UInt32 =>
      "a=ssrc:" ++ dec n.toNat ++ " cname:" ++ sec.media.cnamePrefix ++ "-" ++ dec uid.toNat ++ "\r\n"
    match sec.rtxSsrc with
    | some rtx =>
      "a=ssrc-group:FID " ++ dec ssrc.toNat ++ " " ++ dec rtx.toNat ++ "\r\n" ++ source ssrc ++ source rtx
    | none => source ssrc

def bandwidthLine : Option UInt32 → String
  | some kbps => "b=AS:" ++ dec kbps.toNat ++ "\r\n"
  | none => ""

def sectionText (p : OfferParams) (sec : OfferSection) : String :=
  (if sec.media.isVideo then
    "m=video 9 UDP/TLS/RTP/SAVPF " ++ dec VP8_PT ++ " " ++ dec VP8_RTX_PT ++ "\r\n"
  else "m=audio 9 UDP/TLS/RTP/SAVPF 0\r\n") ++
  "c=IN IP4 0.0.0.0\r\n" ++
  bandwidthLine sec.bandwidthKbps ++
  ("a=mid:" ++ sec.mid ++ "\r\n") ++
  (if sec.media = .screen then "a=content:slides\r\n" else "") ++
  (if sec.media.isVideo then
    "a=rtpmap:" ++ dec VP8_PT ++ " VP8/90000\r\n" ++
    "a=rtpmap:" ++ dec VP8_RTX_PT ++ " rtx/90000\r\n" ++
    "a=fmtp:" ++ dec VP8_RTX_PT ++ " apt=" ++ dec VP8_PT ++ "\r\n" ++
    "a=rtcp-fb:" ++ dec VP8_PT ++ " nack\r\n" ++
    "a=rtcp-fb:" ++ dec VP8_PT ++ " nack pli\r\n" ++
    "a=rtcp-fb:" ++ dec VP8_PT ++ " ccm fir\r\n"
  else "a=rtpmap:" ++ dec PCMU_PT ++ " PCMU/8000\r\n") ++
  ("a=" ++ sec.direction.asStr ++ "\r\n") ++
  "a=rtcp-mux\r\n" ++
  "a=setup:actpass\r\n" ++
  ("a=ice-ufrag:" ++ p.ufrag ++ "\r\n") ++
  ("a=ice-pwd:" ++ p.pass ++ "\r\n") ++
  ("a=fingerprint:" ++ p.hashFunc ++ " " ++ fingerprintHex p.fingerprint ++ "\r\n") ++
  String.join (p.candidates.map fun c => "a=" ++ c ++ "\r\n") ++
  ssrcLines sec

def offer (p : OfferParams) (sections : List OfferSection) : String :=
  "v=0\r\n" ++
  ("o=- " ++ dec p.sessionId.toNat ++ " " ++ dec p.version.toNat ++ " IN IP4 0.0.0.0\r\n") ++
  "s=-\r\n" ++
  "t=0 0\r\n" ++
  ("a=group:BUNDLE" ++ String.join (sections.map fun sec => " " ++ sec.mid) ++ "\r\n") ++
  "a=msid-semantic: WMS\r\n" ++
  "a=ice-lite\r\n" ++
  String.join (sections.map (sectionText p))

/-! ## The budget -/

/-- How many bytes an offer is taken to spend on one section. -/
def sectionBytes (mid : String) (media : SectionMedia) (candidateBytes : Nat) : Nat :=
  300 + mid.utf8ByteSize + (if media.isVideo then 190 else 0) +
    (if media = .screen then "a=content:slides\r\n".utf8ByteSize else 0) +
    (40 + mid.utf8ByteSize + 1) + candidateBytes

/-- What one section's candidate lines cost. -/
def candidateBytes (candidates : List String) : Nat := (candidates.map fun c => c.utf8ByteSize + 4).sum

/-- The most an offer may grow to. -/
def MAX_OFFER_BYTES : Nat := 32000

/-- What an offer is taken to spend before any section. -/
def OFFER_BASE_BYTES : Nat := 120

/-! ## A peer -/

inductive VideoKind where
  | camera
  | screen
  deriving DecidableEq

inductive SectionKind where
  | mic
  | remote (other : UInt16)
  | videoSend (kind : VideoKind)
  | remoteVideo (other : UInt16) (kind : VideoKind)
  deriving DecidableEq

def VideoKind.media : VideoKind → SectionMedia
  | .camera => .camera
  | .screen => .screen

def SectionKind.media : SectionKind → SectionMedia
  | .mic | .remote _ => .audio
  | .videoSend k | .remoteVideo _ k => k.media

def kindPrefix : VideoKind → String
  | .camera => "cam"
  | .screen => "scr"

def sendMid : VideoKind → String
  | .camera => "cam-send"
  | .screen => "scr-send"

def remoteVideoMid (other : UInt16) (kind : VideoKind) : String :=
  kindPrefix kind ++ "-user-" ++ dec other.toNat

structure PeerSection where
  mid : String
  kind : SectionKind
  ssrc : Option UInt32 := none
  rtxSsrc : Option UInt32 := none
  source : Option UInt32 := none
  active : Bool := false

structure Peer where
  sections : List PeerSection := []
  candidateBytes : Nat
  offerBytes : Nat := OFFER_BASE_BYTES
  publications : List VideoKind := []
  sessionId : UInt64
  version : UInt64 := 0

def Peer.new (candidates : List String) (sessionId : UInt64) : Peer :=
  { candidateBytes := Sdp.candidateBytes candidates, sessionId }

namespace Peer

def hasSection (p : Peer) (kind : SectionKind) : Bool := p.sections.any fun s => s.kind = kind

/-- Append a section, or refuse it because the offer has no room left. -/
def pushSection (p : Peer) (mid : String) (kind : SectionKind) : Bool × Peer :=
  if mid.utf8ByteSize > MAX_MID_LEN then (false, p)
  else
    let cost := sectionBytes mid kind.media p.candidateBytes
    if p.offerBytes + cost > MAX_OFFER_BYTES then (false, p)
    else (true, { p with offerBytes := p.offerBytes + cost, sections := p.sections ++ [{ mid, kind }] })

/-- The section for a kind, changed. -/
def onSection (p : Peer) (kind : SectionKind) (f : PeerSection → PeerSection) : Peer :=
  { p with sections := p.sections.map fun s => if s.kind = kind then f s else s }

/-- The section for a kind there was or is room for, changed. -/
def withSection (p : Peer) (mid : String) (kind : SectionKind) (f : PeerSection → PeerSection) : Peer :=
  if p.hasSection kind then p.onSection kind f
  else
    let pushed := p.pushSection mid kind
    if pushed.1 then pushed.2.onSection kind f else p

def declareMic (p : Peer) : Peer :=
  if p.hasSection .mic then p else (p.pushSection "send" .mic).2

def declareRemote (p : Peer) (other : UInt16) (ssrc : UInt32) : Peer :=
  p.withSection ("user-" ++ dec other.toNat) (.remote other) fun s =>
    if s.ssrc = some ssrc then { s with active := true }
    else { s with ssrc := some ssrc, source := some ssrc, active := true }

def declareVideoSend (p : Peer) (kind : VideoKind) : Peer :=
  if kind ∈ p.publications then p
  else if p.hasSection (.videoSend kind) then { p with publications := p.publications ++ [kind] }
  else
    let pushed := p.pushSection (sendMid kind) (.videoSend kind)
    if pushed.1 then { pushed.2 with publications := p.publications ++ [kind] } else p

def undeclareVideoSend (p : Peer) (kind : VideoKind) : Peer :=
  { p with publications := p.publications.erase kind }

/-- With the SSRCs drawn for it, unless it is still running on the same stream. -/
def declareRemoteVideo (p : Peer) (other : UInt16) (kind : VideoKind) (source ssrc rtx : UInt32) : Peer :=
  p.withSection (remoteVideoMid other kind) (.remoteVideo other kind) fun s =>
    if s.active ∧ s.source = some source then s
    else { s with ssrc := some ssrc, rtxSsrc := some rtx, source := some source, active := true }

def deactivateAbsentVideo (p : Peer) (present : List (UInt16 × VideoKind)) : Peer :=
  { p with sections := p.sections.map fun s =>
      match s.kind with
      | .remoteVideo other kind => if (other, kind) ∈ present then s else { s with active := false }
      | _ => s }

/-- The highest bit rates the server is set to, by kind. -/
abbrev VideoConfig := VideoKind → UInt32

def bandwidthKbps (limits : VideoConfig) : SectionKind → Option UInt32
  | .videoSend k | .remoteVideo _ k => some (limits k / 1000)
  | _ => none

/-- A section as the next offer has it, given who is in the room and what this peer is to receive. -/
def offerSection (p : Peer) (present : List UInt16) (presentVideo : List (UInt16 × VideoKind))
    (limits : VideoConfig) (s : PeerSection) : OfferSection :=
  let live := fun other : UInt16 => (Direction.sendOnly, s.ssrc.map fun n => (n, other))
  let said : Direction × Option (UInt32 × UInt16) := match s.kind with
    | .mic => (.recvOnly, none)
    | .remote other => if other ∈ present then live other else (.inactive, none)
    | .videoSend k => if k ∈ p.publications then (.recvOnly, none) else (.inactive, none)
    | .remoteVideo other k => if (other, k) ∈ presentVideo then live other else (.inactive, none)
  { mid := s.mid
    media := s.kind.media
    direction := said.1
    ssrc := said.2
    rtxSsrc := if said.1 = .sendOnly ∧ s.kind.media.isVideo then s.rtxSsrc else none
    bandwidthKbps := bandwidthKbps limits s.kind }

/-- What the next offer is made with. -/
def offerParams (p : Peer) (creds : OfferCreds) (candidates : List String) : OfferParams :=
  { creds with sessionId := p.sessionId, version := p.version + 1, candidates }

def offerSections (p : Peer) (present : List UInt16) (presentVideo : List (UInt16 × VideoKind))
    (limits : VideoConfig) : List OfferSection :=
  p.sections.map (p.offerSection present presentVideo limits)

def offer (p : Peer) (present : List UInt16) (presentVideo : List (UInt16 × VideoKind)) (creds : OfferCreds)
    (candidates : List String) (limits : VideoConfig) : String × Peer :=
  (Sdp.offer (p.offerParams creds candidates) (p.offerSections present presentVideo limits),
    { p with version := p.version + 1 })

end Peer

/-- What is done to a peer's sections. -/
inductive PeerOp where
  | declareMic
  | declareRemote (other : UInt16) (ssrc : UInt32)
  | declareVideoSend (kind : VideoKind)
  | undeclareVideoSend (kind : VideoKind)
  | declareRemoteVideo (other : UInt16) (kind : VideoKind) (source ssrc rtx : UInt32)
  | deactivateAbsentVideo (present : List (UInt16 × VideoKind))
  | offer (present : List UInt16) (presentVideo : List (UInt16 × VideoKind)) (creds : OfferCreds)
      (limits : Peer.VideoConfig)

/-- A step of a peer, of a server with these candidates: the offer made, if one is. -/
def Peer.step (candidates : List String) (p : Peer) : PeerOp → Option String × Peer
  | .declareMic => (none, p.declareMic)
  | .declareRemote other ssrc => (none, p.declareRemote other ssrc)
  | .declareVideoSend kind => (none, p.declareVideoSend kind)
  | .undeclareVideoSend kind => (none, p.undeclareVideoSend kind)
  | .declareRemoteVideo other kind source ssrc rtx => (none, p.declareRemoteVideo other kind source ssrc rtx)
  | .deactivateAbsentVideo present => (none, p.deactivateAbsentVideo present)
  | .offer present presentVideo creds limits =>
    let made := p.offer present presentVideo creds candidates limits
    (some made.1, made.2)

end HxdNg.Sdp
