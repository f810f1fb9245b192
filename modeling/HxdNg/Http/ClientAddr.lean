import HxdNg.Limits.ConnGate
import HxdNg.Moderation.Blocks

/-!
# The client's address behind trusted proxies

* `forwardedFor`, `hostIp` : the address one element of a forwarded chain names;
* `forwardedElements`, `forwardedClient`, `clientAddr` : the rightmost element that is not a trusted
  proxy, across every line of the header;
* `Hop`, `passOn` : what a chain of proxies appends to what a client sent;
* `clientAddr_of_hops` : the client is who its first proxy saw, whatever it sent.
-/

namespace HxdNg.Http

open Identity (trim)
open Limits (IpAddr AddrSet)

inductive ForwardedHeader where
  | xForwardedFor
  | forwarded
  | none
  deriving DecidableEq

structure SocketAddr where
  ip : IpAddr
  port : Nat
  deriving DecidableEq

structure NgConfig where
  trustedProxies : AddrSet
  forwardedHeader : ForwardedHeader

/-! ## One element -/

/-- The text before the first `sep` and after it. -/
def splitOnce (sep : Char) (s : List Char) : Option (List Char × List Char) :=
  if sep ∈ s then some (s.takeWhile (· ≠ sep), (s.dropWhile (· ≠ sep)).tail) else none

/-- The text before the last `sep` and after it. -/
def rsplitOnce (sep : Char) (s : List Char) : Option (List Char × List Char) :=
  (splitOnce sep s.reverse).map fun (after, before) => (before.reverse, after.reverse)

def QUOTE : Char := Char.ofNat 0x22

def trimMatches (c : Char) (s : List Char) : List Char :=
  ((s.dropWhile (· = c)).reverse.dropWhile (· = c)).reverse

/-- The `for=` value of one `Forwarded` element. A parameter without a value is passed over. -/
def forwardedFor (element : List Char) : Option (List Char) :=
  (element.splitOn ';').findSome? fun param =>
    (splitOnce '=' param).bind fun (k, v) =>
      if (trim k).map Char.toLower = ['f', 'o', 'r'] then some (trimMatches QUOTE (trim v)) else none

def parseAddr (s : List Char) : Option IpAddr :=
  (Moderation.parseIp s).map fun
    | .v4 octets => .v4 octets
    | .v6 octets => .v6 octets

/-- The address of a value, bare, with a port, or in brackets. -/
def hostIp (value : List Char) : Option IpAddr :=
  let v := trim value
  match parseAddr v with
  | some ip => some ip
  | none =>
    match v with
    | '[' :: rest => (splitOnce ']' rest).bind fun (inside, _) => parseAddr inside
    | _ => (rsplitOnce ':' v).bind fun (host, _) => parseAddr host

/-- Whom an element names, in the header's own form. -/
def namedBy (header : ForwardedHeader) (element : List Char) : Option IpAddr :=
  match header with
  | .forwarded => (forwardedFor element).bind hostIp
  | _ => hostIp element

/-! ## The walk -/

/-- One element's bytes as text: empty where they are not text. -/
def decode (e : List UInt8) : List Char := ((fromUtf8 e).getD "").toList

def COMMA : UInt8 := 44

/-- Every element of a header, across all its lines in order. -/
def forwardedElements (lines : List (List UInt8)) : List (List Char) :=
  (lines.flatMap fun value => value.splitOn COMMA).map decode

/-- The first element that is not a trusted proxy, of a chain in reverse. -/
def walk (header : ForwardedHeader) (trusted : AddrSet) : List (List Char) → Option IpAddr
  | [] => none
  | element :: rest =>
    match namedBy header element with
    | some ip => if trusted.contains ip then walk header trusted rest else some ip
    | none => none

def forwardedClient (elements : List (List Char)) (header : ForwardedHeader) (trusted : AddrSet) :
    Option IpAddr := walk header trusted elements.reverse

/-- The lines of one header, in order. -/
def getAll (headers : List (String × List UInt8)) (name : String) : List (List UInt8) :=
  (headers.filter fun h => h.1 = name).map Prod.snd

def headerName : ForwardedHeader → Option String
  | .none => none
  | .xForwardedFor => some "x-forwarded-for"
  | .forwarded => some "forwarded"

/-- The client's address: the socket's peer, unless it is a trusted proxy that named someone else. -/
def clientAddr (headers : List (String × List UInt8)) (peer : SocketAddr) (cfg : NgConfig) : SocketAddr :=
  if ¬cfg.trustedProxies.contains peer.ip then peer else
  match headerName cfg.forwardedHeader with
  | none => peer
  | some name =>
    match forwardedClient (forwardedElements (getAll headers name)) cfg.forwardedHeader
        cfg.trustedProxies with
    | some ip => ⟨ip, 0⟩
    | none => peer

/-! ## What proxies append -/

/-- What one proxy appends: an element, behind a comma on the last line or on a line of its own. -/
structure Hop where
  element : List UInt8
  whole : COMMA ∉ element
  ownLine : Bool

/-- The lines as a proxy passes them on. -/
def Hop.passOn (lines : List (List UInt8)) (hop : Hop) : List (List UInt8) :=
  match hop.ownLine, lines.getLast? with
  | false, some last => lines.dropLast ++ [last ++ COMMA :: hop.element]
  | _, _ => lines ++ [hop.element]

theorem splitOn_whole {e : List UInt8} (h : COMMA ∉ e) : e.splitOn COMMA = [e] := by
  refine List.splitOnP_eq_singleton fun x hx => ?_
  exact beq_eq_false_iff_ne.mpr fun heq => h (heq ▸ hx)

theorem elements_passOn (lines : List (List UInt8)) (hop : Hop) :
    forwardedElements (hop.passOn lines) = forwardedElements lines ++ [decode hop.element] := by
  have hown : forwardedElements (lines ++ [hop.element]) =
      forwardedElements lines ++ [decode hop.element] := by
    unfold forwardedElements
    rw [List.flatMap_append, List.map_append, List.flatMap_singleton, splitOn_whole hop.whole]
    rfl
  unfold Hop.passOn
  split
  · rename_i last _ hlast
    have hlines := List.dropLast_append_getLast? last hlast
    have hsplit : (last ++ COMMA :: hop.element).splitOn COMMA = last.splitOn COMMA ++ [hop.element] := by
      rw [List.splitOn_eq_splitOnP, List.splitOnP_append_cons _ _ (by exact beq_self_eq_true COMMA),
        ← List.splitOn_eq_splitOnP, ← List.splitOn_eq_splitOnP, splitOn_whole hop.whole]
    unfold forwardedElements
    conv_rhs => rw [← hlines]
    rw [List.flatMap_append, List.flatMap_append, List.flatMap_singleton, List.flatMap_singleton, hsplit,
      ← List.append_assoc, List.map_append]
    rfl
  · exact hown

theorem elements_foldl (lines : List (List UInt8)) (hops : List Hop) :
    forwardedElements (hops.foldl Hop.passOn lines) =
      forwardedElements lines ++ hops.map fun hop => decode hop.element := by
  induction hops generalizing lines with
  | nil => exact (List.append_nil _).symm
  | cons hop hops ih =>
    rw [List.foldl_cons, ih, elements_passOn, List.append_assoc]
    rfl

/-- The walk passes over trusted proxies. -/
theorem walk_trusted {header : ForwardedHeader} {trusted : AddrSet} {near far : List (List Char)}
    (h : ∀ e ∈ near, ∃ ip, namedBy header e = some ip ∧ trusted.contains ip) :
    walk header trusted (near ++ far) = walk header trusted far := by
  induction near with
  | nil => rfl
  | cons e near ih =>
    obtain ⟨ip, hip, htrusted⟩ := h e List.mem_cons_self
    rw [List.cons_append, walk, hip]
    dsimp only
    rw [if_pos htrusted]
    exact ih fun e' he' => h e' (List.mem_cons_of_mem _ he')

/-- Behind trusted proxies the client is who the first of them saw, whatever it sent; and a peer that is
none of them is itself. -/
theorem clientAddr_of_hops {cfg : NgConfig} {name : String} {first : Hop} {rest : List Hop} {ip : IpAddr}
    (hname : headerName cfg.forwardedHeader = some name)
    (hfirst : namedBy cfg.forwardedHeader (decode first.element) = some ip)
    (hclient : ¬cfg.trustedProxies.contains ip)
    (hrest : ∀ hop ∈ rest, ∃ ip', namedBy cfg.forwardedHeader (decode hop.element) = some ip' ∧
      cfg.trustedProxies.contains ip') (headers : List (String × List UInt8)) (peer : SocketAddr) :
    (cfg.trustedProxies.contains peer.ip → ∀ sent : List (List UInt8),
      getAll headers name = (first :: rest).foldl Hop.passOn sent →
      clientAddr headers peer cfg = ⟨ip, 0⟩) ∧
    (¬cfg.trustedProxies.contains peer.ip → clientAddr headers peer cfg = peer) := by
  refine ⟨fun hpeer sent hsent => ?_, fun hpeer => if_pos hpeer⟩
  have hwalk : forwardedClient (forwardedElements (getAll headers name)) cfg.forwardedHeader
      cfg.trustedProxies = some ip := by
    unfold forwardedClient
    rw [hsent, elements_foldl, List.map_cons, List.reverse_append, List.reverse_cons,
      List.append_assoc, walk_trusted]
    · rw [List.singleton_append, walk, hfirst]
      exact if_neg hclient
    · intro e he
      obtain ⟨hop, hhop, rfl⟩ := List.mem_map.mp (List.mem_reverse.mp he)
      exact hrest hop hhop
  unfold clientAddr
  rw [if_neg (not_not.mpr hpeer), hname]
  dsimp only
  rw [hwalk]

/-- A client that names an address of its own, seen by one trusted proxy behind another. -/
theorem clientAddr_of_hops_two :
    clientAddr [("x-forwarded-for", utf8 "203.0.113.9, 198.51.100.4"), ("x-forwarded-for", utf8 "10.0.0.7")]
      ⟨.v4 ⟨[10, 0, 0, 8], rfl⟩, 4711⟩ ⟨⟨[(.v4 ⟨[10, 0, 0, 0], rfl⟩, 8)]⟩, .xForwardedFor⟩ =
        ⟨.v4 ⟨[198, 51, 100, 4], rfl⟩, 0⟩ := by
  have hfirst : decode (utf8 " 198.51.100.4") = " 198.51.100.4".toList := by
    rw [decode, fromUtf8_utf8]
    rfl
  have hsecond : decode (utf8 "10.0.0.7") = "10.0.0.7".toList := by
    rw [decode, fromUtf8_utf8]
    rfl
  refine (@clientAddr_of_hops _ "x-forwarded-for" ⟨utf8 " 198.51.100.4", by decide +kernel, false⟩
    [⟨utf8 "10.0.0.7", by decide +kernel, true⟩] _ rfl (by rw [hfirst]; decide +kernel)
    (by decide +kernel) (fun hop hhop => ?_) _ _).1 (by decide +kernel) [utf8 "203.0.113.9"] (by decide +kernel)
  obtain rfl := List.mem_singleton.mp hhop
  refine ⟨.v4 ⟨[10, 0, 0, 7], rfl⟩, ?_, by decide +kernel⟩
  rw [hsecond]
  decide +kernel

end HxdNg.Http
