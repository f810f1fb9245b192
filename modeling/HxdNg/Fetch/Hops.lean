import HxdNg.Fetch.Addresses

/-!
# Fetching

A GET follows redirects, each hop over a connection of its own.

* `Net` : the name service and the servers, answering by all that went before;
* `follow` : the hops of one fetch, with what each looked up, connected to and sent;
* `direct_checked` : a hop connects to checked answers only, or not at all;
* `moved_hops` : where a chain that is permanent from the start has gone.
-/

namespace HxdNg.Fetch

structure Validators where
  etag : Option String
  lastModified : Option String

inductive Fetched where
  | notModified
  | body (bytes : List UInt8) (validators : Validators) (movedTo : Option String)

inductive FetchError where
  | badUrl (why : String)
  | addressRefused
  | unresolvable
  | downgrade
  | tooManyRedirects
  | tooLarge
  | timeout
  | status (code : UInt16) (retryAfter : Option Nat)
  | transport (why : String)

inductive Answer where
  | notModified
  | body (bytes : List UInt8) (validators : Validators)
  | redirect (permanent : Bool) (location : String)

/-! ## The network -/

structure SocketAddr where
  ip : IpAddr
  port : UInt16
  deriving DecidableEq

/-- What one fetch does. -/
inductive Event (Url : Type) where
  | lookup (name : String) (port : UInt16) (answer : Option (List SocketAddr))
  | connect (addr : SocketAddr)
  | sent (url : Url)
  deriving DecidableEq

variable {Url : Type}

namespace Event

def lookups : List (Event Url) → List (String × UInt16) :=
  List.filterMap fun e =>
    match e with
    | .lookup name port _ => some (name, port)
    | _ => none

def answers : List (Event Url) → List SocketAddr :=
  List.flatMap fun e =>
    match e with
    | .lookup _ _ (some addrs) => addrs
    | _ => []

def connected : List (Event Url) → List SocketAddr :=
  List.filterMap fun e =>
    match e with
    | .connect addr => some addr
    | _ => none

def requests : List (Event Url) → List Url :=
  List.filterMap fun e =>
    match e with
    | .sent url => some url
    | _ => none

variable {xs ys : List (Event Url)}

@[simp] theorem lookups_append : lookups (xs ++ ys) = lookups xs ++ lookups ys := List.filterMap_append ..

@[simp] theorem answers_append : answers (xs ++ ys) = answers xs ++ answers ys := List.flatMap_append ..

@[simp] theorem connected_append : connected (xs ++ ys) = connected xs ++ connected ys := List.filterMap_append ..

@[simp] theorem requests_append : requests (xs ++ ys) = requests xs ++ requests ys := List.filterMap_append ..

/-- The connections of a hop, and its request if one took. -/
def tail (tried : List SocketAddr) (sent : List Url) : List (Event Url) :=
  tried.map Event.connect ++ sent.map Event.sent

variable {tried : List SocketAddr} {sent : List Url}

@[simp] theorem lookups_tail : lookups (tail tried sent) = [] := by
  simp [tail, lookups]

@[simp] theorem answers_tail : answers (tail tried sent) = [] := by
  simp [tail, answers, List.flatMap_eq_nil_iff]

@[simp] theorem connected_tail : connected (tail tried sent) = tried := by
  simp [tail, connected, List.filterMap_map]

@[simp] theorem requests_tail : requests (tail tried sent) = sent := by
  simp [tail, requests, List.filterMap_map]

end Event

/-- Each answer may depend on everything done before it. -/
structure Net (Url : Type) where
  resolve : List (Event Url) → String → UInt16 → Option (List SocketAddr)
  connect : List (Event Url) → SocketAddr → Except String Unit
  exchange : List (Event Url) → Url → Option String → Except FetchError Answer

variable (net : Net Url)

/-- The first that takes the connection. -/
def connect (h : List (Event Url)) : List SocketAddr → String → List (Event Url) × Except FetchError Unit
  | [], last => ([], .error (.transport last))
  | addr :: addrs, _ =>
    match net.connect h addr with
    | .ok () => ([.connect addr], .ok ())
    | .error e =>
      let rest := connect (h ++ [.connect addr]) addrs e
      (.connect addr :: rest.1, rest.2)

theorem connect_events (h : List (Event Url)) (addrs : List SocketAddr) (last : String) :
    ∃ tried ⊆ addrs, (connect net h addrs last).1 = tried.map .connect := by
  induction addrs generalizing h last with
  | nil => exact ⟨[], List.Subset.refl _, rfl⟩
  | cons addr addrs ih =>
    cases hc : net.connect h addr with
    | ok u => exact ⟨[addr], by simp, by simp [connect, hc]⟩
    | error e =>
      obtain ⟨tried, hsub, hrest⟩ := ih (h ++ [.connect addr]) e
      exact ⟨addr :: tried, List.cons_subset_cons addr hsub, by simp [connect, hc, hrest]⟩

/-- A connection to one of the addresses found, and the request over it. -/
def dial (url : Url) (name : Option String) (h : List (Event Url))
    (r : List (Event Url) × Except FetchError (List SocketAddr)) : List (Event Url) × Except FetchError Answer :=
  match r.2 with
  | .error e => (r.1, .error e)
  | .ok addrs =>
    let tcp := connect net (h ++ r.1) addrs "no address"
    match tcp.2 with
    | .error e => (r.1 ++ tcp.1, .error e)
    | .ok () =>
      let events := r.1 ++ tcp.1 ++ [.sent url]
      (events, net.exchange (h ++ events) url name)

theorem dial_events (url : Url) (name : Option String) (h : List (Event Url))
    (r : List (Event Url) × Except FetchError (List SocketAddr)) :
    ∃ tried sent, (dial net url name h r).1 = r.1 ++ Event.tail tried sent ∧ (sent = [] ∨ sent = [url]) ∧
      (tried ≠ [] ∨ sent ≠ [] → ∃ addrs, r.2 = .ok addrs ∧ tried ⊆ addrs) := by
  cases hr : r.2 with
  | error e => exact ⟨[], [], by simp [dial, hr, Event.tail], .inl rfl, by simp⟩
  | ok addrs =>
    obtain ⟨tried, hsub, hevents⟩ := connect_events net (h ++ r.1) addrs "no address"
    cases hc : (connect net (h ++ r.1) addrs "no address").2 with
    | error e =>
      exact ⟨tried, [], by simp [dial, hr, hc, hevents, Event.tail], .inl rfl, fun _ => ⟨addrs, rfl, hsub⟩⟩
    | ok u =>
      exact ⟨tried, [url], by simp [dial, hr, hc, hevents, Event.tail], .inr rfl, fun _ => ⟨addrs, rfl, hsub⟩⟩

/-! ## URLs -/

inductive Host where
  | domain (name : String)
  | ipv4 (a : Ipv4Addr)
  | ipv6 (a : Ipv6Addr)

/-- What is used of the `url` crate. -/
class UrlCrate (Url : Type) where
  parse : String → Except String Url
  join : Url → String → Except String Url
  scheme : Url → String
  username : Url → String
  password : Url → Option String
  host : Url → Option Host
  portOrKnownDefault : Url → Option UInt16
  text : Url → String

open UrlCrate

def maxRedirects : Nat := 5

variable [UrlCrate Url]

/-- A URL this fetches from: absolute `http` or `https` with a host and no userinfo. -/
def checked (url : Url) : Except FetchError Url :=
  if scheme url ≠ "http" ∧ scheme url ≠ "https" then .error (.badUrl (scheme url ++ " is not http"))
  else if username url ≠ "" ∨ (password url).isSome then .error (.badUrl "userinfo")
  else if (host url).isNone then .error (.badUrl "no host")
  else .ok url

def parsed (s : String) : Except FetchError Url :=
  match parse s with
  | .error e => .error (.badUrl e)
  | .ok url => checked url

/-- Where a `Location` from `src` leads, if it may be followed. -/
def redirect (src : Url) (location : String) : Except FetchError Url :=
  match join src location with
  | .error e => .error (.badUrl e)
  | .ok joined =>
    match checked joined with
    | .error e => .error e
    | .ok target => if scheme src = "https" ∧ scheme target = "http" then .error .downgrade else .ok target

def proxyUrl (p : String) : Except FetchError Url :=
  match parse p with
  | .error e => .error (.badUrl ("proxy: " ++ e))
  | .ok url =>
    if scheme url ≠ "http" ∨ (host url).isNone then .error (.badUrl "proxy is not http://host:port") else .ok url

def literal (url : Url) : Option IpAddr :=
  match host url with
  | some (.ipv4 a) => some (.v4 a)
  | some (.ipv6 a) => some (.v6 a)
  | _ => none

structure FetchConfig where
  proxy : Option String
  name : Option String

def portOf (url : Url) : UInt16 := (portOrKnownDefault url).getD 80

def anyPrivate (addrs : List SocketAddr) : Bool := addrs.any fun a => !isPublic a.ip

/-- Is the configured URL on the local network? With the answers it was found so by. -/
def classify (url : Url) (proxied : Bool) : List (Event Url) × Bool × Option (List SocketAddr) :=
  match literal url, host url with
  | some ip, _ => ([], !isPublic ip, none)
  | none, some (.domain name) =>
    if proxied then ([], false, none)
    else
      let answer := net.resolve [] name (portOf url)
      match answer with
      | some (a :: addrs) => ([.lookup name (portOf url) answer], (a :: addrs).all fun a => !isPublic a.ip, answer)
      | _ => ([.lookup name (portOf url) answer], false, none)
  | _, _ => ([], false, none)

/-- A literal as it stands, a name as resolved. -/
def found (h : List (Event Url)) (url : Url) : List (Event Url) × Except FetchError (List SocketAddr) :=
  match literal url, host url with
  | some ip, _ => ([], .ok [⟨ip, portOf url⟩])
  | none, some (.domain name) =>
    let answer := net.resolve h name (portOf url)
    ([.lookup name (portOf url) answer],
      match answer with
      | some addrs => .ok addrs
      | none => .error .unresolvable)
  | _, _ => ([], .ok [])

def addresses (h : List (Event Url)) (url : Url) (check : Bool) :
    List (Event Url) × Except FetchError (List SocketAddr) :=
  let r := found net h url
  (r.1,
    match r.2 with
    | .error e => .error e
    | .ok addrs =>
      if addrs.isEmpty then .error .unresolvable
      else if check && anyPrivate addrs then .error .addressRefused
      else .ok addrs)

structure Route where
  check : Bool
  pinned : Option (List SocketAddr)
  name : Option String

/-- One hop: a connection of its own, one request, one answer. -/
def get (proxy : Option Url) (url : Url) (route : Route) (h : List (Event Url)) :
    List (Event Url) × Except FetchError Answer :=
  match proxy with
  | none =>
    match route.pinned with
    | some addrs =>
      if route.check && anyPrivate addrs then ([], .error .addressRefused)
      else dial net url route.name h ([], .ok addrs)
    | none => dial net url route.name h (addresses net h url route.check)
  | some proxy =>
    if route.check && (literal url).any (fun ip => !isPublic ip) then ([], .error .addressRefused)
    else dial net url route.name h (addresses net h proxy false)

structure Hop (Url : Type) where
  url : Url
  events : List (Event Url)
  answer : Except FetchError Answer

def hopOf (proxy : Option Url) (url : Url) (route : Route) (h : List (Event Url)) : Hop Url :=
  let r := get net proxy url route h
  ⟨url, r.1, r.2⟩

/-- The hops from `url`, with `left` redirects still to follow. -/
def hops (proxy : Option Url) (check : Bool) :
    Nat → Option (List SocketAddr) → Option String → Url → List (Event Url) → Option String → Bool →
      List (Hop Url) × Except FetchError Fetched
  | left, pinned, name, url, h, movedTo, permanentSoFar =>
    let hop := hopOf net proxy url ⟨check, pinned, name⟩ h
    match hop.answer with
    | .error e => ([hop], .error e)
    | .ok .notModified => ([hop], .ok .notModified)
    | .ok (.body bytes validators) => ([hop], .ok (.body bytes validators movedTo))
    | .ok (.redirect permanent location) =>
      match left with
      | 0 => ([hop], .error .tooManyRedirects)
      | left + 1 =>
        match redirect url location with
        | .error e => ([hop], .error e)
        | .ok target =>
          let soFar := permanentSoFar && permanent
          let rest := hops proxy check left none none target (h ++ hop.events)
            (if soFar then some (text target) else movedTo) soFar
          (hop :: rest.1, rest.2)

/-- One fetch: what classified its URL, its hops and its result. -/
structure Run (Url : Type) where
  classification : List (Event Url)
  hops : List (Hop Url)
  result : Except FetchError Fetched

def proxyOf (cfg : FetchConfig) : Except FetchError (Option Url) :=
  match cfg.proxy with
  | none => .ok none
  | some p =>
    match proxyUrl p with
    | .error e => .error e
    | .ok url => .ok (some url)

def follow (cfg : FetchConfig) (url : String) : Run Url :=
  match proxyOf cfg with
  | .error e => ⟨[], [], .error e⟩
  | .ok proxy =>
    match parsed url with
    | .error e => ⟨[], [], .error e⟩
    | .ok url =>
      let c := classify net url proxy.isSome
      let r := hops net proxy (!c.2.1) maxRedirects c.2.2 cfg.name url c.1 none true
      ⟨c.1, r.1, r.2⟩

/-! ## What a run shows -/

def Run.requests (r : Run Url) : List Url := r.hops.flatMap fun hop => Event.requests hop.events

/-- The addresses a hop without a proxy is checked on: those its URL was classified by, its literal, or what its
own lookup answered. -/
def Hop.answers (hop : Hop Url) (classified : List SocketAddr) : List SocketAddr :=
  if classified.isEmpty then
    match literal hop.url with
    | some ip => [⟨ip, portOf hop.url⟩]
    | none => Event.answers hop.events
  else classified

def ownLookups (url : Url) : List (String × UInt16) :=
  match host url with
  | some (.domain name) => [(name, portOf url)]
  | _ => []

/-- It connects to checked answers only, or not at all. -/
structure Hop.Checked (hop : Hop Url) (classified : List SocketAddr) : Prop where
  connected : ∀ a ∈ Event.connected hop.events, isPublic a.ip = true ∧ a ∈ hop.answers classified
  refused : (∃ a ∈ hop.answers classified, isPublic a.ip = false) → Event.connected hop.events = []
  lookups : Event.lookups hop.events = if classified.isEmpty then ownLookups hop.url else []

/-- The answers that are a run's first, when they are a hop's. -/
def Run.classified (r : Run Url) (i : Nat) : List SocketAddr := if i = 0 then Event.answers r.classification else []

def Run.Checked (r : Run Url) : Prop := ∀ i hop, r.hops[i]? = some hop → Hop.Checked hop (r.classified i)

/-! ## One hop -/

theorem found_lookups (h : List (Event Url)) (url : Url) :
    Event.lookups (found net h url).1 = ownLookups url := by
  cases hhost : host url with
  | none => simp [found, literal, ownLookups, hhost, Event.lookups]
  | some a => cases a <;> simp [found, literal, ownLookups, hhost, Event.lookups]

theorem found_answers {h : List (Event Url)} {url : Url} {addrs : List SocketAddr}
    (hfound : (found net h url).2 = .ok addrs) :
    (match literal url with
      | some ip => [⟨ip, portOf url⟩]
      | none => Event.answers (found net h url).1) = addrs := by
  cases hhost : host url with
  | none => simpa [found, literal, hhost, Event.answers] using hfound
  | some a =>
    cases a with
    | ipv4 a => simpa [found, literal, hhost] using hfound
    | ipv6 a => simpa [found, literal, hhost] using hfound
    | domain name =>
      cases hr : net.resolve h name (portOf url) with
      | none => simp [found, literal, hhost, hr] at hfound
      | some found' => simpa [found, literal, hhost, hr, Event.answers] using hfound

theorem found_requests (h : List (Event Url)) (url : Url) : Event.requests (found net h url).1 = [] := by
  cases hhost : host url with
  | none => simp [found, literal, hhost, Event.requests]
  | some a => cases a <;> simp [found, literal, hhost, Event.requests]

theorem found_connected (h : List (Event Url)) (url : Url) : Event.connected (found net h url).1 = [] := by
  cases hhost : host url with
  | none => simp [found, literal, hhost, Event.connected]
  | some a => cases a <;> simp [found, literal, hhost, Event.connected]

theorem addresses_eq_ok {h : List (Event Url)} {url : Url} {addrs : List SocketAddr}
    (hok : (addresses net h url true).2 = .ok addrs) :
    (found net h url).2 = .ok addrs ∧ anyPrivate addrs = false := by
  cases hfound : (found net h url).2 with
  | error e => simp [addresses, hfound] at hok
  | ok found' =>
    simp only [addresses, hfound, Bool.true_and] at hok
    split_ifs at hok with hempty hprivate
    cases hok
    exact ⟨rfl, by simpa using hprivate⟩

theorem anyPrivate_eq_false {addrs : List SocketAddr} :
    anyPrivate addrs = false ↔ ∀ a ∈ addrs, isPublic a.ip = true := by
  simp [anyPrivate]

theorem hop_checked {url : Url} {classified : List SocketAddr} {events : List (Event Url)}
    {answer : Except FetchError Answer} {tried : List SocketAddr} {sent : List Url}
    (hconnected : Event.connected events = [])
    (hlookups : Event.lookups events = if classified.isEmpty then ownLookups url else [])
    (htried : tried ≠ [] → ∀ a ∈ Hop.answers ⟨url, events, answer⟩ classified, isPublic a.ip = true)
    (hsub : tried ⊆ Hop.answers ⟨url, events, answer⟩ classified) :
    Hop.Checked ⟨url, events ++ Event.tail tried sent, answer⟩ classified := by
  have hanswers : Hop.answers ⟨url, events ++ Event.tail tried sent, answer⟩ classified =
      Hop.answers ⟨url, events, answer⟩ classified := by
    simp [Hop.answers]
  refine ⟨fun a ha => ?_, fun hprivate => ?_, by rw [← hlookups]; simp⟩
  · have htail : a ∈ tried := by simpa [hconnected] using ha
    rw [hanswers]
    exact ⟨htried (List.ne_nil_of_mem htail) a (hsub htail), hsub htail⟩
  · rw [hanswers] at hprivate
    obtain ⟨a, ha, hpub⟩ := hprivate
    have hnone : tried = [] := by
      by_contra hne
      rw [htried hne a ha] at hpub
      cases hpub
    simp [hconnected, hnone]

theorem get_checked (url : Url) {pinned : Option (List SocketAddr)} (hpinned : pinned ≠ some []) (name : Option String)
    (h : List (Event Url)) (answer : Except FetchError Answer) :
    Hop.Checked ⟨url, (get net none url ⟨true, pinned, name⟩ h).1, answer⟩ (pinned.getD []) := by
  cases pinned with
  | some addrs =>
    obtain ⟨a, rest, rfl⟩ := List.exists_cons_of_ne_nil fun h0 => hpinned (congrArg some h0)
    by_cases hprivate : anyPrivate (a :: rest) = true
    · have hevents : (get net none url ⟨true, some (a :: rest), name⟩ h).1 = [] := by simp [get, hprivate]
      rw [hevents]
      exact ⟨fun b hb => absurd hb List.not_mem_nil, fun _ => rfl, rfl⟩
    · have hget : get net none url ⟨true, some (a :: rest), name⟩ h =
          dial net url name h ([], .ok (a :: rest)) := by
        simp [get, hprivate]
      obtain ⟨tried, sent, hevents, -, htried⟩ := dial_events net url name h ([], .ok (a :: rest))
      rw [hget, hevents]
      have hpublic := anyPrivate_eq_false.mp (Bool.not_eq_true _ ▸ hprivate)
      refine hop_checked rfl rfl (fun _ => by simpa [Hop.answers] using hpublic) fun b hb => ?_
      obtain ⟨addrs, haddrs, hsub⟩ := htried (.inl (List.ne_nil_of_mem hb))
      cases haddrs
      simpa [Hop.answers] using hsub hb
  | none =>
    have hget : get net none url ⟨true, none, name⟩ h = dial net url name h (addresses net h url true) := rfl
    have hfound : (addresses net h url true).1 = (found net h url).1 := rfl
    obtain ⟨tried, sent, hevents, -, htried⟩ := dial_events net url name h (addresses net h url true)
    rw [hget, hevents, hfound]
    have hanswers : ∀ addrs, (addresses net h url true).2 = .ok addrs →
        Hop.answers ⟨url, (found net h url).1, answer⟩ [] = addrs ∧ ∀ a ∈ addrs, isPublic a.ip = true := by
      intro addrs haddrs
      obtain ⟨hok, hpublic⟩ := addresses_eq_ok net haddrs
      exact ⟨found_answers net hok, anyPrivate_eq_false.mp hpublic⟩
    refine hop_checked (found_connected net h url) (found_lookups net h url) (fun hne => ?_) fun b hb => ?_
    · obtain ⟨addrs, haddrs, hsub⟩ := htried (.inl hne)
      obtain ⟨hsame, hpublic⟩ := hanswers addrs haddrs
      exact hsame ▸ hpublic
    · obtain ⟨addrs, haddrs, hsub⟩ := htried (.inl (List.ne_nil_of_mem hb))
      rw [Option.getD_none, (hanswers addrs haddrs).1]
      exact hsub hb

theorem addresses_quiet (h : List (Event Url)) (url : Url) (check : Bool) :
    Event.requests (addresses net h url check).1 = [] :=
  found_requests net h url

theorem get_requests (proxy : Option Url) (url : Url) (route : Route) (h : List (Event Url)) :
    Event.requests (get net proxy url route h).1 = [] ∨ Event.requests (get net proxy url route h).1 = [url] := by
  have hdial : ∀ r : List (Event Url) × Except FetchError (List SocketAddr), Event.requests r.1 = [] →
      Event.requests (dial net url route.name h r).1 = [] ∨
        Event.requests (dial net url route.name h r).1 = [url] := by
    intro r hr
    obtain ⟨tried, sent, hevents, hsent, -⟩ := dial_events net url route.name h r
    rw [hevents, Event.requests_append, hr, Event.requests_tail]
    exact hsent
  unfold get
  split
  · split
    · split_ifs
      · exact .inl rfl
      · exact hdial _ rfl
    · exact hdial _ (addresses_quiet net h url route.check)
  · split_ifs
    · exact .inl rfl
    · exact hdial _ (addresses_quiet net h _ false)

/-- Behind a proxy a literal is checked before anything is done. -/
theorem get_proxied {proxy url : Url} {route : Route} {h : List (Event Url)} (hcheck : route.check = true)
    (hsent : Event.requests (get net (some proxy) url route h).1 ≠ []) {ip : IpAddr} (hip : literal url = some ip) :
    isPublic ip = true := by
  by_contra hprivate
  apply hsent
  have hget : get net (some proxy) url route h = ([], .error .addressRefused) := by
    simp [get, hcheck, hip, Bool.eq_false_of_not_eq_true hprivate]
  rw [hget]
  rfl

/-! ## The hops of a run -/

/-- Where a followed redirect led. -/
def Leads (hop next : Hop Url) : Prop :=
  ∃ permanent location, hop.answer = .ok (.redirect permanent location) ∧ redirect hop.url location = .ok next.url

/-- The redirects followed: whether each is permanent, and where it led. -/
def redirects : List (Hop Url) → List (Bool × Url)
  | hop :: next :: rest =>
    match hop.answer with
    | .ok (.redirect permanent _) => (permanent, next.url) :: redirects (next :: rest)
    | _ => redirects (next :: rest)
  | _ => []

/-- The last URL of the longest prefix of permanent redirects. -/
def movedTo (hops : List (Hop Url)) : Option String :=
  ((redirects hops).takeWhile fun r => r.1).getLast?.map fun r => text r.2

section Hops
variable {net} {proxy : Option Url} {check : Bool} {left : Nat} {pinned : Option (List SocketAddr)}
  {name : Option String} {url : Url} {h : List (Event Url)} {moved : Option String} {permanentSoFar : Bool}

/-- A run ends with its first hop, or follows the redirect that hop answered. -/
theorem hops_cases (net : Net Url) (proxy : Option Url) (check : Bool) (left : Nat)
    (pinned : Option (List SocketAddr)) (name : Option String) (url : Url) (h : List (Event Url))
    (moved : Option String) (permanentSoFar : Bool) :
    ∃ hop, hop = hopOf net proxy url ⟨check, pinned, name⟩ h ∧
      ((∃ result, hops net proxy check left pinned name url h moved permanentSoFar = ([hop], result) ∧
          ∀ bytes validators goal, result = .ok (.body bytes validators goal) → goal = moved) ∨
        ∃ left' permanent location target, left = left' + 1 ∧ hop.answer = .ok (.redirect permanent location) ∧
          redirect url location = .ok target ∧
          ∃ rest, rest = hops net proxy check left' none none target (h ++ hop.events)
              (if permanentSoFar && permanent then some (text target) else moved) (permanentSoFar && permanent) ∧
            hops net proxy check left pinned name url h moved permanentSoFar = (hop :: rest.1, rest.2)) := by
  refine ⟨_, rfl, ?_⟩
  rw [hops]
  generalize hopOf net proxy url ⟨check, pinned, name⟩ h = hop
  obtain ⟨there, events, answer⟩ := hop
  cases answer with
  | error e => exact .inl ⟨.error e, rfl, fun _ _ _ hbody => by simp at hbody⟩
  | ok answer =>
    cases answer with
    | notModified => exact .inl ⟨.ok .notModified, rfl, fun _ _ _ hbody => by simp at hbody⟩
    | body bytes validators =>
      refine .inl ⟨.ok (.body bytes validators moved), rfl, fun _ _ _ hbody => ?_⟩
      simp only [Except.ok.injEq, Fetched.body.injEq] at hbody
      exact hbody.2.2.symm
    | redirect permanent location =>
      cases left with
      | zero => exact .inl ⟨.error .tooManyRedirects, rfl, fun _ _ _ hbody => by simp at hbody⟩
      | succ left =>
        cases hredirect : redirect url location with
        | error e => exact .inl ⟨.error e, by simp [hredirect], fun _ _ _ hbody => by simp at hbody⟩
        | ok target =>
          refine .inr ⟨left, permanent, location, target, rfl, rfl, hredirect, _, rfl, ?_⟩
          simp only [hredirect]

/-- The hops of a run, one redirect at a time. -/
theorem hops_induct {Q : Option (List SocketAddr) → Url → List (Hop Url) → Prop}
    (hone : ∀ pinned name url h, Q pinned url [hopOf net proxy url ⟨check, pinned, name⟩ h])
    (hmore : ∀ pinned name url h permanent location target rest,
      (hopOf net proxy url ⟨check, pinned, name⟩ h).answer = .ok (.redirect permanent location) →
      redirect url location = .ok target → Q none target rest →
      Q pinned url (hopOf net proxy url ⟨check, pinned, name⟩ h :: rest)) :
    Q pinned url (hops net proxy check left pinned name url h moved permanentSoFar).1 := by
  induction left generalizing pinned name url h moved permanentSoFar with
  | zero =>
    obtain ⟨hop, rfl, ⟨result, heq, -⟩ | ⟨left', permanent, location, target, hleft, -⟩⟩ :=
      hops_cases net proxy check 0 pinned name url h moved permanentSoFar
    · rw [heq]
      exact hone pinned name url h
    · omega
  | succ left ih =>
    obtain ⟨hop, rfl, ⟨result, heq, -⟩ |
        ⟨left', permanent, location, target, hleft, hanswer, hredirect, rest, hrest, heq⟩⟩ :=
      hops_cases net proxy check (left + 1) pinned name url h moved permanentSoFar
    · rw [heq]
      exact hone pinned name url h
    · cases hleft
      rw [heq, hrest]
      exact hmore pinned name url h permanent location target _ hanswer hredirect ih

theorem hops_length : (hops net proxy check left pinned name url h moved permanentSoFar).1.length ≤ left + 1 := by
  induction left generalizing pinned name url h moved permanentSoFar with
  | zero =>
    obtain ⟨hop, -, ⟨result, heq, -⟩ | ⟨left', permanent, location, target, hleft, -⟩⟩ :=
      hops_cases net proxy check 0 pinned name url h moved permanentSoFar
    · rw [heq, List.length_singleton]
    · omega
  | succ left ih =>
    obtain ⟨hop, -, ⟨result, heq, -⟩ | ⟨left', permanent, location, target, hleft, -, -, rest, hrest, heq⟩⟩ :=
      hops_cases net proxy check (left + 1) pinned name url h moved permanentSoFar
    · rw [heq, List.length_singleton]
      omega
    · cases hleft
      rw [heq, List.length_cons, hrest]
      exact Nat.succ_le_succ ih

theorem hops_checked (hpinned : pinned ≠ some []) (i : Nat) (hop : Hop Url)
    (hi : (hops net none true left pinned name url h moved permanentSoFar).1[i]? = some hop) :
    hop.Checked (if i = 0 then pinned.getD [] else []) := by
  suffices hall : pinned ≠ some [] → ∀ (i : Nat) (hop : Hop Url),
      (hops net none true left pinned name url h moved permanentSoFar).1[i]? = some hop →
        hop.Checked (if i = 0 then pinned.getD [] else []) from
    hall hpinned i hop hi
  clear hpinned hi i hop
  apply hops_induct (Q := fun pinned _ hops => pinned ≠ some [] → ∀ (i : Nat) (hop : Hop Url), hops[i]? = some hop →
    hop.Checked (if i = 0 then pinned.getD [] else []))
  · intro pinned name url h hpinned i hop hi
    obtain ⟨hlt, rfl⟩ := List.getElem?_eq_some_iff.mp hi
    obtain rfl : i = 0 := by simpa using hlt
    exact get_checked net url hpinned name h _
  · rintro pinned name url h permanent location target rest - - hrest hpinned i hop hi
    cases i with
    | zero =>
      cases hi
      exact get_checked net url hpinned name h _
    | succ i =>
      have hlater := hrest (by simp) i hop (by simpa using hi)
      simpa using hlater

theorem mem_hops {hop : Hop Url} (hmem : hop ∈ (hops net proxy check left pinned name url h moved permanentSoFar).1) :
    ∃ route h, route.check = check ∧ hop = hopOf net proxy hop.url route h := by
  revert hmem
  apply hops_induct (Q := fun _ _ hops => hop ∈ hops →
    ∃ route h, route.check = check ∧ hop = hopOf net proxy hop.url route h)
  · intro pinned name url h hmem
    cases List.mem_singleton.mp hmem
    exact ⟨⟨check, pinned, name⟩, h, rfl, rfl⟩
  · rintro pinned name url h permanent location target rest - - hrest hmem
    rcases List.mem_cons.mp hmem with heq | hmem
    · cases heq
      exact ⟨⟨check, pinned, name⟩, h, rfl, rfl⟩
    · exact hrest hmem

/-- Each hop leads to the next, from the first one's URL. -/
theorem hops_leads : (hops net proxy check left pinned name url h moved permanentSoFar).1.IsChain Leads ∧
    ∃ hop, (hops net proxy check left pinned name url h moved permanentSoFar).1.head? = some hop ∧ hop.url = url := by
  apply hops_induct (Q := fun _ url hops => hops.IsChain Leads ∧ ∃ hop, hops.head? = some hop ∧ hop.url = url)
  · intro pinned name url h
    exact ⟨List.isChain_singleton _, _, rfl, rfl⟩
  · rintro pinned name url h permanent location target rest hanswer hredirect ⟨hrest, next, hnext, hurl⟩
    refine ⟨List.isChain_cons.mpr ⟨fun hop hhop => ?_, hrest⟩, _, rfl, rfl⟩
    rw [hnext] at hhop
    cases hhop
    exact ⟨permanent, location, hanswer, hurl ▸ hredirect⟩

omit [UrlCrate Url] in
theorem redirects_cons {hop next : Hop Url} {rest : List (Hop Url)} {permanent : Bool} {location : String}
    (hanswer : hop.answer = .ok (.redirect permanent location)) :
    redirects (hop :: next :: rest) = (permanent, next.url) :: redirects (next :: rest) := by
  rw [redirects, hanswer]

theorem movedTo_cons {hop next : Hop Url} {rest : List (Hop Url)} {permanent : Bool} {location : String}
    (hanswer : hop.answer = .ok (.redirect permanent location)) :
    movedTo (hop :: next :: rest) =
      if permanent then some ((movedTo (next :: rest)).getD (text next.url)) else none := by
  rw [movedTo, redirects_cons hanswer]
  cases permanent with
  | false => rfl
  | true =>
    rw [List.takeWhile_cons_of_pos rfl, List.getLast?_cons, Option.map_some, movedTo]
    cases (List.takeWhile (fun r : Bool × Url => r.1) (redirects (next :: rest))).getLast? <;> rfl

theorem moved_hops {bytes : List UInt8} {validators : Validators} {goal : Option String}
    (hbody : (hops net proxy check left pinned name url h moved permanentSoFar).2 =
      .ok (.body bytes validators goal)) :
    goal = if permanentSoFar
      then (movedTo (hops net proxy check left pinned name url h moved permanentSoFar).1).or moved else moved := by
  induction left generalizing pinned name url h moved permanentSoFar with
  | zero =>
    obtain ⟨hop, -, ⟨result, heq, hgoal⟩ | ⟨left', permanent, location, target, hleft, -⟩⟩ :=
      hops_cases net proxy check 0 pinned name url h moved permanentSoFar
    · rw [heq] at hbody ⊢
      rw [hgoal _ _ _ hbody]
      exact (ite_self moved).symm
    · omega
  | succ left ih =>
    obtain ⟨hop, -, ⟨result, heq, hgoal⟩ |
        ⟨left', permanent, location, target, hleft, hanswer, -, rest, hrest, heq⟩⟩ :=
      hops_cases net proxy check (left + 1) pinned name url h moved permanentSoFar
    · rw [heq] at hbody ⊢
      rw [hgoal _ _ _ hbody]
      exact (ite_self moved).symm
    · cases hleft
      rw [heq] at hbody ⊢
      have hhead : ∃ next, rest.1.head? = some next ∧ next.url = target := by
        rw [hrest]
        exact hops_leads.2
      obtain ⟨next, hnext, hurl⟩ := hhead
      obtain ⟨more, hmore⟩ := List.head?_eq_some_iff.mp hnext
      have hgoal := ih (hrest ▸ hbody)
      rw [← hrest, hmore] at hgoal
      rw [hgoal, hmore, movedTo_cons hanswer, hurl]
      cases permanentSoFar <;> cases permanent
      · rfl
      · rfl
      · exact (Option.none_or).symm
      · cases movedTo (next :: more) <;> rfl

end Hops

/-! ## Chains -/

/-- What may be asked for. -/
structure Served (url : Url) : Prop where
  scheme : scheme url = "http" ∨ scheme url = "https"
  username : username url = ""
  password : password url = none

theorem checked_eq_ok {url target : Url} (hok : checked url = .ok target) : url = target ∧ Served target := by
  unfold checked at hok
  split_ifs at hok with hscheme huser hhost
  cases hok
  rw [not_or] at huser
  exact ⟨rfl, by tauto, not_not.mp huser.1, by simpa using huser.2⟩

theorem redirect_eq_ok {src target : Url} {location : String} (hok : redirect src location = .ok target) :
    Served target ∧ (scheme src = "https" → scheme target = "https") := by
  unfold redirect at hok
  split at hok
  · cases hok
  · split at hok
    · cases hok
    · split_ifs at hok with hdown
      cases hok
      have hserved := (checked_eq_ok ‹_›).2
      refine ⟨hserved, fun hsrc => ?_⟩
      rcases hserved.scheme with hhttp | hhttps
      · exact absurd ⟨hsrc, hhttp⟩ hdown
      · exact hhttps

theorem chain_served {hops : List (Hop Url)} (hchain : hops.IsChain Leads)
    (hfirst : ∀ first, hops.head? = some first → Served first.url) : ∀ hop ∈ hops, Served hop.url := by
  induction hops with
  | nil => exact fun hop hmem => absurd hmem List.not_mem_nil
  | cons first rest ih =>
    obtain ⟨hleads, hrest⟩ := List.isChain_cons.mp hchain
    refine List.forall_mem_cons.mpr ⟨hfirst first rfl, ih hrest fun next hnext => ?_⟩
    obtain ⟨permanent, location, -, hredirect⟩ := hleads next hnext
    exact (redirect_eq_ok hredirect).1

theorem chain_secure {hops : List (Hop Url)} (hchain : hops.IsChain Leads) :
    hops.Pairwise fun a b => scheme a.url = "https" → scheme b.url = "https" := by
  have hstep : hops.IsChain fun a b => scheme a.url = "https" → scheme b.url = "https" := by
    refine hchain.imp fun a b hleads => ?_
    obtain ⟨permanent, location, -, hredirect⟩ := hleads
    exact (redirect_eq_ok hredirect).2
  have : IsTrans (Hop Url) fun a b => scheme a.url = "https" → scheme b.url = "https" :=
    ⟨fun a b c hab hbc ha => hbc (hab ha)⟩
  exact List.isChain_iff_pairwise.mp hstep

/-! ## The whole fetch -/

/-- A literal non-public address or, without a proxy, a name whose first answers are all non-public. -/
def IsLocal (proxied : Bool) (url : Url) : Prop :=
  (∃ ip, literal url = some ip ∧ isPublic ip = false) ∨
    proxied = false ∧ ∃ name addrs, host url = some (.domain name) ∧ net.resolve [] name (portOf url) = some addrs ∧
      addrs ≠ [] ∧ ∀ a ∈ addrs, isPublic a.ip = false

theorem classify_local (url : Url) (proxied : Bool) :
    (classify net url proxied).2.1 = true ↔ IsLocal net proxied url := by
  cases hhost : host url with
  | none => simp [classify, IsLocal, literal, hhost]
  | some a =>
    cases a with
    | ipv4 a => simp [classify, IsLocal, literal, hhost]
    | ipv6 a => simp [classify, IsLocal, literal, hhost]
    | domain name =>
      cases proxied with
      | true => simp [classify, IsLocal, literal, hhost]
      | false =>
        cases hanswer : net.resolve [] name (portOf url) with
        | none => simp [classify, IsLocal, literal, hhost, hanswer]
        | some addrs => cases addrs <;> simp [classify, IsLocal, literal, hhost, hanswer]

theorem classify_pinned (url : Url) (proxied : Bool) : (classify net url proxied).2.2 ≠ some [] ∧
    (classify net url proxied).2.2.getD [] = Event.answers (classify net url proxied).1 := by
  cases hhost : host url with
  | none => simp [classify, literal, hhost, Event.answers]
  | some a =>
    cases a with
    | ipv4 a => simp [classify, literal, hhost, Event.answers]
    | ipv6 a => simp [classify, literal, hhost, Event.answers]
    | domain name =>
      cases proxied with
      | true => simp [classify, literal, hhost, Event.answers]
      | false =>
        cases hanswer : net.resolve [] name (portOf url) with
        | none => simp [classify, literal, hhost, hanswer, Event.answers]
        | some addrs => cases addrs <;> simp [classify, literal, hhost, hanswer, Event.answers]

/-- A fetch makes no hop, or those of its checked URL. -/
theorem follow_cases (cfg : FetchConfig) (s : String) :
    (∃ e, follow net cfg s = ⟨[], [], .error e⟩) ∨
    ∃ proxy url, proxyOf cfg = .ok proxy ∧ parse s = .ok url ∧ Served url ∧
      ∃ r, r = hops net proxy (!(classify net url proxy.isSome).2.1) maxRedirects (classify net url proxy.isSome).2.2
          cfg.name url (classify net url proxy.isSome).1 none true ∧
        follow net cfg s = ⟨(classify net url proxy.isSome).1, r.1, r.2⟩ := by
  cases hproxy : (proxyOf cfg : Except FetchError (Option Url)) with
  | error e => exact .inl ⟨e, by simp [follow, hproxy]⟩
  | ok proxy =>
    cases hparse : (parse s : Except String Url) with
    | error e => exact .inl ⟨.badUrl e, by simp [follow, hproxy, parsed, hparse]⟩
    | ok there =>
      cases hchecked : checked there with
      | error e => exact .inl ⟨e, by simp [follow, hproxy, parsed, hparse, hchecked]⟩
      | ok url =>
        obtain ⟨rfl, hserved⟩ := checked_eq_ok hchecked
        exact .inr ⟨proxy, there, rfl, rfl, hserved, _, rfl, by simp [follow, hproxy, parsed, hparse, hchecked]⟩

theorem proxyOf_isSome {cfg : FetchConfig} {proxy : Option Url} (hok : proxyOf cfg = .ok proxy) :
    proxy.isSome = cfg.proxy.isSome := by
  unfold proxyOf at hok
  split at hok
  · cases hok
    simp [*]
  · split at hok
    · cases hok
    · cases hok
      simp [*]

theorem follow_leads (cfg : FetchConfig) (s : String) :
    (follow net cfg s).hops.IsChain Leads ∧
    (∀ first, (follow net cfg s).hops.head? = some first → Served first.url) ∧
    (follow net cfg s).hops.length ≤ maxRedirects + 1 := by
  obtain ⟨e, hnone⟩ | ⟨proxy, url, -, -, hserved, r, hr, hfollow⟩ := follow_cases net cfg s
  · rw [hnone]
    exact ⟨List.isChain_nil, fun _ hfirst => absurd hfirst (by simp), Nat.zero_le _⟩
  · have hhops : (follow net cfg s).hops = (hops net proxy (!(classify net url proxy.isSome).2.1) maxRedirects
        (classify net url proxy.isSome).2.2 cfg.name url (classify net url proxy.isSome).1 none true).1 := by
      rw [hfollow, hr]
    have hhead : ∃ first, (follow net cfg s).hops.head? = some first ∧ first.url = url := by
      rw [hhops]
      exact hops_leads.2
    obtain ⟨first, hfirst, hurl⟩ := hhead
    rw [hhops] at hfirst ⊢
    refine ⟨hops_leads.1, fun other hother => ?_, hops_length⟩
    cases hfirst.symm.trans hother
    exact hurl ▸ hserved

/-- A hop's requests are for its own URL. -/
theorem requests_sublist (cfg : FetchConfig) (s : String) :
    (follow net cfg s).requests.Sublist ((follow net cfg s).hops.map Hop.url) := by
  have hown : ∀ hop ∈ (follow net cfg s).hops, (Event.requests hop.events).Sublist [hop.url] := by
    intro hop hmem
    obtain ⟨e, hnone⟩ | ⟨proxy, url, -, -, -, r, hr, hfollow⟩ := follow_cases net cfg s
    · rw [hnone] at hmem
      exact absurd hmem List.not_mem_nil
    · rw [hfollow, hr] at hmem
      obtain ⟨route, h, -, hhop⟩ := mem_hops hmem
      have hevents : hop.events = (get net proxy hop.url route h).1 := congrArg Hop.events hhop
      rw [hevents]
      rcases get_requests net proxy hop.url route h with hquiet | hone
      · rw [hquiet]
        exact List.nil_sublist _
      · rw [hone]
  unfold Run.requests
  generalize (follow net cfg s).hops = hops at hown
  induction hops with
  | nil => exact List.Sublist.refl _
  | cons hop rest ih =>
    rw [List.flatMap_cons, List.map_cons]
    exact (hown hop List.mem_cons_self).append (ih fun other hmem => hown other (List.mem_cons_of_mem _ hmem))

/-- Without a proxy, from a URL that is not local. -/
theorem direct_checked {cfg : FetchConfig} {s : String} {url : Url} (hparse : parse s = .ok url)
    (hlocal : ¬ IsLocal net cfg.proxy.isSome url) (hdirect : cfg.proxy = none) : (follow net cfg s).Checked := by
  intro i hop hi
  obtain ⟨e, hnone⟩ | ⟨proxy, url', hproxy, hparse', -, r, hr, hfollow⟩ := follow_cases net cfg s
  · rw [hnone] at hi
    cases hi
  · cases hparse.symm.trans hparse'
    have hnone : (proxyOf cfg : Except FetchError (Option Url)) = .ok none := by simp [proxyOf, hdirect]
    cases hnone.symm.trans hproxy
    rw [hdirect] at hlocal
    have hcheck : (classify net url false).2.1 = false :=
      Bool.eq_false_of_not_eq_true fun h => hlocal ((classify_local net url false).mp h)
    obtain ⟨hne, hsame⟩ := classify_pinned net url false
    have hclassified : (follow net cfg s).classified i =
        if i = 0 then (classify net url false).2.2.getD [] else [] := by
      rw [hfollow, hsame]
      rfl
    rw [hclassified]
    have hhops : (follow net cfg s).hops = (hops net none (!(classify net url false).2.1) maxRedirects
        (classify net url false).2.2 cfg.name url (classify net url false).1 none true).1 := by
      rw [hfollow, hr]
      rfl
    rw [hhops, hcheck] at hi
    exact hops_checked hne i hop hi

/-- Behind a proxy, from a URL that is not local. -/
theorem proxied_checked {cfg : FetchConfig} {s : String} {url : Url} (hparse : parse s = .ok url)
    (hlocal : ¬ IsLocal net cfg.proxy.isSome url) (hproxied : cfg.proxy ≠ none) :
    ∀ u ∈ (follow net cfg s).requests, ∀ ip, literal u = some ip → isPublic ip = true := by
  intro u hu ip hip
  obtain ⟨hop, hmem, hsent⟩ := List.mem_flatMap.mp hu
  obtain ⟨e, hnone⟩ | ⟨proxy, url', hproxy, hparse', -, r, hr, hfollow⟩ := follow_cases net cfg s
  · rw [hnone] at hmem
    exact absurd hmem List.not_mem_nil
  · cases hparse.symm.trans hparse'
    rw [← proxyOf_isSome hproxy] at hlocal
    have hcheck : (classify net url proxy.isSome).2.1 = false :=
      Bool.eq_false_of_not_eq_true fun h => hlocal ((classify_local net url _).mp h)
    have hsome : proxy.isSome = true := by
      rw [proxyOf_isSome hproxy]
      exact Option.isSome_iff_ne_none.mpr hproxied
    obtain ⟨through, rfl⟩ := Option.isSome_iff_exists.mp hsome
    rw [hfollow, hr] at hmem
    obtain ⟨route, h, hroute, hhop⟩ := mem_hops hmem
    have hevents : hop.events = (get net (some through) hop.url route h).1 := congrArg Hop.events hhop
    rw [hevents] at hsent
    have hown : u = hop.url := by
      rcases get_requests net (some through) hop.url route h with hquiet | hone
      · rw [hquiet] at hsent
        exact absurd hsent List.not_mem_nil
      · rw [hone] at hsent
        exact List.mem_singleton.mp hsent
    exact get_proxied net (hroute.trans (by rw [hcheck]; rfl)) (List.ne_nil_of_mem hsent) (hown ▸ hip)

/-- The fetcher connects only where it checked, asks for what may be asked for, and says where a permanent chain
has gone; and what is public is known block by block. -/
theorem follow_where_checked (cfg : FetchConfig) (s : String) :
    (∀ url, parse s = .ok url → ¬ IsLocal net cfg.proxy.isSome url →
      (cfg.proxy = none → (follow net cfg s).Checked) ∧
        (cfg.proxy ≠ none → ∀ u ∈ (follow net cfg s).requests, ∀ ip, literal u = some ip → isPublic ip = true)) ∧
    ((follow net cfg s).requests.length ≤ maxRedirects + 1 ∧ (∀ u ∈ (follow net cfg s).requests, Served u) ∧
      (follow net cfg s).requests.Pairwise fun u w => scheme u = "https" → scheme w ≠ "http") ∧
    ((follow net cfg s).hops.IsChain Leads ∧ ∀ bytes validators goal,
      (follow net cfg s).result = .ok (.body bytes validators goal) → goal = movedTo (follow net cfg s).hops) ∧
    ∀ addr, isPublic addr = false ↔ Special addr := by
  obtain ⟨hchain, hfirst, hlength⟩ := follow_leads net cfg s
  have hsub := requests_sublist net cfg s
  refine ⟨fun url hparse hlocal => ⟨direct_checked net hparse hlocal, proxied_checked net hparse hlocal⟩,
    ⟨?_, fun u hu => ?_, ?_⟩, ⟨hchain, fun bytes validators goal hbody => ?_⟩, isPublic_eq_false⟩
  · calc (follow net cfg s).requests.length ≤ ((follow net cfg s).hops.map Hop.url).length := hsub.length_le
      _ = (follow net cfg s).hops.length := List.length_map _
      _ ≤ maxRedirects + 1 := hlength
  · obtain ⟨hop, hmem, rfl⟩ := List.mem_map.mp (hsub.subset hu)
    exact chain_served hchain hfirst hop hmem
  · refine List.Pairwise.sublist hsub (List.pairwise_map.mpr ((chain_secure hchain).imp ?_))
    intro a b hsecure ha hb
    exact absurd ((hsecure ha).symm.trans hb) (by decide)
  · obtain ⟨e, hnone⟩ | ⟨proxy, url, -, -, -, r, hr, hfollow⟩ := follow_cases net cfg s
    · rw [hnone] at hbody
      cases hbody
    · rw [hfollow, hr] at hbody ⊢
      rw [moved_hops hbody]
      exact Option.or_none

/-! ## A name that fails to resolve at first -/

structure SampleUrl where
  scheme : String
  host : String
  deriving DecidableEq

instance : UrlCrate SampleUrl where
  parse s := if s = "http://news.example/" then .ok ⟨"http", "news.example"⟩ else .error "relative URL without a base"
  join _ _ := .error "relative URL without a base"
  scheme := SampleUrl.scheme
  username _ := ""
  password _ := none
  host u := some (.domain u.host)
  portOrKnownDefault u := if u.scheme = "https" then some 443 else some 80
  text u := u.scheme ++ "://" ++ u.host ++ "/"

def lateAnswer : SocketAddr := ⟨.v4 ⟨203, 1, 2, 3⟩, 80⟩

/-- The first lookup fails, and later ones answer. -/
def lateNet : Net SampleUrl where
  resolve h _ _ := if h.isEmpty then none else some [lateAnswer]
  connect _ _ := .ok ()
  exchange _ _ _ := .ok .notModified

/-- The first hop looks the name up a second time, and connects to what that answers. -/
theorem looked_up_twice : (follow lateNet ⟨none, none⟩ "http://news.example/").hops.map Hop.events =
    [[.lookup "news.example" 80 (some [lateAnswer]), .connect lateAnswer, .sent ⟨"http", "news.example"⟩]] ∧
      (follow lateNet ⟨none, none⟩ "http://news.example/").classification = [.lookup "news.example" 80 none] := by
  decide +kernel

end HxdNg.Fetch
