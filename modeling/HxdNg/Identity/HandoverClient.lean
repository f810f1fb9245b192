import HxdNg.Identity.Handover
import HxdNg.Identity.Vectors

/-!
# A client's handover records

A client pins a host, and from then on applies what `check` and `repin` answer to what it remembers.
The chains, the challenges and the clock of each fetch are the server's and the world's; whether a
warning is accepted is the user's.

* `Client.run` : the client over any list of fetches;
* `History` : its records are one history, each of a handover that was served;
* `run_history_and_forks` : every run keeps that, and a fork of a record always warns.
-/

namespace HxdNg.Identity.Handover

/-- What reaches a client after its first pin. -/
inductive Event where
  | fetch (chain : List (List UInt8)) (challenge : ServerChallenge) (now : UInt64) (accepted : Bool)
  | repin (chain : List (List UInt8)) (challenge : ServerChallenge) (accepted : Bool)

def Event.served : Event → List (List UInt8)
  | .fetch chain _ _ _ => chain
  | .repin chain _ _ => chain

def Event.accepted : Event → Bool
  | .fetch _ _ _ accepted => accepted
  | .repin _ _ accepted => accepted

namespace Client

variable (P : Primitives)

/-- The first pin takes the challenge's key and `next`, and what aliases the chain gives. -/
def start (chain : List (List UInt8)) (challenge : ServerChallenge) (now : UInt64) : Pinned :=
  ⟨challenge.serverKey, challenge.next, pin P chain challenge now, []⟩

/-- Pins the challenge's key again, with its `next`, and keeps the records. -/
def pinAgain (s : Pinned) (challenge : ServerChallenge) : Pinned :=
  { s with key := challenge.serverKey, commitment := challenge.next }

def dismiss (s : Pinned) (sha256 : Bytes 32) : Pinned :=
  { s with dismissed := s.dismissed ++ [sha256] }

/-- What an accepted warning does: a fork is dismissed, any other pins again. -/
def accept (s : Pinned) (challenge : ServerChallenge) : Warning → Pinned
  | .fork sha256 => dismiss s sha256
  | .recommitted => pinAgain s challenge
  | .chain _ => pinAgain s challenge

def step (s : Pinned) : Event → Pinned
  | .fetch chain challenge now accepted =>
    match check P s chain challenge now with
    | .keep => s
    | .follow key next followed => { s with
        key := key, commitment := next, followed := s.followed ++ followed }
    | .warn w => if accepted then accept s challenge w else s
  | .repin chain challenge accepted =>
    match Handover.repin P chain s.followed s.dismissed with
    | .ok () => pinAgain s challenge
    | .error w => if accepted then accept s challenge w else s

def run (s : Pinned) (events : List Event) : Pinned := events.foldl (step P) s

end Client

/-! ## The records are one history -/

variable (P : Primitives)

/-- `f` is the record of the handover in `b`. -/
def RecordOf (b : List UInt8) (f : Followed) : Prop :=
  ∃ h, parse P b = .ok h ∧ f = record h (P.sha256 b)

/-- Records of handovers among the `served` bytes, from distinct keys and of ascending times. -/
structure History (served : List (List UInt8)) (followed : List Followed) : Prop where
  olds : (followed.map Followed.old).Nodup
  times : followed.Pairwise fun a b => a.time < b.time
  of_served : ∀ f ∈ followed, ∃ b ∈ served, RecordOf P b f

section
variable {P : Primitives}

theorem map_old_records {bs : List (List UInt8)} {hs : List Handover} (hv : Verify P bs hs) :
    (records P bs hs).map Followed.old = hs.map Handover.old := by
  induction hv with
  | nil => rfl
  | cons hb _ ih => simpa [records, record] using ih

theorem map_time_records {bs : List (List UInt8)} {hs : List Handover} (hv : Verify P bs hs) :
    (records P bs hs).map Followed.time = hs.map Handover.time := by
  induction hv with
  | nil => rfl
  | cons hb _ ih => simpa [records, record] using ih

theorem recordOf_of_mem_records {bs : List (List UInt8)} {hs : List Handover}
    (hv : Verify P bs hs) : ∀ f ∈ records P bs hs, ∃ b ∈ bs, RecordOf P b f := by
  induction hv with
  | nil => intro f hf; cases hf
  | @cons b h bs hs hb _ ih =>
    intro f hf
    rcases List.mem_cons.mp hf with rfl | hf
    · exact ⟨b, List.mem_cons_self, h, hb, rfl⟩
    · obtain ⟨b', hb', hrec⟩ := ih f hf
      exact ⟨b', List.mem_cons_of_mem _ hb', hrec⟩

/-- Along committed links each `old` after the first is the `new` before it. -/
theorem map_old_sublist {h : Handover} {hs : List Handover} (hl : (h :: hs).IsChain (Link P)) :
    List.Sublist (hs.map Handover.old) ((h :: hs).map Handover.new) := by
  induction hs generalizing h with
  | nil => exact List.nil_sublist _
  | cons h' hs ih =>
    rw [List.isChain_cons_cons] at hl
    rw [List.map_cons, List.map_cons, hl.1.1]
    exact (ih hl.2).cons_cons h.new

/-- What a walk records is a history. -/
theorem history_records {challenge : ServerChallenge} {now : UInt64} {bs : List (List UInt8)}
    {h : Handover} {hs : List Handover} (hv : Verify P bs (h :: hs))
    (hw : Walks P challenge now h hs) : History P bs (records P bs (h :: hs)) := by
  refine ⟨?_, ?_, recordOf_of_mem_records hv⟩
  · rw [map_old_records hv, List.map_cons]
    exact hw.keys.sublist ((map_old_sublist hw.links).cons_cons h.old)
  · have htimes : ((h :: hs).map Handover.time).Pairwise (· < ·) :=
      List.pairwise_map.mpr (List.isChain_iff_pairwise.mp hw.times)
    rw [← map_time_records hv] at htimes
    exact List.pairwise_map.mp htimes

theorem History.mono {S S' : List (List UInt8)} {f : List Followed} (hf : History P S f)
    (hS : S ⊆ S') : History P S' f := by
  refine ⟨hf.olds, hf.times, fun x hx => ?_⟩
  obtain ⟨b, hb, hrec⟩ := hf.of_served x hx
  exact ⟨b, hS hb, hrec⟩

theorem History.sublist {S : List (List UInt8)} {f f' : List Followed} (hf : History P S f)
    (h : List.Sublist f' f) : History P S f' :=
  ⟨hf.olds.sublist (h.map _), hf.times.sublist h, fun x hx => hf.of_served x (h.subset hx)⟩

theorem mem_fresh {held followed : List Followed} {f : Followed} :
    f ∈ fresh held followed ↔ f ∈ followed ∧ ∀ r ∈ held, r.old ≠ f.old := by
  simp [fresh]

/-- Records all later than those held, less those of an `old` already held, extend a history. -/
theorem History.append_fresh {S : List (List UInt8)} {held followed : List Followed}
    (hheld : History P S held) (hf : History P S followed)
    (hlater : ∀ r ∈ held, ∀ f ∈ followed, r.time < f.time) :
    History P S (held ++ fresh held followed) := by
  have hfresh : History P S (fresh held followed) := hf.sublist List.filter_sublist
  refine ⟨?_, ?_, ?_⟩
  · rw [List.map_append]
    refine hheld.olds.append hfresh.olds ?_
    intro k hk hk'
    obtain ⟨r, hr, rfl⟩ := List.mem_map.mp hk
    obtain ⟨f, hf, hold⟩ := List.mem_map.mp hk'
    exact (mem_fresh.mp hf).2 r hr hold.symm
  · rw [List.pairwise_append]
    exact ⟨hheld.times, hfresh.times, fun r hr f hf => hlater r hr f (mem_fresh.mp hf).1⟩
  · intro f hf
    rcases List.mem_append.mp hf with hf | hf
    · exact hheld.of_served f hf
    · exact hfresh.of_served f hf

/-- The first of a walk's records is its earliest. -/
theorem time_le_of_mem_records {h : Handover} {hs : List Handover} {bs : List (List UInt8)}
    (hv : Verify P bs (h :: hs)) (ht : (h :: hs).IsChain fun a b => a.time < b.time) :
    ∀ f ∈ records P bs (h :: hs), h.time ≤ f.time := by
  intro f hf
  have hmem : f.time ∈ (h :: hs).map Handover.time := by
    rw [← map_time_records hv]
    exact List.mem_map_of_mem hf
  obtain ⟨x, hx, hxt⟩ := List.mem_map.mp hmem
  rcases List.mem_cons.mp hx with rfl | hx
  · exact UInt64.le_of_eq hxt
  · rw [← hxt]
    exact UInt64.le_of_lt ((List.pairwise_cons.mp (List.isChain_iff_pairwise.mp ht)).1 x hx)

namespace Client

/-- A first pin's records are a history of the chain served. -/
theorem history_pin (chain : List (List UInt8)) (challenge : ServerChallenge) (now : UInt64) :
    History P chain (pin P chain challenge now) := by
  have hnil : History P chain [] := ⟨List.nodup_nil, .nil, by simp⟩
  unfold pin serve
  by_cases hlen : chain.length > maxChain
  · rw [if_pos hlen]
    exact hnil
  rw [if_neg hlen]
  dsimp only
  cases hw : walk P (chain.map (serveOne P)) challenge now with
  | error e => exact hnil
  | ok f =>
    cases chain with
    | nil =>
      obtain rfl : [] = f := Except.ok.inj hw
      exact hnil
    | cons b bs =>
      obtain ⟨h, hs, hv, hwalks, rfl⟩ := walk_eq_ok.mp hw
      exact history_records hv hwalks

/-- `check` adds to a history of served handovers only more of it. -/
theorem history_follow {S : List (List UInt8)} {s : Pinned} {chain : List (List UInt8)}
    {challenge : ServerChallenge} {now : UInt64} {key : PublicKey} {next : Option (Bytes 32)}
    {f : List Followed} (hs : History P S s.followed) (hchain : chain ⊆ S)
    (h : check P s chain challenge now = .follow key next f) :
    History P S (s.followed ++ f) := by
  obtain ⟨-, -, hfollow, -, -⟩ := check_eq_follow.mp h
  obtain ⟨-, bs, h, hs', hc, rfl⟩ := follow_eq_ok.mp hfollow
  obtain ⟨before, hbefore, -⟩ := hc.first
  have hbs : bs ⊆ S := fun b hb => hchain (hbefore ▸ List.mem_append_right before hb)
  refine hs.append_fresh ((history_records hc.verify hc.walks).mono hbs) ?_
  intro r hr x hx
  exact UInt64.lt_of_lt_of_le (hc.after_records r hr)
    (time_le_of_mem_records hc.verify hc.walks.times x hx)

@[simp] theorem accept_followed (s : Pinned) (challenge : ServerChallenge) (w : Warning) :
    (accept s challenge w).followed = s.followed := by
  cases w <;> rfl

/-- Every event keeps the records a history of what was served. -/
theorem history_step {S : List (List UInt8)} {s : Pinned} (hs : History P S s.followed) {e : Event}
    (he : e.served ⊆ S) : History P S (step P s e).followed := by
  cases e with
  | fetch chain challenge now accepted =>
    unfold step
    dsimp only
    split
    · exact hs
    · rename_i h
      exact history_follow hs he h
    · cases accepted
      · exact hs
      · rw [if_pos rfl, accept_followed]
        exact hs
  | repin chain challenge accepted =>
    unfold step
    dsimp only
    split
    · exact hs
    · cases accepted
      · exact hs
      · rw [if_pos rfl, accept_followed]
        exact hs

def served (chain : List (List UInt8)) (events : List Event) : List (List UInt8) :=
  chain ++ events.flatMap Event.served

theorem history_run (chain : List (List UInt8)) (challenge : ServerChallenge) (now : UInt64)
    (events : List Event) :
    History P (served chain events) (run P (start P chain challenge now) events).followed := by
  have hstart : History P (served chain events) (start P chain challenge now).followed :=
    (history_pin chain challenge now).mono (List.subset_append_left _ _)
  refine List.foldlRecOn
    (motive := fun s => History P (served chain events) s.followed) events (step P) hstart ?_
  intro s hs e he
  refine history_step hs fun b hb => ?_
  exact List.mem_append_right _ (List.mem_flatMap.mpr ⟨e, he, hb⟩)

/-! ## Forks -/

/-- SHA-256 tells `b` from the byte strings of a list. -/
def NoCollision (P : Primitives) (b : List UInt8) (chain : List (List UInt8)) : Prop :=
  ∀ x ∈ chain, P.sha256 x = P.sha256 b → x = b

/-- The client answers a served list with a fork warning, and for it gives up nothing it holds: only
the hash is dismissed, when the user accepts. -/
structure WarnsOfFork (P : Primitives) (s : Pinned) (chain : List (List UInt8)) (sha256 : Bytes 32) :
    Prop where
  check : ∀ challenge now, check P s chain challenge now = .warn (.fork sha256)
  repin : Handover.repin P chain s.followed s.dismissed = .error (.fork sha256)
  step : ∀ e : Event, e.served = chain → step P s e = if e.accepted then dismiss s sha256 else s

theorem forks_of_conflict {followed : List Followed} {dismissed : List (Bytes 32)}
    {chain : List (List UInt8)} (hlen : chain.length ≤ maxChain)
    (hc : ∃ b ∈ chain, Conflict P followed dismissed b) :
    ∃ sha256, forks followed dismissed ((serve P chain).getD []) = .error (.fork sha256) := by
  rw [serve_getD hlen]
  cases hf : forks followed dismissed (chain.map (serveOne P)) with
  | ok u =>
    obtain ⟨b, hb, hconf⟩ := hc
    exact absurd hconf (forks_eq_ok.mp hf b hb)
  | error w =>
    obtain ⟨sha256, rfl⟩ := forks_eq_error hf
    exact ⟨sha256, rfl⟩

theorem warnsOfFork {s : Pinned} {chain : List (List UInt8)} (hlen : chain.length ≤ maxChain)
    (hc : ∃ b ∈ chain, Conflict P s.followed s.dismissed b) :
    ∃ sha256, WarnsOfFork P s chain sha256 := by
  obtain ⟨sha256, hforks⟩ := forks_of_conflict hlen hc
  have hcheck : ∀ challenge now, check P s chain challenge now = .warn (.fork sha256) := by
    intro challenge now
    unfold Handover.check
    simp only [hforks]
  have hrepin : Handover.repin P chain s.followed s.dismissed = .error (.fork sha256) := hforks
  refine ⟨sha256, hcheck, hrepin, fun e he => ?_⟩
  cases e with
  | fetch chain' challenge now accepted =>
    obtain rfl : chain' = chain := he
    simp only [step, hcheck challenge now]
    rfl
  | repin chain' challenge accepted =>
    obtain rfl : chain' = chain := he
    simp only [step, hrepin]
    rfl

/-- Over every run the records stay one history of what was served, and any later list of at most
`maxChain` entries with a verified handover from a recorded key, of other bytes than the recorded
one's and of an undismissed hash, warns of a fork. -/
theorem run_history_and_forks (chain : List (List UInt8)) (challenge : ServerChallenge)
    (now : UInt64) (events : List Event) :
    let s := run P (start P chain challenge now) events
    (s.followed.map Followed.old).Nodup ∧ s.followed.Pairwise (fun a b => a.time < b.time) ∧
    ∀ f ∈ s.followed, (∃ b ∈ served chain events, RecordOf P b f) ∧
      ∀ b, RecordOf P b f → ∀ later : List (List UInt8), later.length ≤ maxChain →
        NoCollision P b later →
        (∃ x ∈ later, From P f.old x ∧ x ≠ b ∧ P.sha256 x ∉ s.dismissed) →
          ∃ sha256, WarnsOfFork P s later sha256 := by
  intro s
  have hs : History P (served chain events) s.followed := history_run chain challenge now events
  refine ⟨hs.olds, hs.times, fun f hf => ⟨hs.of_served f hf, ?_⟩⟩
  intro b hrec later hlen hcoll hx
  obtain ⟨x, hx, ⟨h, hparse, hold⟩, hne, hdis⟩ := hx
  refine warnsOfFork hlen ⟨x, hx, h, hparse, hdis, f, hf, hold.symm, ?_⟩
  obtain ⟨h', -, rfl⟩ := hrec
  exact fun hsha => hne (hcoll x hx hsha.symm)

end Client

end

/-! ## The published handovers -/

namespace Published

def serverKey : PublicKey :=
  beArray 32 0xca93ac1705187071d67b83c7ff0efe8108e8ec4530575d7726879333dbdabe7c

def k1 : PublicKey :=
  beArray 32 0xd04ab232742bb4ab3a1368bd4615e4e6d0224ab71a016baf8520a332c9778737

def stray : PublicKey :=
  beArray 32 0x1ba4075b77c9e3fb3ecde15cdaf5221f3c10373e623f7b0e1ef76366b0af7137

def next : Bytes 32 :=
  beArray 32 0xb0066359d64f97eb279947feeb083a96343d5f5a0a2c9cf82842f6f4749ff534

def h0_1 : Handover := ⟨serverKey, k1, some next, 1757203200⟩

def h0_stray : Handover := ⟨serverKey, stray, some next, 1757203200⟩

def h0_1_sig : Signature :=
  beArray 64 0x690696b86e612b8e1da62f00e459952ee8b469bee24f556f3f6f74c7566171c3_5bf447ff1b11d15ac61481dd4da88252a0a0e370fb809cb8885e6a6cc97cc904

def h0_stray_sig : Signature :=
  beArray 64 0x2f5e2559d0380e915d82a99c3a5586d240f7207fc2a2bbb29a65e9739ed78b67_775ec01f514a810e61d88a2d3ae8d85adc3b6e5aeed439b879b0a283d590d40a

def signed (h : Handover) (sig : Signature) : List UInt8 :=
  Cbor.encode (pushEntry "sig" (.bytes sig.val) h.unsigned)

def c1 : ServerChallenge := ⟨k1, some next⟩

def now : UInt64 := 1759708800

/-- The values of Ed25519 and SHA-256 at the two handovers. -/
def table : Table where
  publicKeys := []
  signatures :=
    [((serverKey, domainMessage domain (Cbor.encode h0_1.unsigned)), h0_1_sig),
      ((serverKey, domainMessage domain (Cbor.encode h0_stray.unsigned)), h0_stray_sig)]
  hashes :=
    [(signed h0_1 h0_1_sig,
        beArray 32 0x6982c449e853d9bd04e86ae3387e2cc8c94eea5e9534a2df3d30b37fafe69f4b),
      (signed h0_stray h0_stray_sig,
        beArray 32 0xacb8ad345d9e55f861cc9438c8512886ce55c12ab84b062c4d5bf109bd3ec27d)]
  encKeys := []

end Published

open Published in
/-- A client that pinned `k1` with the handover to it, and is then served the one to `stray`. -/
theorem run_history_and_forks_published :
    ∃ sha256, Client.WarnsOfFork table.primitives
      (Client.run table.primitives
        (Client.start table.primitives [signed h0_1 h0_1_sig] c1 now)
        [.fetch [signed h0_1 h0_1_sig] c1 now false])
      [signed h0_stray h0_stray_sig] sha256 := by
  have hparse : parse table.primitives (signed h0_1 h0_1_sig) = .ok h0_1 := by decide +kernel
  have hstray : parse table.primitives (signed h0_stray h0_stray_sig) = .ok h0_stray := by
    decide +kernel
  have hsha : table.primitives.sha256 (signed h0_stray h0_stray_sig) ≠
      table.primitives.sha256 (signed h0_1 h0_1_sig) := by decide +kernel
  have hrun := (Client.run_history_and_forks (P := table.primitives) [signed h0_1 h0_1_sig] c1 now
    [.fetch [signed h0_1 h0_1_sig] c1 now false]).2.2
  refine (hrun (record h0_1 (table.primitives.sha256 (signed h0_1 h0_1_sig))) ?_).2
    (signed h0_1 h0_1_sig) ⟨h0_1, hparse, rfl⟩ [signed h0_stray h0_stray_sig] (by decide) ?_ ?_
  · decide +kernel
  · intro x hx heq
    rw [List.mem_singleton] at hx
    subst hx
    exact absurd heq hsha
  · refine ⟨_, List.mem_singleton.mpr rfl, ⟨h0_stray, hstray, rfl⟩, ?_, ?_⟩
    · decide +kernel
    · decide +kernel

end HxdNg.Identity.Handover
