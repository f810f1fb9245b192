import HxdNg.Lib.Numbered
import HxdNg.Roster.Outbox

/-!
# Resuming a session

A session's outbox under any interleaving of pushes, reads, drops, losses, takeovers and resumes.
Beside the session, the `World` remembers what was pushed and what each connection's client received
since its last resync.

* `Inv` : what holds of a session and its clients;
* `inv_step`, `inv_run` : every action keeps it;
* `resume_exact` : the stream is gapless, a replay is exactly what the client lacks, and each client
  sees every event once and in order between two resyncs.
-/

namespace HxdNg.Roster

variable {α : Type}

/-- What the client on a connection has seen of the stream. -/
structure Client (α : Type) where
  first : Nat
  got : List (SeqEvent α)
  base : Nat
  carried : List (SeqEvent α)

namespace Client

def log (c : Client α) : List (SeqEvent α) := c.carried ++ c.got

def last (c : Client α) : Nat := c.base + c.log.length

def start : Client α := ⟨1, [], 0, []⟩

def resumed (before : Client α) (nextSeq : Nat) (lastSeq : UInt64) : Resume α → Client α
  | .replayed _ events =>
    if lastSeq.toNat = before.last then ⟨nextSeq, [], before.base, before.log ++ events⟩
    else ⟨nextSeq, [], lastSeq.toNat, events⟩
  | _ => ⟨nextSeq, [], nextSeq - 1, []⟩

end Client

structure World (α : Type) where
  session : Session α
  sent : List (Event α)
  client : Nat → Client α

inductive Action (α : Type) where
  | push (event : Event α)
  | recv (conn : Nat)
  | dropEvents (conn : Nat)
  | connectionLost (parks : Bool)
  | connectionLostFrom (conn : Nat) (parks : Bool)
  | loseSealed
  /-- The client of connection `who` resumes on a new one. -/
  | resume (who : Nat) (lastSeq : UInt64) (lost refused : Bool)
  | endSession
  | otherQueues (held shares : Nat)

namespace World

def start (budget : QueueBudget) : World α := ⟨.attach budget, [], fun _ => .start⟩

/-- The seq the session's next event gets. -/
def nextSeq (w : World α) : Nat := w.sent.length + 1

variable (weight : Event α → Nat)

def push (w : World α) (event : Event α) : World α :=
  if w.session.outbox.isNone then w
  else { w with session := w.session.push weight event, sent := w.sent ++ [event] }

def recv (w : World α) (c : Nat) : World α :=
  match w.session.recv weight c with
  | (some se, s) => { w with
      session := s
      client := Function.update w.client c
        { w.client c with got := (w.client c).got ++ [se] } }
  | (none, s) => { w with session := s }

def resume (w : World α) (who : Nat) (lastSeq : UInt64) (lost refused : Bool) : World α :=
  let (answer, s) := w.session.resumeSealed lastSeq lost refused
  match answer with
  | .gone => { w with session := s }
  | answer => { w with
      session := s
      client := Function.update w.client w.session.attached
        (.resumed (w.client who) w.nextSeq lastSeq answer) }

def step (w : World α) : Action α → World α
  | .push event => w.push weight event
  | .recv c => w.recv weight c
  | .dropEvents c => { w with session := w.session.dropEvents c }
  | .connectionLost parks => { w with session := w.session.lose parks }
  | .connectionLostFrom c parks => { w with session := w.session.connectionLostFrom c parks }
  | .loseSealed => { w with session := w.session.loseSealed }
  | .resume who lastSeq lost refused => w.resume who lastSeq lost refused
  | .endSession => { w with session := w.session.endSession }
  | .otherQueues held shares => { w with
      session := { w.session with budget := { w.session.budget with held, shares } } }

def run (w : World α) (actions : List (Action α)) : World α := actions.foldl (step weight) w

end World

/-! ## The invariant -/

/-- `se` is the event pushed with its seq, or that event's placeholder. -/
def Stands (sent : List (Event α)) (se : SeqEvent α) : Prop :=
  ∃ ev, 1 ≤ se.seq ∧ sent[se.seq - 1]? = some ev ∧ (se.event = ev ∨ se.event = ev.lose)

/-- A gapless stretch of the stream from `first` on. -/
structure Stretch (sent : List (Event α)) (first : Nat) (events : List (SeqEvent α)) : Prop where
  numbered : Numbered SeqEvent.seq first events
  stands : ∀ se ∈ events, Stands sent se

/-- What holds of a connection and its client. -/
structure ConnInv (sent : List (Event α)) (conn : Conn α) (client : Client α) : Prop where
  carried : Stretch sent (client.base + 1) client.carried
  meets : client.base + 1 + client.carried.length = client.first
  stream : Stretch sent client.first (client.got ++ conn.queue)

/-- What holds of a sink. -/
def SinkInv (w : World α) : Sink α → Prop
  | .live c => (w.session.conns c).receiving = true →
      (w.client c).first + ((w.client c).got ++ (w.session.conns c).queue).length = w.nextSeq
  | .lagged _ => True
  | .buffering startSeq buf _ broken =>
      Stretch w.sent startSeq buf ∧ buf.length ≤ outboxBufferCap ∧ 1 ≤ startSeq ∧
        (broken = false → startSeq + buf.length = w.nextSeq)

/-- What holds of a session and its clients in every reachable state. -/
structure Inv (w : World α) : Prop where
  conns : ∀ c, ConnInv w.sent (w.session.conns c) (w.client c)
  nextSeq : ∀ o, w.session.outbox = some o → o.nextSeq = w.nextSeq
  sink : ∀ o, w.session.outbox = some o → SinkInv w o.sink

/-! ### Stretches of the stream -/

section Stretch
variable {sent : List (Event α)} {first : Nat} {events : List (SeqEvent α)}

theorem Stands.mono {se : SeqEvent α} (h : Stands sent se) (ev : Event α) :
    Stands (sent ++ [ev]) se := by
  obtain ⟨e, hpos, hget, heq⟩ := h
  obtain ⟨hlt, -⟩ := List.getElem?_eq_some_iff.mp hget
  refine ⟨e, hpos, ?_, heq⟩
  rw [List.getElem?_append_left hlt, hget]

theorem stands_pushed (sent : List (Event α)) (ev : Event α) :
    Stands (sent ++ [ev]) ⟨sent.length + 1, ev⟩ :=
  ⟨ev, Nat.le_add_left 1 _, by simp, Or.inl rfl⟩

theorem Event.lose_lose (ev : Event α) : ev.lose.lose = ev.lose := by
  cases ev <;> rfl

theorem Stands.lose {se : SeqEvent α} (h : Stands sent se) :
    Stands sent ⟨se.seq, se.event.lose⟩ := by
  obtain ⟨e, hpos, hget, heq⟩ := h
  refine ⟨e, hpos, hget, Or.inr ?_⟩
  rcases heq with heq | heq
  · rw [heq]
  · rw [heq, Event.lose_lose]

namespace Stretch

theorem nil : Stretch sent first [] := ⟨Numbered.nil, by simp⟩

theorem mono (h : Stretch sent first events) (ev : Event α) : Stretch (sent ++ [ev]) first events :=
  ⟨h.numbered, fun se hse => (h.stands se hse).mono ev⟩

theorem left {more : List (SeqEvent α)} (h : Stretch sent first (events ++ more)) :
    Stretch sent first events :=
  ⟨(Numbered.append_iff.mp h.numbered).1, fun se hse => h.stands se (List.mem_append_left _ hse)⟩

theorem append {more : List (SeqEvent α)} (h : Stretch sent first events)
    (hmore : Stretch sent (first + events.length) more) : Stretch sent first (events ++ more) := by
  refine ⟨h.numbered.append hmore.numbered, fun se hse => ?_⟩
  rcases List.mem_append.mp hse with hse | hse
  · exact h.stands se hse
  · exact hmore.stands se hse

/-- The event pushed next continues a stretch that reaches the end of the stream. -/
theorem push (h : Stretch sent first events) (hend : first + events.length = sent.length + 1)
    (ev : Event α) : Stretch (sent ++ [ev]) first (events ++ [⟨sent.length + 1, ev⟩]) := by
  refine (h.mono ev).append ⟨Numbered.cons_iff.mpr ⟨hend.symm, Numbered.nil⟩, ?_⟩
  intro se hse
  rw [List.mem_singleton] at hse
  rw [hse]
  exact stands_pushed sent ev

theorem lose (h : Stretch sent first events) :
    Stretch sent first (events.map fun se => ⟨se.seq, se.event.lose⟩) := by
  refine ⟨?_, ?_⟩
  · have hnum := h.numbered
    unfold Numbered at hnum ⊢
    rw [List.map_map, List.length_map]
    exact hnum
  · intro se hse
    obtain ⟨se', hse', rfl⟩ := List.mem_map.mp hse
    exact (h.stands se' hse').lose

end Stretch

end Stretch

/-! ### What a push does -/

section Push
variable {weight : Event α → Nat} {w : World α}

/-- A push on a connection queues the event, is refused for lag, or finds nobody reading. -/
theorem Conn.push_cases {b b' : QueueBudget} {conn conn' : Conn α} {se : SeqEvent α}
    {pushed : Pushed} (h : conn.push weight b se = (b', conn', pushed)) :
    conn'.receiving = conn.receiving ∧
      (pushed = .dropped ∧ conn'.queue = conn.queue ∨
        pushed = .closed ∧ conn.receiving = false ∧ conn'.queue = conn.queue ∨
        pushed = .live ∧ conn.receiving = true ∧ conn'.queue = conn.queue ++ [se]) := by
  unfold Conn.push at h
  dsimp only at h
  split at h
  · obtain ⟨-, rfl, rfl⟩ := h
    exact ⟨rfl, Or.inl ⟨rfl, rfl⟩⟩
  · by_cases hrec : conn.receiving = true
    · rw [if_neg (by simpa using hrec)] at h
      split at h
      · obtain ⟨-, rfl, rfl⟩ := h
        exact ⟨rfl, Or.inl ⟨rfl, rfl⟩⟩
      · obtain ⟨-, rfl, rfl⟩ := h
        exact ⟨rfl, Or.inr (Or.inr ⟨rfl, hrec, rfl⟩)⟩
    · rw [if_pos hrec] at h
      obtain ⟨-, rfl, rfl⟩ := h
      exact ⟨rfl, Or.inr (Or.inl ⟨rfl, by simpa using hrec, rfl⟩)⟩

/-- A buffer stays broken, breaks, or takes the event. -/
theorem Sink.buffer_cases {b b' : QueueBudget} {startSeq : Nat} {buf : List (SeqEvent α)}
    {share : Nat} {broken : Bool} {se : SeqEvent α} {sink : Sink α} {pushed : Pushed}
    (h : Sink.buffer weight b startSeq buf share broken se = (b', sink, pushed)) :
    sink = .buffering startSeq buf share true ∨ sink = .buffering startSeq [] 0 true ∨
      broken = false ∧ buf.length < outboxBufferCap ∧
        ∃ held, sink = .buffering startSeq (buf ++ [se]) held false := by
  unfold Sink.buffer at h
  split at h
  · obtain ⟨-, rfl, -⟩ := h
    exact Or.inl rfl
  · rename_i hbroken
    split at h
    · obtain ⟨-, rfl, -⟩ := h
      exact Or.inr (Or.inl rfl)
    · split at h
      · obtain ⟨-, rfl, -⟩ := h
        exact Or.inr (Or.inl rfl)
      · rename_i hlen held _
        obtain ⟨-, rfl, -⟩ := h
        exact Or.inr (Or.inr ⟨by simpa using hbroken, by omega, held, rfl⟩)

theorem ConnInv.mono {sent : List (Event α)} {conn : Conn α} {client : Client α}
    (h : ConnInv sent conn client) (ev : Event α) : ConnInv (sent ++ [ev]) conn client :=
  ⟨h.carried.mono ev, h.meets, h.stream.mono ev⟩

theorem ConnInv.of_queue {sent : List (Event α)} {conn conn' : Conn α} {client : Client α}
    (h : ConnInv sent conn client) (hq : conn'.queue = conn.queue) : ConnInv sent conn' client :=
  ⟨h.carried, h.meets, by rw [hq]; exact h.stream⟩

/-- Changing one connection keeps the others' part of the invariant. -/
theorem conns_update {sent : List (Event α)} {conns : Nat → Conn α} {client : Nat → Client α}
    {c : Nat} {conn : Conn α} {cl : Client α} (h : ∀ d, ConnInv sent (conns d) (client d))
    (hc : ConnInv sent conn cl) :
    ∀ d, ConnInv sent (Function.update conns c conn d) (Function.update client c cl d) := by
  intro d
  by_cases hd : d = c
  · subst hd
    rw [Function.update_self, Function.update_self]
    exact hc
  · rw [Function.update_of_ne hd, Function.update_of_ne hd]
    exact h d

theorem conns_update_conn {sent : List (Event α)} {conns : Nat → Conn α} {client : Nat → Client α}
    {c : Nat} {conn : Conn α} (h : ∀ d, ConnInv sent (conns d) (client d))
    (hc : ConnInv sent conn (client c)) :
    ∀ d, ConnInv sent (Function.update conns c conn d) (client d) := by
  have := conns_update (c := c) h hc
  rwa [Function.update_eq_self] at this

theorem Inv.of_some {o : Outbox α} (ho : w.session.outbox = some o)
    (hconns : ∀ c, ConnInv w.sent (w.session.conns c) (w.client c))
    (hnext : o.nextSeq = w.nextSeq) (hsink : SinkInv w o.sink) : Inv w := by
  refine ⟨hconns, fun o' ho' => ?_, fun o' ho' => ?_⟩
  · obtain rfl : o = o' := Option.some.inj (ho.symm.trans ho')
    exact hnext
  · obtain rfl : o = o' := Option.some.inj (ho.symm.trans ho')
    exact hsink

theorem Inv.of_none (ho : w.session.outbox = none)
    (hconns : ∀ c, ConnInv w.sent (w.session.conns c) (w.client c)) : Inv w :=
  ⟨hconns, fun o ho' => by simp [ho] at ho', fun o ho' => by simp [ho] at ho'⟩

theorem inv_push_live (hw : Inv w) (event : Event α) {c : Nat}
    (ho : w.session.outbox = some ⟨w.nextSeq, .live c⟩) :
    Inv { w with session := w.session.push weight event, sent := w.sent ++ [event] } := by
  have hmono : ∀ d, ConnInv (w.sent ++ [event]) (w.session.conns d) (w.client d) := fun d =>
    (hw.conns d).mono event
  have hnext : w.nextSeq + 1 = (w.sent ++ [event]).length + 1 := by simp [World.nextSeq]
  unfold Session.push
  rw [ho]
  dsimp only
  rcases hp : (w.session.conns c).push weight w.session.budget ⟨w.nextSeq, event⟩ with
    ⟨b, conn, pushed⟩
  obtain ⟨hrec, hcases⟩ := Conn.push_cases hp
  rcases hcases with ⟨rfl, hq⟩ | ⟨rfl, hclosed, hq⟩ | ⟨rfl, hlive, hq⟩
  · exact Inv.of_some rfl (conns_update_conn hmono ((hmono c).of_queue hq)) hnext trivial
  · refine Inv.of_some rfl (conns_update_conn hmono ((hmono c).of_queue hq)) hnext ?_
    intro hreceiving
    simp [hrec, hclosed] at hreceiving
  · -- Only here the stream grows, by the event with the seq that comes next.
    have hend := hw.sink _ ho hlive
    have hstream : Stretch (w.sent ++ [event]) (w.client c).first
        ((w.client c).got ++ conn.queue) := by
      rw [hq, ← List.append_assoc]
      exact (hw.conns c).stream.push hend event
    refine Inv.of_some rfl
      (conns_update_conn hmono ⟨(hmono c).carried, (hmono c).meets, hstream⟩) hnext ?_
    rintro -
    show _ + ((w.client c).got ++ (Function.update w.session.conns c conn c).queue).length =
      (w.sent ++ [event]).length + 1
    rw [Function.update_self, hq, ← hnext, ← List.append_assoc, List.length_append,
      List.length_singleton, ← Nat.add_assoc, hend]

theorem inv_push_buffering (hw : Inv w) (event : Event α) {startSeq : Nat}
    {buf : List (SeqEvent α)} {share : Nat} {broken : Bool}
    (ho : w.session.outbox = some ⟨w.nextSeq, .buffering startSeq buf share broken⟩) :
    Inv { w with session := w.session.push weight event, sent := w.sent ++ [event] } := by
  have hnext : w.nextSeq + 1 = (w.sent ++ [event]).length + 1 := by simp [World.nextSeq]
  obtain ⟨hbuf, hcap, hpos, hend⟩ := hw.sink _ ho
  unfold Session.push
  rw [ho]
  dsimp only
  rcases hp : Sink.buffer weight w.session.budget startSeq buf share broken ⟨w.nextSeq, event⟩ with
    ⟨b, sink, pushed⟩
  refine Inv.of_some rfl (fun d => (hw.conns d).mono event) hnext ?_
  rcases Sink.buffer_cases hp with rfl | rfl | ⟨hbroken, hlen, held, rfl⟩
  · exact ⟨hbuf.mono event, hcap, hpos, by simp⟩
  · exact ⟨Stretch.nil, Nat.zero_le _, hpos, by simp⟩
  · have hend := hend hbroken
    refine ⟨hbuf.push hend event, ?_, hpos, fun _ => ?_⟩
    · rw [List.length_append, List.length_singleton]
      exact hlen
    · show startSeq + _ = (w.sent ++ [event]).length + 1
      rw [← hnext, List.length_append, List.length_singleton, ← Nat.add_assoc, hend]

theorem inv_push (hw : Inv w) (event : Event α) : Inv (w.push weight event) := by
  unfold World.push
  cases ho : w.session.outbox with
  | none => exact hw
  | some o =>
    rw [if_neg (by simp)]
    obtain ⟨n, sink⟩ := o
    obtain rfl : n = w.nextSeq := hw.nextSeq _ ho
    cases sink with
    | live c => exact inv_push_live hw event ho
    | buffering startSeq buf share broken => exact inv_push_buffering hw event ho
    | lagged c =>
      unfold Session.push
      rw [ho]
      refine Inv.of_some rfl (fun d => (hw.conns d).mono event) ?_ trivial
      simp [World.nextSeq]

end Push

/-! ### The other actions -/

section Actions
variable {weight : Event α → Nat} {w : World α}

/-- Reading moves an event from the channel to the client. -/
theorem inv_recv (hw : Inv w) (c : Nat) : Inv (w.recv weight c) := by
  unfold World.recv Session.recv
  dsimp only
  cases hrec : (w.session.conns c).receiving with
  | false => exact hw
  | true =>
    cases hq : (w.session.conns c).queue with
    | nil => exact hw
    | cons se rest =>
      have hmove : ((w.client c).got ++ [se]) ++ rest =
          (w.client c).got ++ (w.session.conns c).queue := by
        rw [hq, List.append_assoc, List.singleton_append]
      have hc := hw.conns c
      refine ⟨conns_update hw.conns ⟨hc.carried, hc.meets, ?_⟩, hw.nextSeq, fun o ho => ?_⟩
      · show Stretch w.sent (w.client c).first (((w.client c).got ++ [se]) ++ rest)
        rw [hmove]
        exact hc.stream
      · have hsink := hw.sink o ho
        cases ho' : o.sink with
        | lagged d => trivial
        | buffering startSeq buf share broken =>
          rw [ho'] at hsink
          exact hsink
        | live d =>
          rw [ho'] at hsink
          by_cases hd : d = c
          · subst hd
            intro _
            simp only [Function.update_self, World.nextSeq]
            rw [hmove]
            exact hsink hrec
          · intro hrec'
            simp only [Function.update_of_ne hd, World.nextSeq] at hrec' ⊢
            exact hsink hrec'

theorem inv_dropEvents (hw : Inv w) (c : Nat) :
    Inv { w with session := w.session.dropEvents c } := by
  have hc := hw.conns c
  refine ⟨conns_update_conn hw.conns ⟨hc.carried, hc.meets, ?_⟩, hw.nextSeq, fun o ho => ?_⟩
  · rw [List.append_nil]
    exact hc.stream.left
  · have hsink := hw.sink o ho
    cases ho' : o.sink with
    | lagged d => trivial
    | buffering startSeq buf share broken =>
      rw [ho'] at hsink
      exact hsink
    | live d =>
      rw [ho'] at hsink
      unfold Session.dropEvents
      intro hrec
      by_cases hd : d = c
      · subst hd
        simp only [Function.update_self, Bool.false_eq_true] at hrec
      · simp only [Function.update_of_ne hd, World.nextSeq] at hrec ⊢
        exact hsink hrec

/-- Whatever the sink was, a lost connection leaves an empty buffer from the next event on. -/
theorem inv_lose (hw : Inv w) (parks : Bool) : Inv { w with session := w.session.lose parks } := by
  unfold Session.lose
  cases ho : w.session.outbox with
  | none => exact hw
  | some o =>
    have hn : o.nextSeq = w.nextSeq := hw.nextSeq o ho
    cases parks with
    | false => exact Inv.of_none rfl hw.conns
    | true =>
      refine Inv.of_some rfl hw.conns hn ⟨Stretch.nil, Nat.zero_le _, ?_, fun _ => hn⟩
      rw [hn]
      exact Nat.le_add_left 1 _

theorem inv_connectionLostFrom (hw : Inv w) (c : Nat) (parks : Bool) :
    Inv { w with session := w.session.connectionLostFrom c parks } := by
  unfold Session.connectionLostFrom
  split
  · exact inv_lose hw parks
  · exact hw

theorem inv_loseSealed (hw : Inv w) : Inv { w with session := w.session.loseSealed } := by
  unfold Session.loseSealed
  split
  · rename_i n startSeq buf share broken ho
    have hn : n = w.nextSeq := hw.nextSeq _ ho
    obtain ⟨hbuf, hcap, hpos, hend⟩ := hw.sink _ ho
    refine Inv.of_some rfl hw.conns hn ⟨hbuf.lose, ?_, hpos, ?_⟩
    · rw [List.length_map]
      exact hcap
    · rw [List.length_map]
      exact hend
  · exact hw

/-- The sum wraps only to 0, which no seq is. -/
theorem toNat_add_one_cases (l : UInt64) :
    (l + 1).toNat = l.toNat + 1 ∨ (l + 1).toNat = 0 := by
  have := l.toNat_lt
  rw [UInt64.toNat_add]
  simp only [UInt64.reduceToNat]
  omega

/-- A replay is exactly the stream after `lastSeq`. -/
theorem replay_stretch {sink : Sink α} (hsink : SinkInv w sink) {lastSeq : UInt64}
    {events : List (SeqEvent α)} (h : sink.replay w.nextSeq lastSeq = some events) :
    Stretch w.sent (lastSeq.toNat + 1) events ∧
      lastSeq.toNat + 1 + events.length = w.nextSeq := by
  have hpos : 1 ≤ w.nextSeq := Nat.le_add_left 1 _
  cases sink with
  | lagged c => cases h
  | live c =>
    simp only [Sink.replay, Option.ite_none_right_eq_some, Option.some.injEq] at h
    obtain ⟨hwanted, rfl⟩ := h
    refine ⟨Stretch.nil, ?_⟩
    rcases toNat_add_one_cases lastSeq with h | h
    · rw [List.length_nil, ← hwanted, h]
    · omega
  | buffering startSeq buf share broken =>
    obtain ⟨hbuf, -, hstart, hend⟩ := hsink
    simp only [Sink.replay, Option.ite_none_left_eq_some, Option.some.injEq, not_or] at h
    obtain ⟨⟨hbroken, hlo, hhi⟩, rfl⟩ := h
    have hend := hend (by simpa using hbroken)
    rcases toNat_add_one_cases lastSeq with h | h
    · obtain ⟨hnum, hlen⟩ := hbuf.numbered.filter_lt (n := lastSeq.toNat) (by omega) (by omega)
      refine ⟨⟨hnum, fun se hse => hbuf.stands se (List.mem_of_mem_filter hse)⟩, ?_⟩
      rw [hlen, hend]
    · omega

/-- The client of a resumed connection continues where it was, or starts anew. -/
theorem connInv_resumed {before : Client α} {conn : Conn α} (hbefore : ConnInv w.sent conn before)
    {sink : Sink α} (hsink : SinkInv w sink) (lastSeq : UInt64) (rx : Nat) :
    ConnInv w.sent .channel
      (before.resumed w.nextSeq lastSeq (sink.answer w.nextSeq lastSeq rx)) := by
  unfold Sink.answer
  cases hr : sink.replay w.nextSeq lastSeq with
  | none =>
    refine ⟨Stretch.nil, ?_, Stretch.nil⟩
    show w.nextSeq - 1 + 1 + 0 = w.nextSeq
    rw [World.nextSeq]
    rfl
  | some events =>
    obtain ⟨hev, hend⟩ := replay_stretch hsink hr
    dsimp only [Client.resumed]
    by_cases hlast : lastSeq.toNat = before.last
    · rw [if_pos hlast]
      have hlog : Stretch w.sent (before.base + 1) before.log := by
        refine hbefore.carried.append ?_
        rw [hbefore.meets]
        exact hbefore.stream.left
      have hmeet : before.base + 1 + before.log.length = lastSeq.toNat + 1 := by
        rw [hlast, Client.last]
        omega
      refine ⟨hlog.append (hmeet ▸ hev), ?_, Stretch.nil⟩
      rw [List.length_append, ← Nat.add_assoc, hmeet, hend]
    · rw [if_neg hlast]
      exact ⟨hev, hend, Stretch.nil⟩

@[simp] theorem attached_loseSealed (s : Session α) : s.loseSealed.attached = s.attached := by
  unfold Session.loseSealed
  split <;> rfl

/-- The world after a resume that attached a connection in place of `o`'s. -/
def World.attach (w : World α) (who : Nat) (lastSeq : UInt64) (o : Outbox α) : World α :=
  { w with
    session := { w.session with
      budget := w.session.budget.share
      conns := Function.update w.session.conns w.session.attached .channel
      attached := w.session.attached + 1
      outbox := some ⟨o.nextSeq, .live w.session.attached⟩ }
    client := Function.update w.client w.session.attached (.resumed (w.client who) w.nextSeq lastSeq
      (o.sink.answer o.nextSeq lastSeq w.session.attached)) }

/-- A resume finds the session gone, or attaches a connection. -/
theorem resume_cases (w : World α) (who : Nat) (lastSeq : UInt64) (refused : Bool) :
    w.resume who lastSeq false refused = { w with session := w.session.endSession } ∨
      ∃ o, w.session.outbox = some o ∧
        w.resume who lastSeq false refused = w.attach who lastSeq o := by
  unfold World.resume Session.resumeSealed
  rw [if_neg Bool.false_ne_true]
  cases ho : w.session.outbox with
  | none =>
    have hend : w.session.endSession = w.session := by
      unfold Session.endSession
      rw [← ho]
    simp only [Session.resume, ho, hend, true_or]
  | some o =>
    cases refused with
    | true => simp only [Session.resume, ho, if_true, true_or]
    | false =>
      refine Or.inr ⟨o, rfl, ?_⟩
      simp only [Session.resume, ho, Bool.false_eq_true, if_false, World.attach, Sink.answer]
      cases o.sink.replay o.nextSeq lastSeq <;> rfl

theorem first_resumed (before : Client α) (nextSeq : Nat) (lastSeq : UInt64) (answer : Resume α) :
    (before.resumed nextSeq lastSeq answer).first = nextSeq ∧
      (before.resumed nextSeq lastSeq answer).got = [] := by
  unfold Client.resumed
  split
  · split <;> exact ⟨rfl, rfl⟩
  · exact ⟨rfl, rfl⟩

/-- A resume of a session whose sealed messages are already as they will be. -/
theorem inv_resume_false (hw : Inv w) (who : Nat) (lastSeq : UInt64) (refused : Bool) :
    Inv (w.resume who lastSeq false refused) := by
  rcases resume_cases w who lastSeq refused with h | ⟨o, ho, h⟩
  · rw [h]
    exact Inv.of_none rfl hw.conns
  · have hn : o.nextSeq = w.nextSeq := hw.nextSeq o ho
    have hc := connInv_resumed (hw.conns who) (hw.sink o ho) lastSeq w.session.attached
    rw [h]
    unfold World.attach
    rw [hn]
    refine Inv.of_some rfl (conns_update hw.conns hc) rfl ?_
    intro _
    obtain ⟨hfirst, hgot⟩ := first_resumed (w.client who) w.nextSeq lastSeq
      (o.sink.answer w.nextSeq lastSeq w.session.attached)
    simp only [Function.update_self, hfirst, hgot, Conn.channel, List.append_nil, List.length_nil,
      Nat.add_zero]
    rfl

theorem resume_lost (w : World α) (who : Nat) (lastSeq : UInt64) (refused : Bool) :
    w.resume who lastSeq true refused =
      World.resume { w with session := w.session.loseSealed } who lastSeq false refused := by
  unfold World.resume Session.resumeSealed
  simp only [if_true, Bool.false_eq_true, if_false, attached_loseSealed, World.nextSeq]

theorem inv_resume (hw : Inv w) (who : Nat) (lastSeq : UInt64) (lost refused : Bool) :
    Inv (w.resume who lastSeq lost refused) := by
  cases lost with
  | false => exact inv_resume_false hw who lastSeq refused
  | true =>
    rw [resume_lost]
    exact inv_resume_false (inv_loseSealed hw) who lastSeq refused

theorem inv_step (hw : Inv w) (a : Action α) : Inv (w.step weight a) := by
  cases a with
  | push event => exact inv_push hw event
  | recv c => exact inv_recv hw c
  | dropEvents c => exact inv_dropEvents hw c
  | connectionLost parks => exact inv_lose hw parks
  | connectionLostFrom c parks => exact inv_connectionLostFrom hw c parks
  | loseSealed => exact inv_loseSealed hw
  | resume who lastSeq lost refused => exact inv_resume hw who lastSeq lost refused
  | endSession => exact Inv.of_none rfl hw.conns
  | otherQueues held shares => exact ⟨hw.conns, hw.nextSeq, hw.sink⟩

theorem inv_run (hw : Inv w) (actions : List (Action α)) : Inv (w.run weight actions) :=
  List.foldlRecOn (motive := Inv) actions _ hw fun _ h a _ => inv_step h a

theorem inv_start (budget : QueueBudget) : Inv (World.start (α := α) budget) := by
  refine Inv.of_some rfl (fun c => ⟨Stretch.nil, rfl, Stretch.nil⟩) rfl ?_
  intro _
  rfl

/-! ## Resumes are exact -/

/-- Connection `c` was made, when the session's next seq was `first`. -/
def Made (w : World α) (c first : Nat) : Prop :=
  c < w.session.attached ∧ (w.client c).first = first

variable (weight) in
theorem attached_push (s : Session α) (event : Event α) :
    (s.push weight event).attached = s.attached := by
  unfold Session.push
  split
  · rfl
  · dsimp only
    split <;> rfl

theorem attached_lose (s : Session α) (parks : Bool) : (s.lose parks).attached = s.attached := by
  unfold Session.lose
  split
  · rfl
  · split <;> rfl

theorem attached_connectionLostFrom (s : Session α) (c : Nat) (parks : Bool) :
    (s.connectionLostFrom c parks).attached = s.attached := by
  unfold Session.connectionLostFrom
  split
  · exact attached_lose s parks
  · rfl

theorem made_recv {c first : Nat} (h : Made w c first) (d : Nat) :
    Made (w.recv weight d) c first := by
  unfold World.recv Session.recv
  dsimp only
  split
  · rename_i hr
    split at hr
    · obtain ⟨rfl, rfl⟩ := hr
      refine ⟨h.1, ?_⟩
      by_cases hd : c = d
      · subst hd
        simpa using h.2
      · simpa [hd] using h.2
    · cases hr
  · rename_i hr
    split at hr
    · cases hr
    · obtain ⟨-, rfl⟩ := hr
      exact h

/-- A resume writes only the connection it makes. -/
theorem made_resume_false {c first : Nat} (h : Made w c first) (who : Nat) (lastSeq : UInt64)
    (refused : Bool) : Made (w.resume who lastSeq false refused) c first := by
  rcases resume_cases w who lastSeq refused with hr | ⟨o, -, hr⟩
  · rw [hr]
    exact h
  · rw [hr]
    refine ⟨Nat.lt_succ_of_lt h.1, ?_⟩
    unfold World.attach
    simpa [Nat.ne_of_lt h.1] using h.2

theorem made_resume {c first : Nat} (h : Made w c first) (who : Nat) (lastSeq : UInt64)
    (lost refused : Bool) : Made (w.resume who lastSeq lost refused) c first := by
  cases lost with
  | false => exact made_resume_false h who lastSeq refused
  | true =>
    have hlost : Made { w with session := w.session.loseSealed } c first :=
      ⟨(attached_loseSealed w.session).symm ▸ h.1, h.2⟩
    rw [resume_lost]
    exact made_resume_false hlost who lastSeq refused

theorem made_step {c first : Nat} (h : Made w c first) (a : Action α) :
    Made (w.step weight a) c first := by
  cases a with
  | push event =>
    unfold World.step World.push
    dsimp only
    split
    · exact h
    · exact ⟨(attached_push weight w.session event).symm ▸ h.1, h.2⟩
  | recv d => exact made_recv h d
  | dropEvents d => exact h
  | connectionLost parks => exact ⟨(attached_lose w.session parks).symm ▸ h.1, h.2⟩
  | connectionLostFrom d parks =>
    exact ⟨(attached_connectionLostFrom w.session d parks).symm ▸ h.1, h.2⟩
  | loseSealed => exact ⟨(attached_loseSealed w.session).symm ▸ h.1, h.2⟩
  | resume who lastSeq lost refused => exact made_resume h who lastSeq lost refused
  | endSession => exact h
  | otherQueues held shares => exact h

theorem resume_eq_replayed {s s' : Session α} {lastSeq : UInt64} {refused : Bool} {rx : Nat}
    {events : List (SeqEvent α)} (h : s.resume lastSeq refused = (.replayed rx events, s')) :
    ∃ o, s.outbox = some o ∧ refused = false ∧ rx = s.attached ∧
      o.sink.replay o.nextSeq lastSeq = some events := by
  unfold Session.resume at h
  cases ho : s.outbox with
  | none => simp [ho] at h
  | some o =>
    cases refused with
    | true => simp [ho] at h
    | false =>
      simp only [ho, Bool.false_eq_true, if_false, Sink.answer, Prod.mk.injEq] at h
      cases hr : o.sink.replay o.nextSeq lastSeq with
      | none => simp [hr] at h
      | some events' =>
        simp only [hr, Resume.replayed.injEq] at h
        obtain ⟨⟨rfl, rfl⟩, -⟩ := h
        exact ⟨o, rfl, rfl, rfl, hr⟩

/-- A resume that replays makes connection `rx` and gives exactly the stream after `lastSeq`. -/
theorem resume_replayed (hw : Inv w) (who : Nat) {lastSeq : UInt64} {refused : Bool} {rx : Nat}
    {events : List (SeqEvent α)} {s : Session α}
    (h : w.session.resume lastSeq refused = (.replayed rx events, s)) :
    Stretch w.sent (lastSeq.toNat + 1) events ∧ lastSeq.toNat + 1 + events.length = w.nextSeq ∧
      Made (w.resume who lastSeq false refused) rx w.nextSeq := by
  obtain ⟨o, ho, rfl, rfl, hr⟩ := resume_eq_replayed h
  rw [hw.nextSeq o ho] at hr
  obtain ⟨hev, hend⟩ := replay_stretch (hw.sink o ho) hr
  refine ⟨hev, hend, ?_⟩
  have hattach : w.resume who lastSeq false false = w.attach who lastSeq o := by
    simp only [World.resume, Session.resumeSealed, Session.resume, ho, Bool.false_eq_true, if_false,
      Sink.answer, hw.nextSeq o ho, hr, World.attach]
  rw [hattach]
  refine ⟨Nat.lt_succ_self _, ?_⟩
  show (Function.update w.client w.session.attached _ w.session.attached).first = w.nextSeq
  rw [Function.update_self]
  exact (first_resumed _ _ _ _).1

theorem resumeSealed_replayed (hw : Inv w) (who : Nat) {lastSeq : UInt64} {lost refused : Bool}
    {rx : Nat} {events : List (SeqEvent α)} {s : Session α}
    (h : w.session.resumeSealed lastSeq lost refused = (.replayed rx events, s)) :
    Stretch w.sent (lastSeq.toNat + 1) events ∧ lastSeq.toNat + 1 + events.length = w.nextSeq ∧
      Made (w.resume who lastSeq lost refused) rx w.nextSeq := by
  cases lost with
  | false => exact resume_replayed hw who h
  | true =>
    rw [resume_lost]
    exact resume_replayed (inv_loseSealed hw) who h

/-- A connection yields the stream from the seq at which it was made. -/
theorem numbered_got {c first : Nat} (hw : Inv w) (h : Made w c first) (later : List (Action α)) :
    Numbered SeqEvent.seq first ((w.run weight later).client c).got := by
  have hinv : Inv (w.run weight later) := inv_run hw later
  have hmade : Made (w.run weight later) c first :=
    List.foldlRecOn (motive := fun w => Made w c first) later _ h fun _ h a _ => made_step h a
  rw [← hmade.2]
  exact (hinv.conns c).stream.left.numbered

/-- Whatever the interleaving:
* the session's seqs are 1, 2, and so on, and its buffer keeps within its bound;
* a replay is exactly the stream after `lastSeq`, and what the new connection yields, ever after, is
  the stream from the next seq on;
* what a client has received since its last resync is the stream without a gap or a repetition. -/
theorem resume_exact (weight : Event α → Nat) (budget : QueueBudget) (actions : List (Action α)) :
    let w := (World.start budget).run weight actions
    (∀ o, w.session.outbox = some o → o.nextSeq = w.sent.length + 1 ∧
      ∀ startSeq buf share broken, o.sink = .buffering startSeq buf share broken →
        buf.length ≤ outboxBufferCap) ∧
    (∀ lastSeq lost refused rx events s,
      w.session.resumeSealed lastSeq lost refused = (.replayed rx events, s) →
        events.map SeqEvent.seq =
          List.range' (lastSeq.toNat + 1) (w.nextSeq - (lastSeq.toNat + 1)) ∧
        lastSeq.toNat + 1 ≤ w.nextSeq ∧ (∀ se ∈ events, Stands w.sent se) ∧
        ∀ who later, Numbered SeqEvent.seq w.nextSeq
          (((w.step weight (.resume who lastSeq lost refused)).run weight later).client rx).got) ∧
    ∀ c, Stretch w.sent ((w.client c).base + 1) (w.client c).log := by
  intro w
  have hw : Inv w := inv_run (inv_start budget) actions
  refine ⟨fun o ho => ⟨hw.nextSeq o ho, fun startSeq buf share broken hsink => ?_⟩, ?_, fun c => ?_⟩
  · have := hw.sink o ho
    rw [hsink] at this
    exact this.2.1
  · intro lastSeq lost refused rx events s h
    obtain ⟨hev, hend, -⟩ := resumeSealed_replayed hw 0 h
    refine ⟨?_, by omega, hev.stands, fun who later => ?_⟩
    · rw [hev.numbered, ← hend, Nat.add_sub_cancel_left]
    · obtain ⟨-, -, hmade⟩ := resumeSealed_replayed hw who h
      exact numbered_got (inv_resume hw who lastSeq lost refused) hmade later
  · refine (hw.conns c).carried.append ?_
    rw [(hw.conns c).meets]
    exact (hw.conns c).stream.left

/-- A client reads one event, is cut off, misses one and resumes: it is replayed that one, and the
new connection begins with the event after it. -/
theorem resume_exact_replays :
    let w := (World.start ⟨100, 0, 0⟩).run (fun _ => 1)
      [.push (.other 'a'), .recv 0, .connectionLost true, .push (.other 'b')]
    (w.session.resumeSealed 1 false false).1 = .replayed 1 [⟨2, .other 'b'⟩] ∧
    Numbered SeqEvent.seq 3
      (((w.step (fun _ => 1) (.resume 0 1 false false)).run (fun _ => 1)
        [.push (.other 'c'), .recv 1]).client 1).got := by
  intro w
  have hreplay : w.session.resumeSealed 1 false false =
      (.replayed 1 [⟨2, .other 'b'⟩], (w.session.resumeSealed 1 false false).2) := rfl
  refine ⟨by rw [hreplay], ?_⟩
  exact ((resume_exact (fun _ => 1) ⟨100, 0, 0⟩ _).2.1 1 false false 1 _ _ hreplay).2.2.2 0
    [.push (.other 'c'), .recv 1]

end Actions

end HxdNg.Roster
