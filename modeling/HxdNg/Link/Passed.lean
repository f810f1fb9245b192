import HxdNg.Link.Crossing

/-!
# Nothing unlawful is sent, but for what is passed on unchecked

* `Op.clean` : what the code passes on without a check is such as the check would let through;
* `Call.Lawful`, `Session.Lawful`, `World.Lawful` : what a session is to do, and has sent;
* `lawful_step` : a clean step keeps it; `nothing_unlawful_sent` : over every clean run;
* `password_passed_on` : a run on which a password crosses.
-/

namespace HxdNg.Link

open Assoc (Map)

/-- A reply that is handed to a link waiting for it. -/
def World.replies (w : World) (g : Nat) (f : Frame) : Bool :=
  f.isReply && (w.sessions.get g).any fun t =>
    t.calls.isEmpty && t.phase == .established && (t.pending.get f.trans).any fun asker =>
      w.waiting.contains asker && match asker with
        | .here _ => false
        | .link _ task _ => task != 0

/-- A Server Gone that is passed on as it came. -/
def State.passesServerGone (s : State) (p : String) (g : Nat) (id : ServerId)
    (came : List Field) : Bool :=
  (s.current p g).any fun l =>
    (l.servers.get id).isSome && transit l.features && s.heard p (.serverGone came)

/-- A User Gone that is passed on, its other fields as they came. -/
def State.passesUserGone (s : State) (p : String) (g : Nat) (id : UInt16) (came : List Field) : Bool :=
  (s.current p g).any fun l => transit l.features && (l.ghosts.get id).any fun slot =>
    s.heard p (.userGone (renamed came slot.uid))

/-- A peer's group about itself, which other links are told. -/
def State.describesPeer (s : State) (p : String) (g : Nat) (group : ServerGroup) : Bool :=
  (s.current p g).any fun l => transit l.features && l.peer.any fun q => q.id == group.id

/-- What a call passes on without a check is such as the check would let through. -/
def Call.clean (s : State) (p : String) (g : Nat) : Call → Bool
  | .forget id (some came) =>
    !s.passesServerGone p g id came || decide (Carried serverGoneBaseline MAX_EXTRA came)
  | .userGone id came =>
    !s.passesUserGone p g id came || decide (Carried userGoneBaseline MAX_EXTRA came)
  | .accept group _ _ => !s.describesPeer p g group || decide ((farther group).hops ≤ MAX_HOPS)
  | _ => true

def Op.clean (w : World) : Op → Bool
  | .read g f => !w.replies g f || decide (Carried replyBaseline MAX_EXTRA f.fields)
  | .go g _ => (w.sessions.get g).all fun t => t.calls.head?.all fun c => c.clean w.state t.entry.name g
  | _ => true

/-- Every step of a run is clean where it is made. -/
def cleanFrom (cfg : Setup) (w : World) : List Op → Bool
  | [] => true
  | op :: ops => op.clean w && cleanFrom cfg (step cfg w op) ops

def Call.Lawful : Call → Prop
  | .greet hello => hello.server.admissible = .ok () ∧ hello.server.hops = 0
  | .accept group _ _ => group.admissible = .ok ()
  | .snapshot taken => ∀ fields ∈ taken.relayed, Carried userBaseline MAX_EXTRA fields
  | .unlisted groups => ∀ u ∈ groups, u.Lawful
  | .applyUser u => u.Lawful
  | .chat _ fields => Carried Session.chatBaseline MAX_EXTRA fields
  | .forward _ r _ sender =>
    Carried (requestBaseline r.ty) (requestBound r.ty) r.fields ∧
      field.TARGET_ID ∈ requestBaseline r.ty ∧
      (sender.isSome → field.USER_ID ∈ requestBaseline r.ty)
  | .requester _ r | .requestFor _ r => Carried (requestBaseline r.ty) (requestBound r.ty) r.fields
  | _ => True

structure Session.Lawful (t : Session) : Prop where
  calls : ∀ c ∈ t.calls, c.Lawful
  sent : ∀ sent ∈ t.sent, sent.Lawful
  snapshot : ∀ groups, t.snapshot = some groups → ∀ u ∈ groups, u.Lawful

structure World.Lawful (w : World) : Prop where
  state : w.state.Lawful
  sessions : ∀ g t, w.sessions.get g = some t → t.Lawful

/-! ## What a frame is read to -/

section Read
variable {t : Session}

theorem Session.Lawful.closing (h : t.Lawful) : t.closing.Lawful := ⟨nofun, h.sent, h.snapshot⟩

theorem Session.Lawful.calling (h : t.Lawful) {calls : List Call} (hcalls : ∀ c ∈ calls, c.Lawful) :
    ({ t with calls := calls } : Session).Lawful := ⟨hcalls, h.sent, h.snapshot⟩

theorem lawful_one {c : Call} (h : c.Lawful) : ∀ c' ∈ [c], c'.Lawful := by
  intro c' hmem
  rw [List.mem_singleton.1 hmem]
  exact h

theorem lawful_elim {α : Type} {o : Option α} {f : α → List Call} (h : ∀ a, ∀ c ∈ f a, c.Lawful) :
    ∀ c ∈ o.elim [] f, c.Lawful := by
  cases o with
  | none => nofun
  | some a => exact h a

theorem lawful_chatCalls (t : Session) (fields : List Field) : ∀ c ∈ t.chat fields, c.Lawful := by
  unfold Session.chat
  split
  · nofun
  split
  · split
    · nofun
    split
    · nofun
    next hextra => exact lawful_one (carried_of_extra crosses_chat (toOption_isNone hextra))
  · nofun

theorem lawful_privateMessage (t : Session) (f : Frame) (hty : f.ty = tx.PRIVATE_MESSAGE) :
    ∀ c ∈ t.privateMessage f, c.Lawful := by
  have hbase : requestBaseline f.ty = Session.messageBaseline := by rw [hty]; rfl
  have hbound : requestBound f.ty = 2 * MAX_LINK_TEXT + MAX_EXTRA := by rw [hty]; rfl
  unfold Session.privateMessage
  split
  · nofun
  split
  · nofun
  next hextra =>
    have hcarried : Carried (requestBaseline f.ty) (requestBound f.ty) f.fields := by
      refine carried_of_extra (crosses_request f.ty) ?_
      rw [hbase, hbound]
      exact toOption_isNone hextra
    split
    · nofun
    dsimp only
    split
    · refine lawful_one ⟨hcarried, ?_, fun _ => ?_⟩
      · rw [hbase]
        decide
      · rw [hbase]
        decide
    · nofun

theorem lawful_deviceKeys (t : Session) (f : Frame) (hty : f.ty = tx.DEVICE_KEYS) :
    ∀ c ∈ t.deviceKeys f, c.Lawful := by
  have hbase : requestBaseline f.ty = Session.keysBaseline := by rw [hty]; rfl
  have hbound : requestBound f.ty = MAX_EXTRA := by rw [hty]; rfl
  unfold Session.deviceKeys
  split
  · nofun
  next hextra =>
    split
    · nofun
    refine lawful_elim fun target => lawful_one ⟨?_, ?_, fun _ => ?_⟩
    · refine carried_of_extra (crosses_request f.ty) ?_
      rw [hbase, hbound]
      exact toOption_isNone hextra
    · rw [hbase]
      decide
    · rw [hbase]
      decide

theorem lawful_userInfo (t : Session) (f : Frame) (hty : f.ty = tx.USER_INFO) :
    ∀ c ∈ t.userInfo f, c.Lawful := by
  have hbase : requestBaseline f.ty = Session.infoBaseline := by rw [hty]; rfl
  have hbound : requestBound f.ty = MAX_EXTRA := by rw [hty]; rfl
  unfold Session.userInfo
  split
  · nofun
  split
  · nofun
  next hextra =>
    refine lawful_elim fun target => lawful_one ⟨?_, ?_, nofun⟩
    · refine carried_of_extra (crosses_request f.ty) ?_
      rw [hbase, hbound]
      exact toOption_isNone hextra
    · rw [hbase]
      decide

theorem lawful_moderation (f : Frame) (hty : f.ty = tx.KICK ∨ f.ty = tx.BAN ∨ f.ty = tx.UNBAN) :
    ∀ c ∈ Session.moderation f, c.Lawful := by
  have hbase : requestBaseline f.ty = Session.moderationBaseline f.ty := by
    rcases hty with hty | hty | hty <;> rw [hty] <;> rfl
  have hbound : requestBound f.ty = MAX_EXTRA := by
    rcases hty with hty | hty | hty <;> rw [hty] <;> rfl
  unfold Session.moderation
  split
  · nofun
  next hextra =>
    refine lawful_elim fun by_ => lawful_one ?_
    refine carried_of_extra (crosses_request f.ty) ?_
    rw [hbase, hbound]
    exact toOption_isNone hextra

/-- A moderation request goes on as it came. -/
theorem lawful_moderate (own : ServerId) (t : Session) (f : Frame)
    (hf : Carried (requestBaseline f.ty) (requestBound f.ty) f.fields) :
    ∀ c ∈ Session.moderate own t f, c.Lawful := by
  unfold Session.moderate
  dsimp only
  split
  · nofun
  split
  next hkick =>
    refine lawful_elim fun uid => lawful_one ⟨hf, ?_, nofun⟩
    rcases hkick with hkick | hkick <;> rw [hkick] <;> decide
  split
  · nofun
  · exact lawful_elim fun home => lawful_one hf

theorem lawful_snapshotPart (h : t.Lawful) (fields : List Field) :
    (t.snapshotPart fields).Lawful := by
  have hgroups : ∀ u ∈ (t.snapshot.getD [] ++
      (UserGroup.parseAll fields).filterMap Except.toOption).take t.entry.ghosts, u.Lawful := by
    intro u hu
    rcases List.mem_append.1 (List.mem_of_mem_take hu) with hu | hu
    · cases hs : t.snapshot with
      | none =>
        rw [hs] at hu
        cases hu
      | some groups =>
        rw [hs] at hu
        exact h.snapshot groups hs u hu
    · exact UserGroup.parseAll_lawful hu
  unfold Session.snapshotPart
  dsimp only
  split
  · refine ⟨h.calls, h.sent, fun groups heq => ?_⟩
    obtain rfl := Option.some.inj heq
    exact hgroups
  · refine ⟨fun c hc => ?_, h.sent, nofun⟩
    rcases List.mem_cons.1 hc with rfl | hc
    · trivial
    · rw [List.mem_singleton.1 hc]
      exact hgroups

theorem lawful_handle (h : t.Lawful) (f : Frame) : (t.handle f).Lawful := by
  unfold Session.handle
  by_cases h0 : f.ty = tx.CLOSE
  · rw [if_pos h0]
    exact h.closing
  rw [if_neg h0]
  by_cases h1 : f.ty = tx.SERVER_UPDATE
  · rw [if_pos h1]
    cases ServerGroup.parse f.fields with
    | error e => exact h.closing
    | ok group => exact h.calling (lawful_one trivial)
  rw [if_neg h1]
  by_cases h2 : f.ty = tx.SERVER_GONE
  · rw [if_pos h2]
    cases (Session.serverIn f.fields field.SERVER_ID).filter fun id => some id != t.peerId with
    | none => exact h
    | some id => exact h.calling (lawful_one trivial)
  rw [if_neg h2]
  by_cases h3 : f.ty = tx.SNAPSHOT
  · rw [if_pos h3]
    exact lawful_snapshotPart h f.fields
  rw [if_neg h3]
  by_cases h4 : f.ty = tx.USER_UPDATE
  · rw [if_pos h4]
    split
    · exact h
    cases hp : UserGroup.parse f.fields with
    | ok u => exact h.calling (lawful_one (UserGroup.parse_lawful hp))
    | error e => cases e <;> first | exact h.closing | exact h
  rw [if_neg h4]
  by_cases h5 : f.ty = tx.USER_GONE
  · rw [if_pos h5]
    split
    · exact h
    cases Session.idIn f.fields field.USER_ID with
    | none => exact h
    | some id => exact h.calling (lawful_one trivial)
  rw [if_neg h5]
  by_cases h6 : f.ty = tx.CHAT
  · rw [if_pos h6]
    exact h.calling (lawful_chatCalls t f.fields)
  rw [if_neg h6]
  by_cases h7 : f.ty = tx.PRIVATE_MESSAGE
  · rw [if_pos h7]
    exact h.calling (lawful_privateMessage t f h7)
  rw [if_neg h7]
  by_cases h8 : f.ty = tx.DEVICE_KEYS
  · rw [if_pos h8]
    exact h.calling (lawful_deviceKeys t f h8)
  rw [if_neg h8]
  by_cases h9 : f.ty = tx.USER_INFO
  · rw [if_pos h9]
    exact h.calling (lawful_userInfo t f h9)
  rw [if_neg h9]
  by_cases h10 : f.ty = tx.KICK ∨ f.ty = tx.BAN ∨ f.ty = tx.UNBAN
  · rw [if_pos h10]
    exact h.calling (lawful_moderation f h10)
  rw [if_neg h10]
  exact h

/-- The server a Hello describes is no hops away. -/
theorem hops_of_hello {fields : List Field} {hello : Hello} (h : Hello.parse fields = .ok hello) :
    hello.server.hops = 0 := by
  unfold Hello.parse at h
  dsimp only at h
  rw [bind_eq_ok] at h
  obtain ⟨version, -, h⟩ := h
  rw [bind_eq_ok] at h
  obtain ⟨features, -, h⟩ := h
  rw [bind_eq_ok] at h
  obtain ⟨epoch, -, h⟩ := h
  rw [ite_throw_bind_eq_ok, bind_eq_ok] at h
  obtain ⟨-, server, -, h⟩ := h
  rw [ite_throw_bind_eq_ok, pure_eq_ok] at h
  obtain ⟨hhops, rfl⟩ := h
  exact Classical.not_not.1 hhops

theorem lawful_readHello (h : t.Lawful) (ofKey : Bytes 32 → ServerId) (f : Frame) :
    (t.readHello ofKey f).Lawful := by
  unfold Session.readHello
  split
  · exact h.closing
  cases hp : Hello.parse f.fields with
  | error e => exact h.closing
  | ok hello =>
    dsimp only
    split
    · exact h.closing
    split
    · exact h.closing
    next hok =>
      split
      · exact h.closing
      · exact h.calling (lawful_one ⟨toOption_isNone hok, hops_of_hello hp⟩)

theorem lawful_readServers (h : t.Lawful) (f : Frame) : (t.readServers f).Lawful := by
  unfold Session.readServers
  split
  · exact h.closing
  cases ServerGroup.parseAll f.fields with
  | error e => exact h.closing
  | ok groups =>
    refine h.calling fun c hc => ?_
    rcases List.mem_append.1 hc with hc | hc
    · obtain ⟨group, -, rfl⟩ := List.mem_map.1 hc
      trivial
    · split at hc
      · cases hc
      · rw [List.mem_singleton.1 hc]
        trivial

theorem lawful_read (h : t.Lawful) (ofKey : Bytes 32 → ServerId) (f : Frame) :
    (t.read ofKey f).Lawful := by
  unfold Session.read
  split
  · exact h
  split
  · split
    · exact h.closing
    · exact lawful_readHello h ofKey f
  · split
    · exact h.closing
    · exact lawful_readServers h f
  · exact lawful_handle h f
  · exact h
  · exact h

end Read

/-! ## What each step does -/

section Step
variable {cfg : Setup} {w w' : World} {g : Nat} {t t' : Session} {c : Call} {later : List Call}

theorem World.Lawful.act (h : w.Lawful) (hstate : w'.state.Lawful)
    (hsessions : w'.sessions = w.sessions.set g t') (ht' : t'.Lawful) : w'.Lawful := by
  refine ⟨hstate, fun g' t'' ht'' => ?_⟩
  rw [hsessions] at ht''
  rcases Map.get_set_cases ht'' with ⟨-, rfl⟩ | ⟨-, ht''⟩
  · exact ht'
  · exact h.sessions g' t'' ht''

theorem World.Lawful.still (h : w.Lawful) (hstate : w'.state.Lawful)
    (hsessions : w'.sessions = w.sessions) : w'.Lawful := by
  refine ⟨hstate, ?_⟩
  rw [hsessions]
  exact h.sessions

theorem Session.Lawful.sending (h : t.Lawful) {sent : List Sent} (hsent : ∀ s ∈ sent, s.Lawful) :
    ∀ s ∈ t.sent ++ sent, s.Lawful := by
  intro s hs
  rcases List.mem_append.1 hs with hs | hs
  · exact h.sent s hs
  · exact hsent s hs

theorem lawful_deliver (h : w.Lawful) (asker : Asker) (error : Bool) (fields : List Field)
    (hfields : asker ∈ w.waiting → (∃ g task n, asker = .link g task n ∧ task ≠ 0) →
      Carried replyBaseline MAX_EXTRA fields) : (w.deliver asker error fields).Lawful := by
  unfold World.deliver
  split
  next hwaiting =>
    cases asker with
    | here n => exact h.still h.state rfl
    | link g task n =>
      dsimp only
      cases ht : w.sessions.get g with
      | none => exact h.still h.state rfl
      | some t =>
        dsimp only
        split
        · exact h.still h.state rfl
        next htask =>
          have hlaw := h.sessions g t ht
          refine h.act h.state rfl ⟨hlaw.calls, hlaw.sending fun s hs => ?_, hlaw.snapshot⟩
          rw [List.mem_singleton.1 hs]
          exact hfields hwaiting ⟨g, task, n, rfl, htask⟩
  · exact h

theorem lawful_drained (upTo : Nat) {queue : List (Nat × Relay)} (h : ∀ r ∈ queue, r.2.Lawful) :
    (∀ what ∈ (World.drained upTo queue).1, what.Lawful) ∧
      ∀ what ∈ (World.drained upTo queue).2, what.Lawful := by
  refine ⟨fun what hwhat => ?_, fun what hwhat => ?_⟩
  · obtain ⟨r, hr, rfl⟩ := List.mem_map.1 (List.mem_filter.1 hwhat).1
    exact h r (List.mem_filter.1 hr).1
  · obtain ⟨r, hr, rfl⟩ := List.mem_map.1 hwhat
    exact h r (List.mem_filter.1 hr).1

theorem lawful_asked (h : w.Lawful) (ht : t.Lawful) (task : UInt32)
    (sent : Asker → Option (Except Reason State))
    (hsent : ∀ asker s, sent asker = some (.ok s) → s.Lawful) : (w.asked g t task sent).Lawful := by
  unfold World.asked
  dsimp only
  split
  next s hs => exact h.act (hsent _ s hs) rfl ht
  next => exact h.act h.state rfl ht

/-- A link whose session is to settle its Hello has none yet. -/
theorem epoch_of_resume (hf : Fitted w) (ht : w.sessions.get g = some t) {hello : Hello}
    (hcalls : t.calls = .resume hello :: later) :
    ∀ l, w.state.current t.entry.name g = some l → l.epoch = none := by
  intro l hl
  obtain ⟨-, hfits⟩ := hf.current ht hl
  cases hfits.stage with
  | hello _ hbare _ _ => exact hbare.epoch
  | greeted _ hbare _ _ _ _ => exact hbare.epoch
  | opened _ hearly _ =>
    have := hearly _ (hcalls ▸ List.mem_cons_self)
    cases this
  | closing _ hcalls' =>
    rw [hcalls] at hcalls'
    cases hcalls'

theorem lawful_perform (h : w.Lawful) (hf : Fitted w) (ht : w.sessions.get g = some t)
    (hcalls : t.calls = c :: later) (hclean : c.clean w.state t.entry.name g = true)
    (draw : Option UInt16) : (w.perform cfg g { t with calls := later } draw c).Lawful := by
  have hlaw := h.sessions g t ht
  have hc : c.Lawful := hlaw.calls c (hcalls ▸ List.mem_cons_self)
  have hlater : ∀ c' ∈ later, c'.Lawful := fun c' hmem =>
    hlaw.calls c' (hcalls ▸ List.mem_cons_of_mem _ hmem)
  have hrest : ({ t with calls := later } : Session).Lawful := hlaw.calling hlater
  have hskip : (w.putSession g { t with calls := later }).Lawful := h.act h.state rfl hrest
  unfold World.perform
  cases c with
  | greet hello =>
    dsimp only
    cases hok : acceptServer cfg.toConfig w.state t.entry.name g hello.server true with
    | error why => exact h.act h.state rfl hlaw.closing
    | ok s =>
      have hs : s.Lawful := by
        refine lawful_accept h.state hok hc.1 fun _ _ _ _ => ?_
        have hone : (farther hello.server).hops = 1 := by
          unfold farther
          dsimp only
          rw [hc.2]
          rfl
        rw [hone]
        decide
      exact h.act hs rfl ⟨lawful_one trivial, hlaw.sent, hlaw.snapshot⟩
  | resume hello =>
    exact h.act (lawful_resume h.state (epoch_of_resume hf ht hcalls) _ _ _) rfl
      ⟨lawful_one trivial, hlaw.sent, hlaw.snapshot⟩
  | relayOpen =>
    obtain ⟨hs, hgroups⟩ := lawful_relayOpen h.state t.entry.name g
    refine h.act hs rfl ⟨hlater, hlaw.sending fun s hs => ?_, hlaw.snapshot⟩
    rw [List.mem_singleton.1 hs]
    exact hgroups
  | take group establishing =>
    dsimp only
    split
    · exact hskip
    next hok =>
      split
      · exact hskip
      split
      · exact hskip
      refine h.act h.state rfl (hlaw.calling fun c' hmem => ?_)
      rcases List.mem_cons.1 hmem with rfl | hmem
      · exact toOption_isNone hok
      · exact hlater c' hmem
  | accept group known establishing =>
    dsimp only
    cases hok : acceptServer cfg.toConfig w.state t.entry.name g group false with
    | error why =>
      dsimp only
      split
      · exact h.act h.state rfl hlaw.closing
      split
      · refine h.act h.state rfl (hlaw.calling fun c' hmem => ?_)
        rcases List.mem_cons.1 hmem with rfl | hmem
        · trivial
        · exact hlater c' hmem
      · exact hskip
    | ok s =>
      refine h.act (lawful_accept h.state hok hc fun l hl hown hannounced => ?_) rfl hrest
      rw [Bool.false_or] at hown
      have hepoch : l.epoch.isSome := by
        obtain ⟨-, hfits⟩ := hf.current ht hl
        exact (hfits.opened hcalls rfl).1.epoch
      have htransit : transit l.features = true := by
        refine hannounced.resolve_right fun hnone => ?_
        rw [hnone] at hepoch
        cases hepoch
      have hdescribes : w.state.describesPeer t.entry.name g group = true := by
        unfold State.describesPeer
        rw [hl, Option.any_some, htransit, hown]
        rfl
      have hnear : (!w.state.describesPeer t.entry.name g group ||
          decide ((farther group).hops ≤ MAX_HOPS)) = true := hclean
      rw [hdescribes] at hnear
      exact of_decide_eq_true hnear
  | forget id came =>
    refine h.act (lawful_forget h.state id came fun l fields hl hid htransit hcame hheard => ?_) rfl hrest
    subst hcame
    have hpasses : w.state.passesServerGone t.entry.name g id fields = true := by
      unfold State.passesServerGone
      rw [hl, Option.any_some, hid, htransit, hheard]
      rfl
    have hcarried : (!w.state.passesServerGone t.entry.name g id fields ||
        decide (Carried serverGoneBaseline MAX_EXTRA fields)) = true := hclean
    rw [hpasses] at hcarried
    exact of_decide_eq_true hcarried
  | settle =>
    refine h.act (lawful_settle h.state _ g) rfl (hlaw.calling fun c' hmem => ?_)
    rcases List.mem_append.1 hmem with hmem | hmem
    · obtain ⟨id, -, rfl⟩ := List.mem_map.1 hmem
      trivial
    · rw [List.mem_singleton.1 hmem]
      trivial
  | subscribe =>
    obtain ⟨hs, htaken⟩ := lawful_subscribe h.state t.entry.name g
    dsimp only
    rcases hsub : subscribe w.state t.entry.name g with ⟨s, _ | taken⟩
    · exact h.act h.state rfl hlaw.closing
    · rw [hsub] at hs htaken
      exact h.act hs rfl (hlaw.calling (lawful_one (htaken taken rfl)))
  | snapshot taken =>
    have hqueue : ∀ r ∈ (w.state.channels.get g).elim [] Chan.relays, r.2.Lawful := by
      cases hch : w.state.channels.get g with
      | none => nofun
      | some chan => exact (h.state.channels g chan hch).relays
    obtain ⟨hearly, hlate⟩ := lawful_drained taken.relayedUpTo hqueue
    refine h.act ⟨h.state.links, h.state.held, fun g' c' hc' => ?_⟩ rfl
      ⟨hlater, hlaw.sending fun s hs => ?_, hlaw.snapshot⟩
    · have hc'' := hc'
      dsimp only [World.putSession] at hc''
      rw [Map.get_mapVals, Option.map_eq_some_iff] at hc''
      obtain ⟨c₀, hc₀, rfl⟩ := hc''
      have hchan := h.state.channels g' c₀ hc₀
      split
      · exact ⟨nofun, hchan.requests⟩
      · exact hchan
    · rcases List.mem_append.1 hs with hs | hs
      · rcases List.mem_append.1 hs with hs | hs
        · obtain ⟨what, hwhat, rfl⟩ := List.mem_map.1 hs
          exact hearly what hwhat
        · rw [List.mem_singleton.1 hs]
          exact hc
      · obtain ⟨what, hwhat, rfl⟩ := List.mem_map.1 hs
        exact hlate what hwhat
  | claimStale groups => exact h.act (lawful_claimStale h.state _ g groups) rfl hrest
  | unlisted groups =>
    refine h.act h.state rfl (hlaw.calling fun c' hmem => ?_)
    rcases List.mem_append.1 hmem with hmem | hmem
    · obtain ⟨id, -, rfl⟩ := List.mem_map.1 hmem
      trivial
    · obtain ⟨u, hu, rfl⟩ := List.mem_map.1 hmem
      exact hc u hu
  | userGone id came =>
    refine h.act (lawful_userGone h.state id came fun l uid hl huid htransit hheard => ?_) rfl hrest
    obtain ⟨slot, hslot, rfl⟩ := Option.map_eq_some_iff.1 huid
    have hpasses : w.state.passesUserGone t.entry.name g id came = true := by
      unfold State.passesUserGone
      rw [hl, Option.any_some, htransit, hslot, Option.any_some, hheard]
      rfl
    have hcarried : (!w.state.passesUserGone t.entry.name g id came ||
        decide (Carried userGoneBaseline MAX_EXTRA came)) = true := hclean
    rw [hpasses] at hcarried
    exact of_decide_eq_true hcarried
  | applyUser u =>
    dsimp only
    generalize hok : applyUser w.state t.entry.name g u
      ((w.peers.find? fun p => p.name == t.entry.name).elim 0 PeerEntry.ghosts) cfg.maxGhosts
      w.core.length (draw.filter fun uid => !w.core.contains uid) = r
    rcases r with why | ⟨s, given⟩
    · exact hskip
    · have hs := lawful_applyUser h.state hc hok
      cases given <;> exact h.act hs rfl hrest
  | chat id fields =>
    dsimp only
    cases hok : chat w.state t.entry.name g id fields with
    | error why => exact hskip
    | ok s => exact h.act (lawful_chat h.state hc hok) rfl hrest
  | forward target r feature sender =>
    exact lawful_asked h hrest _ _ fun _ _ hs => lawful_forward h.state hc.1 hc.2.1 hc.2.2 hs
  | requester id r =>
    dsimp only
    split
    · refine h.act h.state rfl (hlaw.calling fun c' hmem => ?_)
      rcases List.mem_append.1 hmem with hmem | hmem
      · exact lawful_moderate _ _ r hc c' hmem
      · exact hlater c' hmem
    · exact hskip
  | requestFor home r =>
    exact lawful_asked h hrest _ _ fun _ _ hs =>
      lawful_requestFor h.state (fun _ => hc) (mapError_eq_ok.1 (Option.some.inj hs))

theorem lawful_go (h : w.Lawful) (hf : Fitted w) (g : Nat) (draw : Option UInt16)
    (hclean : (Op.go g draw).clean w = true) : (w.go cfg g draw).Lawful := by
  have hhead : ((w.sessions.get g).all fun t =>
      t.calls.head?.all fun c => c.clean w.state t.entry.name g) = true := hclean
  unfold World.go
  cases ht : w.sessions.get g with
  | none => exact h
  | some t =>
    rw [ht, Option.all_some] at hhead
    dsimp only
    cases hcalls : t.calls with
    | nil => exact h
    | cons c later =>
      rw [hcalls] at hhead
      exact lawful_perform h hf ht hcalls hhead draw

theorem lawful_reading (h : w.Lawful) (g : Nat) (f : Frame) (hclean : (Op.read g f).clean w = true) :
    (w.read cfg g f).Lawful := by
  unfold World.read
  cases hfound : (w.sessions.get g).filter fun t => t.calls.isEmpty with
  | none => exact h
  | some t =>
    obtain ⟨ht, hempty⟩ := Option.filter_eq_some_iff.1 hfound
    have hlaw := h.sessions g t ht
    dsimp only
    split
    next hreply =>
      cases hpending : (t.pending.get f.trans).filter fun _ => t.phase == .established with
      | none => exact h
      | some asker =>
        obtain ⟨hpending, hphase⟩ := Option.filter_eq_some_iff.1 hpending
        have hput : (w.putSession g { t with pending := t.pending.drop f.trans }).Lawful :=
          h.act h.state rfl ⟨hlaw.calls, hlaw.sent, hlaw.snapshot⟩
        refine lawful_deliver hput asker _ _ fun hwaiting => ?_
        rintro ⟨g', task, n, rfl, htask⟩
        have hreplies : w.replies g f = true := by
          have hwait : w.waiting.contains (Asker.link g' task n) = true := by
            rw [List.contains_eq_mem, decide_eq_true_eq]
            exact hwaiting
          unfold World.replies
          rw [hreply, ht, Option.any_some, hempty, hphase, hpending, Option.any_some, hwait]
          simpa using htask
        have hcarried : (!w.replies g f || decide (Carried replyBaseline MAX_EXTRA f.fields)) = true :=
          hclean
        rw [hreplies] at hcarried
        exact of_decide_eq_true hcarried
    · exact h.act h.state rfl (lawful_read hlaw cfg.ofKey f)

theorem lawful_pass (h : w.Lawful) (g : Nat) : (w.pass g).Lawful := by
  unfold World.pass
  cases hs : w.sending g with
  | none => exact h
  | some found =>
    obtain ⟨t, chan⟩ := found
    obtain ⟨ht, hchan⟩ := sending_some hs
    have hlaw := h.sessions g t ht
    have hqueue := h.state.channels g chan hchan
    dsimp only
    cases hrelays : chan.relays with
    | nil => exact h
    | cons r rest =>
      have hall : ∀ r' ∈ r :: rest, r'.2.Lawful := hrelays ▸ hqueue.relays
      refine h.act (h.state.setChannel ⟨fun r' hr' => hall r' (List.mem_cons_of_mem _ hr'),
        hqueue.requests⟩) rfl ⟨hlaw.calls, hlaw.sending fun s hs' => ?_, hlaw.snapshot⟩
      rw [List.mem_singleton.1 hs']
      exact hall r List.mem_cons_self

theorem lawful_ask (h : w.Lawful) (g : Nat) : (w.ask g).Lawful := by
  unfold World.ask
  cases hs : w.sending g with
  | none => exact h
  | some found =>
    obtain ⟨t, chan⟩ := found
    obtain ⟨ht, hchan⟩ := sending_some hs
    have hlaw := h.sessions g t ht
    have hqueue := h.state.channels g chan hchan
    dsimp only
    cases hrequests : chan.requests with
    | nil => exact h
    | cons r rest =>
      have hall : ∀ r' ∈ r :: rest, r'.Lawful := hrequests ▸ hqueue.requests
      have hstate : ({ w.state with
          channels := w.state.channels.set g { chan with requests := rest } } : State).Lawful :=
        h.state.setChannel ⟨hqueue.relays, fun r' hr' => hall r' (List.mem_cons_of_mem _ hr')⟩
      dsimp only
      split
      · refine h.act hstate rfl ⟨hlaw.calls, hlaw.sending fun s hs' => ?_, hlaw.snapshot⟩
        rw [List.mem_singleton.1 hs']
        exact hall r List.mem_cons_self
      · have hput : (World.putSession
            { w with state := { w.state with
              channels := w.state.channels.set g { chan with requests := rest } } } g
            { t with pending := t.pending.filter fun kv => w.waiting.contains kv.2 }).Lawful :=
          h.act hstate rfl ⟨hlaw.calls, hlaw.sent, hlaw.snapshot⟩
        exact lawful_deliver hput _ _ _ fun _ _ => lawful_reason _

theorem lawful_finish (h : w.Lawful) (g : Nat) (interrupted : Bool) :
    (w.finish g interrupted).Lawful := by
  unfold World.finish
  cases hfound : (w.sessions.get g).filter fun t => t.phase != .ended with
  | none => exact h
  | some t =>
    obtain ⟨ht, -⟩ := Option.filter_eq_some_iff.1 hfound
    have hlaw := h.sessions g t ht
    have hleft := lawful_unregister h.state t.entry.name g interrupted
    refine h.act ⟨hleft.links, hleft.held, fun g' c' hc' => ?_⟩ rfl ⟨nofun, hlaw.sent, hlaw.snapshot⟩
    exact hleft.channels g' c' (Map.get_drop_some hc').2

theorem lawful_asks (h : w.Lawful) (sent : Asker → Except PeerRefusal State)
    (hsent : ∀ n s, sent (.here n) = .ok s → s.Lawful) : (w.asks sent).Lawful := by
  unfold World.asks
  dsimp only
  cases hs : sent (.here w.askers) with
  | error why => exact h
  | ok s => exact h.still (hsent _ s hs) rfl

theorem lawful_step (h : w.Lawful) (hf : Fitted w) (op : Op) (hclean : op.clean w = true) :
    (step cfg w op).Lawful := by
  cases op with
  | start entry =>
    exact h.act (lawful_register h.state entry.name) rfl ⟨nofun, nofun, nofun⟩
  | read g f => exact lawful_reading h g f hclean
  | go g draw => exact lawful_go h hf g draw hclean
  | pass g => exact lawful_pass h g
  | ask g => exact lawful_ask h g
  | ping g =>
    show ((w.sessions.get g).elim w _ : World).Lawful
    cases ht : w.sessions.get g with
    | none => exact h
    | some t =>
      have hlaw := h.sessions g t ht
      exact h.act h.state rfl ⟨hlaw.calls, hlaw.sent, hlaw.snapshot⟩
  | finish g interrupted => exact lawful_finish h g interrupted
  | expire p g => exact h.still (lawful_expire h.state p g) rfl
  | part i =>
    show (w.part i).Lawful
    unfold World.part
    cases w.leaving[i]? <;> exact h.still h.state rfl
  | suspend peers => exact h.still (lawful_suspend h.state peers) rfl
  | reload peers => exact h.still (lawful_reload h.state _ _) rfl
  | shutDown => exact h.still (lawful_shutDown h.state) rfl
  | request uid feature ty build => exact lawful_asks h _ fun _ _ hs => lawful_request h.state hs
  | requestFor home ty fields =>
    refine lawful_asks h _ fun _ _ hs => lawful_requestFor h.state (fun hremote => ?_) hs
    cases hremote
  | giveUp asker => exact lawful_deliver h asker _ _ fun _ _ => lawful_reason _

end Step

/-! ## Over every run -/

theorem lawful_from (cfg : Setup) {w : World} (h : w.Lawful) (hf : Fitted w) (ops : List Op)
    (hclean : cleanFrom cfg w ops = true) : (ops.foldl (step cfg) w).Lawful := by
  induction ops generalizing w with
  | nil => exact h
  | cons op ops ih =>
    obtain ⟨hop, hops⟩ := Bool.and_eq_true_iff.1 hclean
    have hgood : Good cfg w (step cfg w op) := good_step hf op
    exact ih (lawful_step h hf op hop) hgood.fitted hops

/-- Two peers, each with a key of one byte repeated, and a server ID of the same. -/
def relayingSetup : Setup where
  serverId := Bytes.replicate 8 0
  tag := "hx"
  maxGhosts := 100
  ofKey key := ⟨key.val.take 8, by rw [List.length_take, key.property]; rfl⟩

def relayingPeer (name : String) (key : UInt8) : PeerEntry where
  name := name
  key := Bytes.replicate 32 key
  account := "a"
  features := SUPPORTED
  ghosts := 10

def relayingHello (tag : String) (key : UInt8) : Frame where
  ty := tx.HELLO
  fields := [Field.u16 field.LINK_VERSION VERSION, Field.u32 field.FEATURES SUPPORTED,
    ⟨field.EPOCH, List.replicate 8 5⟩, ⟨field.SERVER_ID, List.replicate 8 key⟩, ⟨field.TAG, utf8 tag⟩,
    ⟨field.SERVER_NAME, utf8 tag⟩, Field.u16 field.HOPS 0]

/-- A link from its start to its first snapshot. -/
def establishing (g : Nat) (name : String) (key : UInt8) : List Op :=
  [.start (relayingPeer name key), .read g (relayingHello name key), .go g none, .go g none, .go g none,
    .read g { ty := tx.SERVERS }, .go g none, .go g none, .go g none]

/-- A user of the peer's comes, and goes: both links are told of it. -/
def comingAndGoing (gone : List Field) : List Op :=
  establishing 1 "a" 1 ++ establishing 2 "b" 2 ++
    [.read 1 { ty := tx.USER_UPDATE, fields := [Field.u16 field.USER_ID 3,
        ⟨field.SERVER_ID, List.replicate 8 1⟩, ⟨field.USER_NAME, utf8 "u"⟩,
        Field.u16 field.USER_ICON 1, Field.u16 field.USER_FLAGS 0] },
      .go 1 (some 7), .pass 2,
      .read 1 { ty := tx.USER_GONE, fields := Field.u16 field.USER_ID 3 :: gone }, .go 1 none, .pass 2]

end HxdNg.Link
