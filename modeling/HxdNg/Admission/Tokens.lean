import HxdNg.Admission.Filed
import HxdNg.Admission.Refusals

/-!
# Challenges, tokens and devices on file

* `World.Counted` : what the tables hold was issued and not spent; none is over its ceiling;
* `rememberToken_evicts` : what an insertion puts out is no newer than what it keeps;
* `identityForDevice_iff` : a device on file is admitted just while its certificate is valid, where the sum
  tested first does not overflow;
* `admits_while_it_should` : so in every step of a run.
-/

namespace HxdNg.Admission

open Identity Assoc

variable {A : Type} {P : Primitives} (canonicalHost : String → Option String) (serverKey : PublicKey)
  (cfg : IdentityConfig)

/-! ## Ceilings -/

section Evict
variable {κ ν : Type} [DecidableEq κ]

theorem size_evictOldest (key : ν → Instant) {m : Map κ ν} {n : Nat} (h : m.size ≤ n + 1) :
    (evictOldest key m).size ≤ n := by
  unfold evictOldest
  split
  · next e he =>
    have hmem : m.get e.1 = some e.2 := Map.mem_entries_iff.mp (List.argmin_mem he)
    have hdrop := Map.size_drop_of_get hmem
    omega
  · next hnone =>
    have hempty : m.entries = [] := List.argmin_eq_none.mp hnone
    rw [Map.size, hempty]
    exact Nat.zero_le n

/-- What is put out is no newer than what is kept. -/
theorem evictOldest_le {key : ν → Instant} {m : Map κ ν} {k k' : κ} {v v' : ν} (hk : m.get k = some v)
    (hout : (evictOldest key m).get k = none) (hk' : m.get k' = some v') : key v ≤ key v' := by
  unfold evictOldest at hout
  split at hout
  · next e he =>
    rw [Map.get_drop] at hout
    split at hout
    · next heq =>
      have hget : m.get e.1 = some e.2 := Map.mem_entries_iff.mp (List.argmin_mem he)
      rw [← heq, hk] at hget
      rw [Option.some.inj hget]
      exact List.le_of_mem_argmin (f := fun e : κ × ν => key e.2) (Map.mem_entries_iff.mpr hk') he
    · cases hk.symm.trans hout
  · cases hk.symm.trans hout

end Evict

section Token
variable {tokens : Map (Bytes 32) (TransportIdentity × Instant)} {key : Bytes 32} {ident : TransportIdentity}
  {now : Instant}

theorem size_rememberToken (h : tokens.size ≤ maxTokens) :
    (rememberToken tokens key ident now maxTokens).size ≤ maxTokens := by
  unfold rememberToken
  dsimp only
  have hlive := Nat.le_trans (Map.size_filter_le fun e => decide (since now e.2.2 < ttl)) h
  split
  · have hevict := size_evictOldest (·.2) (n := maxTokens - 1) (hlive.trans (by decide))
    exact (Map.size_set_le _ _).trans (Nat.add_le_of_le_sub (by decide) hevict)
  · next hroom => exact (Map.size_set_le _ _).trans (Nat.lt_of_not_le hroom)

/-- A token put out is no newer than one kept, and one kept has not expired. -/
theorem rememberToken_evicts {k k' : Bytes 32} {x x' : TransportIdentity × Instant}
    (hk : tokens.get k = some x) (hout : (rememberToken tokens key ident now maxTokens).get k = none)
    (hk' : (rememberToken tokens key ident now maxTokens).get k' = some x') (hne : k' ≠ key) :
    since now x'.2 < ttl ∧ x.2 ≤ x'.2 := by
  unfold rememberToken at hout hk'
  dsimp only at hout hk'
  have hkne : k ≠ key := by
    rintro rfl
    rw [Map.get_set, if_pos rfl] at hout
    cases hout
  rw [Map.get_set, if_neg hkne] at hout
  rw [Map.get_set, if_neg hne] at hk'
  have hlive' : (tokens.filter fun e => decide (since now e.2.2 < ttl)).get k' = some x' := by
    split at hk'
    · exact evictOldest_get hk'
    · exact hk'
  have hfresh : since now x'.2 < ttl := by
    rw [Map.get_filter, Option.filter_eq_some_iff] at hlive'
    simpa using hlive'.2
  refine ⟨hfresh, ?_⟩
  cases hlive : (tokens.filter fun e => decide (since now e.2.2 < ttl)).get k with
  | none =>
    -- Expired, and what is kept is not.
    have hexpired : ¬ since now x.2 < ttl := by
      intro hnot
      rw [Map.get_filter, hk, Option.filter_some, if_pos (decide_eq_true hnot)] at hlive
      cases hlive
    unfold since at hexpired hfresh
    refine Nat.le_of_not_lt fun hlt => ?_
    omega
  | some y =>
    obtain rfl : x = y := Option.some.inj (hk.symm.trans (Map.get_of_filter hlive))
    split at hout
    · exact evictOldest_le hlive hout hlive'
    · cases hlive.symm.trans hout

end Token

theorem size_rememberDevice {devices : Map PublicKey DeviceRecord} {key : PublicKey} {rec : DeviceRecord}
    {now : UInt64} (h : devices.size ≤ maxDevices) :
    (rememberDevice devices key rec now).size ≤ maxDevices := by
  unfold rememberDevice
  dsimp only
  split
  · have hlive := Nat.le_trans (Map.size_filter_le fun e => decide (e.2.expires ≥ now)) h
    split
    · have hevict := size_evictOldest (·.seen) (n := maxDevices - 1) (hlive.trans (by decide))
      exact (Map.size_set_le _ _).trans (Nat.add_le_of_le_sub (by decide) hevict)
    · next hroom => exact (Map.size_set_le _ _).trans (Nat.lt_of_not_le hroom)
  · next hroom =>
    rw [not_and_or] at hroom
    rcases hroom with hroom | hheld
    · exact (Map.size_set_le _ _).trans (Nat.lt_of_not_le hroom)
    · obtain ⟨r, hr⟩ := Option.ne_none_iff_exists'.mp hheld
      rw [Map.size_set_of_get hr]
      exact h

/-! ## What was issued and spent -/

namespace Event

def issues (k : Bytes 32) : Event → Bool
  | .issued k' _ => k' = k
  | _ => false

def accepts (k : Bytes 32) : Event → Bool
  | .accepted k' _ => k' = k
  | _ => false

def mints (k : Bytes 32) : Event → Bool
  | .minted k' _ _ => k' = k
  | _ => false

def consumes (k : Bytes 32) : Event → Bool
  | .consumed k' _ _ => k' = k
  | _ => false

end Event

/-- One while a table holds the key. -/
def held {ν : Type} (m : Map (Bytes 32) ν) (k : Bytes 32) : Nat := if (m.get k).isSome then 1 else 0

theorem held_le_one {ν : Type} (m : Map (Bytes 32) ν) (k : Bytes 32) : held m k ≤ 1 := by
  unfold held
  split <;> omega

theorem held_le {ν : Type} {m n : Map (Bytes 32) ν} (h : ∀ k v, n.get k = some v → m.get k = some v)
    (k : Bytes 32) : held n k ≤ held m k := by
  unfold held
  cases hn : n.get k with
  | none => exact Nat.zero_le _
  | some v => rw [h k v hn]

theorem held_set {ν : Type} (m : Map (Bytes 32) ν) (k : Bytes 32) (v : ν) (k' : Bytes 32) :
    held (m.set k v) k' ≤ if k' = k then 1 else held m k' := by
  unfold held
  rw [Map.get_set]
  split
  · exact Nat.le_refl 1
  · exact Nat.le_refl _

theorem held_drop {ν : Type} {m : Map (Bytes 32) ν} {k : Bytes 32} {v : ν} (h : m.get k = some v)
    (k' : Bytes 32) : held (m.drop k) k' + (if k = k' then 1 else 0) = held m k' := by
  unfold held
  rw [Map.get_drop]
  by_cases hk : k' = k
  · rw [if_pos hk, if_pos hk.symm, hk, h]
    rfl
  · rw [if_neg hk, if_neg (Ne.symm hk)]
    rfl

/-- What was accepted or redeemed was issued, was not spent twice, and was within its lifetime; and the
tables hold only what was issued and not spent, below their ceilings. -/
structure World.Counted (w : World A) : Prop where
  issued : ∀ k t, w.server.tables.challenges.get k = some t → .issued k t ∈ w.log
  accepted : ∀ k, w.log.countP (Event.accepts k) + held w.server.tables.challenges k ≤
    w.log.countP (Event.issues k)
  acceptedLive : ∀ k t, .accepted k t ∈ w.log → ∃ t₀, .issued k t₀ ∈ w.log ∧ since t t₀ < ttl
  minted : ∀ k x, w.server.tables.tokens.get k = some x → .minted k x.1 x.2 ∈ w.log
  consumed : ∀ k, w.log.countP (Event.consumes k) + held w.server.tables.tokens k ≤
    w.log.countP (Event.mints k)
  redeemedLive : ∀ k ident t, .redeemed k ident t ∈ w.log ∨ .consumed k ident t ∈ w.log →
    ∃ t₀, .minted k ident t₀ ∈ w.log ∧ since t t₀ < ttl
  challenges : w.server.tables.challenges.size ≤ maxChallenges
  tokens : w.server.tables.tokens.size ≤ maxTokens
  devices : w.server.tables.devices.size ≤ maxDevices

/-- A step that adds nothing to the tables and notes nothing. -/
theorem World.Counted.of_quiet {w w' : World A} (hw : w.Counted) (hlog : w'.log = w.log)
    (hchallenges : ∀ k t, w'.server.tables.challenges.get k = some t →
      w.server.tables.challenges.get k = some t)
    (htokens : ∀ k x, w'.server.tables.tokens.get k = some x → w.server.tables.tokens.get k = some x)
    (hdevices : ∀ d r, w'.server.tables.devices.get d = some r → w.server.tables.devices.get d = some r) :
    w'.Counted where
  issued k t h := hlog ▸ hw.issued k t (hchallenges k t h)
  accepted k := by
    rw [hlog]
    exact (Nat.add_le_add_left (held_le hchallenges k) _).trans (hw.accepted k)
  acceptedLive k t h := hlog ▸ hw.acceptedLive k t (hlog ▸ h)
  minted k x h := hlog ▸ hw.minted k x (htokens k x h)
  consumed k := by
    rw [hlog]
    exact (Nat.add_le_add_left (held_le htokens k) _).trans (hw.consumed k)
  redeemedLive k ident t h := hlog ▸ hw.redeemedLive k ident t (hlog ▸ h)
  challenges := (Map.size_le_of_get hchallenges).trans hw.challenges
  tokens := (Map.size_le_of_get htokens).trans hw.tokens
  devices := (Map.size_le_of_get hdevices).trans hw.devices

theorem Turns.challenges {env : Env A} {known : Fingerprint → Fingerprint → Prop} {s t : Server A}
    (h : Turns P env known s t) : t.tables.challenges = s.tables.challenges := by
  induction h with
  | refl => rfl
  | tail _ hturn ih =>
    rw [← ih]
    cases hturn <;> rfl

theorem Associated.challenges {s t : Server A} (h : Associated s t) :
    t.tables.challenges = s.tables.challenges := by
  obtain ⟨created, h⟩ := h
  rw [h]

theorem dropDevice_challenges {s t : Server A} {device : PublicKey} (h : t = s ∨ t = s.dropDevice device) :
    t.tables.challenges = s.tables.challenges := by
  rcases h with rfl | rfl <;> rfl

theorem admitted_challenges (env : Env A) (s : Server A) (v : Verified) (req : AuthRequest)
    (assoc : Association) :
    (s.admitted P cfg env v req assoc).2.tables.challenges = s.tables.challenges := by
  rcases admitted_cases P cfg env s v req assoc with ⟨e, -, t, u, ht, hu, hassociated⟩ | ⟨ident, t, -, h⟩
  · exact (hassociated.challenges.trans (dropDevice_challenges hu)).trans ht.challenges
  · exact h.associated.challenges.trans h.turns.challenges

theorem deviceAdmitted_challenges (env : Env A) (s : Server A) (v : Verified) (login : String)
    (cardShown encrypted : Bool) :
    (s.deviceAdmitted P cfg env v login cardShown encrypted).2.tables.challenges = s.tables.challenges := by
  rcases deviceAdmitted_cases P cfg env s v login cardShown encrypted with
    ⟨e, -, t, u, ht, hu, hassociated⟩ | ⟨ident, t, -, h⟩
  · exact (hassociated.challenges.trans (dropDevice_challenges hu)).trans ht.challenges
  · exact h.associated.challenges.trans h.turns.challenges

/-- The operations that issue or spend. -/
def Op.Counts : Op A → Prop
  | .issueChallenge _ | .verifyProof .. | .remember _ | .redeem .. => True
  | _ => False

theorem check_log {w : World A} {card : Card} {cardBytes : List UInt8} {token : Option (Bytes 32)}
    {downstream : Downstream} {r : Except AuthRefused TransportIdentity × Server A} :
    (w.check card cardBytes token downstream r).log = w.log := by
  obtain ⟨_ | ident, server⟩ := r <;> rfl

/-- Every other step notes nothing, and leaves the challenges as they were. -/
theorem step_quiet (w : World A) (act : Act A) (h : ¬ act.op.Counts) :
    (w.step P canonicalHost serverKey cfg act).log = w.log ∧
      (w.step P canonicalHost serverKey cfg act).server.tables.challenges = w.server.tables.challenges := by
  obtain ⟨env, op⟩ := act
  unfold World.step
  cases op with
  | issueChallenge drawn => exact absurd trivial h
  | verifyProof card cert proof host => exact absurd trivial h
  | remember i => exact absurd trivial h
  | redeem token consume => exact absurd trivial h
  | verifyPresented card cert device =>
    dsimp only
    split <;> exact ⟨rfl, rfl⟩
  | admitLogin i req drawn =>
    dsimp only
    split
    · exact ⟨rfl, rfl⟩
    · rw [check_log, check_server, admitted_challenges]
      exact ⟨rfl, rfl⟩
  | admitDevice i login cardShown encrypted =>
    dsimp only
    split
    · exact ⟨rfl, rfl⟩
    · rw [check_log, check_server, deviceAdmitted_challenges]
      exact ⟨rfl, rfl⟩
  | identityForDevice device =>
    dsimp only
    split
    · exact ⟨rfl, rfl⟩
    · rw [check_log, check_server, admitted_challenges]
      exact ⟨rfl, rfl⟩
  | anchor i =>
    dsimp only
    split
    · exact ⟨rfl, rfl⟩
    · exact ⟨rfl, by rw [(anchor_fields cfg _ _ _).1]⟩
  | checkCard i bytes =>
    dsimp only
    split
    · exact ⟨rfl, rfl⟩
    · split <;> exact ⟨rfl, rfl⟩
  | replaceCard i =>
    dsimp only
    split
    · exact ⟨rfl, rfl⟩
    next u hu =>
    rcases replaceCard_cases env w.server u.ident u.card u.bytes with hsame | ⟨-, hset⟩
    · rw [hsame]
      exact ⟨rfl, rfl⟩
    · rw [hset]
      exact ⟨rfl, rfl⟩
  | publishRotation from_ to_ =>
    have hturns : Turns P env (fun _ _ => True) w.server (w.server.acceptRotation P env from_ to_) :=
      acceptRotation_turns P env w.server trivial
    exact ⟨rfl, hturns.challenges⟩
  | revoke refused => exact ⟨rfl, rfl⟩
  | evictCard fp => exact ⟨rfl, rfl⟩
  | changeAccounts accounts => exact ⟨rfl, rfl⟩

/-- What an issue leaves: some of the challenges there were, and the one issued. -/
theorem issueChallenge_cases (env : Env A) (s : Server A) (ch : Bytes 32) :
    (s.issueChallenge P env ch).2.tables.tokens = s.tables.tokens ∧
      (s.issueChallenge P env ch).2.tables.devices = s.tables.devices ∧
      ∃ c, (∀ k t, c.get k = some t → s.tables.challenges.get k = some t) ∧
        ((s.issueChallenge P env ch).1 = none ∧ (s.issueChallenge P env ch).2.tables.challenges = c ∨
          (s.issueChallenge P env ch).1 = some ch ∧ c.size < maxChallenges ∧
            (s.issueChallenge P env ch).2.tables.challenges = c.set (P.sha256 ch.val) env.now) := by
  unfold Server.issueChallenge
  dsimp only
  split
  · split
    · exact ⟨rfl, rfl, _, fun k t h => Map.get_of_filter h, .inl ⟨rfl, rfl⟩⟩
    · next hroom =>
      exact ⟨rfl, rfl, _, fun k t h => Map.get_of_filter h, .inr ⟨rfl, Nat.lt_of_not_le hroom, rfl⟩⟩
  · split
    · exact ⟨rfl, rfl, _, fun _ _ h => h, .inl ⟨rfl, rfl⟩⟩
    · next hroom => exact ⟨rfl, rfl, _, fun _ _ h => h, .inr ⟨rfl, Nat.lt_of_not_le hroom, rfl⟩⟩

theorem issueChallenge_counted {w : World A} (hw : w.Counted) (env : Env A) (drawn : Bytes 32) :
    (w.step P canonicalHost serverKey cfg ⟨env, .issueChallenge drawn⟩).Counted := by
  obtain ⟨htokens, hdevices, c, hc, hcases⟩ := issueChallenge_cases (P := P) env w.server drawn
  unfold World.step
  dsimp only
  split
  · next server heq =>
    rw [heq] at htokens hdevices hcases
    rcases hcases with ⟨-, hchallenges⟩ | ⟨hsome, -⟩
    · refine hw.of_quiet rfl (fun k t h => hc k t (hchallenges ▸ h)) (fun k x h => ?_) fun d r h => ?_
      · exact htokens ▸ h
      · exact hdevices ▸ h
    · cases hsome
  · next ch server heq =>
    rw [heq] at htokens hdevices hcases
    rcases hcases with ⟨hnone, -⟩ | ⟨hsome, hroom, hchallenges⟩
    · cases hnone
    obtain rfl := Option.some.inj hsome
    dsimp only at htokens hdevices hchallenges
    refine ⟨fun k t h => ?_, fun k => ?_, fun k t h => ?_, fun k x h => ?_, fun k => ?_, fun k ident t h => ?_,
      ?_, ?_, ?_⟩
    · dsimp only at h
      rw [hchallenges] at h
      rcases Map.get_set_cases h with ⟨rfl, rfl⟩ | ⟨-, h⟩
      · exact List.mem_cons_self
      · exact List.mem_cons_of_mem _ (hw.issued k t (hc k t h))
    · dsimp only
      rw [hchallenges, List.countP_cons, List.countP_cons]
      have hset := held_set c (P.sha256 ch.val) env.now k
      have hle := held_le hc k
      have hcount := hw.accepted k
      have hone := held_le_one w.server.tables.challenges k
      simp only [Event.accepts, Event.issues, decide_eq_true_eq, Bool.false_eq_true, if_false]
      split at hset
      · next hk =>
        rw [if_pos hk.symm]
        omega
      · next hk =>
        rw [if_neg (Ne.symm hk)]
        omega
    · rcases List.mem_cons.mp h with h | h
      · cases h
      · obtain ⟨t₀, ht₀, hlive⟩ := hw.acceptedLive k t h
        exact ⟨t₀, List.mem_cons_of_mem _ ht₀, hlive⟩
    · exact List.mem_cons_of_mem _ (hw.minted k x (htokens ▸ h))
    · dsimp only
      rw [htokens, List.countP_cons, List.countP_cons]
      exact hw.consumed k
    · have h' : .redeemed k ident t ∈ w.log ∨ .consumed k ident t ∈ w.log :=
        h.imp (fun h => (List.mem_cons.mp h).resolve_left (by nofun))
          fun h => (List.mem_cons.mp h).resolve_left (by nofun)
      obtain ⟨t₀, ht₀, hlive⟩ := hw.redeemedLive k ident t h'
      exact ⟨t₀, List.mem_cons_of_mem _ ht₀, hlive⟩
    · dsimp only
      rw [hchallenges]
      exact (Map.size_set_le _ _).trans hroom
    · exact htokens ▸ hw.tokens
    · exact hdevices ▸ hw.devices

/-- A proof refused leaves its challenge spent at most. -/
theorem verifyProof_error {env : Env A} {s s' : Server A} {card cert proof : List UInt8}
    {host : Option String} {e : AuthRefused}
    (h : s.verifyProof P canonicalHost serverKey cfg env card cert proof host = (.error e, s')) :
    s' = s ∨ ∃ k, s' = { s with tables := { s.tables with challenges := s.tables.challenges.drop k } } := by
  unfold Server.verifyProof at h
  split at h
  · exact .inl (Prod.mk.inj h).2.symm
  · next p hp =>
    refine .inr ⟨P.sha256 p.challenge.val, ?_⟩
    dsimp only at h
    split at h
    · exact (Prod.mk.inj h).2.symm
    split at h
    · exact (Prod.mk.inj h).2.symm
    split at h
    · exact (Prod.mk.inj h).2.symm
    split at h
    · exact (Prod.mk.inj h).2.symm
    split at h
    · exact (Prod.mk.inj h).2.symm
    · cases (Prod.mk.inj h).1

theorem verifyProof_counted {w : World A} (hw : w.Counted) (env : Env A) (card cert proof : List UInt8)
    (host : Option String) :
    (w.step P canonicalHost serverKey cfg ⟨env, .verifyProof card cert proof host⟩).Counted := by
  unfold World.step
  dsimp only
  split
  · next e server heq =>
    rcases verifyProof_error canonicalHost serverKey cfg heq with rfl | ⟨k, rfl⟩
    · exact hw.of_quiet rfl (fun _ _ h => h) (fun _ _ h => h) fun _ _ h => h
    · exact hw.of_quiet rfl (fun _ _ h => (Map.get_drop_some h).2) (fun _ _ h => h) fun _ _ h => h
  · next v server heq =>
    obtain ⟨p, hp, -, rfl, issued, hissued, hlive⟩ := verifyProof_eq_ok canonicalHost serverKey cfg heq
    have hlog : ((LoginProof.parse P canonicalHost proof).toOption.map fun p =>
        Event.accepted (P.sha256 p.challenge.val) env.now).toList ++ w.log =
          .accepted (P.sha256 p.challenge.val) env.now :: w.log := by
      rw [hp]
      rfl
    rw [hlog]
    generalize P.sha256 p.challenge.val = key at hissued ⊢
    refine ⟨fun k t h => ?_, fun k => ?_, fun k t h => ?_, fun k x h => ?_, fun k => ?_, fun k ident t h => ?_,
      ?_, hw.tokens, hw.devices⟩
    · exact List.mem_cons_of_mem _ (hw.issued k t (Map.get_drop_some h).2)
    · dsimp only
      rw [List.countP_cons, List.countP_cons]
      have hdrop := held_drop hissued k
      have hcount := hw.accepted k
      simp only [Event.accepts, Event.issues, decide_eq_true_eq, Bool.false_eq_true, if_false]
      split at hdrop
      · next hk =>
        rw [if_pos hk]
        omega
      · next hk =>
        rw [if_neg hk]
        omega
    · rcases List.mem_cons.mp h with h | h
      · obtain ⟨rfl, rfl⟩ := Event.accepted.inj h
        exact ⟨issued, List.mem_cons_of_mem _ (hw.issued _ _ hissued), hlive⟩
      · obtain ⟨t₀, ht₀, hlive⟩ := hw.acceptedLive k t h
        exact ⟨t₀, List.mem_cons_of_mem _ ht₀, hlive⟩
    · exact List.mem_cons_of_mem _ (hw.minted k x h)
    · dsimp only
      rw [List.countP_cons, List.countP_cons]
      exact hw.consumed k
    · have h' : .redeemed k ident t ∈ w.log ∨ .consumed k ident t ∈ w.log :=
        h.imp (fun h => (List.mem_cons.mp h).resolve_left (by nofun))
          fun h => (List.mem_cons.mp h).resolve_left (by nofun)
      obtain ⟨t₀, ht₀, hlive⟩ := hw.redeemedLive k ident t h'
      exact ⟨t₀, List.mem_cons_of_mem _ ht₀, hlive⟩
    · exact (Map.size_le_of_get fun _ _ h => (Map.get_drop_some h).2).trans hw.challenges

theorem redeem_none {env : Env A} {s s' : Server A} {token : List UInt8} {consume : Bool}
    (h : s.redeem P env token consume = (none, s')) :
    s' = { s with tables := { s.tables with tokens := s.tables.tokens.drop (P.sha256 token) } } := by
  unfold Server.redeem at h
  dsimp only at h
  split at h
  · exact (Prod.mk.inj h).2.symm
  split at h
  · exact (Prod.mk.inj h).2.symm
  split at h
  · exact (Prod.mk.inj h).2.symm
  split at h <;> cases (Prod.mk.inj h).1

theorem redeem_counted {w : World A} (hw : w.Counted) (env : Env A) (token : List UInt8) (consume : Bool) :
    (w.step P canonicalHost serverKey cfg ⟨env, .redeem token consume⟩).Counted := by
  unfold World.step
  dsimp only
  split
  · next server heq =>
    obtain rfl := redeem_none heq
    exact hw.of_quiet rfl (fun _ _ h => h) (fun _ _ h => (Map.get_drop_some h).2) fun _ _ h => h
  · next ident server heq =>
    obtain ⟨issued, hget, hlive, -, rfl⟩ := redeem_eq_some heq
    have hminted := hw.minted _ _ hget
    generalize P.sha256 token = key at hget hminted ⊢
    cases consume with
    | false =>
      refine ⟨fun k t h => ?_, fun k => ?_, fun k t h => ?_, fun k x h => ?_, fun k => ?_,
        fun k ident' t h => ?_, hw.challenges, hw.tokens, hw.devices⟩
      · exact List.mem_cons_of_mem _ (hw.issued k t h)
      · dsimp only
        rw [List.countP_cons, List.countP_cons]
        exact hw.accepted k
      · obtain ⟨t₀, ht₀, hlive⟩ := hw.acceptedLive k t ((List.mem_cons.mp h).resolve_left (by nofun))
        exact ⟨t₀, List.mem_cons_of_mem _ ht₀, hlive⟩
      · exact List.mem_cons_of_mem _ (hw.minted k x h)
      · dsimp only
        rw [List.countP_cons, List.countP_cons]
        exact hw.consumed k
      · by_cases hnew : Event.redeemed k ident' t = .redeemed key ident env.now
        · obtain ⟨rfl, rfl, rfl⟩ := Event.redeemed.inj hnew
          exact ⟨issued, List.mem_cons_of_mem _ hminted, hlive⟩
        · have h' : .redeemed k ident' t ∈ w.log ∨ .consumed k ident' t ∈ w.log :=
            h.imp (fun h => (List.mem_cons.mp h).resolve_left hnew)
              fun h => (List.mem_cons.mp h).resolve_left (by nofun)
          obtain ⟨t₀, ht₀, hlive⟩ := hw.redeemedLive k ident' t h'
          exact ⟨t₀, List.mem_cons_of_mem _ ht₀, hlive⟩
    | true =>
      refine ⟨fun k t h => ?_, fun k => ?_, fun k t h => ?_, fun k x h => ?_, fun k => ?_,
        fun k ident' t h => ?_, hw.challenges, ?_, hw.devices⟩
      · exact List.mem_cons_of_mem _ (hw.issued k t h)
      · dsimp only
        rw [List.countP_cons, List.countP_cons]
        exact hw.accepted k
      · obtain ⟨t₀, ht₀, hlive⟩ := hw.acceptedLive k t ((List.mem_cons.mp h).resolve_left (by nofun))
        exact ⟨t₀, List.mem_cons_of_mem _ ht₀, hlive⟩
      · exact List.mem_cons_of_mem _ (hw.minted k x (Map.get_drop_some h).2)
      · have hdrop := held_drop hget k
        have hcount := hw.consumed k
        show List.countP (Event.consumes k) (Event.consumed key ident env.now :: w.log) +
          held (w.server.tables.tokens.drop key) k ≤
          List.countP (Event.mints k) (Event.consumed key ident env.now :: w.log)
        rw [List.countP_cons, List.countP_cons]
        simp only [Event.consumes, Event.mints, decide_eq_true_eq, Bool.false_eq_true, if_false]
        split at hdrop
        · next hk =>
          rw [if_pos hk]
          omega
        · next hk =>
          rw [if_neg hk]
          omega
      · by_cases hnew : Event.consumed k ident' t = .consumed key ident env.now
        · obtain ⟨rfl, rfl, rfl⟩ := Event.consumed.inj hnew
          exact ⟨issued, List.mem_cons_of_mem _ hminted, hlive⟩
        · have h' : .redeemed k ident' t ∈ w.log ∨ .consumed k ident' t ∈ w.log :=
            h.imp (fun h => (List.mem_cons.mp h).resolve_left (by nofun))
              fun h => (List.mem_cons.mp h).resolve_left hnew
          obtain ⟨t₀, ht₀, hlive⟩ := hw.redeemedLive k ident' t h'
          exact ⟨t₀, List.mem_cons_of_mem _ ht₀, hlive⟩
      · exact (Map.size_le_of_get fun _ _ h => (Map.get_drop_some h).2).trans hw.tokens

theorem remember_counted {w : World A} (hw : w.Counted) (env : Env A) (i : Nat) :
    (w.step P canonicalHost serverKey cfg ⟨env, .remember i⟩).Counted := by
  unfold World.step
  dsimp only
  split
  · exact hw
  next p hp =>
  cases htoken : p.token with
  | none =>
    exact ⟨hw.issued, hw.accepted, hw.acceptedLive, hw.minted, hw.consumed, hw.redeemedLive, hw.challenges,
      hw.tokens, size_rememberDevice hw.devices⟩
  | some token =>
    unfold Server.remember
    dsimp only [Option.elim_some, Option.map_some, Option.toList_some, List.singleton_append]
    generalize P.sha256 token.val = key
    refine ⟨fun k t h => ?_, fun k => ?_, fun k t h => ?_, fun k x h => ?_, fun k => ?_, fun k ident t h => ?_,
      hw.challenges, size_rememberToken hw.tokens, size_rememberDevice hw.devices⟩
    · exact List.mem_cons_of_mem _ (hw.issued k t h)
    · dsimp only
      rw [List.countP_cons, List.countP_cons]
      exact hw.accepted k
    · obtain ⟨t₀, ht₀, hlive⟩ := hw.acceptedLive k t ((List.mem_cons.mp h).resolve_left (by nofun))
      exact ⟨t₀, List.mem_cons_of_mem _ ht₀, hlive⟩
    · rcases rememberToken_get h with ⟨rfl, rfl⟩ | ⟨-, h⟩
      · exact List.mem_cons_self
      · exact List.mem_cons_of_mem _ (hw.minted k x h)
    · have hcount := hw.consumed k
      have hone := held_le_one (rememberToken w.server.tables.tokens key p.ident env.now maxTokens) k
      dsimp only
      rw [List.countP_cons, List.countP_cons]
      simp only [Event.consumes, Event.mints, decide_eq_true_eq, Bool.false_eq_true, if_false]
      by_cases hk : key = k
      · rw [if_pos hk]
        omega
      · rw [if_neg hk]
        have hle : held (rememberToken w.server.tables.tokens key p.ident env.now maxTokens) k ≤
            held w.server.tables.tokens k := by
          unfold held
          cases hget : (rememberToken w.server.tables.tokens key p.ident env.now maxTokens).get k with
          | none => exact Nat.zero_le _
          | some x =>
            rcases rememberToken_get hget with ⟨hkey, -⟩ | ⟨-, hold⟩
            · exact absurd hkey.symm hk
            · rw [hold]
        omega
    · have h' : .redeemed k ident t ∈ w.log ∨ .consumed k ident t ∈ w.log :=
        h.imp (fun h => (List.mem_cons.mp h).resolve_left (by nofun))
          fun h => (List.mem_cons.mp h).resolve_left (by nofun)
      obtain ⟨t₀, ht₀, hlive⟩ := hw.redeemedLive k ident t h'
      exact ⟨t₀, List.mem_cons_of_mem _ ht₀, hlive⟩

theorem step_counted {w : World A} (hw : w.Counted) (act : Act A) :
    (w.step P canonicalHost serverKey cfg act).Counted := by
  by_cases hcounts : act.op.Counts
  · obtain ⟨env, op⟩ := act
    cases op with
    | issueChallenge drawn => exact issueChallenge_counted canonicalHost serverKey cfg hw env drawn
    | verifyProof card cert proof host =>
      exact verifyProof_counted canonicalHost serverKey cfg hw env card cert proof host
    | remember i => exact remember_counted canonicalHost serverKey cfg hw env i
    | redeem token consume => exact redeem_counted canonicalHost serverKey cfg hw env token consume
    | _ => exact hcounts.elim
  · obtain ⟨hlog, hchallenges⟩ := step_quiet (P := P) canonicalHost serverKey cfg w act hcounts
    have hsame : ∀ k t, (w.step P canonicalHost serverKey cfg act).server.tables.challenges.get k = some t →
        w.server.tables.challenges.get k = some t := fun k t h => hchallenges ▸ h
    by_cases hwrites : act.op.Writes
    · obtain ⟨env, op⟩ := act
      cases op with
      | remember i => exact absurd trivial hcounts
      | anchor i =>
        refine hw.of_quiet hlog hsame (fun k x h => ?_) fun d r h => ?_
        all_goals
          unfold World.step at h
          dsimp only at h
          split at h
          · exact h
          · rwa [(anchor_fields cfg _ _ _).1] at h
      | replaceCard i =>
        refine hw.of_quiet hlog hsame (fun k x h => ?_) fun d r h => ?_
        all_goals
          unfold World.step at h
          dsimp only at h
          split at h
          · exact h
          next u hu =>
          rcases replaceCard_cases env w.server u.ident u.card u.bytes with hkept | ⟨-, hset⟩
          · rw [hkept] at h
            exact h
          · rw [hset] at h
            exact h
      | _ => exact hwrites.elim
    · have hcalm := step_calm P canonicalHost serverKey cfg w act hwrites
      exact hw.of_quiet hlog hsame hcalm.tokens hcalm.devices

theorem start_counted (P : Primitives) (env : Env A) (anchors : Option Anchors) (refused : Refused)
    (accounts : A) : (World.start env anchors refused accounts).Counted := by
  have hturns : Turns P env (fun _ _ => True) _ (World.start env anchors refused accounts).server :=
    finishRotations_turns P env _ none
  have hempty : ({ World.start env anchors refused accounts with server := ⟨{}, anchors, refused, accounts⟩ } :
      World A).Counted := by
    refine ⟨fun k t h => ?_, fun k => Nat.le_refl 0, fun k t h => (by cases h), fun k x h => ?_,
      fun k => Nat.le_refl 0, fun k ident t h => ?_, Nat.zero_le _, Nat.zero_le _, Nat.zero_le _⟩
    · cases h
    · cases h
    · rcases h with h | h <;> cases h
  exact hempty.of_quiet rfl (fun k t h => hturns.challenges ▸ h) hturns.calm.tokens hturns.calm.devices

/-! ## Devices on file -/

/-- A device and its identity's card on file, as they were verified. -/
structure Server.OnFile (P : Primitives) (s : Server A) (device : PublicKey) (v : Verified)
    (downstream : Downstream) : Prop where
  device : ∃ rec, s.tables.devices.get device = some rec ∧ rec.cert = v.certBytes ∧ rec.downstream = downstream ∧
    ∃ entry, s.cached (Fingerprint.of P rec.identity) = some entry ∧ entry.bytes = v.cardBytes
  cert : DeviceCert.parse P v.certBytes = .ok v.cert
  card : Card.parse P v.cardBytes = .ok v.card
  identity : v.card.identity = v.cert.identity

/-- The sum tested first fits its machine word. -/
def Server.Fits (s : Server A) (device : PublicKey) : Prop :=
  ∀ rec, s.tables.devices.get device = some rec → rec.expires.toNat + cfg.clockSkew.toNat < 2 ^ 64

theorem deviceOnFile_onFile {env : Env A} {s : Server A} {device : PublicKey} {v : Verified}
    {downstream : Downstream} (h : s.deviceOnFile P cfg env device = some (v, downstream)) :
    s.OnFile P device v downstream ∧ v.cert.checkValid env.unix cfg.clockSkew = .ok () := by
  unfold Server.deviceOnFile at h
  obtain ⟨rec, hrec, h⟩ := Option.bind_eq_some_iff.mp h
  split at h
  · cases h
  obtain ⟨entry, hentry, h⟩ := Option.bind_eq_some_iff.mp h
  split at h
  · cases h
  next card cert hpresented =>
  obtain ⟨rfl, rfl⟩ := Prod.mk.inj (Option.some.inj h)
  obtain ⟨hcert, -, hvalid, -, hcard, hidentity⟩ := (verifyPresented_eq_ok P).mp hpresented
  exact ⟨⟨⟨rec, hrec, rfl, rfl, entry, hentry, rfl⟩, hcert, hcard, hidentity⟩, hvalid⟩

theorem onFile_deviceOnFile {env : Env A} {s : Server A} (hs : s.Sound P) {device : PublicKey} {v : Verified}
    {downstream : Downstream} (hfits : s.Fits cfg device) (h : s.OnFile P device v downstream)
    (hvalid : v.cert.checkValid env.unix cfg.clockSkew = .ok ()) :
    s.deviceOnFile P cfg env device = some (v, downstream) := by
  obtain ⟨⟨rec, hrec, hcert, rfl, entry, hentry, hcard⟩, hparse, hparseCard, hidentity⟩ := h
  obtain ⟨cert, hsame, hdevice, -, hexpires, hlogin⟩ := hs.devices device rec hrec
  rw [hcert] at hsame
  obtain rfl : v.cert = cert := Except.ok.inj (hparse.symm.trans hsame)
  have hpresented : verifyPresented P entry.bytes rec.cert device env.unix cfg.clockSkew =
      .ok (v.card, v.cert) := by
    rw [hcard, hcert]
    exact (verifyPresented_eq_ok P).mpr ⟨hparse, hdevice, hvalid, hlogin, hparseCard, hidentity⟩
  -- Where the sum fits, it is the saturating one of the window check.
  have hlive : ¬ rec.expires + cfg.clockSkew < env.unix := by
    intro hlt
    unfold DeviceCert.checkValid checkWindow at hvalid
    rw [hexpires] at hvalid
    split at hvalid
    · cases hvalid
    split at hvalid
    · cases hvalid
    split at hvalid
    · cases hvalid
    next hnot =>
    apply hnot
    have hsum := hfits rec hrec
    rw [UInt64.lt_iff_toNat_lt] at hlt ⊢
    rw [UInt64.toNat_add, Nat.mod_eq_of_lt hsum] at hlt
    rw [toNat_satAdd]
    omega
  unfold Server.deviceOnFile
  rw [hrec, Option.bind_some, if_neg hlive]
  unfold Server.cached at hentry
  rw [hentry, Option.bind_some, hpresented]
  dsimp only
  rw [hcard, hcert]

/-- A device is admitted where it and a card are on file, the certificate is valid and a read-only admission
of them succeeds. -/
theorem identityForDevice_iff {env : Env A} {s : Server A} (hs : s.Sound P) {device : PublicKey}
    (hfits : s.Fits cfg device) :
    (s.identityForDevice P cfg env device).1.isSome ↔
      ∃ v downstream, s.OnFile P device v downstream ∧ v.cert.checkValid env.unix cfg.clockSkew = .ok () ∧
        ∃ ident, (s.admitted P cfg env v (.plain downstream) .readOnly).1 = .ok ident := by
  unfold Server.identityForDevice
  constructor
  · intro h
    split at h
    · cases h
    next v downstream hfile =>
    obtain ⟨honfile, hvalid⟩ := deviceOnFile_onFile cfg hfile
    refine ⟨v, downstream, honfile, hvalid, ?_⟩
    split at h
    · cases h
    next ident s' hadmitted => exact ⟨ident, by rw [hadmitted]⟩
  · rintro ⟨v, downstream, honfile, hvalid, ident, hadmitted⟩
    rw [onFile_deviceOnFile cfg hs hfits honfile hvalid]
    dsimp only
    split
    · next e s' heq =>
      rw [heq] at hadmitted
      cases hadmitted
    · rfl

/-! ## Runs -/

/-- A step admits what it should: besides what is counted, a token is redeemed only while its keys are
neither revoked nor rotated away from; what a new token puts out is no newer than what it keeps, none of
which has expired; and a device on file is admitted while it is valid, with no sum that overflows. -/
structure Admits (P : Primitives) (w : World A) (act : Act A) (w' : World A) : Prop where
  counted : w'.Counted
  redeems : ∀ token consume ident, act.op = .redeem token consume →
    (w.server.redeem P act.env token consume).1 = some ident →
    w.server.refused.isRevoked ident.fingerprint (Fingerprint.of P ident.device) = false ∧
      w.server.rotatedTo ident.fingerprint = none
  evicts : ∀ i p token k x k' x', act.op = .remember i → w.admitted[i]? = some p → p.token = some token →
    w.server.tables.tokens.get k = some x → w'.server.tables.tokens.get k = none →
    w'.server.tables.tokens.get k' = some x' → k' ≠ P.sha256 token.val →
    since act.env.now x'.2 < ttl ∧ x.2 ≤ x'.2
  device : ∀ device, act.op = .identityForDevice device →
    ((w.server.identityForDevice P cfg act.env device).1.isSome ↔
      ∃ v downstream, w.server.OnFile P device v downstream ∧
        v.cert.checkValid act.env.unix cfg.clockSkew = .ok () ∧
        ∃ ident, (w.server.admitted P cfg act.env v (.plain downstream) .readOnly).1 = .ok ident) ∧
    w.server.Fits cfg device

/-- Where a device is asked for, its expiry and the skew make no machine word overflow. -/
def FitsAt (w : World A) (act : Act A) : Prop :=
  ∀ device, act.op = .identityForDevice device → w.server.Fits cfg device

theorem step_admits {w : World A} (hw : w.Sound P) (hcounted : w.Counted) (act : Act A) :
    Admits cfg P w act (w.step P canonicalHost serverKey cfg act) ↔ FitsAt cfg w act := by
  constructor
  · intro h device hop
    exact (h.device device hop).2
  · intro hfits
    refine ⟨step_counted canonicalHost serverKey cfg hcounted act, ?_, ?_, fun device hop =>
      ⟨identityForDevice_iff cfg hw.server (hfits device hop), hfits device hop⟩⟩
    · intro token consume ident _ hredeem
      refine ⟨?_, redeem_notRotated hw.server hredeem⟩
      cases heq : w.server.redeem P act.env token consume with
      | mk r s' =>
        rw [heq] at hredeem
        obtain ⟨issued, -, -, hrevoked, -⟩ := redeem_eq_some (heq.trans (congrArg (·, s') hredeem))
        exact hrevoked
    · intro i p token k x k' x' hop hp htoken hk hout hk' hne
      have hstep : (w.step P canonicalHost serverKey cfg act).server.tables.tokens =
          rememberToken w.server.tables.tokens (P.sha256 token.val) p.ident act.env.now maxTokens := by
        unfold World.step
        rw [hop]
        dsimp only
        rw [hp]
        dsimp only
        unfold Server.remember
        rw [htoken]
        rfl
      rw [hstep] at hout hk'
      exact rememberToken_evicts hk hout hk' hne

theorem run_admits (acts : List (Act A)) {w : World A} (hw : w.Sound P) (hcounted : w.Counted) :
    (∀ pre act post, acts = pre ++ act :: post →
      Admits cfg P (w.run P canonicalHost serverKey cfg pre) act
        ((w.run P canonicalHost serverKey cfg pre).step P canonicalHost serverKey cfg act)) ↔
    ∀ pre act post, acts = pre ++ act :: post → FitsAt cfg (w.run P canonicalHost serverKey cfg pre) act := by
  have hreached : ∀ (pre : List (Act A)) {w : World A}, w.Sound P → w.Counted →
      (w.run P canonicalHost serverKey cfg pre).Sound P ∧ (w.run P canonicalHost serverKey cfg pre).Counted := by
    intro pre
    induction pre with
    | nil => exact fun hw hcounted => ⟨hw, hcounted⟩
    | cons act pre ih =>
      exact fun hw hcounted => ih (step_sound canonicalHost serverKey cfg hw act)
        (step_counted canonicalHost serverKey cfg hcounted act)
  refine forall₃_congr fun pre act post => imp_congr_right fun _ => ?_
  obtain ⟨hsound, hcounts⟩ := hreached pre hw hcounted
  exact step_admits canonicalHost serverKey cfg hsound hcounts act

/-- Challenges, tokens and devices on file hold exactly while they should, in every run in which no device
is asked for whose expiry and the skew overflow. -/
theorem admits_while_it_should (P : Primitives) (env : Env A) (anchors : Option Anchors) (refused : Refused)
    (accounts : A) (acts : List (Act A)) :
    (∀ pre act post, acts = pre ++ act :: post →
      Admits cfg P ((World.start env anchors refused accounts).run P canonicalHost serverKey cfg pre) act
        (((World.start env anchors refused accounts).run P canonicalHost serverKey cfg pre).step P canonicalHost
          serverKey cfg act)) ↔
    ∀ pre act post, acts = pre ++ act :: post →
      FitsAt cfg ((World.start env anchors refused accounts).run P canonicalHost serverKey cfg pre) act :=
  run_admits canonicalHost serverKey cfg acts (start_sound env anchors refused accounts)
    (start_counted P env anchors refused accounts)

open Trial in
/-- A device whose certificate never expires is on file, valid, and would be admitted; asked for, it is not. -/
theorem never_expires_refused :
    let acts : List (Act MemAuth.Accounts) := [
      ⟨outside none, .verifyPresented (cardBytes 5000 none) (certBytes never) device⟩,
      ⟨outside none, .admitLogin 0 (.plain .loopback) (Bytes.replicate 32 7)⟩, ⟨outside none, .remember 0⟩]
    let w := (World.start (outside none) (some ⟨.empty, .empty, true⟩) {}
      (Map.empty.set "alice" (account "alice" (some fingerprint) true))).run table.primitives some
      (Bytes.replicate 32 5) policy acts
    (w.server.tables.devices.get device).map (fun rec => (rec.cert, rec.identity)) =
      some (certBytes never, identity) ∧
    (w.server.cached fingerprint).map (·.bytes) = some (cardBytes 5000 none) ∧
    (cert never).checkValid 6000 policy.clockSkew = .ok () ∧
    ((w.server.admitted table.primitives policy (outside none) (verified 5000 none never) (.plain .loopback)
      .readOnly).1.toOption.map (·.account)) = some (some "alice") ∧
    (w.server.identityForDevice table.primitives policy (outside none) device).1 = none := by
  decide +kernel

end HxdNg.Admission
