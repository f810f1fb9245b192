import HxdNg.Admission.Filed
import HxdNg.Admission.Refusals

/-!
# A successor commitment held

* `Agrees` : the cached cards, the successors recorded for them, and the anchors say the same;
* `Meets` : a write does not carry what was checked past what is held now;
* `Held` : what a step does to a commitment held, and to a key rotated away from;
* `commitments_held` : every step of a run holds them just where every write of it meets the condition.
-/

namespace HxdNg.Admission

open Identity Assoc

variable {A : Type} (P : Primitives) (canonicalHost : String → Option String) (serverKey : PublicKey)
  (cfg : IdentityConfig)

/-- A cached card's bytes say the successor recorded for it, which is the one anchored; and no card says one
for a key rotated away from. -/
structure Agrees (s : Server A) : Prop where
  cached : ∀ fp e card, s.cached fp = some e → Card.parse P e.bytes = .ok card → card.successor = e.successor
  anchored : ∀ fp e x, s.cached fp = some e → s.anchored fp = some x → e.successor = some x
  rotated : ∀ fp y e, s.rotatedTo fp = some y → s.cached fp = some e → e.successor = none

/-! ## The condition -/

/-- The card says what is anchored; where its bytes are kept it says what the cache does, and where the
cached ones are it does not bring a commitment they lack. -/
structure Takes (s : Server A) (fp : Fingerprint) (card : Card) : Prop where
  anchored : ∀ x, s.anchored fp = some x → card.successor = some x
  newer : ∀ e, s.cached fp = some e → e.updated < card.updated →
    ∀ x, e.successor = some x → card.successor = some x
  older : ∀ e, s.cached fp = some e → card.updated ≤ e.updated → ∀ x, card.successor = some x →
    e.successor ≠ none

/-- Whether an anchor written for an identity is recorded. -/
def Server.records (s : Server A) (ident : TransportIdentity) : Bool :=
  (ident.account.isSome || ident.handle.isSome && ident.age ≥ cfg.minAttestationAge) &&
    s.anchors.any fun a => a.writable && (a.map.get ident.fingerprint).isNone && a.map.size < maxAnchors

/-- A write keeps to what is held as it is made: of a key not rotated away from, a card the anchor and the
cache allow, or a commitment the cached card says. -/
def Meets (w : World A) (act : Act A) : Prop :=
  match act.op with
  | .remember i => ∀ p, w.admitted[i]? = some p →
    w.server.rotatedTo p.ident.fingerprint = none ∧ Takes w.server p.ident.fingerprint p.card
  | .anchor i => ∀ ident x, w.anchoring[i]? = some (ident, x) → w.server.records cfg ident = true →
    w.server.rotatedTo ident.fingerprint = none ∧
      ∀ e, w.server.cached ident.fingerprint = some e → e.successor = some x
  | .replaceCard i => ∀ u, w.updates[i]? = some u →
    (∀ e, w.server.cached u.ident.fingerprint = some e → e.updated < u.card.updated) →
    (w.server.rotatedTo u.ident.fingerprint = none ∨ u.card.successor = none) ∧
      Takes w.server u.ident.fingerprint u.card
  | _ => True

/-! ## What a step holds -/

structure Held (w : World A) (act : Act A) (w' : World A) : Prop where
  anchored : ∀ fp x, w.server.anchored fp = some x → w'.server.anchored fp = some x
  admits : ∀ p ∈ w'.admitted, p ∈ w.admitted ∨ w.server.rotatedTo p.ident.fingerprint = none ∧
    ∀ x, w.server.anchored p.ident.fingerprint = some x → p.card.successor = some x
  updates : ∀ u ∈ w'.updates, u ∈ w.updates ∨
    ∀ x, w.server.anchored u.ident.fingerprint = some x → u.card.successor = some x
  remembers : ∀ i p, act.op = .remember i → w.admitted[i]? = some p →
    w.server.rotatedTo p.ident.fingerprint = none ∧
      ∀ x, w.server.anchored p.ident.fingerprint = some x → p.card.successor = some x
  replaces : ∀ i u, act.op = .replaceCard i → w.updates[i]? = some u →
    (w.server.replaceCard act.env u.ident u.card u.bytes).1 = true →
    ∀ x, w.server.anchored u.ident.fingerprint = some x → u.card.successor = some x
  rotated : ∀ fp y, w.server.rotatedTo fp = some y → w'.server.rotatedTo fp = some y
  accepted : ∀ fp y, w.server.rotatedTo fp = none → w'.server.rotatedTo fp = some y →
    ∀ x, w.server.anchored fp = some x → y = x
  redeems : ∀ token consume ident, act.op = .redeem token consume →
    (w.server.redeem P act.env token consume).1 = some ident → w.server.rotatedTo ident.fingerprint = none
  silent : ∀ fp y, w.server.rotatedTo fp = some y → w'.server.anchored fp = w.server.anchored fp
  agrees : Agrees P w'.server

/-! ## The cards -/

variable {P}

theorem Calm.agrees {s t : Server A} (h : Calm s t) (hs : Agrees P s) : Agrees P t where
  cached fp e card he := hs.cached fp e card (h.cached fp e he)
  anchored fp e x he hx := hs.anchored fp e x (h.cached fp e he) ((h.anchored fp).symm.trans hx)
  rotated fp y e hy he := by
    cases hrotated : s.rotatedTo fp with
    | none => exact absurd ((h.accepted fp y hrotated hy).1.symm.trans he) (by nofun)
    | some z => exact hs.rotated fp z e hrotated (h.cached fp e he)

theorem card_parse_nil : Card.parse P [] = .error (.cbor .truncated) := rfl

/-- A card written over a cached one: what the entry then says, and what its bytes do. -/
theorem refreshed_cases {s : Server A} (card : Card) (bytes : List UInt8) (seen : Instant) (hs : s.Sound P)
    {fp : Fingerprint} {e : CardRecord} (he : s.cached fp = some e) :
    e.updated < card.updated ∧ e.refreshed card bytes seen =
        ⟨card.updated, e.successor.or card.successor, bytes, seen⟩ ∨
      card.updated ≤ e.updated ∧ e.refreshed card bytes seen =
        { e with successor := e.successor.or card.successor, seen } := by
  obtain ⟨c, hparse, -⟩ := hs.cached fp e he
  have hne : e.bytes.isEmpty = false := by
    cases hbytes : e.bytes with
    | nil =>
      rw [hbytes, card_parse_nil] at hparse
      cases hparse
    | cons b bs => rfl
  unfold CardRecord.refreshed
  by_cases hnew : card.updated > e.updated
  · exact .inl ⟨hnew, if_pos (.inr hnew)⟩
  · refine .inr ⟨UInt64.not_lt.mp hnew, if_neg ?_⟩
    rw [hne]
    simpa using hnew

/-- The entry a card leaves for its identity. -/
def written (s : Server A) (fp : Fingerprint) (card : Card) (bytes : List UInt8) (seen : Instant) : CardRecord :=
  ((s.cached fp).getD ⟨0, none, [], seen⟩).refreshed card bytes seen

theorem cached_remember {s t : Server A} {fp : Fingerprint} {card : Card} {bytes : List UInt8} {seen : Instant}
    (ht : t.tables.cards = rememberCard s.tables.cards fp card bytes seen) :
    t.cached fp = some (written s fp card bytes seen) := by
  rw [Server.cached, ht, rememberCard_self]
  rfl

theorem write_agrees {s t : Server A} (hs : s.Sound P) (hagrees : Agrees P s) (hanchors : t.anchors = s.anchors)
    {fp : Fingerprint} {card : Card} {bytes : List UInt8} {seen : Instant}
    (ht : t.tables.cards = rememberCard s.tables.cards fp card bytes seen) (hcard : CardOf P bytes fp card)
    (hfree : s.rotatedTo fp = none ∨ card.successor = none) (htakes : Takes s fp card) : Agrees P t := by
  have hanchored : ∀ fp, t.anchored fp = s.anchored fp := fun fp => by rw [Server.anchored, hanchors]; rfl
  have hrotated : ∀ fp, t.rotatedTo fp = s.rotatedTo fp := fun fp => by rw [Server.rotatedTo, hanchors]; rfl
  have hcases : ∀ fp' e, t.cached fp' = some e →
      fp' = fp ∧ e = written s fp card bytes seen ∨ fp' ≠ fp ∧ s.cached fp' = some e := by
    intro fp' e he
    rw [Server.cached, ht] at he
    exact rememberCard_get he
  -- What is written says the card's successor with its bytes, or the cached one's with theirs.
  have hwritten : (∀ c, Card.parse P (written s fp card bytes seen).bytes = .ok c →
        c.successor = (written s fp card bytes seen).successor) ∧
      (∀ x, s.anchored fp = some x → (written s fp card bytes seen).successor = some x) ∧
      ∀ y, s.rotatedTo fp = some y → (written s fp card bytes seen).successor = none := by
    have hown : ∀ y, s.rotatedTo fp = some y → card.successor = none := fun y hy =>
      hfree.resolve_left fun h => by cases h.symm.trans hy
    cases hcached : s.cached fp with
    | none =>
      have hnew : written s fp card bytes seen = ⟨card.updated, card.successor, bytes, seen⟩ := by
        rw [written, hcached]
        rfl
      rw [hnew]
      refine ⟨fun c hc => ?_, htakes.anchored, hown⟩
      obtain rfl := Except.ok.inj (hcard.1.symm.trans hc)
      rfl
    | some e =>
      rcases refreshed_cases card bytes seen hs hcached with ⟨hnewer, hnew⟩ | ⟨holder, hnew⟩
      · have hor : e.successor.or card.successor = card.successor := by
          cases hsucc : e.successor with
          | none => rfl
          | some x => exact (htakes.newer e hcached hnewer x hsucc).symm
        have hnew : written s fp card bytes seen = ⟨card.updated, card.successor, bytes, seen⟩ := by
          rw [written, hcached, Option.getD_some, hnew, hor]
        rw [hnew]
        refine ⟨fun c hc => ?_, htakes.anchored, hown⟩
        obtain rfl := Except.ok.inj (hcard.1.symm.trans hc)
        rfl
      · have hor : e.successor.or card.successor = e.successor := by
          cases hsucc : e.successor with
          | none =>
            cases hsucc' : card.successor with
            | none => rfl
            | some x => exact absurd hsucc (htakes.older e hcached holder x hsucc')
          | some x => rfl
        have hnew : written s fp card bytes seen = { e with seen } := by
          rw [written, hcached, Option.getD_some, hnew, hor]
        rw [hnew]
        exact ⟨fun c hc => hagrees.cached fp e c hcached hc, fun x hx => hagrees.anchored fp e x hcached hx,
          fun y hy => hagrees.rotated fp y e hy hcached⟩
  constructor
  · intro fp' e c he hc
    rcases hcases fp' e he with ⟨rfl, rfl⟩ | ⟨-, he⟩
    · exact hwritten.1 c hc
    · exact hagrees.cached fp' e c he hc
  · intro fp' e x he hx
    rw [hanchored] at hx
    rcases hcases fp' e he with ⟨rfl, rfl⟩ | ⟨-, he⟩
    · exact hwritten.2.1 x hx
    · exact hagrees.anchored fp' e x he hx
  · intro fp' y e hy he
    rw [hrotated] at hy
    rcases hcases fp' e he with ⟨rfl, rfl⟩ | ⟨-, he⟩
    · exact hwritten.2.2 y hy
    · exact hagrees.rotated fp' y e hy he

theorem takes_of_agrees {s t : Server A} (hs : s.Sound P) (hagrees : Agrees P s) {fp : Fingerprint}
    {card : Card} {bytes : List UInt8} {seen : Instant}
    (ht : t.tables.cards = rememberCard s.tables.cards fp card bytes seen) (hcard : CardOf P bytes fp card)
    (hanchored : ∀ x, s.anchored fp = some x → card.successor = some x) (hafter : Agrees P t) :
    Takes s fp card := by
  have hwritten := cached_remember ht
  refine ⟨hanchored, fun e he hnewer x hx => ?_, fun e he holder x hx hnone => ?_⟩
  · rcases refreshed_cases card bytes seen hs he with ⟨-, hnew⟩ | ⟨holder, -⟩
    · rw [written, he, Option.getD_some, hnew, hx] at hwritten
      exact hafter.cached fp _ card hwritten hcard.1
    · exact absurd hnewer (UInt64.not_lt.mpr holder)
  · rcases refreshed_cases card bytes seen hs he with ⟨hnewer, -⟩ | ⟨-, hnew⟩
    · exact absurd hnewer (UInt64.not_lt.mpr holder)
    · rw [written, he, Option.getD_some, hnew, hx, hnone] at hwritten
      obtain ⟨c, hc⟩ := hs.cached fp e he
      have hkept : c.successor = none := (hagrees.cached fp e c he hc.1).trans hnone
      cases hkept.symm.trans (hafter.cached fp _ c hwritten hc.1)

/-! ## The anchor -/

theorem anchor_anchored (s : Server A) (ident : TransportIdentity) (x : Bytes 32) (fp : Fingerprint) :
    (s.anchor cfg ident x).anchored fp =
      if fp = ident.fingerprint ∧ s.records cfg ident = true then some x else s.anchored fp := by
  unfold Server.anchor Server.records Server.anchored
  cases hanchors : s.anchors with
  | none => simp [hanchors]
  | some a =>
    dsimp only
    by_cases hstanding : ident.account.isSome ∨
        (ident.handle.isSome && decide (ident.age ≥ cfg.minAttestationAge)) = true
    · rw [if_pos hstanding]
      have hstanding' : (ident.account.isSome ||
          ident.handle.isSome && decide (ident.age ≥ cfg.minAttestationAge)) = true := by
        rcases hstanding with h | h
        · rw [h, Bool.true_or]
        · rw [h, Bool.or_true]
      simp only [hstanding', Bool.true_and, Option.any_some, Option.bind_some, Anchors.commit, Anchors.get]
      by_cases hwritable : a.writable = true
      · by_cases hfree : (a.map.get ident.fingerprint).isSome
        · have hnone : (a.map.get ident.fingerprint).isNone = false := by
            rw [Option.isNone_eq_false_iff]
            exact hfree
          simp [hwritable, hfree, hnone]
        · have hnone := Option.not_isSome_iff_eq_none.mp hfree
          by_cases hroom : a.map.size ≥ maxAnchors
          · simp [hwritable, hnone, hroom, Nat.not_lt.mpr hroom]
          · simp [hwritable, hnone, hroom, Nat.not_le.mp hroom, Map.get_set]
      · simp [hwritable]
    · rw [if_neg hstanding, hanchors]
      rw [not_or] at hstanding
      simp [hstanding.1, hstanding.2]

theorem unanchored_of_records {s : Server A} {ident : TransportIdentity} (h : s.records cfg ident = true) :
    s.anchored ident.fingerprint = none := by
  unfold Server.records at h
  unfold Server.anchored
  cases hanchors : s.anchors with
  | none => rfl
  | some a =>
    simp only [hanchors, Option.any_some, Bool.and_eq_true] at h
    exact Option.isNone_iff_eq_none.mp h.2.1.2

/-! ## Steps -/

theorem check_admitted {w : World A} {card : Card} {cardBytes : List UInt8} {token : Option (Bytes 32)}
    {downstream : Downstream} {r : Except AuthRefused TransportIdentity × Server A} {p : Pending}
    (h : p ∈ (w.check card cardBytes token downstream r).admitted) :
    p ∈ w.admitted ∨ ∃ ident, r.1 = .ok ident ∧ p = ⟨ident, token, card, cardBytes, downstream⟩ := by
  obtain ⟨_ | ident, server⟩ := r
  · exact .inl h
  · exact (List.mem_cons.mp h).symm.imp_right fun hp => ⟨ident, rfl, hp⟩

theorem check_updates {w : World A} {card : Card} {cardBytes : List UInt8} {token : Option (Bytes 32)}
    {downstream : Downstream} {r : Except AuthRefused TransportIdentity × Server A} :
    (w.check card cardBytes token downstream r).updates = w.updates := by
  obtain ⟨_ | ident, server⟩ := r <;> rfl

/-- A check passed is of a key not rotated away from, with the card anchored. -/
theorem Passed.admits {env : Env A} {card : Card} {cert : DeviceCert} {certBytes : List UInt8}
    {rotation : Option (List UInt8)} {s t s' : Server A} {ident : TransportIdentity}
    (h : Passed P env card cert certBytes rotation s t s' ident) :
    s.rotatedTo ident.fingerprint = none ∧
      ∀ x, s.anchored ident.fingerprint = some x → card.successor = some x := by
  rw [h.fingerprint]
  refine ⟨h.notRotated, fun x hx => ?_⟩
  have hcommitted := h.committed
  rw [committedSuccessor_of_anchored ((h.turns.calm.anchored _).trans hx)] at hcommitted
  simpa [successorChanged] using hcommitted

/-- What a step checks passes with the card anchored, of a key not rotated away from. -/
theorem step_admitted (w : World A) (act : Act A) :
    ∀ p ∈ (w.step P canonicalHost serverKey cfg act).admitted, p ∈ w.admitted ∨
      w.server.rotatedTo p.ident.fingerprint = none ∧
        ∀ x, w.server.anchored p.ident.fingerprint = some x → p.card.successor = some x := by
  intro p hp
  obtain ⟨env, op⟩ := act
  unfold World.step at hp
  cases op with
  | admitLogin i req drawn =>
    dsimp only at hp
    split at hp
    · exact .inl hp
    · refine (check_admitted hp).imp_right fun ⟨ident, hok, heq⟩ => ?_
      obtain ⟨t, ht⟩ := admitted_passed cfg hok
      rw [heq]
      exact ht.admits
  | admitDevice i login cardShown encrypted =>
    dsimp only at hp
    split at hp
    · exact .inl hp
    · refine (check_admitted hp).imp_right fun ⟨ident, hok, heq⟩ => ?_
      obtain ⟨t, ht⟩ := deviceAdmitted_passed cfg hok
      rw [heq]
      exact ht.admits
  | identityForDevice device =>
    dsimp only at hp
    split at hp
    · exact .inl hp
    · refine (check_admitted hp).imp_right fun ⟨ident, hok, heq⟩ => ?_
      obtain ⟨t, ht⟩ := admitted_passed cfg hok
      rw [heq]
      exact ht.admits
  | remember i =>
    dsimp only at hp
    split at hp
    · exact .inl hp
    · exact .inl (List.mem_of_mem_eraseIdx hp)
  | checkCard i bytes =>
    dsimp only at hp
    split at hp
    · exact .inl hp
    · split at hp <;> exact .inl hp
  | replaceCard i =>
    dsimp only at hp
    split at hp
    · exact .inl hp
    · split at hp <;> exact .inl hp
  | _ =>
    dsimp only at hp
    first
      | exact .inl hp
      | split at hp <;> exact .inl hp

theorem step_updates (w : World A) (act : Act A) :
    ∀ u ∈ (w.step P canonicalHost serverKey cfg act).updates, u ∈ w.updates ∨
      ∀ x, w.server.anchored u.ident.fingerprint = some x → u.card.successor = some x := by
  intro u hu
  obtain ⟨env, op⟩ := act
  unfold World.step at hu
  cases op with
  | checkCard i bytes =>
    dsimp only at hu
    split at hu
    · exact .inl hu
    split at hu
    · exact .inl hu
    next card hcard =>
    refine (List.mem_cons.mp hu).symm.imp_right fun heq x hx => ?_
    subst heq
    obtain ⟨-, -, hcommitted⟩ := cardChecked_eq_ok hcard
    rw [committedSuccessor_of_anchored hx] at hcommitted
    simpa [successorChanged] using hcommitted
  | replaceCard i =>
    dsimp only at hu
    split at hu
    · exact .inl hu
    · split at hu <;> exact .inl (List.mem_of_mem_eraseIdx hu)
  | admitLogin i req drawn =>
    dsimp only at hu
    split at hu
    · exact .inl hu
    · rw [check_updates] at hu
      exact .inl hu
  | admitDevice i login cardShown encrypted =>
    dsimp only at hu
    split at hu
    · exact .inl hu
    · rw [check_updates] at hu
      exact .inl hu
  | identityForDevice device =>
    dsimp only at hu
    split at hu
    · exact .inl hu
    · rw [check_updates] at hu
      exact .inl hu
  | _ =>
    dsimp only at hu
    first
      | exact .inl hu
      | split at hu <;> exact .inl hu

/-- Every step but the writes holds a commitment, whatever it is given. -/
theorem held_of_calm {w : World A} (hw : w.Sound P) (hagrees : Agrees P w.server) (act : Act A)
    (h : ¬ act.op.Writes) : Held P w act (w.step P canonicalHost serverKey cfg act) := by
  have hcalm := step_calm P canonicalHost serverKey cfg w act h
  refine ⟨fun fp x hx => (hcalm.anchored fp).trans hx, step_admitted canonicalHost serverKey cfg w act,
    step_updates canonicalHost serverKey cfg w act, fun i p hop _ => ?_, fun i u hop _ _ => ?_, hcalm.rotated,
    fun fp y hs ht => (hcalm.accepted fp y hs ht).2.2, fun token consume ident _ => redeem_notRotated hw.server,
    fun fp _ _ => hcalm.anchored fp, hcalm.agrees hagrees⟩
  · rw [hop] at h
    exact absurd trivial h
  · rw [hop] at h
    exact absurd trivial h

/-- A step that writes no anchor holds what is held where its cards agree and its writes carry what is. -/
theorem held_of_anchors {w w' : World A} {act : Act A} (hanchors : w'.server.anchors = w.server.anchors)
    (hop : act.op.Writes)
    (hadmits : ∀ p ∈ w'.admitted, p ∈ w.admitted ∨ w.server.rotatedTo p.ident.fingerprint = none ∧
      ∀ x, w.server.anchored p.ident.fingerprint = some x → p.card.successor = some x)
    (hupdates : ∀ u ∈ w'.updates, u ∈ w.updates ∨
      ∀ x, w.server.anchored u.ident.fingerprint = some x → u.card.successor = some x)
    (hremembers : ∀ i p, act.op = .remember i → w.admitted[i]? = some p →
      w.server.rotatedTo p.ident.fingerprint = none ∧
        ∀ x, w.server.anchored p.ident.fingerprint = some x → p.card.successor = some x)
    (hreplaces : ∀ i u, act.op = .replaceCard i → w.updates[i]? = some u →
      (w.server.replaceCard act.env u.ident u.card u.bytes).1 = true →
      ∀ x, w.server.anchored u.ident.fingerprint = some x → u.card.successor = some x)
    (hagrees : Agrees P w'.server) : Held P w act w' := by
  have hanchored : ∀ fp, w'.server.anchored fp = w.server.anchored fp := fun fp => by
    rw [Server.anchored, hanchors]
    rfl
  have hrotated : ∀ fp, w'.server.rotatedTo fp = w.server.rotatedTo fp := fun fp => by
    rw [Server.rotatedTo, hanchors]
    rfl
  refine ⟨fun fp x h => (hanchored fp).trans h, hadmits, hupdates, hremembers, hreplaces,
    fun fp y h => (hrotated fp).trans h, fun fp y h h' => ?_, fun token consume ident h => ?_,
    fun fp _ _ => hanchored fp, hagrees⟩
  · rw [hrotated] at h'
    cases h.symm.trans h'
  · rw [h] at hop
    exact hop.elim

section Writes
variable {w : World A} (hw : w.Sound P) (hagrees : Agrees P w.server) (env : Env A)
include hw hagrees

theorem remember_held (i : Nat) :
    Held P w ⟨env, .remember i⟩ (w.step P canonicalHost serverKey cfg ⟨env, .remember i⟩) ↔
      Meets cfg w ⟨env, .remember i⟩ := by
  have hadmits := step_admitted (P := P) canonicalHost serverKey cfg w ⟨env, .remember i⟩
  have hupdates := step_updates (P := P) canonicalHost serverKey cfg w ⟨env, .remember i⟩
  cases hp : w.admitted[i]? with
  | none =>
    have hstep : w.step P canonicalHost serverKey cfg ⟨env, .remember i⟩ = w := by
      unfold World.step
      simp only [hp]
    have hmeets : Meets cfg w ⟨env, .remember i⟩ := fun p hp' => by cases hp.symm.trans hp'
    refine iff_of_true (held_of_anchors (by rw [hstep]) trivial hadmits hupdates (fun j q hj hq => ?_) (fun _ _ h => by cases h)
      (by rwa [hstep])) hmeets
    obtain rfl := Op.remember.inj hj
    cases hp.symm.trans hq
  | some p =>
    have hpending := hw.admitted p (List.mem_of_getElem? hp)
    have hstep : (w.step P canonicalHost serverKey cfg ⟨env, .remember i⟩).server =
        w.server.remember P env p.ident p.token p.card p.cardBytes p.downstream := by
      unfold World.step
      simp only [hp]
    constructor
    · intro hheld q hq
      obtain rfl := Option.some.inj (hp.symm.trans hq)
      obtain ⟨hfree, hanchored⟩ := hheld.remembers i p rfl hp
      have hafter := hheld.agrees
      rw [hstep] at hafter
      exact ⟨hfree, takes_of_agrees hw.server hagrees rfl hpending.card hanchored hafter⟩
    · intro hmeets
      obtain ⟨hfree, htakes⟩ := hmeets p hp
      refine held_of_anchors (by rw [hstep]; rfl) trivial hadmits hupdates (fun j q hj hq => ?_) (fun _ _ h => by cases h) ?_
      · obtain rfl := Op.remember.inj hj
        obtain rfl := Option.some.inj (hp.symm.trans hq)
        exact ⟨hfree, htakes.anchored⟩
      · rw [hstep]
        exact write_agrees hw.server hagrees rfl rfl hpending.card (.inl hfree) htakes

theorem replaceCard_held (i : Nat) :
    Held P w ⟨env, .replaceCard i⟩ (w.step P canonicalHost serverKey cfg ⟨env, .replaceCard i⟩) ↔
      Meets cfg w ⟨env, .replaceCard i⟩ := by
  have hadmits := step_admitted (P := P) canonicalHost serverKey cfg w ⟨env, .replaceCard i⟩
  have hupdates := step_updates (P := P) canonicalHost serverKey cfg w ⟨env, .replaceCard i⟩
  cases hu : w.updates[i]? with
  | none =>
    have hstep : w.step P canonicalHost serverKey cfg ⟨env, .replaceCard i⟩ = w := by
      unfold World.step
      simp only [hu]
    have hmeets : Meets cfg w ⟨env, .replaceCard i⟩ := fun u hu' => by cases hu.symm.trans hu'
    refine iff_of_true (held_of_anchors (by rw [hstep]) trivial hadmits hupdates (fun _ _ h => by cases h)
      (fun j v hj hv => ?_) (by rwa [hstep])) hmeets
    obtain rfl := Op.replaceCard.inj hj
    cases hu.symm.trans hv
  | some u =>
    have hupdate := hw.updates u (List.mem_of_getElem? hu)
    rcases replaceCard_cases env w.server u.ident u.card u.bytes with hsame | ⟨hnewer, hset⟩
    · have hstep : (w.step P canonicalHost serverKey cfg ⟨env, .replaceCard i⟩).server = w.server := by
        unfold World.step
        simp only [hu, hsame]
      have hmeets : Meets cfg w ⟨env, .replaceCard i⟩ := by
        intro v hv hnewer
        obtain rfl := Option.some.inj (hu.symm.trans hv)
        unfold Server.replaceCard at hsame
        rw [if_neg] at hsame
        · cases (Prod.mk.inj hsame).1
        · cases hcached : w.server.tables.cards.get u.ident.fingerprint with
          | none => simp
          | some e => simpa using hnewer e hcached
      refine iff_of_true (held_of_anchors (by rw [hstep]) trivial hadmits hupdates (fun _ _ h => by cases h)
        (fun j v hj hv hdone => ?_) (by rwa [hstep])) hmeets
      obtain rfl := Op.replaceCard.inj hj
      obtain rfl := Option.some.inj (hu.symm.trans hv)
      rw [hsame] at hdone
      cases hdone
    · have hstep : (w.step P canonicalHost serverKey cfg ⟨env, .replaceCard i⟩).server = { w.server with
          tables := { w.server.tables with
            cards := rememberCard w.server.tables.cards u.ident.fingerprint u.card u.bytes env.now } } := by
        unfold World.step
        simp only [hu, hset]
      constructor
      · intro hheld v hv _
        obtain rfl := Option.some.inj (hu.symm.trans hv)
        have hanchored := hheld.replaces i u rfl hu (by rw [hset])
        have hafter := hheld.agrees
        rw [hstep] at hafter
        refine ⟨?_, takes_of_agrees hw.server hagrees rfl hupdate hanchored hafter⟩
        cases hrotated : w.server.rotatedTo u.ident.fingerprint with
        | none => exact .inl rfl
        | some y =>
          -- What the cache says after the write is nothing, so neither does the card.
          right
          have hsilent := hafter.rotated u.ident.fingerprint y _ hrotated (cached_remember rfl)
          unfold written CardRecord.refreshed at hsilent
          have hor := (Option.or_eq_none_iff).mp (by split at hsilent <;> exact hsilent)
          exact hor.2
      · intro hmeets
        obtain ⟨hfree, htakes⟩ := hmeets u hu hnewer
        refine held_of_anchors (by rw [hstep]) trivial hadmits hupdates (fun _ _ h => by cases h) (fun j v hj hv _ => ?_) ?_
        · obtain rfl := Op.replaceCard.inj hj
          obtain rfl := Option.some.inj (hu.symm.trans hv)
          exact htakes.anchored
        · rw [hstep]
          exact write_agrees hw.server hagrees rfl rfl hupdate hfree htakes

omit hw in
theorem anchor_held (i : Nat) :
    Held P w ⟨env, .anchor i⟩ (w.step P canonicalHost serverKey cfg ⟨env, .anchor i⟩) ↔
      Meets cfg w ⟨env, .anchor i⟩ := by
  have hadmits := step_admitted (P := P) canonicalHost serverKey cfg w ⟨env, .anchor i⟩
  have hupdates := step_updates (P := P) canonicalHost serverKey cfg w ⟨env, .anchor i⟩
  cases hx : w.anchoring[i]? with
  | none =>
    have hstep : w.step P canonicalHost serverKey cfg ⟨env, .anchor i⟩ = w := by
      unfold World.step
      simp only [hx]
    have hmeets : Meets cfg w ⟨env, .anchor i⟩ := fun ident x h => by cases hx.symm.trans h
    exact iff_of_true (held_of_anchors (by rw [hstep]) trivial hadmits hupdates (fun _ _ h => by cases h)
      (fun _ _ h => by cases h) (by rwa [hstep])) hmeets
  | some entry =>
    obtain ⟨ident, x⟩ := entry
    have hstep : (w.step P canonicalHost serverKey cfg ⟨env, .anchor i⟩).server =
        w.server.anchor cfg ident x := by
      unfold World.step
      simp only [hx]
    have hcached : ∀ fp, (w.server.anchor cfg ident x).cached fp = w.server.cached fp := fun fp => by
      rw [Server.cached, (anchor_fields cfg w.server ident x).1]
      rfl
    constructor
    · intro hheld ident' x' h hrecords
      obtain ⟨rfl, rfl⟩ := Prod.mk.inj (Option.some.inj (hx.symm.trans h))
      have hafter := hheld.agrees
      have hnow := anchor_anchored cfg w.server ident x ident.fingerprint
      rw [if_pos ⟨rfl, hrecords⟩] at hnow
      rw [hstep] at hafter
      refine ⟨?_, fun e he => hafter.anchored _ e x ((hcached _).trans he) hnow⟩
      cases hrotated : w.server.rotatedTo ident.fingerprint with
      | none => rfl
      | some y =>
        have hsilent := hheld.silent _ y hrotated
        rw [hstep, hnow, unanchored_of_records cfg hrecords] at hsilent
        cases hsilent
    · intro hmeets
      have hanchored : ∀ fp y, w.server.anchored fp = some y →
          (w.server.anchor cfg ident x).anchored fp = some y := by
        intro fp y hy
        rw [anchor_anchored, if_neg]
        · exact hy
        · rintro ⟨rfl, hrecords⟩
          cases (unanchored_of_records cfg hrecords).symm.trans hy
      refine ⟨fun fp y hy => ?_, hadmits, hupdates, (fun _ _ h => by cases h), (fun _ _ h => by cases h),
        fun fp y hy => ?_, fun fp y hs ht => ?_, (fun _ _ _ h => by cases h), fun fp y hy => ?_, ?_⟩
      · rw [hstep]
        exact hanchored fp y hy
      · rw [hstep, anchor_rotatedTo]
        exact hy
      · rw [hstep, anchor_rotatedTo] at ht
        cases hs.symm.trans ht
      · rw [hstep, anchor_anchored, if_neg]
        rintro ⟨rfl, hrecords⟩
        cases (hmeets ident x hx hrecords).1.symm.trans hy
      · rw [hstep]
        constructor
        · intro fp e card he
          exact hagrees.cached fp e card ((hcached fp).symm.trans he)
        · intro fp e y he hy
          rw [hcached] at he
          rw [anchor_anchored] at hy
          split at hy
          · next hnew =>
            obtain ⟨rfl, hrecords⟩ := hnew
            rw [← Option.some.inj hy]
            exact (hmeets ident x hx hrecords).2 e he
          · exact hagrees.anchored fp e y he hy
        · intro fp y e hy he
          rw [anchor_rotatedTo] at hy
          exact hagrees.rotated fp y e hy ((hcached fp).symm.trans he)

/-- Every step holds what is held just where its write, if it is one, meets the condition. -/
theorem step_held (op : Op A) :
    Held P w ⟨env, op⟩ (w.step P canonicalHost serverKey cfg ⟨env, op⟩) ↔ Meets cfg w ⟨env, op⟩ := by
  by_cases hwrites : op.Writes
  · cases op with
    | remember i => exact remember_held canonicalHost serverKey cfg hw hagrees env i
    | anchor i => exact anchor_held canonicalHost serverKey cfg hagrees env i
    | replaceCard i => exact replaceCard_held canonicalHost serverKey cfg hw hagrees env i
    | _ => exact hwrites.elim
  · refine iff_of_true (held_of_calm canonicalHost serverKey cfg hw hagrees ⟨env, op⟩ hwrites) ?_
    unfold Meets
    cases op with
    | remember i => exact absurd trivial hwrites
    | anchor i => exact absurd trivial hwrites
    | replaceCard i => exact absurd trivial hwrites
    | _ => trivial

end Writes

/-! ## Runs -/

theorem agrees_of_empty {s : Server A} (htables : s.tables = {}) : Agrees P s := by
  have hnone : ∀ fp, s.cached fp = none := fun fp => by
    rw [Server.cached, htables]
    rfl
  refine ⟨fun fp e card he => ?_, fun fp e x he => ?_, fun fp y e _ he => ?_⟩ <;> cases (hnone fp).symm.trans he

theorem start_agrees (env : Env A) (anchors : Option Anchors) (refused : Refused) (accounts : A) :
    Agrees P (World.start env anchors refused accounts).server :=
  (finishRotations_calm P env _ none).agrees (agrees_of_empty rfl)

theorem run_held (acts : List (Act A)) {w : World A} (hw : w.Sound P) (hagrees : Agrees P w.server) :
    (∀ pre act post, acts = pre ++ act :: post →
      Held P (w.run P canonicalHost serverKey cfg pre) act
        ((w.run P canonicalHost serverKey cfg pre).step P canonicalHost serverKey cfg act)) ↔
    ∀ pre act post, acts = pre ++ act :: post → Meets cfg (w.run P canonicalHost serverKey cfg pre) act := by
  induction acts generalizing w with
  | nil => exact iff_of_true (by simp) (by simp)
  | cons act acts ih =>
    have hhead := step_held canonicalHost serverKey cfg hw hagrees act.env act.op
    -- Each side is a fact of the first step, and the same of the rest.
    have hsplit : ∀ {F : World A → Act A → Prop},
        (∀ pre act' post, act :: acts = pre ++ act' :: post → F (w.run P canonicalHost serverKey cfg pre) act') ↔
        F w act ∧ ∀ pre act' post, acts = pre ++ act' :: post →
          F ((w.step P canonicalHost serverKey cfg act).run P canonicalHost serverKey cfg pre) act' := by
      intro F
      constructor
      · intro h
        refine ⟨h [] act acts rfl, fun pre act' post heq => h (act :: pre) act' post ?_⟩
        rw [heq]
        rfl
      · rintro ⟨hfirst, hrest⟩ pre act' post heq
        cases pre with
        | nil =>
          obtain ⟨rfl, -⟩ := List.cons.inj heq
          exact hfirst
        | cons b pre =>
          obtain ⟨rfl, hacts⟩ := List.cons.inj heq
          exact hrest pre act' post hacts
    have hheldSplit := hsplit (F := fun w act => Held P w act (w.step P canonicalHost serverKey cfg act))
    have hmeetsSplit := hsplit (F := fun w act => Meets cfg w act)
    rw [hheldSplit, hmeetsSplit, hhead]
    refine and_congr_right fun hmeets => ?_
    exact ih (step_sound canonicalHost serverKey cfg hw act) (hhead.mpr hmeets).agrees

/-- A commitment once held is not moved, and a key rotated away from is not taken again, by any step of a run
just where every write of it keeps to what is held as it is made. -/
theorem commitments_held (P : Primitives) (env : Env A) (anchors : Option Anchors) (refused : Refused)
    (accounts : A) (acts : List (Act A)) :
    (∀ pre act post, acts = pre ++ act :: post →
      Held P ((World.start env anchors refused accounts).run P canonicalHost serverKey cfg pre) act
        (((World.start env anchors refused accounts).run P canonicalHost serverKey cfg pre).step P canonicalHost
          serverKey cfg act)) ↔
    ∀ pre act post, acts = pre ++ act :: post →
      Meets cfg ((World.start env anchors refused accounts).run P canonicalHost serverKey cfg pre) act :=
  run_held canonicalHost serverKey cfg acts (start_sound env anchors refused accounts)
    (start_agrees env anchors refused accounts)

open Trial in
/-- Alice's card of 5000 is cached, and says no successor. Her card of 3000 then says one: the cache and the
anchor take it, and the bytes served stay those of 5000. -/
theorem commitment_without_bytes :
    let acts : List (Act MemAuth.Accounts) := [
      ⟨outside none, .verifyPresented (cardBytes 5000 none) (certBytes 1000000) device⟩,
      ⟨outside none, .admitLogin 0 (.plain .loopback) (Bytes.replicate 32 7)⟩, ⟨outside none, .remember 0⟩,
      ⟨outside none, .verifyPresented (cardBytes 3000 (some successor)) (certBytes 1000000) device⟩,
      ⟨outside none, .admitLogin 0 (.plain .loopback) (Bytes.replicate 32 8)⟩, ⟨outside none, .remember 0⟩,
      ⟨outside none, .anchor 0⟩]
    let w := (World.start (outside none) (some ⟨.empty, .empty, true⟩) {}
      (Map.empty.set "alice" (account "alice" (some fingerprint) true))).run table.primitives some
      (Bytes.replicate 32 5) policy acts
    w.server.anchored fingerprint = some successor ∧
      (w.server.cached fingerprint).map (fun e => (e.successor, e.bytes)) =
        some (some successor, cardBytes 5000 none) ∧
      Card.parse table.primitives (cardBytes 5000 none) = .ok (card 5000 none) := by
  decide +kernel

end HxdNg.Admission
