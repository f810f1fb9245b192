import HxdNg.Lib.Results
import HxdNg.Identity.Friendship

/-!
# What a withdrawal ends

* `Withdrawal.check` : all six steps in order, and `parse` with `Kept.checkPair` in two parts;
* `Friendship.checkHeld` : a friendship against the withdrawals held;
* `same_endings` : the two ways hold the same withdrawals, and a friendship stands where none of those
  held ends a half of it.
-/

namespace HxdNg.Identity

open Friend

variable (P : Primitives)

/-- All six steps, in order. -/
def Withdrawal.check (bytes : List UInt8) (now : UInt64) (pair : Pair) (rotations : List Rotation) :
    Except Refused Held := do
  let (w, env) ← openTimed P bytes now
  w.pairRules P pair rotations
  w.verify P env
  return ⟨w⟩

namespace Friendship

/-- Whether `w` ends this friendship. -/
def endedBy (f : Friendship) (w : Held) : Bool := f.cutBy P (w.cutoff P)

/-- The whole check, its last step against the withdrawals held. -/
def checkHeld (bytes : List UInt8) (now : UInt64) (held : List Held) : Except Refused Friendship := do
  let f ← check P bytes now
  if held.any fun w => f.endedBy P w then throw ⟨6, .withdrawn⟩
  else return f

/-- `w` is for this pair, and the half by its party is dated before its cutoff. -/
def EndedBy (f : Friendship) (w : Held) : Prop :=
  w.withdrawal.pair = (f.pair P).hash P ∧
    ((w.withdrawal.effectiveParty P = f.offer.offerer P ∧ f.offer.time < w.withdrawal.before) ∨
      (w.withdrawal.effectiveParty P = f.offer.toFp ∧ f.acceptance.time < w.withdrawal.before))

end Friendship

variable {P}

/-- Whether the pair is checked before the signatures or after them makes no difference to what is held. -/
theorem Withdrawal.check_eq_ok {bytes : List UInt8} {now : UInt64} {pair : Pair} {rotations : List Rotation}
    {h : Held} : check P bytes now pair rotations = .ok h ↔
      ∃ k, parse P bytes now = .ok k ∧ k.checkPair P pair rotations = .ok h := by
  simp only [check, parse, Kept.checkPair, bind_eq_ok, pure_eq_ok]
  constructor
  · rintro ⟨⟨w, env⟩, hopen, u, hrules, u', hverify, rfl⟩
    exact ⟨⟨w⟩, ⟨(w, env), hopen, u', hverify, rfl⟩, u, hrules, rfl⟩
  · rintro ⟨k, ⟨⟨w, env⟩, hopen, u', hverify, rfl⟩, u, hrules, rfl⟩
    exact ⟨(w, env), hopen, u, hrules, u', hverify, rfl⟩

namespace Friendship

theorem ends_iff {c : Cutoff} {pair : Pair} {party : Fingerprint} {time : UInt64} :
    c.ends P pair party time = true ↔ c.pair = pair.hash P ∧ c.party = party ∧ time < c.before :=
  decide_eq_true_iff

theorem endedBy_iff {f : Friendship} {w : Held} : f.endedBy P w = true ↔ f.EndedBy P w := by
  unfold endedBy cutBy EndedBy
  rw [Bool.or_eq_true, ends_iff, ends_iff]
  constructor
  · rintro (⟨hpair, hparty, hlt⟩ | ⟨hpair, hparty, hlt⟩)
    · exact ⟨hpair, .inl ⟨hparty, hlt⟩⟩
    · exact ⟨hpair, .inr ⟨hparty, hlt⟩⟩
  · rintro ⟨hpair, ⟨hparty, hlt⟩ | ⟨hparty, hlt⟩⟩
    · exact .inl ⟨hpair, hparty, hlt⟩
    · exact .inr ⟨hpair, hparty, hlt⟩

variable {bytes : List UInt8} {now : UInt64} {f : Friendship} {held held' : List Held}

theorem any_endedBy : (held.any fun w => f.endedBy P w) = true ↔ ∃ w ∈ held, f.EndedBy P w := by
  rw [List.any_eq_true]
  simp only [endedBy_iff]

theorem checkHeld_eq_ok : checkHeld P bytes now held = .ok f ↔
    check P bytes now = .ok f ∧ ∀ w ∈ held, ¬ f.EndedBy P w := by
  unfold checkHeld
  rw [bind_eq_ok]
  constructor
  · rintro ⟨f', hcheck, h⟩
    by_cases hany : (held.any fun w => f'.endedBy P w) = true
    · rw [if_pos hany] at h
      cases h
    · rw [if_neg hany] at h
      obtain rfl := Except.ok.inj h
      exact ⟨hcheck, fun w hw hends => hany (any_endedBy.2 ⟨w, hw, hends⟩)⟩
  · rintro ⟨hcheck, hnone⟩
    refine ⟨f, hcheck, if_neg fun hany => ?_⟩
    obtain ⟨w, hw, hends⟩ := any_endedBy.1 hany
    exact hnone w hw hends

theorem checkHeld_nil : checkHeld P bytes now [] = check P bytes now := by
  unfold checkHeld
  cases check P bytes now <;> rfl

/-- What is held decides, not how it is listed. -/
theorem checkHeld_congr (h : ∀ w, w ∈ held ↔ w ∈ held') :
    checkHeld P bytes now held = checkHeld P bytes now held' := by
  have hany : ∀ f : Friendship, (held.any fun w => f.endedBy P w) = held'.any fun w => f.endedBy P w := by
    intro f
    rw [Bool.eq_iff_iff, any_endedBy, any_endedBy]
    simp only [h]
  unfold checkHeld
  simp only [hany]

end Friendship

/-- A withdrawal is held alike whichever way it is checked; a friendship is accepted against those held
where it is against none and none of them ends a half of it; so more of them accept less, in any order. -/
theorem same_endings (P : Primitives) :
    (∀ bytes now pair rotations h, Withdrawal.check P bytes now pair rotations = .ok h ↔
      ∃ k, Withdrawal.parse P bytes now = .ok k ∧ k.checkPair P pair rotations = .ok h) ∧
    (∀ bytes now held f, Friendship.checkHeld P bytes now held = .ok f ↔
      Friendship.checkHeld P bytes now [] = .ok f ∧ ∀ w ∈ held, ¬ f.EndedBy P w) ∧
    (∀ bytes now held more f, Friendship.checkHeld P bytes now (held ++ more) = .ok f →
      Friendship.checkHeld P bytes now held = .ok f) ∧
    ∀ bytes now (held held' : List Held), (∀ w, w ∈ held ↔ w ∈ held') →
      Friendship.checkHeld P bytes now held = Friendship.checkHeld P bytes now held' := by
  refine ⟨fun _ _ _ _ _ => Withdrawal.check_eq_ok, fun _ _ _ _ => ?_, fun _ _ held more f h => ?_,
    fun _ _ _ _ h => Friendship.checkHeld_congr h⟩
  · rw [Friendship.checkHeld_nil]
    exact Friendship.checkHeld_eq_ok
  · obtain ⟨hcheck, hnone⟩ := Friendship.checkHeld_eq_ok.1 h
    exact Friendship.checkHeld_eq_ok.2 ⟨hcheck, fun w hw => hnone w (List.mem_append_left more hw)⟩

end HxdNg.Identity
