import Mathlib
import HxdNg.Lib.Machine

/-!
# What the server holds for its clients

Every queue that waits on a client draws on one budget, besides its own bound.

* `QueueBudget`, `Share` : the budget and one queue's draw on it, with `take`, `give` and `drop`;
* `Queues`, `Op`, `Queues.step`, `Queues.run` : the queues of a server, and what is done to them;
* `Queues.Exact` : the budget holds what the shares do; `Queues.Within` : how far past its limit;
* `budget_conserved` : both hold after any run, and what a refusal and a grant leave.
-/

namespace HxdNg.Limits.Budget

/-- The server's budget, and what its queues hold of it now. -/
structure QueueBudget where
  limit : UInt64
  held : UInt64
  shares : UInt64
  deriving DecidableEq

/-- Why a queue was refused what it asked for. -/
inductive Over where
  | own
  | server
  deriving DecidableEq

/-- One queue's draw on the budget. -/
structure Share where
  held : UInt64
  deriving DecidableEq

def QueueBudget.new (limit : UInt64) : QueueBudget := ⟨limit, 0, 0⟩

def QueueBudget.share (b : QueueBudget) : Share × QueueBudget := (⟨0⟩, { b with shares := b.shares + 1 })

namespace Share

/-- Take bytes for something about to be queued, or refuse. Past the budget a queue may take up to what the
queues hold on average, and one that held at most half of that may take the item however large. -/
def take (s : Share) (b : QueueBudget) (bytes own : UInt64) : Except Over Unit × Share × QueueBudget :=
  let mine := s.held + bytes
  let s : Share := { s with held := s.held + bytes }
  if mine > own then (.error .own, { s with held := s.held - bytes }, b)
  else
    let all := b.held + bytes
    let b : QueueBudget := { b with held := b.held + bytes }
    let average := all / max b.shares 1
    if all > b.limit ∧ mine > average ∧ mine - bytes > average / 2 then
      (.error .server, { s with held := s.held - bytes }, { b with held := b.held - bytes })
    else (.ok (), s, b)

def give (s : Share) (b : QueueBudget) (bytes : UInt64) : Share × QueueBudget :=
  ({ s with held := s.held - bytes }, { b with held := b.held - bytes })

def drop (s : Share) (b : QueueBudget) : QueueBudget :=
  { b with held := b.held - s.held, shares := b.shares - 1 }

end Share

/-! ## A server's queues -/

/-- A queue, and what it was granted. -/
structure Queue where
  share : Share
  own : UInt64
  past : Bool
  deriving DecidableEq

def Queue.held (x : Queue) : Nat := x.share.held.toNat

/-- What it holds, if it was granted nothing past the limit. -/
def Queue.heldWithin (x : Queue) : Nat := if x.past then 0 else x.held

/-- What it holds, if it was. -/
def Queue.heldPast (x : Queue) : Nat := if x.past then x.held else 0

/-- The bound it was last granted under, if it was. -/
def Queue.ownPast (x : Queue) : Nat := if x.past then x.own.toNat else 0

structure Queues where
  budget : QueueBudget
  live : List Queue
  deriving DecidableEq

inductive Op where
  | share
  | take (i : Nat) (bytes own : UInt64)
  | give (i : Nat) (bytes : UInt64)
  | drop (i : Nat)

namespace Queues

def taken (x : Queue) (own : UInt64) (b : QueueBudget) : Except Over Unit × Share × QueueBudget → Queue
  | (.ok (), share, b') => ⟨share, own, x.past || b'.held > b.limit⟩
  | (.error _, share, _) => { x with share }

def step (q : Queues) : Op → Queues
  | .share => ⟨q.budget.share.2, q.live ++ [⟨q.budget.share.1, 0, false⟩]⟩
  | .take i bytes own =>
    match q.live[i]? with
    | none => q
    | some x =>
      let r := x.share.take q.budget bytes own
      ⟨r.2.2, q.live.set i (taken x own q.budget r)⟩
  | .give i bytes =>
    match q.live[i]? with
    | none => q
    | some x =>
      let (share, budget) := x.share.give q.budget bytes
      ⟨budget, q.live.set i { x with share }⟩
  | .drop i =>
    match q.live[i]? with
    | none => q
    | some x => ⟨x.share.drop q.budget, q.live.eraseIdx i⟩

def run (q : Queues) : List Op → Queues
  | [] => q
  | op :: ops => (q.step op).run ops

def start (limit : UInt64) : Queues := ⟨.new limit, []⟩

/-- No total overflows its word, and a queue gives what it holds at most. -/
def Fits (q : Queues) : Op → Prop
  | .share => q.live.length + 1 < 2 ^ 64
  | .take _ bytes _ => q.budget.held.toNat + bytes.toNat < 2 ^ 64
  | .give i bytes => ∀ x, q.live[i]? = some x → bytes ≤ x.share.held
  | .drop _ => True

def RunFits (q : Queues) : List Op → Prop
  | [] => True
  | op :: ops => q.Fits op ∧ (q.step op).RunFits ops

def sum (f : Queue → Nat) (l : List Queue) : Nat := (l.map f).sum

@[simp] theorem sum_nil (f : Queue → Nat) : sum f [] = 0 := rfl

@[simp] theorem sum_cons (f : Queue → Nat) (x : Queue) (l : List Queue) : sum f (x :: l) = f x + sum f l := by
  simp [sum]

theorem sum_append (f : Queue → Nat) (l m : List Queue) : sum f (l ++ m) = sum f l + sum f m := by
  simp [sum]

theorem sum_set {f : Queue → Nat} {l : List Queue} {i : Nat} {x : Queue} (h : l[i]? = some x) (y : Queue) :
    sum f (l.set i y) + f x = sum f l + f y := by
  induction l generalizing i with
  | nil => cases h
  | cons z l ih =>
    cases i with
    | zero =>
      obtain rfl : z = x := Option.some.inj h
      simp only [List.set_cons_zero, sum_cons]
      omega
    | succ i =>
      have hrest := ih (i := i) (by simpa using h)
      simp only [List.set_cons_succ, sum_cons]
      omega

theorem sum_eraseIdx {f : Queue → Nat} {l : List Queue} {i : Nat} {x : Queue} (h : l[i]? = some x) :
    sum f (l.eraseIdx i) + f x = sum f l := by
  induction l generalizing i with
  | nil => cases h
  | cons z l ih =>
    cases i with
    | zero =>
      obtain rfl : z = x := Option.some.inj h
      simp only [List.eraseIdx_zero, List.tail_cons, sum_cons]
      omega
    | succ i =>
      have hrest := ih (i := i) (by simpa using h)
      simp only [List.eraseIdx_cons_succ, sum_cons]
      omega

theorem le_sum {f : Queue → Nat} {l : List Queue} {i : Nat} {x : Queue} (h : l[i]? = some x) : f x ≤ sum f l := by
  have := sum_eraseIdx (f := f) h
  omega

theorem sum_le_sum {f g : Queue → Nat} {l : List Queue} (h : ∀ x ∈ l, f x ≤ g x) : sum f l ≤ sum g l := by
  induction l with
  | nil => exact Nat.le_refl _
  | cons x l ih =>
    have hx := h x List.mem_cons_self
    have hrest := ih fun y hy => h y (List.mem_cons_of_mem _ hy)
    simp only [sum_cons]
    omega

theorem sum_held (l : List Queue) : sum Queue.held l = sum Queue.heldWithin l + sum Queue.heldPast l := by
  induction l with
  | nil => rfl
  | cons x l ih =>
    simp only [sum_cons, ih, Queue.heldWithin, Queue.heldPast]
    split <;> omega

/-- The budget holds what the shares do, and counts them. -/
structure Exact (q : Queues) : Prop where
  held : q.budget.held.toNat = sum Queue.held q.live
  shares : q.budget.shares.toNat = q.live.length

/-- The queues granted nothing past the limit are within it, and every queue is within its own bound. -/
structure Within (q : Queues) : Prop where
  limit : sum Queue.heldWithin q.live ≤ q.budget.limit.toNat
  own : ∀ x ∈ q.live, x.share.held ≤ x.own

/-- What the queues hold on average, were `bytes` more taken. -/
def average (q : Queues) (bytes : UInt64) : Nat := (q.budget.held.toNat + bytes.toNat) / q.live.length

end Queues

namespace Share
open Queues
variable {q : Queues} {i : Nat} {x : Queue} {bytes own : UInt64}

theorem add_sub (a b : UInt64) : a + b - b = a := by
  apply UInt64.toNat_inj.mp
  rw [UInt64.toNat_sub, UInt64.toNat_add]
  have := a.toNat_lt
  have := b.toNat_lt
  omega

theorem toNat_average (hq : q.Exact) (h : q.live[i]? = some x)
    (hfits : q.budget.held.toNat + bytes.toNat < 2 ^ 64) :
    ((q.budget.held + bytes) / max q.budget.shares 1).toNat = q.average bytes := by
  have hlive := (List.getElem?_eq_some_iff.mp h).choose
  have hshares : max q.budget.shares 1 = q.budget.shares := by
    apply UInt64.toNat_inj.mp
    rw [toNat_max, hq.shares]
    exact Nat.max_eq_left (Nat.one_le_of_lt hlive)
  rw [hshares, UInt64.toNat_div, UInt64.toNat_add, Nat.mod_eq_of_lt hfits, hq.shares]
  rfl

/-- A take, in numbers. -/
theorem take_eq (own : UInt64) (hq : q.Exact) (h : q.live[i]? = some x)
    (hfits : q.budget.held.toNat + bytes.toNat < 2 ^ 64) :
    x.share.take q.budget bytes own =
      if own.toNat < x.held + bytes.toNat then (.error .own, x.share, q.budget)
      else if q.budget.limit.toNat < q.budget.held.toNat + bytes.toNat ∧
          q.average bytes < x.held + bytes.toNat ∧ q.average bytes / 2 < x.held then
        (.error .server, x.share, q.budget)
      else (.ok (), ⟨x.share.held + bytes⟩, { q.budget with held := q.budget.held + bytes }) := by
  have hle : x.held ≤ q.budget.held.toNat := hq.held ▸ le_sum h
  have hmine : (x.share.held + bytes).toNat = x.held + bytes.toNat := by
    rw [UInt64.toNat_add]
    exact Nat.mod_eq_of_lt (by unfold Queue.held at *; omega)
  have hall : (q.budget.held + bytes).toNat = q.budget.held.toNat + bytes.toNat := by
    rw [UInt64.toNat_add, Nat.mod_eq_of_lt hfits]
  have haverage : ((q.budget.held + bytes) / max q.budget.shares 1).toNat = q.average bytes :=
    toNat_average hq h hfits
  have hhalf : (((q.budget.held + bytes) / max q.budget.shares 1) / 2).toNat = q.average bytes / 2 := by
    rw [UInt64.toNat_div, haverage]
    rfl
  unfold take
  simp only [add_sub, gt_iff_lt, UInt64.lt_iff_toNat_lt, hmine, hall, haverage, hhalf]
  rfl

end Share

namespace Queues
variable {q : Queues}

/-! ## One step -/

theorem Exact.share (hq : q.Exact) (hfits : q.live.length + 1 < 2 ^ 64) : (q.step .share).Exact where
  held := by
    show q.budget.held.toNat = sum Queue.held (q.live ++ [⟨⟨0⟩, 0, false⟩])
    rw [sum_append, hq.held]
    simp [Queue.held]
  shares := by
    show (q.budget.shares + 1).toNat = (q.live ++ [Queue.mk ⟨0⟩ 0 false]).length
    rw [UInt64.toNat_add, hq.shares, List.length_append]
    exact Nat.mod_eq_of_lt hfits

theorem Exact.set (hq : q.Exact) {i : Nat} {x y : Queue} (h : q.live[i]? = some x) {budget : QueueBudget}
    (hshares : budget.shares = q.budget.shares)
    (hheld : budget.held.toNat + x.held = q.budget.held.toNat + y.held) :
    Exact ⟨budget, q.live.set i y⟩ where
  held := by
    have hset := sum_set (f := Queue.held) h y
    have hsum := hq.held
    show budget.held.toNat = sum Queue.held (q.live.set i y)
    omega
  shares := by
    show budget.shares.toNat = (q.live.set i y).length
    rw [hshares, hq.shares, List.length_set]

/-- A queue whose draw is as it was is the queue it was. -/
theorem set_same {i : Nat} {x : Queue} (h : q.live[i]? = some x) :
    q.live.set i { x with share := x.share } = q.live := by
  obtain ⟨hi, rfl⟩ := List.getElem?_eq_some_iff.mp h
  exact List.set_getElem_self hi

/-- What a take leaves of the queues: all as they were, or the item's bytes more. -/
theorem step_take (own : UInt64) (hq : q.Exact) {i : Nat} {x : Queue} {bytes : UInt64} (h : q.live[i]? = some x)
    (hfits : q.budget.held.toNat + bytes.toNat < 2 ^ 64) :
    ((∃ e, (x.share.take q.budget bytes own).1 = .error e) ∧ q.step (.take i bytes own) = q) ∨
    (x.share.take q.budget bytes own).1 = .ok () ∧ x.held + bytes.toNat ≤ own.toNat ∧
      q.step (.take i bytes own) =
        ⟨{ q.budget with held := q.budget.held + bytes },
          q.live.set i ⟨⟨x.share.held + bytes⟩, own, x.past || q.budget.held + bytes > q.budget.limit⟩⟩ := by
  have htake := Share.take_eq own hq h hfits
  have hstep : q.step (.take i bytes own) = ⟨(x.share.take q.budget bytes own).2.2,
      q.live.set i (taken x own q.budget (x.share.take q.budget bytes own))⟩ := by
    simp only [step, h]
  split at htake
  · refine .inl ⟨⟨_, by rw [htake]⟩, ?_⟩
    rw [hstep, htake]
    exact congrArg (Queues.mk q.budget) (set_same h)
  next hown =>
  split at htake
  · refine .inl ⟨⟨_, by rw [htake]⟩, ?_⟩
    rw [hstep, htake]
    exact congrArg (Queues.mk q.budget) (set_same h)
  · refine .inr ⟨by rw [htake], Nat.le_of_not_lt hown, ?_⟩
    rw [hstep, htake]
    rfl

theorem held_le (hq : q.Exact) {i : Nat} {x : Queue} (h : q.live[i]? = some x) :
    x.held ≤ q.budget.held.toNat := hq.held ▸ le_sum h

theorem toNat_taken (hq : q.Exact) {i : Nat} {x : Queue} {bytes : UInt64} (h : q.live[i]? = some x)
    (hfits : q.budget.held.toNat + bytes.toNat < 2 ^ 64) :
    (x.share.held + bytes).toNat = x.held + bytes.toNat := by
  have hle := held_le hq h
  rw [UInt64.toNat_add]
  exact Nat.mod_eq_of_lt (by unfold Queue.held at *; omega)

theorem Exact.step (hq : q.Exact) {op : Op} (hfits : q.Fits op) : (q.step op).Exact := by
  cases op with
  | share => exact hq.share hfits
  | take i bytes own =>
    cases h : q.live[i]? with
    | none => simpa only [Queues.step, h] using hq
    | some x =>
      rcases step_take own hq h hfits with ⟨-, hsame⟩ | ⟨-, -, hset⟩
      · rwa [hsame]
      · rw [hset]
        refine hq.set h rfl ?_
        have hmine := toNat_taken hq h hfits
        have hall : (q.budget.held + bytes).toNat = q.budget.held.toNat + bytes.toNat := by
          rw [UInt64.toNat_add, Nat.mod_eq_of_lt hfits]
        show (q.budget.held + bytes).toNat + x.held = q.budget.held.toNat + (x.share.held + bytes).toNat
        omega
  | give i bytes =>
    cases h : q.live[i]? with
    | none => simpa only [Queues.step, h] using hq
    | some x =>
      have hbytes := UInt64.le_iff_toNat_le.mp (hfits x h)
      have hle := held_le hq h
      simp only [Queues.step, h]
      refine hq.set h rfl ?_
      show (q.budget.held - bytes).toNat + x.held = q.budget.held.toNat + (x.share.held - bytes).toNat
      unfold Queue.held at *
      rw [UInt64.toNat_sub_of_le _ _ (UInt64.le_iff_toNat_le.mpr (hbytes.trans hle)),
        UInt64.toNat_sub_of_le _ _ (hfits x h)]
      omega
  | drop i =>
    cases h : q.live[i]? with
    | none => simpa only [Queues.step, h] using hq
    | some x =>
      have hle := held_le hq h
      obtain ⟨hi, -⟩ := List.getElem?_eq_some_iff.mp h
      have herase := sum_eraseIdx (f := Queue.held) h
      simp only [Queues.step, h]
      constructor
      · show (q.budget.held - x.share.held).toNat = sum Queue.held (q.live.eraseIdx i)
        rw [UInt64.toNat_sub_of_le _ _ (UInt64.le_iff_toNat_le.mpr hle), hq.held]
        unfold Queue.held at *
        omega
      · show (q.budget.shares - 1).toNat = (q.live.eraseIdx i).length
        have hone : (1 : UInt64) ≤ q.budget.shares := by
          rw [UInt64.le_iff_toNat_le, hq.shares]
          exact Nat.one_le_of_lt hi
        rw [UInt64.toNat_sub_of_le _ _ hone, hq.shares, List.length_eraseIdx_of_lt hi]
        rfl

@[simp] theorem step_limit (q : Queues) (op : Op) : (q.step op).budget.limit = q.budget.limit := by
  cases op with
  | share => rfl
  | take i bytes own =>
    cases h : q.live[i]? with
    | none => simp only [step, h]
    | some x =>
      simp only [step, h]
      unfold Share.take
      dsimp only
      split
      · rfl
      · split <;> rfl
  | give i bytes =>
    cases h : q.live[i]? with
    | none => simp only [step, h]
    | some x =>
      simp only [step, h]
      rfl
  | drop i =>
    cases h : q.live[i]? with
    | none => simp only [step, h]
    | some x =>
      simp only [step, h]
      rfl

theorem Within.step (hw : q.Within) (hq : q.Exact) {op : Op} (hfits : q.Fits op) : (q.step op).Within := by
  constructor
  · rw [step_limit]
    have hlimit := hw.limit
    cases op with
    | share =>
      show sum Queue.heldWithin (q.live ++ [⟨⟨0⟩, 0, false⟩]) ≤ _
      rw [sum_append]
      exact hlimit
    | take i bytes own =>
      cases h : q.live[i]? with
      | none => simpa only [Queues.step, h] using hlimit
      | some x =>
        rcases step_take own hq h hfits with ⟨-, hsame⟩ | ⟨-, -, hset⟩
        · rwa [hsame]
        rw [hset]
        have hmine := toNat_taken hq h hfits
        have hsum := sum_set (f := Queue.heldWithin) h
          ⟨⟨x.share.held + bytes⟩, own, x.past || q.budget.held + bytes > q.budget.limit⟩
        have hall : (q.budget.held + bytes).toNat = q.budget.held.toNat + bytes.toNat := by
          rw [UInt64.toNat_add, Nat.mod_eq_of_lt hfits]
        have htotal := hq.held
        rw [sum_held] at htotal
        show sum Queue.heldWithin (q.live.set i _) ≤ q.budget.limit.toNat
        by_cases hpast : x.past = true
        · have hx : x.heldWithin = 0 := if_pos hpast
          have hy : Queue.heldWithin ⟨⟨x.share.held + bytes⟩, own,
              x.past || q.budget.held + bytes > q.budget.limit⟩ = 0 := if_pos (by rw [hpast]; rfl)
          omega
        by_cases hover : q.budget.held + bytes > q.budget.limit
        · simp only [hover, decide_true, Bool.or_true] at hsum ⊢
          have hzero : Queue.heldWithin ⟨⟨x.share.held + bytes⟩, own, true⟩ = 0 := rfl
          omega
        · have hall' : q.budget.held.toNat + bytes.toNat ≤ q.budget.limit.toNat := by
            rw [← hall]
            exact UInt64.le_iff_toNat_le.mp (UInt64.not_lt.mp hover)
          simp only [hover, decide_false, Bool.or_false, hpast] at hsum ⊢
          have hx : x.heldWithin = x.held := by simp [Queue.heldWithin, hpast]
          have hy : Queue.heldWithin ⟨⟨x.share.held + bytes⟩, own, false⟩ = x.held + bytes.toNat := hmine
          omega
    | give i bytes =>
      cases h : q.live[i]? with
      | none => simpa only [Queues.step, h] using hlimit
      | some x =>
        have hsum := sum_set (f := Queue.heldWithin) h { x with share := ⟨x.share.held - bytes⟩ }
        have hless : Queue.heldWithin { x with share := ⟨x.share.held - bytes⟩ } ≤ x.heldWithin := by
          unfold Queue.heldWithin Queue.held
          split
          · exact Nat.le_refl 0
          · rw [UInt64.toNat_sub_of_le _ _ (hfits x h)]
            exact Nat.sub_le _ _
        simp only [Queues.step, h]
        show sum Queue.heldWithin (q.live.set i { x with share := ⟨x.share.held - bytes⟩ }) ≤ _
        omega
    | drop i =>
      cases h : q.live[i]? with
      | none => simpa only [Queues.step, h] using hlimit
      | some x =>
        have hsum := sum_eraseIdx (f := Queue.heldWithin) h
        simp only [Queues.step, h]
        omega
  · intro y hy
    cases op with
    | share =>
      rcases List.mem_append.mp hy with hy | hy
      · exact hw.own y hy
      · rw [List.mem_singleton.mp hy]
        exact UInt64.le_refl _
    | take i bytes own =>
      cases h : q.live[i]? with
      | none =>
        simp only [Queues.step, h] at hy
        exact hw.own y hy
      | some x =>
        rcases step_take own hq h hfits with ⟨-, hsame⟩ | ⟨-, hown, hset⟩
        · rw [hsame] at hy
          exact hw.own y hy
        · rw [hset] at hy
          rcases List.mem_or_eq_of_mem_set hy with hy | rfl
          · exact hw.own y hy
          · rw [UInt64.le_iff_toNat_le]
            exact (toNat_taken hq h hfits).trans_le hown
    | give i bytes =>
      cases h : q.live[i]? with
      | none =>
        simp only [Queues.step, h] at hy
        exact hw.own y hy
      | some x =>
        simp only [Queues.step, h] at hy
        rcases List.mem_or_eq_of_mem_set hy with hy | rfl
        · exact hw.own y hy
        · have hx := UInt64.le_iff_toNat_le.mp (hw.own x (List.mem_of_getElem? h))
          rw [UInt64.le_iff_toNat_le]
          show (x.share.held - bytes).toNat ≤ x.own.toNat
          rw [UInt64.toNat_sub_of_le _ _ (hfits x h)]
          omega
    | drop i =>
      cases h : q.live[i]? with
      | none =>
        simp only [Queues.step, h] at hy
        exact hw.own y hy
      | some x =>
        simp only [Queues.step, h] at hy
        exact hw.own y (List.mem_of_mem_eraseIdx hy)

/-! ## Runs -/

theorem run_kept (ops : List Op) (hq : q.Exact) (hw : q.Within) (hfits : q.RunFits ops) :
    (q.run ops).Exact ∧ (q.run ops).Within ∧ (q.run ops).budget.limit = q.budget.limit := by
  induction ops generalizing q with
  | nil => exact ⟨hq, hw, rfl⟩
  | cons op ops ih =>
    obtain ⟨hexact, hwithin, hlimit⟩ := ih (hq.step hfits.1) (hw.step hq hfits.1) hfits.2
    exact ⟨hexact, hwithin, hlimit.trans (step_limit q op)⟩

theorem start_exact (limit : UInt64) : (start limit).Exact := ⟨rfl, rfl⟩

theorem start_within (limit : UInt64) : (start limit).Within := ⟨Nat.zero_le _, fun _ h => nomatch h⟩

/-- What is held past the limit is within the bounds of the queues granted something past it. -/
theorem Within.total (hw : q.Within) (hq : q.Exact) :
    q.budget.held.toNat ≤ q.budget.limit.toNat + sum Queue.ownPast q.live := by
  have hlimit := hw.limit
  have hpast : sum Queue.heldPast q.live ≤ sum Queue.ownPast q.live := sum_le_sum fun x hx => by
    have hown := UInt64.le_iff_toNat_le.mp (hw.own x hx)
    unfold Queue.heldPast Queue.ownPast Queue.held
    split
    · exact hown
    · exact Nat.le_refl 0
  rw [hq.held, sum_held]
  omega

end Queues

open Queues

/-- The budget holds what the shares do, after any run in which no total overflows and no queue gives more
than it holds. A take refused changes nothing; one granted leaves the queue within its bound, and past the
limit finds it at most at half the average, or leaves it at most at the average; one refused for the
server's budget is past the limit, of a queue past the average that held more than half of it, so a queue
that holds at most half of it is not refused for it, nor one that is alone. And what is held past the limit
is within the bounds of the queues granted something past it. -/
theorem budget_conserved (limit : UInt64) (ops : List Op) (hfits : (start limit).RunFits ops) :
    let q := (start limit).run ops
    q.budget.held.toNat = sum Queue.held q.live ∧ q.budget.shares.toNat = q.live.length ∧
      q.budget.held.toNat ≤ limit.toNat + sum Queue.ownPast q.live ∧
      ∀ i x bytes own, q.live[i]? = some x → q.Fits (.take i bytes own) →
        (∀ e, (x.share.take q.budget bytes own).1 = .error e → q.step (.take i bytes own) = q) ∧
        ((x.share.take q.budget bytes own).1 = .ok () →
          (x.share.take q.budget bytes own).2.1.held ≤ own ∧
          (limit.toNat < q.budget.held.toNat + bytes.toNat →
            x.held + bytes.toNat ≤ q.average bytes ∨ x.held ≤ q.average bytes / 2)) ∧
        ((x.share.take q.budget bytes own).1 = .error .server →
          limit.toNat < q.budget.held.toNat + bytes.toNat ∧ q.average bytes < x.held + bytes.toNat ∧
            q.average bytes / 2 < x.held) ∧
        (x.held ≤ q.average bytes / 2 ∨ q.live.length = 1 →
          (x.share.take q.budget bytes own).1 ≠ .error .server) := by
  intro q
  obtain ⟨hq, hw, hlimit⟩ := run_kept ops (start_exact limit) (start_within limit) hfits
  have htotal := hw.total hq
  rw [hlimit] at htotal
  refine ⟨hq.held, hq.shares, htotal, fun i x bytes own h hfit => ?_⟩
  have htake := Share.take_eq own hq h hfit
  rw [hlimit] at htake
  have hserver : (x.share.take q.budget bytes own).1 = .error .server →
      limit.toNat < q.budget.held.toNat + bytes.toNat ∧ q.average bytes < x.held + bytes.toNat ∧
        q.average bytes / 2 < x.held := by
    intro he
    rw [htake] at he
    split at he
    · cases he
    split at he
    · next hpast => exact hpast
    · cases he
  refine ⟨fun e he => ?_, fun hok => ?_, hserver, fun hsmall he => ?_⟩
  · rcases step_take own hq h hfit with ⟨-, hsame⟩ | ⟨hok, -⟩
    · exact hsame
    · cases he.symm.trans hok
  · rw [htake] at hok ⊢
    split at hok
    · cases hok
    next hown =>
    split at hok
    · cases hok
    next hpast =>
    rw [if_neg hown, if_neg hpast]
    refine ⟨?_, fun hover => ?_⟩
    · rw [UInt64.le_iff_toNat_le]
      exact (toNat_taken hq h hfit).trans_le (Nat.le_of_not_lt hown)
    · by_cases haverage : q.average bytes < x.held + bytes.toNat
      · exact .inr (Nat.le_of_not_lt fun hhalf => hpast ⟨hover, haverage, hhalf⟩)
      · exact .inl (Nat.le_of_not_lt haverage)
  · obtain ⟨-, haverage, hhalf⟩ := hserver he
    rcases hsmall with hsmall | halone
    · omega
    · -- Alone, it holds the average.
      have hle : x.held ≤ q.budget.held.toNat := held_le hq h
      unfold Queues.average at haverage
      rw [halone, Nat.div_one] at haverage
      omega

theorem budget_conserved_two :
    let q := (start 100).run [.share, .share, .take 0 50 1000, .take 1 20 1000, .give 0 30, .drop 1]
    q.budget.held.toNat = sum Queue.held q.live := by
  have hfits : (start 100).RunFits
      [.share, .share, .take 0 50 1000, .take 1 20 1000, .give 0 30, .drop 1] := by
    refine ⟨?_, ?_, ?_, ?_, fun x hx => ?_, trivial, trivial⟩
    iterate 4 exact (by unfold Fits; decide)
    obtain rfl : (⟨⟨50⟩, 1000, false⟩ : Queue) = x := Option.some.inj hx
    decide
  exact (budget_conserved 100 _ hfits).1

/-- Two queues hold half the limit each, and neither may take another item; one alone goes past the limit by
more than an item, and holds the average. -/
theorem neither_may_take :
    let q := (start 100).run [.share, .share, .take 0 50 1000, .take 1 50 1000]
    let q' := (start 100).run [.share, .take 0 60 1000, .take 0 60 1000, .take 0 60 1000]
    q.live.map (fun x => (x.share.take q.budget 10 1000).1) = [.error .server, .error .server] ∧
      q'.budget.held.toNat > 100 + 60 ∧ q'.live.all (fun x => x.held > q'.average 0 / 2) = true := by
  decide

end HxdNg.Limits.Budget
