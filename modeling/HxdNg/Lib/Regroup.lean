import Mathlib

/-!
# Digits of one width as digits of another

An encoder shifts digits of `w` bits into a 64-bit accumulator and takes digits of `v` bits off its
top.

* `places` : a list of digits as a number, in a base; `eq_of_places` : of one length it is one list;
* `drain`, `regroup` : the digits one input completes, and the loop over all of them;
* `regroup_places` : what comes out, with the bits left pending, is what went in.
-/

namespace HxdNg

/-! ## Places -/

/-- The number digits spell in a base. -/
def places (base : Nat) (ds : List Nat) : Nat := ds.foldl (fun acc d => acc * base + d) 0

theorem foldl_places (base : Nat) (ds : List Nat) (acc : Nat) :
    ds.foldl (fun acc d => acc * base + d) acc = acc * base ^ ds.length + places base ds := by
  induction ds generalizing acc with
  | nil => simp [places]
  | cons d ds ih =>
    have hcons : places base (d :: ds) = (0 * base + d) * base ^ ds.length + places base ds := ih _
    rw [List.foldl_cons, ih, hcons, List.length_cons]
    ring

theorem places_cons (base d : Nat) (ds : List Nat) :
    places base (d :: ds) = d * base ^ ds.length + places base ds := by
  rw [places, List.foldl_cons, foldl_places, Nat.zero_mul, Nat.zero_add]

theorem places_append (base : Nat) (ds es : List Nat) :
    places base (ds ++ es) = places base ds * base ^ es.length + places base es := by
  rw [places, List.foldl_append, foldl_places]
  rfl

theorem places_lt {base : Nat} {ds : List Nat} (h : ∀ d ∈ ds, d < base) :
    places base ds < base ^ ds.length := by
  induction ds with
  | nil => exact Nat.one_pos
  | cons d ds ih =>
    have hd := h d List.mem_cons_self
    have hds := ih fun e he => h e (List.mem_cons_of_mem _ he)
    rw [places_cons, List.length_cons, Nat.pow_succ]
    calc d * base ^ ds.length + places base ds < d * base ^ ds.length + base ^ ds.length :=
          Nat.add_lt_add_left hds _
      _ = (d + 1) * base ^ ds.length := by ring
      _ ≤ base * base ^ ds.length := Nat.mul_le_mul_right _ hd
      _ = base ^ ds.length * base := Nat.mul_comm _ _

theorem eq_of_places {base : Nat} {ds es : List Nat} (hd : ∀ d ∈ ds, d < base)
    (he : ∀ e ∈ es, e < base) (hlen : ds.length = es.length) (h : places base ds = places base es) :
    ds = es := by
  induction ds generalizing es with
  | nil => exact (List.length_eq_zero_iff.1 hlen.symm).symm
  | cons d ds ih =>
    cases es with
    | nil => cases hlen
    | cons e es =>
      have hl : ds.length = es.length := Nat.succ.inj hlen
      have hds : ∀ x ∈ ds, x < base := fun x hx => hd x (List.mem_cons_of_mem _ hx)
      have hes : ∀ x ∈ es, x < base := fun x hx => he x (List.mem_cons_of_mem _ hx)
      rw [places_cons, places_cons, hl] at h
      have hlt := places_lt hds
      rw [hl] at hlt
      have hlt' := places_lt hes
      have hpos : 0 < base ^ es.length := Nat.lt_of_le_of_lt (Nat.zero_le _) hlt'
      have hq : d = e := by
        have h₁ := congrArg (· / base ^ es.length) h
        simp only [Nat.mul_comm _ (base ^ es.length), Nat.mul_add_div hpos,
          Nat.div_eq_of_lt hlt, Nat.div_eq_of_lt hlt', Nat.add_zero] at h₁
        exact h₁
      subst hq
      rw [ih hds hes hl (Nat.add_left_cancel h)]

/-! ## The loop -/

/-- The digits of `v` bits at the top of `n` pending bits: while there are `v`, the top ones. -/
def drain (v acc n : Nat) : List Nat :=
  (List.range (n / v)).map fun i => acc / 2 ^ (n - (i + 1) * v) % 2 ^ v

/-- Each digit of `w` bits shifted in and the digits it completes taken off; the accumulator and how
many bits are pending at the end. -/
def regroup (w v : Nat) : Nat → Nat → List Nat → List Nat × Nat × Nat
  | acc, n, [] => ([], acc, n)
  | acc, n, d :: ds =>
    let acc := (acc * 2 ^ w + d) % 2 ^ 64
    let (rest, last) := regroup w v acc ((n + w) % v) ds
    (drain v acc (n + w) ++ rest, last)

variable {w v : Nat}

theorem length_drain (v acc n : Nat) : (drain v acc n).length = n / v := by
  rw [drain, List.length_map, List.length_range]

theorem drain_lt (v acc n : Nat) : ∀ d ∈ drain v acc n, d < 2 ^ v := by
  intro d hd
  obtain ⟨i, -, rfl⟩ := List.mem_map.1 hd
  exact Nat.mod_lt _ (Nat.two_pow_pos v)

/-- What is taken off and what stays pending are the bits there were. -/
theorem places_drain (v acc n : Nat) :
    places (2 ^ v) (drain v acc n) * 2 ^ (n % v) + acc % 2 ^ (n % v) = acc % 2 ^ n := by
  -- By how many digits have been taken off.
  have hk : ∀ k r, n = k * v + r → places (2 ^ v) ((List.range k).map fun i =>
      acc / 2 ^ (n - (i + 1) * v) % 2 ^ v) * 2 ^ r + acc % 2 ^ r = acc % 2 ^ n := by
    intro k
    induction k with
    | zero =>
      intro r hr
      rw [Nat.zero_mul, Nat.zero_add] at hr
      rw [hr]
      simp [places]
    | succ k ih =>
      intro r hr
      have hr' : n = k * v + (v + r) := by rw [hr]; ring
      have hlast : n - (k + 1) * v = r := by rw [hr]; exact Nat.add_sub_cancel_left _ _
      rw [List.range_succ, List.map_append, places_append]
      show (places _ _ * (2 ^ v) ^ 1 + places (2 ^ v) [acc / 2 ^ (n - (k + 1) * v) % 2 ^ v]) * 2 ^ r +
        acc % 2 ^ r = _
      rw [hlast, places_cons, ← ih (v + r) hr']
      have hsplit : acc % 2 ^ (v + r) = acc / 2 ^ r % 2 ^ v * 2 ^ r + acc % 2 ^ r := by
        rw [Nat.add_comm v r, Nat.pow_add, Nat.mod_mul]
        ring
      rw [hsplit, Nat.pow_add]
      simp only [List.length_nil, Nat.pow_zero, places, List.foldl_nil]
      ring
  have hn : n = n / v * v + n % v := (Nat.div_add_mod' n v).symm
  exact hk (n / v) (n % v) hn

/-- What a loop puts out and leaves pending is what it had pending and was given. -/
theorem regroup_places (hv : 0 < v) (hwv : w + v ≤ 64) {acc n : Nat} (hn : n < v) {ds : List Nat}
    (hds : ∀ d ∈ ds, d < 2 ^ w) : ∃ out last left, regroup w v acc n ds = (out, last, left) ∧
      left < v ∧ n + w * ds.length = v * out.length + left ∧ (∀ d ∈ out, d < 2 ^ v) ∧
      acc % 2 ^ n * (2 ^ w) ^ ds.length + places (2 ^ w) ds =
        places (2 ^ v) out * 2 ^ left + last % 2 ^ left := by
  induction ds generalizing acc n with
  | nil =>
    refine ⟨[], acc, n, rfl, hn, by simp, nofun, ?_⟩
    simp [places]
  | cons d ds ih =>
    let acc₁ := (acc * 2 ^ w + d) % 2 ^ 64
    have hd := hds d List.mem_cons_self
    obtain ⟨out, last, left, hout, hleft, hlen, hlt, hval⟩ :=
      @ih acc₁ _ (Nat.mod_lt (n + w) hv) fun e he => hds e (List.mem_cons_of_mem _ he)
    refine ⟨drain v acc₁ (n + w) ++ out, last, left, ?_, hleft, ?_, ?_, ?_⟩
    · show (drain v acc₁ (n + w) ++ (regroup w v acc₁ ((n + w) % v) ds).1,
        (regroup w v acc₁ ((n + w) % v) ds).2) = _
      rw [hout]
    · have hdm := Nat.div_add_mod (n + w) v
      rw [List.length_append, length_drain, List.length_cons, Nat.mul_add, Nat.mul_add, Nat.mul_one]
      omega
    · intro e he
      rcases List.mem_append.1 he with he | he
      · exact drain_lt v acc₁ (n + w) e he
      · exact hlt e he
    · have hpend : acc₁ % 2 ^ (n + w) = acc % 2 ^ n * 2 ^ w + d := by
        have hmod : (acc * 2 ^ w + d) % 2 ^ w = d := by
          rw [Nat.mul_comm, Nat.mul_add_mod, Nat.mod_eq_of_lt hd]
        have hdiv : (acc * 2 ^ w + d) / 2 ^ w = acc := by
          rw [Nat.mul_comm, Nat.mul_add_div (Nat.two_pow_pos w), Nat.div_eq_of_lt hd, Nat.add_zero]
        rw [Nat.mod_mod_of_dvd _ (Nat.pow_dvd_pow 2 (by omega : n + w ≤ 64)), Nat.pow_add,
          Nat.mul_comm (2 ^ n) (2 ^ w), Nat.mod_mul, hmod, hdiv]
        ring
      have hdrain := places_drain v acc₁ (n + w)
      rw [hpend] at hdrain
      have hpow : 2 ^ ((n + w) % v) * (2 ^ w) ^ ds.length = (2 ^ v) ^ out.length * 2 ^ left := by
        rw [← Nat.pow_mul, ← Nat.pow_mul, ← Nat.pow_add, ← Nat.pow_add, hlen]
      rw [places_append, places_cons, List.length_cons]
      calc acc % 2 ^ n * (2 ^ w) ^ (ds.length + 1) + (d * (2 ^ w) ^ ds.length + places (2 ^ w) ds)
          = (acc % 2 ^ n * 2 ^ w + d) * (2 ^ w) ^ ds.length + places (2 ^ w) ds := by ring
        _ = places (2 ^ v) (drain v acc₁ (n + w)) * (2 ^ ((n + w) % v) * (2 ^ w) ^ ds.length) +
            (acc₁ % 2 ^ ((n + w) % v) * (2 ^ w) ^ ds.length + places (2 ^ w) ds) := by
          rw [← hdrain]; ring
        _ = (places (2 ^ v) (drain v acc₁ (n + w)) * (2 ^ v) ^ out.length + places (2 ^ v) out) *
              2 ^ left + last % 2 ^ left := by
          rw [hpow, hval]; ring

end HxdNg
