import Mathlib
import HxdNg.Link.Certs

/-!
# The books of the fetched certificates

* `Certs.Books` : what holds of the cache;
* `certs_books` : over whole runs, with each line given back once at most.
-/

namespace HxdNg.Link

open Assoc

namespace Certs
variable {α : Type} {sha256 : CertBytes → Hash} {c : Certs α} {hash h : Hash} {link : String}

/-- The certificates held, each under its hash and once in the order, and their bytes. -/
structure Shelved (sha256 : CertBytes → Hash) (c : Certs α) : Prop where
  bytes : c.bytes = c.held.total List.length
  nodup : c.order.Nodup
  ordered : ∀ h, h ∈ c.order ↔ (c.held.get h).isSome
  hashed : ∀ h cert, c.held.get h = some cert → sha256 cert = h

/-- The fetches under way and the lines that wait on them. -/
structure Awaited (c : Certs α) : Prop where
  lines : c.waitingLines = c.waiting.total List.length
  fetching : ∀ h, (c.waiting.get h).isSome → (c.fetching.get h).isSome
  fetches : c.fetching.size ≤ maxFetching
  fetchesOver : ∀ link, c.fetching.values.countP (· = link) ≤ fetchingPerLink
  waits : c.waitingLines ≤ maxWaiting
  waitsOver : ∀ link, c.overLink link ≤ waitingPerLink

structure Books (sha256 : CertBytes → Hash) (c : Certs α) : Prop where
  shelved : Shelved sha256 c
  few : c.held.size ≤ maxCerts
  small : c.bytes ≤ maxCertBytes
  awaited : Awaited c

/-! ## Certificates held -/

theorem entries_eq_nil {κ ν : Type} [DecidableEq κ] {m : Map κ ν} (h : ∀ k, (m.get k).isSome = false) :
    m.entries = [] := by
  refine List.eq_nil_iff_forall_not_mem.mpr fun kv hkv => ?_
  have hnone := h kv.1
  rw [Map.mem_entries_iff.mp hkv] at hnone
  cases hnone

theorem Shelved.evict_spec {n : Nat} (hc : Shelved sha256 c) (hn : c.order.length ≤ n) :
    ∃ held order bytes, evict n c = some { c with held, order, bytes } ∧
      Shelved sha256 { c with held, order, bytes } ∧ held.size ≤ maxCerts ∧ bytes ≤ maxCertBytes := by
  induction n generalizing c with
  | zero =>
    have hnil : c.order = [] := List.length_eq_zero_iff.mp (Nat.le_zero.mp hn)
    have hempty : c.held.entries = [] := entries_eq_nil fun k => by
      rw [← Bool.not_eq_true, ← hc.ordered, hnil]
      exact List.not_mem_nil
    refine ⟨c.held, c.order, c.bytes, rfl, hc, ?_, ?_⟩
    · rw [Map.size, hempty]
      exact Nat.zero_le _
    · rw [hc.bytes, Map.total, hempty]
      exact Nat.zero_le _
  | succ n ih =>
    unfold evict
    by_cases hover : c.held.size > maxCerts ∨ c.bytes > maxCertBytes
    · rw [if_neg (not_not.mpr hover)]
      obtain ⟨held, order, bytes, fetching, tried, waiting, waitingLines⟩ := c
      cases order with
      | nil =>
        exfalso
        have hempty : held.entries = [] := entries_eq_nil fun k => by
          rw [← Bool.not_eq_true]
          exact fun hk => absurd ((hc.ordered k).mpr hk) List.not_mem_nil
        have hbytes : bytes = 0 := by
          have := hc.bytes
          rwa [Map.total, hempty] at this
        rw [Map.size, hempty] at hover
        rcases hover with hover | hover
        · exact absurd hover (Nat.not_lt_zero _)
        · exact absurd (hbytes ▸ hover) (Nat.not_lt_zero _)
      | cons old order =>
        obtain ⟨hnotin, hnodup⟩ := List.nodup_cons.mp hc.nodup
        obtain ⟨gone, hgone⟩ := Option.isSome_iff_exists.mp ((hc.ordered old).mp List.mem_cons_self)
        have htotal := Map.total_drop (m := held) List.length old
        have hgone : held.get old = some gone := hgone
        rw [hgone, Option.elim_some] at htotal
        have hbytes : bytes = held.total List.length := hc.bytes
        dsimp only
        rw [hgone]
        dsimp only
        rw [minus_of_le (by omega), Option.bind_some]
        refine ih (c := ⟨held.drop old, order, bytes - gone.length, fetching, tried, waiting, waitingLines⟩)
          ⟨?_, hnodup, fun k => ?_, fun k cert hk => ?_⟩ (Nat.le_of_succ_le_succ hn)
        · show bytes - gone.length = (held.drop old).total List.length
          omega
        · show k ∈ order ↔ ((held.drop old).get k).isSome
          rw [Map.get_drop]
          have hk := hc.ordered k
          by_cases hold : k = old
          · subst hold
            rw [if_pos rfl]
            exact iff_of_false hnotin Bool.false_ne_true
          · rw [if_neg hold]
            exact (List.mem_cons.trans (or_iff_right hold)).symm.trans hk
        · exact hc.hashed k cert (Map.get_drop_some hk).2
    · rw [if_pos hover]
      rw [not_or, Nat.not_lt, Nat.not_lt] at hover
      exact ⟨c.held, c.order, c.bytes, rfl, hc, hover.1, hover.2⟩

theorem Books.insert_spec (hc : Books sha256 c) {cert : CertBytes} (hcert : sha256 cert = hash) :
    ∃ c', c.insert hash cert = some c' ∧ Books sha256 c' ∧ c'.waiting = c.waiting := by
  unfold insert
  cases hheld : c.held.get hash with
  | some old => exact ⟨c, rfl, hc, rfl⟩
  | none =>
    have hnotin : hash ∉ c.order := by
      rw [hc.shelved.ordered, hheld]
      exact Bool.false_ne_true
    have hshelved : Shelved sha256 { c with
        bytes := c.bytes + cert.length
        held := c.held.set hash cert
        order := c.order ++ [hash] } := by
      refine ⟨?_, ?_, fun k => ?_, fun k b hk => ?_⟩
      · have htotal := Map.total_set List.length c.held hash cert
        rw [hheld, Option.elim_none, ← hc.shelved.bytes] at htotal
        exact htotal.symm
      · refine List.nodup_append.mpr ⟨hc.shelved.nodup, List.nodup_singleton hash, ?_⟩
        intro a ha b hb hab
        rw [List.mem_singleton.mp hb] at hab
        rw [hab] at ha
        exact hnotin ha
      · show k ∈ c.order ++ [hash] ↔ ((c.held.set hash cert).get k).isSome
        rw [List.mem_append, List.mem_singleton, Map.get_set, hc.shelved.ordered]
        by_cases hk : k = hash
        · rw [if_pos hk]
          exact iff_of_true (.inr hk) rfl
        · rw [if_neg hk]
          exact or_iff_left hk
      · rcases Map.get_set_cases hk with ⟨rfl, rfl⟩ | ⟨-, hk⟩
        · exact hcert
        · exact hc.shelved.hashed k b hk
    obtain ⟨held, order, bytes, hevict, hshelved', hfew, hsmall⟩ := hshelved.evict_spec
      (n := c.order.length + 1) (by
        show (c.order ++ [hash]).length ≤ _
        rw [List.length_append]
        exact le_rfl)
    exact ⟨_, hevict, ⟨hshelved', hfew, hsmall, ⟨hc.awaited.lines, hc.awaited.fetching,
      hc.awaited.fetches, hc.awaited.fetchesOver, hc.awaited.waits, hc.awaited.waitsOver⟩⟩, rfl⟩

/-! ## Lines that wait -/

theorem overLink_eq (c : Certs α) (link : String) : c.overLink link =
    c.fetching.sumOf fun h l => if l = link then ((c.waiting.get h).getD []).length else 0 := by
  unfold overLink Map.sumOf
  induction c.fetching.entries with
  | nil => rfl
  | cons f t ih =>
    rw [List.filter_cons, List.map_cons, List.sum_cons, ← ih]
    dsimp only
    by_cases hf : f.2 = link
    · rw [decide_eq_true hf, if_pos rfl, if_pos hf, List.filterMap_cons]
      cases c.waiting.get f.1 with
      | none => exact (Nat.zero_add _).symm
      | some lines => rfl
    · rw [decide_eq_false hf, if_neg Bool.false_ne_true, if_neg hf, Nat.zero_add]

theorem waiting_le (m : Map Hash (List α)) (h : Hash) :
    (m.drop h).total List.length + ((m.get h).getD []).length = m.total List.length := by
  have htotal := Map.total_drop (m := m) List.length h
  have helim : (m.get h).elim 0 List.length = ((m.get h).getD []).length := by
    cases m.get h <;> rfl
  rwa [helim] at htotal

theorem countP_drop_le (m : Map Hash String) (h : Hash) (p : String → Bool) :
    (m.drop h).values.countP p ≤ m.values.countP p := by
  have htotal := Map.total_drop (m := m) (fun v => if p v then 1 else 0) h
  rw [Map.countP_values, Map.countP_values]
  omega

/-- A fetch ends, and the lines that waited for it wait no more. -/
theorem Awaited.done (hc : Awaited c) {held : Map Hash CertBytes} {order : List Hash} {bytes : Nat}
    {tried : Map Hash Nat} (hash : Hash) :
    Awaited { c with
      held, order, bytes, tried, fetching := c.fetching.drop hash, waiting := c.waiting.drop hash
      waitingLines := c.waitingLines - ((c.waiting.get hash).getD []).length } := by
  have hle := waiting_le c.waiting hash
  rw [← hc.lines] at hle
  refine ⟨?_, fun k hk => ?_, ?_, fun link => ?_, (Nat.sub_le _ _).trans hc.waits, fun link => ?_⟩
  · show c.waitingLines - _ = (c.waiting.drop hash).total List.length
    omega
  · change ((c.waiting.drop hash).get k).isSome = true at hk
    show ((c.fetching.drop hash).get k).isSome = true
    rw [Map.get_drop] at hk ⊢
    by_cases hkey : k = hash
    · rw [if_pos hkey] at hk
      cases hk
    · rw [if_neg hkey] at hk ⊢
      exact hc.fetching k hk
  · exact (Map.length_drop_le hash).trans hc.fetches
  · exact (countP_drop_le c.fetching hash _).trans (hc.fetchesOver link)
  · have hbound := hc.waitsOver link
    rw [overLink_eq] at hbound ⊢
    refine le_trans ?_ hbound
    show (c.fetching.drop hash).sumOf (fun h l =>
      if l = link then (((c.waiting.drop hash).get h).getD []).length else 0) ≤ _
    have hsum := Map.sumOf_drop (m := c.fetching)
      (fun h l => if l = link then ((c.waiting.get h).getD []).length else 0) hash
    have hkept : (c.fetching.drop hash).sumOf (fun h l =>
        if l = link then (((c.waiting.drop hash).get h).getD []).length else 0) =
        (c.fetching.drop hash).sumOf (fun h l => if l = link then ((c.waiting.get h).getD []).length else 0) := by
      refine Map.sumOf_congr fun k v hk => ?_
      obtain ⟨hne, -⟩ := Map.get_drop_some hk
      rw [Map.get_drop, if_neg hne]
    rw [hkept]
    omega

theorem Awaited.fetch (hc : Awaited c) (hnone : c.fetching.get hash = none)
    (hroom : c.fetching.size < maxFetching)
    (hover : c.fetching.values.countP (· = link) < fetchingPerLink) :
    Awaited { c with fetching := c.fetching.set hash link } := by
  have hidle : c.waiting.get hash = none := by
    cases hget : c.waiting.get hash with
    | none => rfl
    | some lines =>
      have hsome := hc.fetching hash (by rw [hget]; rfl)
      rw [hnone] at hsome
      cases hsome
  refine ⟨hc.lines, fun k hk => ?_, (Map.size_set_le hash link).trans hroom, fun l => ?_, hc.waits,
    fun l => ?_⟩
  · show ((c.fetching.set hash link).get k).isSome = true
    rw [Map.get_set]
    split
    · rfl
    · exact hc.fetching k hk
  · show (c.fetching.set hash link).values.countP _ ≤ _
    have htotal := Map.total_set (fun v => if (decide (v = l)) then 1 else 0) c.fetching hash link
    rw [hnone, Option.elim_none, Nat.add_zero, ← Map.countP_values, ← Map.countP_values] at htotal
    rw [htotal]
    by_cases hl : link = l
    · subst hl
      rw [decide_eq_true rfl, if_pos rfl]
      exact hover
    · rw [decide_eq_false hl, if_neg Bool.false_ne_true]
      exact hc.fetchesOver l
  · have hbound := hc.waitsOver l
    rw [overLink_eq] at hbound ⊢
    have hsum := Map.sumOf_set
      (fun h v => if v = l then ((c.waiting.get h).getD []).length else 0) c.fetching hash link
    rw [hnone, Option.elim_none, hidle, Option.getD_none, List.length_nil, ite_self] at hsum
    exact hsum.le.trans hbound

theorem Awaited.wait (hc : Awaited c) {line : α} (hget : c.fetching.get hash = some link)
    (hroom : c.waitingLines < maxWaiting) (hover : c.overLink link < waitingPerLink) :
    Awaited { c with
      waiting := c.waiting.set hash ((c.waiting.get hash).getD [] ++ [line])
      waitingLines := c.waitingLines + 1 } := by
  refine ⟨?_, fun k hk => ?_, hc.fetches, hc.fetchesOver, hroom, fun l => ?_⟩
  · have htotal := Map.total_set List.length c.waiting hash ((c.waiting.get hash).getD [] ++ [line])
    have helim : (c.waiting.get hash).elim 0 List.length =
        ((c.waiting.get hash).getD []).length := by
      cases c.waiting.get hash <;> rfl
    rw [helim, List.length_append, List.length_singleton, ← hc.lines] at htotal
    show c.waitingLines + 1 = (c.waiting.set hash _).total List.length
    omega
  · change ((c.waiting.set hash _).get k).isSome = true at hk
    rw [Map.get_set] at hk
    by_cases hkey : k = hash
    · rw [hkey]
      show (c.fetching.get hash).isSome = true
      rw [hget]
      rfl
    · rw [if_neg hkey] at hk
      exact hc.fetching k hk
  · have hbound := hc.waitsOver l
    rw [overLink_eq] at hbound hover ⊢
    -- the sums differ at this hash alone
    have hrest : ∀ l, (c.fetching.drop hash).sumOf (fun h v => if v = l then
          (((c.waiting.set hash ((c.waiting.get hash).getD [] ++ [line])).get h).getD []).length else 0) =
        (c.fetching.drop hash).sumOf fun h v =>
          if v = l then ((c.waiting.get h).getD []).length else 0 := by
      intro l
      refine Map.sumOf_congr fun k v hk => ?_
      obtain ⟨hne, -⟩ := Map.get_drop_some hk
      rw [Map.get_set, if_neg hne]
    have hnew := Map.sumOf_drop (m := c.fetching) (fun h v => if v = l then
      (((c.waiting.set hash ((c.waiting.get hash).getD [] ++ [line])).get h).getD []).length else 0) hash
    have hold := Map.sumOf_drop (m := c.fetching)
      (fun h v => if v = l then ((c.waiting.get h).getD []).length else 0) hash
    rw [hrest, hget, Option.elim_some, Map.get_set, if_pos rfl, Option.getD_some, List.length_append,
      List.length_singleton] at hnew
    rw [hget, Option.elim_some] at hold
    show c.fetching.sumOf (fun h v => if v = l then
      (((c.waiting.set hash ((c.waiting.get hash).getD [] ++ [line])).get h).getD []).length else 0) ≤ _
    by_cases hl : link = l
    · subst hl
      rw [if_pos rfl] at hnew hold
      omega
    · rw [if_neg hl] at hnew hold
      omega

/-! ## Runs -/

theorem Books.retried (hc : Books sha256 c) (tried : Map Hash Nat) :
    Books sha256 { c with tried } :=
  ⟨⟨hc.shelved.bytes, hc.shelved.nodup, hc.shelved.ordered, hc.shelved.hashed⟩, hc.few, hc.small,
    ⟨hc.awaited.lines, hc.awaited.fetching, hc.awaited.fetches, hc.awaited.fetchesOver, hc.awaited.waits,
      hc.awaited.waitsOver⟩⟩

theorem Books.shouldFetch_spec (hc : Books sha256 c) (hash : Hash) (link : String) (now : Nat) :
    Books sha256 (c.shouldFetch hash link now).2 ∧
      (c.shouldFetch hash link now).2.waiting = c.waiting := by
  unfold shouldFetch
  dsimp only
  split
  · exact ⟨hc.retried _, rfl⟩
  · rename_i hno
    simp only [Bool.or_eq_true, decide_eq_true_iff, not_or, Nat.not_le, ge_iff_le] at hno
    obtain ⟨⟨⟨⟨-, hnone⟩, -⟩, hroom⟩, hover⟩ := hno
    have hc' := hc.retried (c.tried.filter fun t => now - t.2 < retryAfter)
    have hnone : c.fetching.get hash = none := by
      rwa [Bool.not_eq_true, Option.isSome_eq_false_iff, Option.isNone_iff_eq_none] at hnone
    exact ⟨⟨⟨hc'.shelved.bytes, hc'.shelved.nodup, hc'.shelved.ordered, hc'.shelved.hashed⟩, hc'.few,
      hc'.small, hc'.awaited.fetch hnone hroom hover⟩, rfl⟩

/-- A fetch that ends gives back what waited for it, or drops it. -/
theorem Books.fetched_spec (hc : Books sha256 c) (hash : Hash) (cert : Option CertBytes) (now : Nat) :
    ∃ r c', c.fetched sha256 hash cert now = some (r, c') ∧ Books sha256 c' ∧
      c'.waiting = c.waiting.drop hash ∧ ∀ b lines, r = some (b, lines) →
        lines = (c.waiting.get hash).getD [] := by
  have hle := waiting_le c.waiting hash
  rw [← hc.awaited.lines] at hle
  unfold fetched
  dsimp only
  rw [minus_of_le (by omega), Option.bind_some]
  cases hcert : cert.filter fun b => b.length ≤ Identity.certMaxBytes && sha256 b = hash with
  | none =>
    exact ⟨none, _, rfl, ⟨⟨hc.shelved.bytes, hc.shelved.nodup, hc.shelved.ordered, hc.shelved.hashed⟩,
      hc.few, hc.small, hc.awaited.done hash⟩, rfl, fun b lines h => by cases h⟩
  | some b =>
    obtain ⟨-, hgood⟩ := Option.filter_eq_some_iff.mp hcert
    rw [Bool.and_eq_true, decide_eq_true_iff, decide_eq_true_iff] at hgood
    have hdone : Books sha256 { c with
        fetching := c.fetching.drop hash, waiting := c.waiting.drop hash
        waitingLines := c.waitingLines - ((c.waiting.get hash).getD []).length } :=
      ⟨⟨hc.shelved.bytes, hc.shelved.nodup, hc.shelved.ordered, hc.shelved.hashed⟩, hc.few, hc.small,
        hc.awaited.done hash⟩
    obtain ⟨c', hc', hbooks, hwaiting⟩ := hdone.insert_spec hgood.2
    dsimp only
    rw [hc', Option.map_some]
    refine ⟨_, c', rfl, hbooks, hwaiting, fun b' lines h => ?_⟩
    cases h
    rfl

theorem Books.logged_spec (hc : Books sha256 c) (hash : Hash) (line : α) :
    Books sha256 (c.logged hash line).2 ∧
      (((c.logged hash line).2.waiting = c.waiting ∧
          ∀ b x, (c.logged hash line).1 = some (b, x) → x = line) ∨
        ((c.logged hash line).1 = none ∧ (c.logged hash line).2.waiting =
          c.waiting.set hash ((c.waiting.get hash).getD [] ++ [line]))) := by
  unfold logged
  cases c.held.get hash with
  | some cert =>
    refine ⟨hc, .inl ⟨rfl, fun b x h => ?_⟩⟩
    cases h
    rfl
  | none =>
    cases hget : c.fetching.get hash with
    | none => exact ⟨hc, .inl ⟨rfl, fun b x h => by cases h⟩⟩
    | some link =>
      dsimp only
      split
      · rename_i hroom
        exact ⟨⟨⟨hc.shelved.bytes, hc.shelved.nodup, hc.shelved.ordered, hc.shelved.hashed⟩, hc.few,
          hc.small, hc.awaited.wait hget hroom.1 hroom.2⟩, .inr ⟨rfl, rfl⟩⟩
      · exact ⟨hc, .inl ⟨rfl, fun b x h => by cases h⟩⟩

section Run
variable [DecidableEq α] {ops : List (Op α)} {given : List α}

/-- What a run has come to: the books, what waits on each hash among what was logged under it since its
last fetch ended, and each line given back or waiting at most as often as it was passed. -/
structure Ran (sha256 : CertBytes → Hash) (ops : List (Op α)) (given : List α) (c : Certs α) : Prop where
  books : Books sha256 c
  since : ∀ h, ((c.waiting.get h).getD []).Sublist (since h ops)
  once : ∀ x, given.count x + c.waiting.total (List.count x) ≤ (passed ops).count x

omit [DecidableEq α] in
theorem passed_append (ops : List (Op α)) (op : Op α) :
    passed (ops ++ [op]) = passed ops ++ passed [op] := List.filterMap_append

omit [DecidableEq α] in
theorem since_append (h : Hash) (ops : List (Op α)) (op : Op α) :
    Certs.since h (ops ++ [op]) =
      match op with
      | .fetched h' _ _ => if h' = h then [] else Certs.since h ops
      | .logged h' line => if h' = h then Certs.since h ops ++ [line] else Certs.since h ops
      | _ => Certs.since h ops := by
  unfold Certs.since
  rw [List.foldl_append]
  cases op <;> rfl

theorem count_total (m : Map Hash (List α)) (h : Hash) (x : α) :
    (m.drop h).total (List.count x) + ((m.get h).getD []).count x = m.total (List.count x) := by
  have htotal := Map.total_drop (m := m) (List.count x) h
  have helim : (m.get h).elim 0 (List.count x) = ((m.get h).getD []).count x := by
    cases m.get h <;> rfl
  rwa [helim] at htotal

theorem Ran.step (hran : Ran sha256 ops given c) (op : Op α) :
    ∃ more c', c.step sha256 op = some (more, c') ∧ Ran sha256 (ops ++ [op]) (given ++ more) c' := by
  cases op with
  | shouldFetch hash link now =>
    obtain ⟨hbooks, hwaiting⟩ := hran.books.shouldFetch_spec hash link now
    refine ⟨[], _, rfl, hbooks, fun h => ?_, fun x => ?_⟩
    · rw [since_append, hwaiting]
      exact hran.since h
    · rw [passed_append, hwaiting, List.append_nil]
      exact (hran.once x).trans (List.Sublist.count_le _ (List.sublist_append_left ..))
  | fetched hash cert now =>
    obtain ⟨r, c', hc', hbooks, hwaiting, hgiven⟩ := hran.books.fetched_spec hash cert now
    refine ⟨_, c', congrArg (Option.map _) hc', hbooks, fun h => ?_, fun x => ?_⟩
    · rw [since_append, hwaiting, Map.get_drop]
      by_cases hh : h = hash
      · subst hh
        rw [if_pos rfl]
        exact List.nil_sublist _
      · rw [if_neg hh]
        dsimp only
        rw [if_neg (Ne.symm hh)]
        exact hran.since h
    · have htotal := count_total c.waiting hash x
      have honce := hran.once x
      have hmore : (r.elim [] (·.2)).count x ≤ ((c.waiting.get hash).getD []).count x := by
        cases r with
        | none => exact Nat.zero_le _
        | some bl =>
          obtain ⟨b, lines⟩ := bl
          exact (congrArg (List.count x) (hgiven b lines rfl)).le
      rw [passed_append, hwaiting, List.count_append]
      refine le_trans ?_ (List.Sublist.count_le _ (List.sublist_append_left ..))
      omega
  | logged hash line =>
    obtain ⟨hbooks, hcases⟩ := hran.books.logged_spec hash line
    refine ⟨_, _, rfl, hbooks, fun h => ?_, fun x => ?_⟩
    · rw [since_append]
      dsimp only
      rcases hcases with ⟨hwaiting, -⟩ | ⟨-, hwaiting⟩
      · rw [hwaiting]
        split
        · exact (hran.since h).trans (List.sublist_append_left ..)
        · exact hran.since h
      · rw [hwaiting, Map.get_set]
        by_cases hh : h = hash
        · subst hh
          rw [if_pos rfl, if_pos rfl]
          exact (hran.since h).append_right [line]
        · rw [if_neg hh, if_neg (Ne.symm hh)]
          exact hran.since h
    · have honce := hran.once x
      rw [passed_append, List.count_append, List.count_append]
      show _ + _ + _ ≤ _ + [line].count x
      rcases hcases with ⟨hwaiting, hback⟩ | ⟨hnone, hwaiting⟩
      · rw [hwaiting]
        have hone : ((c.logged hash line).1.elim [] fun r => [r.2]).count x ≤ [line].count x := by
          cases hr : (c.logged hash line).1 with
          | none => exact Nat.zero_le _
          | some br =>
            obtain ⟨b, y⟩ := br
            rw [hback b y hr]
            exact le_rfl
        omega
      · have htotal := Map.total_set (List.count x) c.waiting hash ((c.waiting.get hash).getD [] ++ [line])
        have helim : (c.waiting.get hash).elim 0 (List.count x) =
            ((c.waiting.get hash).getD []).count x := by
          cases c.waiting.get hash <;> rfl
        rw [helim, List.count_append] at htotal
        rw [hnone, hwaiting, Option.elim_none, List.count_nil]
        omega
  | rehash tried =>
    have hbooks : Books sha256 (if tried.entries.Perm c.tried.entries then { c with tried } else c) := by
      split
      · exact hran.books.retried tried
      · exact hran.books
    have hwaiting : (if tried.entries.Perm c.tried.entries then { c with tried } else c).waiting =
        c.waiting := by
      split <;> rfl
    refine ⟨[], _, rfl, hbooks, fun h => ?_, fun x => ?_⟩
    · rw [since_append, hwaiting]
      exact hran.since h
    · rw [passed_append, hwaiting, List.append_nil]
      exact (hran.once x).trans (List.Sublist.count_le _ (List.sublist_append_left ..))

omit [DecidableEq α] in
theorem run_append (c : Certs α) (ops : List (Op α)) (op : Op α) :
    run sha256 c (ops ++ [op]) = (run sha256 c ops).bind fun r =>
      (r.2.step sha256 op).map fun s => (r.1 ++ s.1, s.2) := by
  induction ops generalizing c with
  | nil =>
    show (c.step sha256 op).bind (fun r => some (r.1 ++ [], r.2)) = (c.step sha256 op).map _
    cases c.step sha256 op with
    | none => rfl
    | some r =>
      rw [Option.bind_some, List.append_nil]
      rfl
  | cons first ops ih =>
    show (c.step sha256 first).bind _ = ((c.step sha256 first).bind _).bind _
    cases c.step sha256 first with
    | none => rfl
    | some r =>
      rw [Option.bind_some, Option.bind_some]
      dsimp only
      have ih := ih r.2
      rw [List.append_eq] at *
      rw [ih]
      cases run sha256 r.2 ops with
      | none => rfl
      | some s =>
        rw [Option.bind_some, Option.map_some, Option.bind_some]
        dsimp only
        cases s.2.step sha256 op with
        | none => rfl
        | some u =>
          rw [Option.map_some, Option.map_some, Option.map_some]
          exact congrArg (fun l => some (l, u.2)) (List.append_assoc ..).symm

theorem Ran.new : Ran sha256 ([] : List (Op α)) [] {} := by
  have hnone : ∀ h : Hash, ¬((Map.empty : Map Hash (List α)).get h).isSome = true := fun h hh => by
    cases hh
  refine ⟨⟨⟨rfl, List.nodup_nil, fun h => iff_of_false List.not_mem_nil Bool.false_ne_true,
    fun h cert hh => by cases hh⟩, Nat.zero_le _, Nat.zero_le _, ⟨rfl, fun h hh => absurd hh (hnone h),
    Nat.zero_le _, fun link => Nat.zero_le _, Nat.zero_le _, fun link => Nat.zero_le _⟩⟩,
    fun h => List.Sublist.refl [], fun x => le_rfl⟩

theorem Ran.run (sha256 : CertBytes → Hash) (ops : List (Op α)) :
    ∃ given c, Certs.run sha256 {} ops = some (given, c) ∧ Ran sha256 ops given c := by
  induction ops using List.reverseRecOn with
  | nil => exact ⟨[], {}, rfl, .new⟩
  | append_singleton ops op ih =>
    obtain ⟨given, c, hc, hran⟩ := ih
    obtain ⟨more, c', hc', hran'⟩ := hran.step op
    refine ⟨_, c', ?_, hran'⟩
    rw [run_append, hc, Option.bind_some, hc']
    rfl

/-- Over every run no count goes below zero and the books are right; a line is given back at most as often
as it was passed: at once, or by the call that ends the fetch it was logged under. -/
theorem certs_books (sha256 : CertBytes → Hash) (ops : List (Op α)) :
    ∃ given c, Certs.run sha256 {} ops = some (given, c) ∧ Books sha256 c ∧
      (∀ x, given.count x ≤ (passed ops).count x) ∧
      (∀ hash line b x, (c.logged hash line).1 = some (b, x) → x = line) ∧
      ∀ hash cert now b lines c', c.fetched sha256 hash cert now = some (some (b, lines), c') →
        lines.Sublist (Certs.since hash ops) := by
  obtain ⟨given, c, hc, hran⟩ := Ran.run sha256 ops
  refine ⟨given, c, hc, hran.books, fun x => (Nat.le_add_right _ _).trans (hran.once x),
    fun hash line b x h => ?_, fun hash cert now b lines c' h => ?_⟩
  · rcases (hran.books.logged_spec hash line).2 with ⟨-, hback⟩ | ⟨hnone, -⟩
    · exact hback b x h
    · rw [hnone] at h
      cases h
  · obtain ⟨r, c'', hc'', -, -, hgiven⟩ := hran.books.fetched_spec hash cert now
    rw [h] at hc''
    obtain ⟨hr, -⟩ := Prod.mk.inj (Option.some.inj hc'')
    rw [hgiven b lines hr.symm]
    exact hran.since hash

end Run

end Certs

end HxdNg.Link
