import HxdNg.Reaction.Waiting

/-!
# The books of what waits

* `Books` : the count is what the queues hold, each queue is in order of time with one change a key,
  and every change is in the order under the key it waits for;
* `Books.giveUp_spec` : the server-wide bound gives up the oldest first;
* `waiting_exact` : over whole runs.
-/

namespace HxdNg.Reaction

open Relationships Assoc

/-- In order of time, one change of each identity and each number. -/
structure Orderly (queue : List Waiting) : Prop where
  sorted : queue.Pairwise fun w w' => w.at_ ≤ w'.at_
  latest : (queue.map Waiting.identityOf).Nodup
  seqs : (queue.map Waiting.seq).Nodup

namespace LiveIm

/-- `w` waits for `k`. -/
def Waits (l : LiveIm) (k : Key) (w : Waiting) : Prop := ∃ queue, l.waiting.get k = some queue ∧ w ∈ queue

structure Books (l : LiveIm) : Prop where
  len : l.waitingLen = l.waiting.total List.length
  orderly : ∀ k queue, l.waiting.get k = some queue → Orderly queue
  nonempty : ∀ k queue, l.waiting.get k = some queue → queue ≠ []
  short : ∀ k queue, l.waiting.get k = some queue → queue.length ≤ imWaiting
  covered : ∀ k w, l.Waits k w → (w.place, k) ∈ l.order.entries
  single : ∀ e ∈ l.order.entries, ∀ e' ∈ l.order.entries,
    (ofLex e.1).2 = (ofLex e'.1).2 → e = e'
  minted : ∀ e ∈ l.order.entries, (ofLex e.1).2 ≤ l.nextSeq

end LiveIm

theorem Orderly.sublist {q q' : List Waiting} (h : Orderly q) (hs : q'.Sublist q) : Orderly q' :=
  ⟨h.sorted.sublist hs, h.latest.sublist (hs.map _), h.seqs.sublist (hs.map _)⟩

namespace LiveIm
variable {l l' : LiveIm} {k : Key} {w : Waiting} {queue : List Waiting} {m : Map Key (List Waiting)}

/-! ## The queues -/

theorem get_putQueue (k' : Key) : (putQueue m k queue).get k' =
    if k' = k then (if queue.isEmpty then none else some queue) else m.get k' := by
  unfold putQueue
  split
  · exact Map.get_drop k k'
  · exact Map.get_set k queue k'

theorem total_putQueue : (putQueue m k queue).total List.length + ((m.get k).getD []).length =
    m.total List.length + queue.length := by
  have helim : (m.get k).elim 0 List.length = ((m.get k).getD []).length := by
    cases m.get k <;> rfl
  unfold putQueue
  split
  · rename_i hempty
    have h := Map.total_drop (m := m) List.length k
    rw [helim] at h
    rw [List.isEmpty_iff.mp hempty]
    exact h
  · have h := Map.total_set List.length m k queue
    rw [helim] at h
    exact h

theorem length_le_total (h : m.get k = some queue) : queue.length ≤ m.total List.length := by
  have htotal := Map.total_drop (m := m) List.length k
  rw [h, Option.elim_some] at htotal
  omega

theorem queue_le (m : Map Key (List Waiting)) (k : Key) :
    ((m.get k).getD []).length ≤ m.total List.length := by
  cases hget : m.get k with
  | none => exact Nat.zero_le _
  | some queue => exact length_le_total hget

theorem get_retain {p : Waiting → Bool} {q' : List Waiting} (h : (retain p m).get k = some q') :
    ∃ q, m.get k = some q ∧ q' = q.filter p ∧ q' ≠ [] := by
  unfold retain at h
  rw [Map.get_filter, Option.filter_eq_some_iff, Map.get_mapVals, Option.map_eq_some_iff] at h
  obtain ⟨⟨q, hq, rfl⟩, hempty⟩ := h
  exact ⟨q, hq, rfl, fun hnil => by rw [hnil] at hempty; cases hempty⟩

theorem total_retain_le (p : Waiting → Bool) : (retain p m).total List.length ≤ m.total List.length :=
  (Map.total_filter_le _ _ _).trans
    (Map.total_mapVals_le _ _ _ fun _ queue => List.length_filter_le p queue)

theorem mem_places {e : (Instant ×ₗ Nat) × Key} :
    e ∈ places m ↔ ∃ queue, m.get e.2 = some queue ∧ ∃ w ∈ queue, w.place = e.1 := by
  unfold places
  rw [List.mem_flatMap]
  constructor
  · rintro ⟨⟨k, queue⟩, hin, he⟩
    obtain ⟨w, hw, rfl⟩ := List.mem_map.mp he
    exact ⟨queue, Map.mem_entries_iff.mp hin, w, hw, rfl⟩
  · rintro ⟨queue, hget, w, hw, hplace⟩
    refine ⟨(e.2, queue), Map.mem_entries_iff.mpr hget, List.mem_map.mpr ⟨w, hw, ?_⟩⟩
    rw [hplace]

theorem length_places : (places m).length = m.total List.length := by
  unfold places Map.total
  rw [List.length_flatMap]
  exact congrArg List.sum (List.map_congr_left fun kv _ => List.length_map ..)

/-! ## Fewer changes -/

/-- Books stay right where queues are cut short, and the order loses entries of changes gone. -/
theorem Books.shrink (h : Books l) (hnext : l'.nextSeq = l.nextSeq)
    (hlen : l'.waitingLen = l'.waiting.total List.length)
    (hqueue : ∀ k q', l'.waiting.get k = some q' →
      q' ≠ [] ∧ ∃ q, l.waiting.get k = some q ∧ q'.Sublist q)
    (hsub : ∀ e ∈ l'.order.entries, e ∈ l.order.entries)
    (hkept : ∀ k w, l'.Waits k w → (w.place, k) ∈ l.order.entries → (w.place, k) ∈ l'.order.entries) :
    Books l' := by
  refine ⟨hlen, fun k q' hget => ?_, fun k q' hget => (hqueue k q' hget).1, fun k q' hget => ?_,
    fun k w hw => ?_, fun e he e' he' => h.single e (hsub e he) e' (hsub e' he'), fun e he => ?_⟩
  · obtain ⟨-, q, hq, hs⟩ := hqueue k q' hget
    exact (h.orderly k q hq).sublist hs
  · obtain ⟨-, q, hq, hs⟩ := hqueue k q' hget
    exact hs.length_le.trans (h.short k q hq)
  · refine hkept k w hw ?_
    obtain ⟨q', hget, hin⟩ := hw
    obtain ⟨-, q, hq, hs⟩ := hqueue k q' hget
    exact h.covered k w ⟨q, hq, hs.subset hin⟩
  · rw [hnext]
    exact h.minted e (hsub e he)

/-- Counting again leaves the books right, and the order at most twice what waits. -/
theorem Books.recount (h : Books { l with waitingLen := l.waiting.total List.length }) :
    Books l.recount ∧ l.recount.order.size ≤ 2 * l.recount.waitingLen := by
  by_cases hmore : l.order.size > 2 * l.waiting.total List.length
  · have horder : l.recount.order = .ofList (places l.waiting) := if_pos hmore
    have hin : ∀ e ∈ places l.waiting, e ∈ l.order.entries := by
      intro e he
      obtain ⟨queue, hget, w, hw, hplace⟩ := mem_places.mp he
      have hcov := h.covered e.2 w ⟨queue, hget, hw⟩
      rwa [hplace] at hcov
    constructor
    · refine h.shrink rfl rfl (fun k q hget => ⟨h.nonempty k q hget, q, hget, List.Sublist.refl q⟩)
        (fun e he => ?_) (fun k w hw _ => ?_)
      · rw [horder] at he
        exact hin e (SortedMap.mem_of_mem_ofList he)
      · rw [horder]
        obtain ⟨queue, hget, hmem⟩ := hw
        have hplace : (w.place, k) ∈ places l.waiting := mem_places.mpr ⟨queue, hget, w, hmem, rfl⟩
        refine SortedMap.mem_ofList hplace fun e' he' hkey => ?_
        exact SortedMap.eq_of_key (hin e' he') (hin _ hplace) hkey
    · rw [horder]
      refine SortedMap.size_ofList_le.trans ?_
      rw [length_places]
      show _ ≤ 2 * l.waiting.total List.length
      omega
  · have horder : l.recount.order = l.order := if_neg hmore
    constructor
    · refine h.shrink rfl rfl (fun k q hget => ⟨h.nonempty k q hget, q, hget, List.Sublist.refl q⟩)
        (fun e he => ?_) (fun k w _ hcov => ?_)
      · rwa [horder] at he
      · rw [horder]
        exact hcov
    · rw [horder]
      exact Nat.le_of_not_gt hmore

theorem Books.retain (h : Books l) (p : Waiting → Bool) (drains : Map Nat Drain)
    (hsub : ∀ k q, m.get k = some q → l.waiting.get k = some q) :
    Books (LiveIm.recount { l with waiting := LiveIm.retain p m, drains }) := by
  have hless : Books { l with
      waiting := LiveIm.retain p m, drains, waitingLen := (LiveIm.retain p m).total List.length } := by
    refine h.shrink rfl rfl (fun k q' hget => ?_) (fun e he => he) fun k w _ hcov => hcov
    obtain ⟨q, hq, rfl, hne⟩ := get_retain hget
    exact ⟨hne, q, hsub k q hq, List.filter_sublist⟩
  exact (Books.recount (l := { l with waiting := LiveIm.retain p m, drains }) hless).1

/-! ## The server-wide bound -/

theorem Books.pop {place : Instant ×ₗ Nat} {order : SortedMap (Instant ×ₗ Nat) Key} (h : Books l)
    (hpop : l.order.popFirst = some ((place, k), order))
    (hgone : ∀ w, l.Waits k w → w.place ≠ place) : Books { l with order } := by
  obtain ⟨hentries, -⟩ := SortedMap.popFirst_some hpop
  refine h.shrink rfl h.len (fun k q hget => ⟨h.nonempty k q hget, q, hget, List.Sublist.refl q⟩)
    (fun e he => ?_) (fun k' w hw hcov => ?_)
  · rw [hentries]
    exact List.mem_cons_of_mem _ he
  · rw [hentries] at hcov
    rcases List.mem_cons.mp hcov with heq | hcov
    · cases heq
      exact absurd rfl (hgone w hw)
    · exact hcov

theorem waits_put_eraseIdx {i : Nat} (hget : l.waiting.get k = some queue) (hi : i < queue.length)
    {k' : Key} {w' : Waiting} {waitingLen : Nat} {order : SortedMap (Instant ×ₗ Nat) Key}
    (hw : l.Waits k' w') :
    ({ l with order, waitingLen, waiting := putQueue l.waiting k (queue.eraseIdx i) } : LiveIm).Waits k' w' ∨
      (k' = k ∧ w' = queue[i]) := by
  obtain ⟨q, hq, hin⟩ := hw
  by_cases hk : k' = k
  · subst hk
    obtain rfl := Option.some.inj (hget.symm.trans hq)
    by_cases hw' : w' ∈ queue.eraseIdx i
    · refine .inl ⟨queue.eraseIdx i, ?_, hw'⟩
      show (putQueue _ _ _).get _ = _
      rw [get_putQueue, if_pos rfl, if_neg]
      intro hempty
      rw [List.isEmpty_iff.mp hempty] at hw'
      exact absurd hw' List.not_mem_nil
    · refine .inr ⟨rfl, ?_⟩
      obtain ⟨j, hj, rfl⟩ := List.mem_iff_getElem.mp hin
      by_cases hij : j = i
      · subst hij
        rfl
      · exact absurd (List.mem_eraseIdx_iff_getElem.mpr ⟨j, hj, hij, rfl⟩) hw'
  · refine .inl ⟨q, ?_, hin⟩
    show (putQueue _ _ _).get _ = _
    rw [get_putQueue, if_neg hk]
    exact hq

/-- `l'` is what the server-wide bound leaves of `l`: as many as may wait, all that goes being before all
that stays. -/
structure GivenUp (l l' : LiveIm) : Prop where
  books : Books l'
  len : l'.waitingLen = min l.waitingLen l.waitingAll
  size : l'.order.size ≤ l.order.size
  nextSeq : l'.nextSeq = l.nextSeq
  waitingAll : l'.waitingAll = l.waitingAll
  kept : ∀ k w, l'.Waits k w → l.Waits k w
  oldest : ∀ k w, l.Waits k w → l'.Waits k w ∨ ∀ k' w', l'.Waits k' w' → w.place < w'.place

theorem GivenUp.few (h : Books l) (hfew : l.waitingLen ≤ l.waitingAll) : GivenUp l l :=
  ⟨h, (Nat.min_eq_left hfew).symm, le_rfl, rfl, rfl, fun _ _ hw => hw, fun _ _ hw => .inl hw⟩

theorem Books.len_eq_zero (h : Books l) (hempty : l.order.entries = []) : l.waitingLen = 0 := by
  rw [h.len, Map.total, List.sum_eq_zero_iff]
  intro x hx
  obtain ⟨⟨k, queue⟩, hin, rfl⟩ := List.mem_map.mp hx
  have hget := Map.mem_entries_iff.mp hin
  obtain ⟨w, hw⟩ := List.exists_mem_of_ne_nil _ (h.nonempty k queue hget)
  have hcov := h.covered k w ⟨queue, hget, hw⟩
  rw [hempty] at hcov
  exact absurd hcov List.not_mem_nil

theorem place_eq {place : Instant ×ₗ Nat} (h : Books l) (hin : (place, k) ∈ l.order.entries)
    {k' : Key} (hw : l.Waits k' w) (hseq : w.seq = (ofLex place).2) : w.place = place ∧ k' = k := by
  have heq := h.single _ (h.covered k' w hw) _ hin hseq
  exact ⟨congrArg Prod.fst heq, congrArg Prod.snd heq⟩

/-- The first in the order goes, where its change still waits. -/
theorem Books.first {place : Instant ×ₗ Nat} {order : SortedMap (Instant ×ₗ Nat) Key} {i : Nat}
    (h : Books l) (hpop : l.order.popFirst = some ((place, k), order))
    (hget : l.waiting.get k = some queue)
    (hi : queue.findIdx? (fun w => w.seq = (ofLex place).2) = some i) :
    1 ≤ l.waitingLen ∧
    Books { l with
      order, waitingLen := l.waitingLen - 1, waiting := putQueue l.waiting k (queue.eraseIdx i) } := by
  obtain ⟨hentries, -⟩ := SortedMap.popFirst_some hpop
  have hfirst : (place, k) ∈ l.order.entries := by
    rw [hentries]
    exact List.mem_cons_self
  obtain ⟨hlt, hseq, -⟩ := List.findIdx?_eq_some_iff_getElem.mp hi
  have hseq := of_decide_eq_true hseq
  have htotal : (putQueue l.waiting k (queue.eraseIdx i)).total List.length +
      ((l.waiting.get k).getD []).length = _ := total_putQueue
  rw [hget, Option.getD_some, List.length_eraseIdx_of_lt hlt, ← h.len] at htotal
  have hpos := length_le_total hget
  rw [← h.len] at hpos
  refine ⟨by omega, h.shrink rfl ?_ (fun k' q' hq' => ?_) (fun e he => ?_)
    (fun k' w' hw' hcov => ?_)⟩
  · show l.waitingLen - 1 = (putQueue l.waiting k (queue.eraseIdx i)).total List.length
    omega
  · change (putQueue _ _ _).get k' = _ at hq'
    rw [get_putQueue] at hq'
    split at hq'
    · rename_i hk
      subst hk
      split at hq'
      · cases hq'
      · rename_i hne
        cases hq'
        exact ⟨fun hnil => hne (List.isEmpty_iff.mpr hnil), queue, hget, List.eraseIdx_sublist ..⟩
    · exact ⟨h.nonempty k' q' hq', q', hq', List.Sublist.refl q'⟩
  · rw [hentries]
    exact List.mem_cons_of_mem _ he
  · rw [hentries] at hcov
    rcases List.mem_cons.mp hcov with heq | hcov
    · exfalso
      obtain ⟨hplace, rfl⟩ := Prod.mk.inj heq
      obtain ⟨q', hq', hin⟩ := hw'
      change (putQueue _ _ _).get k' = _ at hq'
      rw [get_putQueue, if_pos rfl] at hq'
      split at hq'
      · cases hq'
      · cases hq'
        obtain ⟨j, hj, hji, rfl⟩ := List.mem_eraseIdx_iff_getElem.mp hin
        have hsame : queue[j].seq = queue[i].seq := by
          rw [hseq, ← hplace]
          rfl
        have hnodup := (h.orderly _ _ hget).seqs
        have hpair := List.nodup_iff_getElem?_ne_getElem?.mp hnodup
        rcases Nat.lt_or_gt_of_ne hji with hlt' | hlt'
        · refine hpair j i hlt' (by rwa [List.length_map]) ?_
          rw [List.getElem?_map, List.getElem?_map, List.getElem?_eq_getElem hj,
            List.getElem?_eq_getElem hlt, Option.map_some, Option.map_some, hsame]
        · refine hpair i j hlt' (by rwa [List.length_map]) ?_
          rw [List.getElem?_map, List.getElem?_map, List.getElem?_eq_getElem hj,
            List.getElem?_eq_getElem hlt, Option.map_some, Option.map_some, hsame]
    · exact hcov

theorem Books.giveUp_spec {n : Nat} (h : Books l) (hn : l.order.size ≤ n) :
    ∃ l', giveUp n l = some l' ∧ GivenUp l l' := by
  induction n generalizing l with
  | zero =>
    have hzero := h.len_eq_zero (List.length_eq_zero_iff.mp (Nat.le_zero.mp hn))
    exact ⟨l, rfl, .few h (by omega)⟩
  | succ n ih =>
    by_cases hfew : l.waitingLen ≤ l.waitingAll
    · exact ⟨l, if_pos hfew, .few h hfew⟩
    cases hpop : l.order.popFirst with
    | none => exact absurd (h.len_eq_zero (SortedMap.popFirst_none hpop)) (by omega)
    | some first =>
      obtain ⟨⟨place, k⟩, order⟩ := first
      obtain ⟨hentries, hbefore⟩ := SortedMap.popFirst_some hpop
      have hsize : l.order.size = order.size + 1 := congrArg List.length hentries
      have hfirst : (place, k) ∈ l.order.entries := by
        rw [hentries]
        exact List.mem_cons_self
      -- an entry whose change has gone is passed over
      have hpass (hgone : ∀ w, l.Waits k w → w.place ≠ place) :
          ∃ l', giveUp n { l with order } = some l' ∧ GivenUp l l' := by
        obtain ⟨l', hl', hup⟩ := ih (l := { l with order }) (h.pop hpop hgone) (by
          show order.size ≤ n
          omega)
        refine ⟨l', hl', ⟨hup.books, hup.len, hup.size.trans ?_, hup.nextSeq, hup.waitingAll, hup.kept,
          hup.oldest⟩⟩
        show order.size ≤ _
        omega
      unfold giveUp
      rw [if_neg hfew, hpop]
      dsimp only
      cases hget : l.waiting.get k with
      | none =>
        refine hpass fun w hw => ?_
        obtain ⟨q, hq, -⟩ := hw
        rw [hget] at hq
        cases hq
      | some queue =>
        cases hi : queue.findIdx? fun w => w.seq = (ofLex place).2 with
        | none =>
          dsimp only
          rw [hi]
          refine hpass fun w hw hplace => ?_
          obtain ⟨q, hq, hin⟩ := hw
          obtain rfl := Option.some.inj (hget.symm.trans hq)
          have hne := List.findIdx?_eq_none_iff.mp hi w hin
          rw [← hplace] at hne
          exact absurd rfl (of_decide_eq_false hne)
        | some i =>
          obtain ⟨hpos, hbooks⟩ := h.first hpop hget hi
          obtain ⟨hlt, hseq, -⟩ := List.findIdx?_eq_some_iff_getElem.mp hi
          have hplace := (place_eq h hfirst ⟨queue, hget, List.getElem_mem hlt⟩
            (of_decide_eq_true hseq)).1
          obtain ⟨l', hl', hup⟩ := ih hbooks (by
            show order.size ≤ n
            omega)
          dsimp only
          rw [hi]
          dsimp only
          rw [minus_of_le hpos, Option.bind_some]
          have hless : ∀ k w, l'.Waits k w → l.Waits k w := by
            intro k' w' hw'
            obtain ⟨q', hq', hin⟩ := hup.kept k' w' hw'
            change (putQueue _ _ _).get k' = _ at hq'
            rw [get_putQueue] at hq'
            split at hq'
            · rename_i hk
              subst hk
              split at hq'
              · cases hq'
              · cases hq'
                exact ⟨queue, hget, (List.eraseIdx_sublist ..).subset hin⟩
            · exact ⟨q', hq', hin⟩
          refine ⟨l', hl', ⟨hup.books, ?_, hup.size.trans ?_, hup.nextSeq, hup.waitingAll, hless,
            fun k' w' hw' => ?_⟩⟩
          · rw [hup.len]
            show min (l.waitingLen - 1) l.waitingAll = _
            omega
          · show order.size ≤ _
            omega
          · rcases waits_put_eraseIdx hget hlt hw' with hleft | ⟨rfl, rfl⟩
            · exact hup.oldest k' w' hleft
            · refine .inr fun k₂ w₂ hw₂ => ?_
              rw [hplace]
              exact hbefore _ (hbooks.covered k₂ w₂ (hup.kept k₂ w₂ hw₂))

/-! ## Joining a queue -/

/-- A change put after those no later than it leaves a queue in order of time. -/
theorem sorted_place (h : queue.Pairwise fun w w' => w.at_ ≤ w'.at_) :
    (queue.takeWhile (·.at_ ≤ w.at_) ++ w :: queue.dropWhile (·.at_ ≤ w.at_)).Pairwise
      fun w w' => w.at_ ≤ w'.at_ := by
  induction queue with
  | nil => exact List.pairwise_singleton _ w
  | cons a t ih =>
    obtain ⟨hhead, htail⟩ := List.pairwise_cons.mp h
    by_cases ha : a.at_ ≤ w.at_
    · rw [List.takeWhile_cons, List.dropWhile_cons, decide_eq_true ha, if_pos rfl, if_pos rfl,
        List.cons_append]
      refine List.pairwise_cons.mpr ⟨fun x hx => ?_, ih htail⟩
      rcases List.mem_append.mp hx with hx | hx
      · exact hhead x ((List.takeWhile_sublist _).subset hx)
      · rcases List.mem_cons.mp hx with rfl | hx
        · exact ha
        · exact hhead x ((List.dropWhile_sublist _).subset hx)
    · rw [List.takeWhile_cons, List.dropWhile_cons, decide_eq_false ha, if_neg Bool.false_ne_true,
        if_neg Bool.false_ne_true, List.nil_append]
      have hlt : w.at_ ≤ a.at_ := le_of_lt (lt_of_not_ge ha)
      refine List.pairwise_cons.mpr ⟨fun x hx => ?_, h⟩
      rcases List.mem_cons.mp hx with rfl | hx
      · exact hlt
      · exact hlt.trans (hhead x hx)

theorem perm_place : (queue.takeWhile (·.at_ ≤ w.at_) ++ w :: queue.dropWhile (·.at_ ≤ w.at_)).Perm
    (w :: queue) := by
  refine List.perm_middle.trans ?_
  rw [List.takeWhile_append_dropWhile]

theorem shed_spec {n : Nat} (hn : queue.length ≤ n) :
    (shed n queue).Sublist queue ∧ (shed n queue).length ≤ imWaiting := by
  induction n generalizing queue with
  | zero => exact ⟨List.Sublist.refl queue, hn.trans (Nat.zero_le _)⟩
  | succ n ih =>
    unfold shed
    by_cases hshort : queue.length ≤ imWaiting
    · rw [if_pos hshort]
      exact ⟨List.Sublist.refl queue, hshort⟩
    · rw [if_neg hshort]
      dsimp only
      split
      · -- some reactor holds the most
        rename_i hnone
        exfalso
        cases hmax : (queue.map fun q =>
            queue.countP fun q' => q'.reactor.key = q.reactor.key).max? with
        | none =>
          have hnil := List.map_eq_nil_iff.mp (List.max?_eq_none_iff.mp hmax)
          rw [hnil] at hshort
          exact hshort (Nat.zero_le _)
        | some most =>
          obtain ⟨q, hq, hheld⟩ := List.mem_map.mp (List.max?_mem hmax)
          have hnot := List.findIdx?_eq_none_iff.mp hnone q hq
          exact of_decide_eq_false hnot ((congrArg some hheld).trans hmax.symm)
      · rename_i i hi
        obtain ⟨hlt, -, -⟩ := List.findIdx?_eq_some_iff_getElem.mp hi
        have hlen := List.length_eraseIdx_of_lt hlt
        obtain ⟨hsub, hbound⟩ := ih (show (queue.eraseIdx i).length ≤ n by omega)
        exact ⟨hsub.trans (List.eraseIdx_sublist ..), hbound⟩

/-- What joining a queue leaves: an orderly queue, in an order that has lost nothing. -/
theorem Books.join_spec (h : Books l) (now : Instant) :
    ∃ nextSeq order q, l.join k w now = ({ l with nextSeq, order }, q) ∧ Orderly q ∧
      order.size ≤ l.order.size + 1 ∧
      (∀ e ∈ l.order.entries, e ∈ order.entries) ∧
      (∀ w' ∈ q, (w'.place, k) ∈ order.entries) ∧
      (∀ e ∈ order.entries, ∀ e' ∈ order.entries, (ofLex e.1).2 = (ofLex e'.1).2 → e = e') ∧
      ∀ e ∈ order.entries, (ofLex e.1).2 ≤ nextSeq := by
  have hwaits : ∀ w' ∈ (l.waiting.get k).getD [], l.Waits k w' := by
    intro w' hw'
    cases hget : l.waiting.get k with
    | none =>
      rw [hget] at hw'
      exact absurd hw' List.not_mem_nil
    | some q =>
      rw [hget] at hw'
      exact ⟨q, hget, hw'⟩
  have horderly : Orderly ((l.waiting.get k).getD []) := by
    cases hget : l.waiting.get k with
    | none => exact ⟨List.Pairwise.nil, List.nodup_nil, List.nodup_nil⟩
    | some q => exact h.orderly k q hget
  unfold join
  dsimp only
  split
  · -- a number of its own puts it apart from all there is
    have hfresh : ∀ e ∈ l.order.entries, (ofLex e.1).2 ≠ l.nextSeq + 1 := fun e he heq =>
      absurd (h.minted e he) (by omega)
    have hkeep : ∀ e ∈ l.order.entries, ∀ at_, e.1 ≠ toLex (at_, l.nextSeq + 1) := fun e he at_ heq =>
      hfresh e he (congrArg (fun p => (ofLex p).2) heq)
    have hyoung : Orderly ((((l.waiting.get k).getD []).filter (·.young l.imKeep now)).filter
        fun q => q.identityOf ≠ w.identityOf) :=
      horderly.sublist (List.filter_sublist.trans List.filter_sublist)
    have hmem : ∀ w' ∈ (((l.waiting.get k).getD []).filter (·.young l.imKeep now)).filter
        (fun q => q.identityOf ≠ w.identityOf), l.Waits k w' ∧ w'.identityOf ≠ w.identityOf := by
      intro w' hw'
      obtain ⟨hw', hne⟩ := List.mem_filter.mp hw'
      exact ⟨hwaits w' (List.mem_filter.mp hw').1, of_decide_eq_true hne⟩
    revert hyoung hmem
    generalize (((l.waiting.get k).getD []).filter (·.young l.imKeep now)).filter
      (fun q => q.identityOf ≠ w.identityOf) = young
    intro hyoung hmem
    have hperm : (young.takeWhile (·.at_ ≤ w.at_) ++ { w with seq := l.nextSeq + 1 } ::
        young.dropWhile (·.at_ ≤ w.at_)).Perm ({ w with seq := l.nextSeq + 1 } :: young) :=
      perm_place (w := { w with seq := l.nextSeq + 1 })
    refine ⟨_, _, _, rfl, ⟨sorted_place (w := { w with seq := l.nextSeq + 1 }) hyoung.sorted, ?_, ?_⟩, SortedMap.size_insert_le,
      fun e he => SortedMap.mem_insert.mpr (.inr ⟨he, hkeep e he _⟩), fun w' hw' => ?_,
      fun e he e' he' hseq => ?_, fun e he => ?_⟩
    · refine (hperm.map Waiting.identityOf).nodup_iff.mpr
        (List.nodup_cons.mpr ⟨fun hin => ?_, hyoung.latest⟩)
      obtain ⟨w', hw', heq⟩ := List.mem_map.mp hin
      exact (hmem w' hw').2 heq
    · refine (hperm.map Waiting.seq).nodup_iff.mpr
        (List.nodup_cons.mpr ⟨fun hin => ?_, hyoung.seqs⟩)
      obtain ⟨w', hw', heq⟩ := List.mem_map.mp hin
      exact hfresh _ (h.covered k w' (hmem w' hw').1) heq
    · rw [SortedMap.mem_insert]
      rcases List.mem_cons.mp (hperm.mem_iff.mp hw') with rfl | hw'
      · exact .inl rfl
      · have hcov := h.covered k w' (hmem w' hw').1
        exact .inr ⟨hcov, hkeep _ hcov _⟩
    · rw [SortedMap.mem_insert] at he he'
      rcases he with rfl | ⟨he, -⟩
      · rcases he' with rfl | ⟨he', -⟩
        · rfl
        · exact absurd hseq.symm (hfresh e' he')
      · rcases he' with rfl | ⟨he', -⟩
        · exact absurd hseq (hfresh e he)
        · exact h.single e he e' he' hseq
    · rcases SortedMap.mem_insert.mp he with rfl | ⟨he, -⟩
      · exact Nat.le_refl _
      · exact (h.minted e he).trans (Nat.le_succ _)
  · exact ⟨_, _, _, rfl, horderly.sublist List.filter_sublist, Nat.le_succ _, fun e he => he,
      fun w' hw' => h.covered k w' (hwaits w' (List.mem_filter.mp hw').1), h.single, h.minted⟩

/-- Keeping a change leaves the books right, before the server-wide bound is asked. -/
theorem Books.kept_spec (h : Books l) (now : Instant) :
    ∃ l', l.kept k w now = some l' ∧ Books l' ∧ l'.order.size ≤ l.order.size + 1 ∧
      l'.waitingAll = l.waitingAll := by
  obtain ⟨nextSeq, order, q, hjoin, horderly, hsize, hold, hnew, hsingle, hminted⟩ :=
    h.join_spec (k := k) (w := w) now
  obtain ⟨hsub, hshort⟩ := shed_spec (le_refl q.length)
  have htotal : (putQueue l.waiting k (shed q.length q)).total List.length +
      ((l.waiting.get k).getD []).length = _ := total_putQueue
  rw [← h.len] at htotal
  have hbefore := queue_le l.waiting k
  rw [← h.len] at hbefore
  refine ⟨{ l with
    nextSeq, order, waiting := putQueue l.waiting k (shed q.length q)
    waitingLen := l.waitingLen - ((l.waiting.get k).getD []).length + (shed q.length q).length },
    ?_, ?_, hsize, rfl⟩
  · unfold kept
    rw [hjoin]
    dsimp only
    rw [minus_of_le hbefore]
    rfl
  -- a queue is the one that was joined, or as it was
  · have hcases : ∀ k' q', (putQueue l.waiting k (shed q.length q)).get k' = some q' →
        (k' = k ∧ q' = shed q.length q ∧ q' ≠ []) ∨ l.waiting.get k' = some q' := by
      intro k' q' hget
      rw [get_putQueue] at hget
      split at hget
      · rename_i hk
        split at hget
        · cases hget
        · rename_i hne
          cases hget
          exact .inl ⟨hk, rfl, fun hnil => hne (List.isEmpty_iff.mpr hnil)⟩
      · exact .inr hget
    refine ⟨?_, fun k' q' hget => ?_, fun k' q' hget => ?_, fun k' q' hget => ?_,
      fun k' w' hw' => ?_, hsingle, hminted⟩
    · show _ - _ + _ = (putQueue l.waiting k (shed q.length q)).total List.length
      omega
    · rcases hcases k' q' hget with ⟨-, rfl, -⟩ | hget
      · exact horderly.sublist hsub
      · exact h.orderly k' q' hget
    · rcases hcases k' q' hget with ⟨-, -, hne⟩ | hget
      · exact hne
      · exact h.nonempty k' q' hget
    · rcases hcases k' q' hget with ⟨-, rfl, -⟩ | hget
      · exact hshort
      · exact h.short k' q' hget
    · obtain ⟨q', hget, hin⟩ := hw'
      rcases hcases k' q' hget with ⟨rfl, rfl, -⟩ | hget
      · exact hnew w' (hsub.subset hin)
      · exact hold _ (h.covered k' w' ⟨q', hget, hin⟩)

/-- A change kept: the order stays within its bound. -/
theorem Books.keep_spec (h : Books l) (now : Instant) :
    ∃ mid up l', l.kept k w now = some mid ∧ GivenUp mid up ∧ l.keep k w now = some l' ∧ Books l' ∧
      l'.waiting = up.waiting ∧ l'.waitingLen = up.waitingLen ∧ l'.waitingAll = l.waitingAll ∧
      l'.order.size ≤ 2 * l'.waitingLen + imWaiting := by
  obtain ⟨mid, hmid, hbooks, -, hall⟩ := h.kept_spec (k := k) (w := w) now
  obtain ⟨up, hup, hgiven⟩ := hbooks.giveUp_spec le_rfl
  have hkeep : l.keep k w now =
      some (if up.order.size > 2 * up.waitingLen + imWaiting then up.recount else up) := by
    unfold keep
    rw [hmid, Option.bind_some, hup]
    rfl
  refine ⟨mid, up, _, hmid, hgiven, hkeep, ?_⟩
  split
  · have hlen : { up with waitingLen := up.waiting.total List.length } = up := by
      rw [← hgiven.books.len]
    obtain ⟨hright, hsize⟩ := Books.recount (l := up) (by rw [hlen]; exact hgiven.books)
    exact ⟨hright, rfl, hgiven.books.len.symm, hgiven.waitingAll.trans hall,
      hsize.trans (Nat.le_add_right _ _)⟩
  · rename_i hfew
    exact ⟨hgiven.books, rfl, rfl, hgiven.waitingAll.trans hall, Nat.le_of_not_gt hfew⟩

/-! ## The other steps -/

/-- Books that are right, with no more waiting than may. -/
structure Right (waitingAll : Nat) (l : LiveIm) : Prop where
  books : Books l
  all : l.waitingAll = waitingAll
  bound : l.waitingLen ≤ waitingAll

variable {waitingAll : Nat}

theorem Right.retain (h : Right waitingAll l) (p : Waiting → Bool) (drains : Map Nat Drain)
    (hsub : ∀ k q, m.get k = some q → l.waiting.get k = some q)
    (hle : m.total List.length ≤ l.waiting.total List.length) :
    Right waitingAll (LiveIm.recount { l with waiting := LiveIm.retain p m, drains }) := by
  refine ⟨h.books.retain p drains hsub, h.all, ?_⟩
  have hbound := h.bound
  rw [h.books.len] at hbound
  exact (total_retain_le p).trans (hle.trans hbound)

/-- A queue taken out whole. -/
theorem Right.drop (h : Right waitingAll l) {l' : LiveIm} (hnext : l'.nextSeq = l.nextSeq)
    (hall : l'.waitingAll = l.waitingAll) (horder : l'.order = l.order)
    (hwaiting : l'.waiting = l.waiting.drop k)
    (hlen : l'.waitingLen = l.waitingLen - ((l.waiting.get k).getD []).length) :
    Right waitingAll l' := by
  have htotal := Map.total_drop (m := l.waiting) List.length k
  have helim : (l.waiting.get k).elim 0 List.length = ((l.waiting.get k).getD []).length := by
    cases l.waiting.get k <;> rfl
  rw [helim, ← h.books.len] at htotal
  refine ⟨h.books.shrink hnext ?_ (fun k' q hget => ?_) (fun e he => ?_) (fun k' w _ hcov => ?_),
    hall.trans h.all, ?_⟩
  · rw [hlen, hwaiting]
    omega
  · rw [hwaiting] at hget
    obtain ⟨-, hget⟩ := Map.get_drop_some hget
    exact ⟨h.books.nonempty k' q hget, q, hget, List.Sublist.refl q⟩
  · rwa [horder] at he
  · rwa [horder]
  · rw [hlen]
    exact (Nat.sub_le _ _).trans h.bound

theorem Right.take (h : Right waitingAll l) (uid : Uid) (serial : Nat) (now : Instant) :
    ∃ r l', l.take k uid serial now = some (r, l') ∧ Right waitingAll l' := by
  unfold LiveIm.take
  cases hget : l.waiting.get k with
  | none => exact ⟨none, l, rfl, h⟩
  | some queue =>
    have hlen : ((l.waiting.get k).getD []).length = queue.length := by
      rw [hget]
      rfl
    have hle := queue_le l.waiting k
    rw [hlen, ← h.books.len] at hle
    dsimp only
    rw [minus_of_le hle, Option.map_some]
    exact ⟨_, _, rfl, h.drop rfl rfl rfl rfl (by rw [hlen])⟩

theorem Right.toldLive (h : Right waitingAll l) (w : Waiting) :
    ∃ l', l.toldLive k w = some l' ∧ Right waitingAll l' := by
  unfold LiveIm.toldLive
  dsimp only
  cases hget : l.waiting.get k with
  | none => exact ⟨_, rfl, ⟨h.books.len, h.books.orderly, h.books.nonempty, h.books.short,
      h.books.covered, h.books.single, h.books.minted⟩, h.all, h.bound⟩
  | some queue =>
    dsimp only
    have hless : (queue.filter fun q => q.identityOf ≠ w.identityOf).Sublist queue :=
      List.filter_sublist
    revert hless
    generalize (queue.filter fun q => q.identityOf ≠ w.identityOf) = left
    intro hless
    have htotal : (putQueue l.waiting k left).total List.length +
      ((l.waiting.get k).getD []).length = _ := total_putQueue
    have hqueue := length_le_total hget
    rw [hget, Option.getD_some, ← h.books.len] at htotal
    rw [← h.books.len] at hqueue
    have hle := hless.length_le
    rw [minus_of_le hle, Option.bind_some, minus_of_le (by omega), Option.map_some]
    refine ⟨_, rfl, h.books.shrink rfl ?_ (fun k' q' hq' => ?_) (fun e he => he)
      (fun k' w' _ hcov => hcov), h.all, ?_⟩
    · show l.waitingLen - (queue.length - left.length) = (putQueue l.waiting k left).total List.length
      omega
    · change (putQueue _ _ _).get k' = _ at hq'
      rw [get_putQueue] at hq'
      split at hq'
      · rename_i hk
        subst hk
        split at hq'
        · cases hq'
        · rename_i hne
          cases hq'
          exact ⟨fun hnil => hne (List.isEmpty_iff.mpr hnil), queue, hget, hless⟩
      · exact ⟨h.books.nonempty k' q' hq', q', hq', List.Sublist.refl q'⟩
    · exact (Nat.sub_le _ _).trans h.bound

theorem Right.keep (h : Right waitingAll l) (w : Waiting) (now : Instant) :
    ∃ l', l.keep k w now = some l' ∧ Right waitingAll l' := by
  obtain ⟨mid, up, l', hmid, hup, hl', hbooks, -, hlen, hall, -⟩ := h.books.keep_spec (w := w) now
  refine ⟨l', hl', hbooks, hall.trans h.all, ?_⟩
  obtain ⟨mid', hmid', -, -, hmidAll⟩ := h.books.kept_spec (k := k) (w := w) now
  obtain rfl := Option.some.inj (hmid.symm.trans hmid')
  rw [hlen, hup.len, hmidAll, h.all]
  exact Nat.min_le_right _ _

theorem Right.takeOut {keys : List Key} (h : Right waitingAll l) :
    ∃ moved l', LiveIm.takeOut keys l = some (moved, l') ∧ Right waitingAll l' := by
  induction keys generalizing l with
  | nil => exact ⟨[], l, rfl, h⟩
  | cons k keys ih =>
    have hle := queue_le l.waiting k
    rw [← h.books.len] at hle
    have hright : Right waitingAll { l with
        waiting := l.waiting.drop k
        waitingLen := l.waitingLen - ((l.waiting.get k).getD []).length } :=
      h.drop rfl rfl rfl rfl rfl
    obtain ⟨moved, l', hl', hright'⟩ := ih hright
    unfold LiveIm.takeOut
    dsimp only
    rw [minus_of_le hle, Option.bind_some, hl']
    exact ⟨_, l', rfl, hright'⟩

theorem Right.rekey (h : Right waitingAll l) (old new : Mailbox) (now : Instant) :
    ∃ l', l.rekey old new now = some l' ∧ Right waitingAll l' := by
  unfold LiveIm.rekey
  split
  · exact ⟨l, rfl, h⟩
  · have hdrains : Right waitingAll
        { l with drains := l.drains.mapVals fun _ => rekeyDrain old.key new } :=
      ⟨⟨h.books.len, h.books.orderly, h.books.nonempty, h.books.short, h.books.covered,
        h.books.single, h.books.minted⟩, h.all, h.bound⟩
    obtain ⟨moved, l', hl', hright⟩ := hdrains.takeOut
    dsimp only
    rw [hl', Option.bind_some]
    generalize sortBy (fun m : Key × Waiting => m.2.at_) moved = sorted
    clear hl'
    induction sorted generalizing l' with
    | nil => exact ⟨l', rfl, hright⟩
    | cons move sorted ih =>
      obtain ⟨next, hnext, hright'⟩ := hright.keep
        (k := if move.1 = old.key then new.key else move.1) (move.2.rename old.key new) now
      obtain ⟨last, hlast, hright''⟩ := ih next hright'
      exact ⟨last, (congrArg (Option.bind · _) hnext).trans hlast, hright''⟩

theorem Right.rehash (h : Right waitingAll l) (hperm : m.entries.Perm l.waiting.entries) :
    Right waitingAll { l with waiting := m } := by
  have hget : ∀ k q, m.get k = some q ↔ l.waiting.get k = some q := by
    intro k q
    rw [← Map.mem_entries_iff, ← Map.mem_entries_iff]
    exact hperm.mem_iff
  refine ⟨h.books.shrink rfl ?_ (fun k q hq => ?_) (fun e he => he) (fun k w _ hcov => hcov), h.all,
    h.bound⟩
  · rw [h.books.len]
    exact ((hperm.map fun kv => kv.2.length).sum_eq).symm
  · have hq := (hget k q).mp hq
    exact ⟨h.books.nonempty k q hq, q, hq, List.Sublist.refl q⟩

theorem Right.step (h : Right waitingAll l) (op : Op) :
    ∃ l', l.step op = some l' ∧ Right waitingAll l' := by
  cases op with
  | prune now => exact ⟨_, rfl, h.retain _ l.drains (fun _ _ hq => hq) le_rfl⟩
  | take k uid serial now =>
    obtain ⟨r, l', hl', hright⟩ := h.take (k := k) uid serial now
    exact ⟨l', congrArg (Option.map Prod.snd) hl', hright⟩
  | toldLive k w => exact h.toldLive w
  | rekey old new now => exact h.rekey old new now
  | forget who =>
    refine ⟨_, rfl, h.retain _ _ (fun k q hq => (Map.get_drop_some hq).2) ?_⟩
    have htotal := Map.total_drop (m := l.waiting) List.length who.key
    omega
  | keep k w now => exact h.keep w now
  | rehash m =>
    by_cases hperm : m.entries.Perm l.waiting.entries
    · exact ⟨_, congrArg some (if_pos hperm), h.rehash hperm⟩
    · exact ⟨_, congrArg some (if_neg hperm), h⟩

theorem Right.run (h : Right waitingAll l) (ops : List Op) :
    ∃ l', l.run ops = some l' ∧ Right waitingAll l' := by
  induction ops generalizing l with
  | nil => exact ⟨l, rfl, h⟩
  | cons op ops ih =>
    obtain ⟨next, hnext, hright⟩ := h.step op
    obtain ⟨l', hl', hright'⟩ := ih hright
    exact ⟨l', (congrArg (Option.bind · _) hnext).trans hl', hright'⟩

theorem Right.new (imKeep waitingAll : Nat) : Right waitingAll { imKeep, waitingAll } := by
  have hnone : ∀ k q, ({ imKeep, waitingAll } : LiveIm).waiting.get k ≠ some q := fun k q h => by cases h
  exact ⟨⟨rfl, fun k q h => absurd h (hnone k q), fun k q h => absurd h (hnone k q),
    fun k q h => absurd h (hnone k q), fun k w ⟨q, h, _⟩ => absurd h (hnone k q),
    fun e he => absurd he List.not_mem_nil, fun e he => absurd he List.not_mem_nil⟩, rfl, Nat.zero_le _⟩

/-- In every state reached no count has gone below zero, the books are right and no more waits than may;
and a change kept leaves no more in the order than its bound, what goes for the server-wide bound being
before all that stays. -/
theorem waiting_exact (imKeep waitingAll : Nat) (ops : List Op) :
    ∃ l, run { imKeep, waitingAll } ops = some l ∧ Books l ∧ l.waitingLen ≤ waitingAll ∧
      ∀ k w now, ∃ mid l', l.kept k w now = some mid ∧ l.keep k w now = some l' ∧
        l'.order.size ≤ 2 * l'.waitingLen + imWaiting + 1 ∧
        l'.waitingLen = min mid.waitingLen waitingAll ∧
        (∀ k' w', l'.Waits k' w' → mid.Waits k' w') ∧
        ∀ k' w', mid.Waits k' w' →
          l'.Waits k' w' ∨ ∀ k₂ w₂, l'.Waits k₂ w₂ → w'.place < w₂.place := by
  obtain ⟨l, hl, hright⟩ := (Right.new imKeep waitingAll).run ops
  refine ⟨l, hl, hright.books, hright.bound, fun k w now => ?_⟩
  obtain ⟨mid, up, l', hmid, hup, hl', -, hwaiting, hlen, -, hsize⟩ :=
    hright.books.keep_spec (k := k) (w := w) now
  obtain ⟨mid', hmid', -, -, hall⟩ := hright.books.kept_spec (k := k) (w := w) now
  obtain rfl := Option.some.inj (hmid.symm.trans hmid')
  have hwaits : ∀ k w, l'.Waits k w ↔ up.Waits k w := by
    intro k w
    unfold Waits
    rw [hwaiting]
  refine ⟨mid, l', hmid, hl', hsize.trans (Nat.le_succ _), ?_, fun k' w' hw' => ?_, fun k' w' hw' => ?_⟩
  · rw [hlen, hup.len, hall, hright.all]
  · exact hup.kept k' w' ((hwaits k' w').mp hw')
  · refine (hup.oldest k' w' hw').imp (hwaits k' w').mpr fun h k₂ w₂ hw₂ => ?_
    exact h k₂ w₂ ((hwaits k₂ w₂).mp hw₂)

end LiveIm

end HxdNg.Reaction
