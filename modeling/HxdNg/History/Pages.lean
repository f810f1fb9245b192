import HxdNg.History.Indexes

/-!
# Reading the log page by page

* `HistoryQuery.next` : the query a reader of a page goes on with;
* `MemoryInner.Reading` : a channel read page by page, with any calls between two pages;
* `MemoryInner.Paged` : what such a reading gives; `Reading.paged` : every reading does;
* `pages_and_indexes` : the log's indexes, its rekeys and its pages, in any state a run reaches.
-/

namespace HxdNg.History

open Relationships Assoc

/-- Back from the newest page: what is before the page's first line. Forwards: what is after its
last. -/
def HistoryQuery.next (q : HistoryQuery) (page : HistoryPage) : Option HistoryQuery :=
  if ¬ page.hasMore then none
  else if q.after.isSome then page.lines.getLast?.map fun l => { q with after := some l.id }
  else page.lines.head?.map fun l => { q with before := some l.id }

/-- A line on the query's side of its bounds. -/
structure HistoryQuery.Bounds (q : HistoryQuery) (l : LogLine) : Prop where
  channel : l.channel = q.channel
  before : ∀ id ∈ q.before, l.id < id
  after : ∀ id ∈ q.after, id < l.id

namespace MemoryInner

/-- `pages`, read in turn from `q` on, the first of `m` and the last of `m'`. Each page asks for as
many lines as it likes. -/
inductive Reading : MemoryInner → HistoryQuery → List HistoryPage → MemoryInner → Prop
  | last {m : MemoryInner} {q : HistoryQuery} {page : HistoryPage} (hpage : m.query q = .ok page) :
    Reading m q [page] m
  | more {m m' : MemoryInner} {q q' : HistoryQuery} {page : HistoryPage} {pages : List HistoryPage}
    (hpage : m.query q = .ok page) (hnext : q.next page = some q') (ops : List Op) (limit : Nat)
    (hrest : Reading (m.run ops) { q' with limit } pages m') : Reading m q (page :: pages) m'

structure Paged (m : MemoryInner) (q : HistoryQuery) (pages : List HistoryPage) (m' : MemoryInner) :
    Prop where
  rising : (((if q.after.isSome then pages else pages.reverse).flatMap HistoryPage.lines).map
    LogLine.id).Pairwise (· < ·)
  within : ∀ page ∈ pages, ∀ l ∈ page.lines, q.Bounds l
  whole : (∀ page ∈ pages.getLast?, page.hasMore = false) → ∀ l ∈ m'.lines, q.Bounds l →
    (q.after = none → l.id ≤ m.nextId) → ∃ page ∈ pages, ∃ l' ∈ page.lines, LogLine.Same l' l

variable {m m' : MemoryInner} {q : HistoryQuery} {page : HistoryPage}

/-! ## One page -/

theorem mem_matching {l : LogLine} : l ∈ m.matching q ↔ l ∈ m.lines ∧ q.Bounds l := by
  rw [matching, List.mem_filter, decide_eq_true_eq]
  exact and_congr_right fun _ => ⟨fun ⟨hc, hb, ha⟩ => ⟨hc, hb, ha⟩, fun ⟨hc, hb, ha⟩ => ⟨hc, hb, ha⟩⟩

/-- What a page is: a part of what matches; all of it, where there is no more; and else the part from
its first line on, or up to its last. -/
structure IsPage (m : MemoryInner) (q : HistoryQuery) (page : HistoryPage) : Prop where
  rising : (page.lines.map LogLine.id).Pairwise (· < ·)
  length_le : page.lines.length ≤ q.limit
  sub : ∀ l ∈ page.lines, l ∈ m.matching q
  whole : page.hasMore = false ↔ page.lines = m.matching q
  forwards : page.hasMore = true → q.after.isSome = true → ∃ last, page.lines.getLast? = some last ∧
    ∀ l ∈ m.matching q, l ∈ page.lines ∨ last.id < l.id
  back : page.hasMore = true → q.after.isSome = false → ∃ first, page.lines.head? = some first ∧
    ∀ l ∈ m.matching q, l ∈ page.lines ∨ l.id < first.id

/-- Of rising ids cut in two, the second part's are greater. -/
theorem lt_of_rising {xs ys : List LogLine} (h : ((xs ++ ys).map LogLine.id).Pairwise (· < ·))
    {x y : LogLine} (hx : x ∈ xs) (hy : y ∈ ys) : x.id < y.id := by
  rw [List.map_append, List.pairwise_append] at h
  exact h.2.2 _ (List.mem_map_of_mem hx) _ (List.mem_map_of_mem hy)

theorem query_cases (hpage : m.query q = .ok page) : 0 < q.limit ∧
    (((m.matching q).length ≤ q.limit ∧ page = ⟨m.matching q, false⟩) ∨
    (q.limit < (m.matching q).length ∧ q.after.isSome = true ∧
      page = ⟨(m.matching q).take q.limit, true⟩) ∨
    (q.limit < (m.matching q).length ∧ q.after.isSome = false ∧
      page = ⟨(m.matching q).drop ((m.matching q).length - q.limit), true⟩)) := by
  unfold query HistoryQuery.check at hpage
  split at hpage
  · cases hpage
  next hlimit =>
  refine ⟨Nat.pos_of_ne_zero hlimit, ?_⟩
  obtain rfl := Except.ok.inj hpage
  by_cases hmore : q.limit < (m.matching q).length
  · cases hafter : q.after.isSome with
    | true => exact .inr (.inl ⟨hmore, rfl, by simp [hmore]⟩)
    | false => exact .inr (.inr ⟨hmore, rfl, by simp [hmore]⟩)
  · have hle : (m.matching q).length ≤ q.limit := Nat.le_of_not_lt hmore
    refine .inl ⟨hle, ?_⟩
    simp [hmore, List.take_of_length_le hle]

theorem Indexed.isPage (h : m.Indexed) (hpage : m.query q = .ok page) : m.IsPage q page := by
  have hrising : ((m.matching q).map LogLine.id).Pairwise (· < ·) :=
    h.rising.sublist (List.filter_sublist.map _)
  obtain ⟨hpos, ⟨hle, rfl⟩ | ⟨hlt, hafter, rfl⟩ | ⟨hlt, hafter, rfl⟩⟩ := query_cases hpage
  · exact ⟨hrising, hle, fun l hl => hl, ⟨fun _ => rfl, fun _ => rfl⟩,
      (fun hno => nomatch hno), (fun hno => nomatch hno)⟩
  · have hne : (m.matching q).take q.limit ≠ [] := by
      rw [← List.length_pos_iff, List.length_take]
      omega
    refine ⟨hrising.sublist ((List.take_sublist _ _).map _), List.length_take_le _ _,
      fun l hl => List.mem_of_mem_take hl, ⟨(fun hno => nomatch hno), fun heq => ?_⟩, fun _ _ => ?_,
      (fun _ hno => nomatch hafter.symm.trans hno)⟩
    · have hlen := congrArg List.length heq
      rw [List.length_take] at hlen
      omega
    refine ⟨_, List.getLast?_eq_some_getLast hne, fun l hl => ?_⟩
    rw [← List.take_append_drop q.limit (m.matching q)] at hl hrising
    refine (List.mem_append.mp hl).imp_right fun hl => ?_
    exact lt_of_rising hrising (List.getLast_mem hne) hl
  · have hne : (m.matching q).drop ((m.matching q).length - q.limit) ≠ [] := by
      rw [← List.length_pos_iff, List.length_drop]
      omega
    refine ⟨hrising.sublist ((List.drop_sublist _ _).map _), ?_, fun l hl => List.mem_of_mem_drop hl,
      ⟨(fun hno => nomatch hno), fun heq => ?_⟩, (fun _ hno => nomatch hafter.symm.trans hno), fun _ _ => ?_⟩
    · rw [List.length_drop]
      omega
    · have hlen := congrArg List.length heq
      rw [List.length_drop] at hlen
      omega
    refine ⟨_, List.head?_eq_some_head hne, fun l hl => ?_⟩
    rw [← List.take_append_drop ((m.matching q).length - q.limit) (m.matching q)] at hl hrising
    refine (List.mem_append.mp hl).symm.imp_right fun hl => ?_
    exact lt_of_rising hrising hl (List.head_mem hne)

/-! ## Page after page -/

theorem next_cases {q' : HistoryQuery} (h : q.next page = some q') : page.hasMore = true ∧
    ((q.after.isSome = true ∧ ∃ last, page.lines.getLast? = some last ∧ q' = { q with after := some last.id }) ∨
    (q.after.isSome = false ∧ ∃ first, page.lines.head? = some first ∧
      q' = { q with before := some first.id })) := by
  unfold HistoryQuery.next at h
  split at h
  · cases h
  next hmore =>
  refine ⟨by simpa using hmore, ?_⟩
  split at h
  · next hafter =>
    obtain ⟨last, hlast, rfl⟩ := Option.map_eq_some_iff.mp h
    exact .inl ⟨hafter, last, hlast, rfl⟩
  · next hafter =>
    obtain ⟨first, hfirst, rfl⟩ := Option.map_eq_some_iff.mp h
    exact .inr ⟨by simpa using hafter, first, hfirst, rfl⟩

theorem le_getLast {ls : List LogLine} (h : (ls.map LogLine.id).Pairwise (· < ·)) {l last : LogLine}
    (hl : l ∈ ls) (hlast : ls.getLast? = some last) : l.id ≤ last.id := by
  obtain ⟨init, rfl⟩ := List.getLast?_eq_some_iff.mp hlast
  rcases List.mem_append.mp hl with hl | hl
  · exact (lt_of_rising h hl (List.mem_singleton_self last)).le
  · rw [List.mem_singleton.mp hl]

theorem head_le {ls : List LogLine} (h : (ls.map LogLine.id).Pairwise (· < ·)) {l first : LogLine}
    (hl : l ∈ ls) (hfirst : ls.head? = some first) : first.id ≤ l.id := by
  obtain ⟨rest, rfl⟩ := List.head?_eq_some_iff.mp hfirst
  rcases List.mem_cons.mp hl with rfl | hl
  · exact le_rfl
  · exact (lt_of_rising h (List.mem_singleton.mpr rfl : first ∈ [first]) hl).le

theorem Reading.ne_nil {pages : List HistoryPage} (hr : Reading m q pages m') : pages ≠ [] := by
  cases hr <;> exact List.cons_ne_nil _ _

theorem Reading.since {pages : List HistoryPage} (hr : Reading m q pages m') (h : m.Indexed) :
    Since m m' := by
  induction hr with
  | last => exact .refl _
  | more _ _ ops _ _ ih =>
    obtain ⟨hindexed, hsince⟩ := indexed_run h ops
    exact hsince.trans (ih hindexed)

theorem rising_append {xs ys : List LogLine} (hx : (xs.map LogLine.id).Pairwise (· < ·))
    (hy : (ys.map LogLine.id).Pairwise (· < ·)) (h : ∀ x ∈ xs, ∀ y ∈ ys, x.id < y.id) :
    ((xs ++ ys).map LogLine.id).Pairwise (· < ·) := by
  rw [List.map_append, List.pairwise_append]
  refine ⟨hx, hy, fun a ha b hb => ?_⟩
  obtain ⟨x, hx, rfl⟩ := List.mem_map.mp ha
  obtain ⟨y, hy, rfl⟩ := List.mem_map.mp hb
  exact h x hx y hy

/-- One page more: the rest lie past its last line, or before its first, and what lies on its side was
held when it was read. -/
theorem Reading.paged {pages : List HistoryPage} (hr : Reading m q pages m') (h : m.Indexed) :
    Paged m q pages m' := by
  induction hr with
  | @last m q page hpage =>
    have hp := h.isPage hpage
    refine ⟨by simpa using hp.rising, fun p hp' l hl => ?_, fun hend l hl hb _ => ?_⟩
    · rw [List.mem_singleton.mp hp'] at hl
      exact (mem_matching.mp (hp.sub l hl)).2
    · refine ⟨page, List.mem_singleton_self page, l, ?_, .refl l⟩
      rw [hp.whole.mp (hend page rfl)]
      exact mem_matching.mpr ⟨hl, hb⟩
  | @more m m' q q' page pages hpage hnext ops limit hrest ih =>
    have hp := h.isPage hpage
    obtain ⟨hindexed, hsince⟩ := indexed_run h ops
    obtain ⟨hrising, hwithin, hwhole⟩ := ih hindexed
    have hheld := (hsince.trans (hrest.since hindexed)).held
    have hmem : ∀ {l l' : LogLine}, l ∈ m.lines → l.Same l' → q.Bounds l' → l ∈ m.matching q := by
      rintro l l' hl hs ⟨hc, hb, ha⟩
      exact mem_matching.mpr ⟨hl, hs.channel.trans hc, hs.id ▸ hb, hs.id ▸ ha⟩
    have hend : (∀ p ∈ (page :: pages).getLast?, p.hasMore = false) →
        ∀ p ∈ pages.getLast?, p.hasMore = false := by
      rw [List.getLast?_cons_of_ne_nil hrest.ne_nil]
      exact id
    obtain ⟨hmore, ⟨hafter, last, hlast, rfl⟩ | ⟨hafter, first, hfirst, rfl⟩⟩ := next_cases hnext
    · -- Forwards.
      obtain ⟨hlastl, hlastb⟩ := mem_matching.mp (hp.sub last (List.mem_of_getLast? hlast))
      have hpast : ∀ p ∈ pages, ∀ l ∈ p.lines, q.Bounds l ∧ last.id < l.id := by
        intro p hp' l hl
        obtain ⟨hc, hb, ha⟩ := hwithin p hp' l hl
        have hlt : last.id < l.id := ha _ rfl
        exact ⟨⟨hc, hb, fun id hid => (hlastb.after id hid).trans hlt⟩, hlt⟩
      refine ⟨?_, ?_, fun hpages l hl hb _ => ?_⟩
      · rw [if_pos hafter, List.flatMap_cons]
        refine rising_append hp.rising (by simpa using hrising) fun x hx y hy => ?_
        obtain ⟨p, hp', hy⟩ := List.mem_flatMap.mp hy
        exact (le_getLast hp.rising hx hlast).trans_lt (hpast p hp' y hy).2
      · rw [List.forall_mem_cons]
        exact ⟨fun l hl => (mem_matching.mp (hp.sub l hl)).2, fun p hp' l hl => (hpast p hp' l hl).1⟩
      · by_cases hlt : last.id < l.id
        · obtain ⟨p, hp', l', hl', hs⟩ := hwhole (hend hpages) l hl
            ⟨hb.channel, hb.before, fun id hid => Option.some.inj hid ▸ hlt⟩ (fun hno => nomatch hno)
          exact ⟨p, List.mem_cons_of_mem _ hp', l', hl', hs⟩
        · obtain ⟨l₀, hl₀, hs⟩ := hheld l hl ((Nat.le_of_not_lt hlt).trans (h.counted last hlastl))
          obtain ⟨last', hlast', hall⟩ := hp.forwards hmore hafter
          obtain rfl := Option.some.inj (hlast.symm.trans hlast')
          refine ⟨page, List.mem_cons_self, l₀, (hall l₀ (hmem hl₀ hs hb)).resolve_right ?_, hs⟩
          exact hs.id ▸ hlt
    · -- Back.
      obtain ⟨hfirstl, hfirstb⟩ := mem_matching.mp (hp.sub first (List.mem_of_head? hfirst))
      have hnone : q.after = none := by simpa using hafter
      have hpast : ∀ p ∈ pages, ∀ l ∈ p.lines, q.Bounds l ∧ l.id < first.id := by
        intro p hp' l hl
        obtain ⟨hc, hb, ha⟩ := hwithin p hp' l hl
        have hlt : l.id < first.id := hb _ rfl
        exact ⟨⟨hc, fun id hid => hlt.trans (hfirstb.before id hid), ha⟩, hlt⟩
      refine ⟨?_, ?_, fun hpages l hl hb hle => ?_⟩
      · rw [hafter] at hrising ⊢
        rw [if_neg Bool.false_ne_true] at hrising ⊢
        rw [List.reverse_cons, List.flatMap_append, List.flatMap_singleton]
        refine rising_append hrising hp.rising fun x hx y hy => ?_
        obtain ⟨p, hp', hx⟩ := List.mem_flatMap.mp hx
        exact (hpast p (List.mem_reverse.mp hp') x hx).2.trans_le (head_le hp.rising hy hfirst)
      · rw [List.forall_mem_cons]
        exact ⟨fun l hl => (mem_matching.mp (hp.sub l hl)).2, fun p hp' l hl => (hpast p hp' l hl).1⟩
      · by_cases hlt : l.id < first.id
        · obtain ⟨p, hp', l', hl', hs⟩ := hwhole (hend hpages) l hl
            ⟨hb.channel, fun id hid => Option.some.inj hid ▸ hlt, hb.after⟩
            fun _ => (hle hnone).trans hsince.next
          exact ⟨p, List.mem_cons_of_mem _ hp', l', hl', hs⟩
        · obtain ⟨l₀, hl₀, hs⟩ := hheld l hl (hle hnone)
          obtain ⟨first', hfirst', hall⟩ := hp.back hmore hafter
          obtain rfl := Option.some.inj (hfirst.symm.trans hfirst')
          refine ⟨page, List.mem_cons_self, l₀, (hall l₀ (hmem hl₀ hs hb)).resolve_right ?_, hs⟩
          exact hs.id ▸ hlt

end MemoryInner

open MemoryInner

/-- In every state a run reaches the indexes are in step and later ids are new; a line has no more keys
than the adds were allowed; a rekey does what it is for exactly where the accounts are two or the first
holds nothing; a page is a part of what matches, and all of it where it says there is no more; and a
reading gives its lines once, and every line there is by its end. -/
theorem pages_and_indexes (ops : List Op) :
    (run {} ops).Indexed ∧ (∀ later, Since (run {} ops) (run {} (ops ++ later))) ∧
    (∀ n, (∀ op ∈ ops, ∀ act ∈ op.acts, act.add = true → act.maxKeys ≤ n) →
      ∀ line, ((run {} ops).keysOn line).length ≤ n) ∧
    (∀ from_ into, (run {} ops).RekeyKeeps from_ into ↔
      reactorKey from_ ≠ reactorKey into ∨
        ∀ r ∈ (run {} ops).reactions, r.reactor ≠ reactorKey from_) ∧
    (∀ q page, (run {} ops).query q = .ok page → IsPage (run {} ops) q page) ∧
    ∀ q pages m', Reading (run {} ops) q pages m' → Paged (run {} ops) q pages m' := by
  obtain ⟨hindexed, -⟩ := indexed_run Indexed.empty ops
  refine ⟨hindexed, fun later => ?_, fun n hacts line => ?_, rekeyKeeps_iff _, fun q page => hindexed.isPage,
    fun q pages m' hr => hr.paged hindexed⟩
  · rw [run, run, List.foldl_append]
    exact (indexed_run hindexed later).2
  · exact keysOn_run hacts (fun _ => Nat.zero_le _) line

/-- Alice reacts to the line she said, and is rekeyed to herself. -/
theorem rekey_takes_an_accounts_own :
    ¬ RekeyKeeps
      (run {} [.appendAll [⟨0, none, some "alice", none, 0, none, none⟩],
        .react ⟨0, 1, ⟨"alice", none⟩, "alice", .emoji "+1", true, 0, 20, 5⟩])
      ⟨"alice", none⟩ ⟨"alice", none⟩ := by
  intro h
  obtain ⟨r, hr, hslot⟩ := h.kept ⟨1, .emoji "+1", reactorKey ⟨"alice", none⟩, "alice", 0⟩ (by decide)
    (.inl rfl)
  revert r
  decide

end HxdNg.History
