import HxdNg.Registrars.Pages
import HxdNg.Registrars.Changes

/-!
# A reader of the full list misses nothing

* `Change.records`, `step_records` : records are only added;
* `visible_mono` : a record that is seen, with more records and later, was seen;
* `page_spec` : a page is the front of what there is, all of it or a part that is not empty;
* `Following`, `following` : what a reader has, of what it is past.
-/

namespace HxdNg.Registrars

open HxdNg.Identity
open Assoc

variable {P : Primitives} {R : Registrar} {said : UInt64 → Prop} {now now' : UInt64} {s s' : State}
  {deviceCap : Nat}

/-! ## Records are only added -/

theorem written_records (s : State) (rs : List NewRecord) : s.records <+: (s.written rs).records := by
  obtain ⟨new, hw, -, -⟩ := s.written_eq rs
  rw [hw]
  exact List.prefix_append ..

theorem Change.records (h : Change P R said now s s') : s.records <+: s'.records := by
  cases h with
  | rotated => exact written_records s _
  | dropped => exact List.prefix_rfl
  | held => exact List.prefix_rfl
  | device => exact written_records s _
  | revoked => exact written_records s _
  | frozen fr => cases fr <;> exact written_records s _
  | lapsed => exact written_records s _
  | recovered => exact written_records s _
  | committed => exact List.prefix_rfl
  | invited => exact List.prefix_rfl
  | issued hparse hhost hdecided hissue =>
    obtain ⟨invites, rfl, -⟩ := State.issue_eq_some hissue
    exact List.prefix_rfl

theorem Changes.records (h : Changes P R said now s s') : s.records <+: s'.records := by
  induction h with
  | refl => exact List.prefix_rfl
  | tail _ hc ih => exact ih.trans hc.records

/-! ## Records by their seq -/

theorem mem_numbered {q : Nat} {r : NewRecord} :
    (q, r) ∈ s.numbered ↔ 1 ≤ q ∧ s.records[q - 1]? = some r := by
  unfold State.numbered
  rw [List.mem_map]
  constructor
  · rintro ⟨⟨r', q'⟩, hmem, heq⟩
    obtain ⟨rfl, rfl⟩ := Prod.mk.inj heq
    exact List.mk_mem_zipIdx_iff_le_and_getElem?_sub.mp hmem
  · intro h
    exact ⟨(r, q), List.mk_mem_zipIdx_iff_le_and_getElem?_sub.mpr h, rfl⟩

theorem numbered_append {new : List NewRecord} (h : s'.records = s.records ++ new) :
    ∃ more, s'.numbered = s.numbered ++ more := by
  unfold State.numbered
  rw [h, List.zipIdx_append, List.map_append]
  exact ⟨_, rfl⟩

theorem seqs_numbered (s : State) : (s.numbered.map Prod.fst).Pairwise (· < ·) := by
  unfold State.numbered
  rw [List.map_map]
  have hseqs : (s.records.zipIdx 1).map (Prod.fst ∘ Prod.swap) = List.range' 1 s.records.length := by
    exact List.zipIdx_map_snd 1 s.records
  rw [hseqs]
  exact List.pairwise_lt_range'

theorem seq_le {q : Nat} {r : NewRecord} (h : (q, r) ∈ s.numbered) : q ≤ s.records.length := by
  obtain ⟨hpos, hget⟩ := mem_numbered.mp h
  have := (List.getElem?_eq_some_iff.mp hget).1
  omega

/-- What has a seq among the records there were is one of them. -/
theorem numbered_back (h : s.records <+: s'.records) {q : Nat} {r : NewRecord} (hr : (q, r) ∈ s'.numbered)
    (hq : q ≤ s.records.length) : (q, r) ∈ s.numbered := by
  obtain ⟨hpos, hget⟩ := mem_numbered.mp hr
  obtain ⟨new, hnew⟩ := h
  rw [← hnew, List.getElem?_append_left (by omega)] at hget
  exact mem_numbered.mpr ⟨hpos, hget⟩

/-! ## What is seen later was seen -/

theorem mem_kept {q : Nat} {k : PublicKey} : q ∈ s.kept deviceCap k ↔ ∃ u,
    (u, q) ∈ (sortBy (fun r => OrderDual.toDual (toLex r)) (s.deviceRevocations k)).take deviceCap := by
  unfold State.kept
  rw [List.mem_map]
  constructor
  · rintro ⟨⟨u, q'⟩, hmem, rfl⟩
    exact ⟨u, hmem⟩
  · rintro ⟨u, hmem⟩
    exact ⟨(u, q), hmem, rfl⟩

theorem mem_deviceRevocations {k : PublicKey} {u q : Nat} : (u, q) ∈ s.deviceRevocations k ↔
    ∃ r, (q, r) ∈ s.numbered ∧ r.kind = .revokeDevice ∧ r.identity = k ∧
      (r.lastsUntil.map (·.toNat)).getD maxWord = u := by
  unfold State.deviceRevocations
  rw [List.mem_map]
  constructor
  · rintro ⟨⟨q', r⟩, hmem, heq⟩
    obtain ⟨rfl, rfl⟩ := Prod.mk.inj heq
    obtain ⟨hin, hr⟩ := List.mem_filter.mp hmem
    obtain ⟨hkind, hid⟩ := of_decide_eq_true hr
    exact ⟨r, hin, hkind, hid, rfl⟩
  · rintro ⟨r, hin, hkind, hid, rfl⟩
    exact ⟨(q, r), List.mem_filter.mpr ⟨hin, decide_eq_true ⟨hkind, hid⟩⟩, rfl⟩

theorem nodup_deviceRevocations (s : State) (k : PublicKey) :
    ((s.deviceRevocations k).map fun r => OrderDual.toDual (toLex r)).Nodup := by
  have hseqs : ((s.deviceRevocations k).map Prod.snd).Nodup := by
    unfold State.deviceRevocations
    rw [List.map_map]
    refine List.Nodup.sublist (List.filter_sublist.map _) ?_
    exact (seqs_numbered s).imp ne_of_lt
  refine List.Nodup.map (fun a b hab => toLex.injective (OrderDual.toDual.injective hab)) ?_
  exact hseqs.of_map

theorem kept_mono (h : s.records <+: s'.records) {q : Nat} {r : NewRecord} (hr : (q, r) ∈ s.numbered)
    (hkept : q ∈ s'.kept deviceCap r.identity) : q ∈ s.kept deviceCap r.identity := by
  obtain ⟨new, hnew⟩ := h
  obtain ⟨more, hmore⟩ := numbered_append hnew.symm
  obtain ⟨u, hu⟩ := mem_kept.mp hkept
  have hlist : s'.deviceRevocations r.identity = s.deviceRevocations r.identity ++
      (more.filter fun x => x.2.kind = .revokeDevice ∧ x.2.identity = r.identity).map fun x =>
        ((x.2.lastsUntil.map (·.toNat)).getD maxWord, x.1) := by
    unfold State.deviceRevocations
    rw [hmore, List.filter_append, List.map_append]
  have hin : (u, q) ∈ s.deviceRevocations r.identity := by
    obtain ⟨r', hr', hkind, hid, hlast⟩ := mem_deviceRevocations.mp (mem_sortBy.mp (List.mem_of_mem_take hu))
    have hback := numbered_back ⟨new, hnew⟩ hr' (seq_le hr)
    exact mem_deviceRevocations.mpr ⟨r', hback, hkind, hid, hlast⟩
  have hnodup := nodup_deviceRevocations s' r.identity
  rw [hlist] at hu hnodup
  exact mem_kept.mpr ⟨u, mem_take_sortBy_append hnodup hin hu⟩

theorem visible_mono (h : s.records <+: s'.records) (hnow : now ≤ now') {q : Nat} {r : NewRecord}
    (hr : (q, r) ∈ s.numbered) (hseen : s'.visible (.all now' deviceCap) q r = true) :
    s.visible (.all now deviceCap) q r = true := by
  have hlive : r.lastsUntil.all (· ≥ now') = true → r.lastsUntil.all (· ≥ now) = true := by
    intro hl
    cases hu : r.lastsUntil with
    | none => rfl
    | some u =>
      rw [hu] at hl
      exact decide_eq_true (UInt64.le_trans hnow (of_decide_eq_true hl))
  unfold State.visible at hseen ⊢
  dsimp only at hseen ⊢
  cases hkind : r.kind with
  | revokeDevice =>
    rw [hkind] at hseen
    dsimp only at hseen ⊢
    obtain ⟨hl, hk⟩ := Bool.and_eq_true_iff.mp hseen
    rw [hlive hl, Bool.true_and]
    exact List.contains_iff_mem.mpr (kept_mono h hr (List.contains_iff_mem.mp hk))
  | revokeAttestation =>
    rw [hkind] at hseen
    exact hlive hseen
  | revokeIdentity => rfl
  | rotate => rfl
  | freeze => rfl

/-! ## A page -/

theorem cut_spec (budget : Nat) (items : List (Nat × List UInt8)) : ∀ (used : Nat) (begun : Bool),
    (cut budget used begun items).entries <+: items ∧
      ((cut budget used begun items).more = false → (cut budget used begun items).entries = items) ∧
      ((cut budget used begun items).more = true → begun = false →
        (cut budget used begun items).entries ≠ []) := by
  induction items with
  | nil => exact fun used begun => ⟨List.nil_prefix, fun _ => rfl, fun h => nomatch h⟩
  | cons item items ih =>
    intro used begun
    obtain ⟨seq, bytes⟩ := item
    unfold cut
    split
    · rename_i hfull
      refine ⟨List.nil_prefix, (fun h => nomatch h), fun _ hbegun => ?_⟩
      rw [hbegun] at hfull
      cases hfull.1
    · obtain ⟨hpre, hall, -⟩ := ih (used + entryCost bytes) true
      exact ⟨(List.prefix_cons_inj _).mpr hpre, fun h => congrArg _ (hall h), fun _ _ => List.cons_ne_nil _ _⟩

/-- A page is the front of what there is: all of it, or a part with something in it. -/
theorem page_spec (items : List (Nat × List UInt8)) (budget : Nat) :
    (page items budget).entries <+: items ∧
      ((page items budget).more = false → (page items budget).entries = items) ∧
      ((page items budget).more = true → (page items budget).entries ≠ []) := by
  obtain ⟨hpre, hall, hsome⟩ := cut_spec budget items 0 false
  exact ⟨hpre, hall, fun h => hsome h rfl⟩

/-! ## Following -/

/-- What a reader has that last fetched at `t`: whatever it is past and that is still seen, and no seq
twice. -/
structure Following (P : Primitives) (R : Registrar) (deviceCap : Nat) (t : UInt64) (f : Follower) : Prop where
  signed : f.store.PendingSigned P R
  since_le : f.since.getD 0 ≤ f.store.records.length
  got_le : ∀ e ∈ f.got, e.1 ≤ f.since.getD 0
  sorted : f.got.Pairwise fun e e' => e.1 < e'.1
  read : ∀ q r, (q, r) ∈ f.store.numbered → q ≤ f.since.getD 0 →
    f.store.visible (.all t deviceCap) q r = true → (q, r.bytes) ∈ f.got

section Fetch
variable {f : Follower} {t : UInt64}

theorem Following.later {t' : UInt64} (h : Following P R deviceCap t f) (hle : t ≤ t') :
    Following P R deviceCap t' f where
  signed := h.signed
  since_le := h.since_le
  got_le := h.got_le
  sorted := h.sorted
  read q r hr hq hseen := h.read q r hr hq (visible_mono List.prefix_rfl hle hr hseen)

theorem Following.grow (h : Following P R deviceCap t f) {s : State} (hsigned : s.PendingSigned P R)
    (hrecords : f.store.records <+: s.records) : Following P R deviceCap t { f with store := s } where
  signed := hsigned
  since_le := h.since_le.trans hrecords.length_le
  got_le := h.got_le
  sorted := h.sorted
  read q r hr hq hseen := by
    have hback := numbered_back hrecords hr (hq.trans h.since_le)
    exact h.read q r hback hq (visible_mono hrecords (UInt64.le_refl t) hback hseen)

def unread (s : State) (deviceCap since : Nat) (now : UInt64) : List (Nat × List UInt8) :=
  ((s.numbered.filter fun r => since < r.1).filter fun r => s.visible (.all now deviceCap) r.1 r.2).map
    fun r => (r.1, r.2.bytes)

theorem mem_unread {since q : Nat} {b : List UInt8} : (q, b) ∈ unread s deviceCap since now ↔
    ∃ r, (q, r) ∈ s.numbered ∧ since < q ∧ s.visible (.all now deviceCap) q r = true ∧ r.bytes = b := by
  unfold unread
  rw [List.mem_map]
  constructor
  · rintro ⟨⟨q', r⟩, hmem, heq⟩
    obtain ⟨rfl, rfl⟩ := Prod.mk.inj heq
    obtain ⟨hin, hseen⟩ := List.mem_filter.mp hmem
    obtain ⟨hin, hlt⟩ := List.mem_filter.mp hin
    exact ⟨r, hin, of_decide_eq_true hlt, hseen, rfl⟩
  · rintro ⟨r, hin, hlt, hseen, rfl⟩
    exact ⟨(q, r), List.mem_filter.mpr ⟨List.mem_filter.mpr ⟨hin, decide_eq_true hlt⟩, hseen⟩, rfl⟩

theorem sorted_unread (s : State) (deviceCap since : Nat) (now : UInt64) :
    (unread s deviceCap since now).Pairwise fun e e' => e.1 < e'.1 := by
  unfold unread
  rw [List.pairwise_map]
  refine ((List.Pairwise.filter _ ?_).filter _)
  exact List.pairwise_map.mp (seqs_numbered s)

/-- Where a page ends: past what it has, and before what is left. -/
theorem Follower.ends {items entries rest : List (Nat × List UInt8)} {since : Option Nat}
    (hitems : entries ++ rest = items) (hpast : ∀ e ∈ items, since.getD 0 < e.1)
    (hsorted : items.Pairwise fun e e' => e.1 < e'.1) :
    let since' := (entries.getLast?.map Prod.fst).or since
    since.getD 0 ≤ since'.getD 0 ∧ (∀ e ∈ entries, e.1 ≤ since'.getD 0) ∧
      (∀ e ∈ rest, since'.getD 0 < e.1) ∧
      (entries ≠ [] → ∃ e ∈ entries, since' = some e.1 ∧ since.getD 0 < e.1) := by
  subst hitems
  obtain ⟨hfront, -, hcross⟩ := List.pairwise_append.mp hsorted
  cases hlast : entries.getLast? with
  | none =>
    obtain rfl := List.getLast?_eq_none_iff.mp hlast
    exact ⟨le_rfl, fun e he => absurd he List.not_mem_nil, hpast, fun hne => absurd rfl hne⟩
  | some last =>
    obtain ⟨front, rfl⟩ := List.getLast?_eq_some_iff.mp hlast
    have hin : last ∈ front ++ [last] := List.mem_append_right _ (List.mem_singleton_self last)
    have hlt := hpast last (List.mem_append_left _ hin)
    refine ⟨hlt.le, fun e he => ?_, fun e he => hcross last hin e he, fun _ => ⟨last, hin, rfl, hlt⟩⟩
    rcases List.mem_append.mp he with he | he
    · exact ((List.pairwise_append.mp hfront).2.2 e he last (List.mem_singleton_self last)).le
    · rw [List.mem_singleton.mp he]
      exact le_rfl

/-- A fetch: what it gives is new and in order, what it goes past is given or no longer seen, and it goes
on, unless there is no more. -/
theorem Following.fetch (h : Following P R deviceCap t f) (hle : t ≤ now) :
    Following P R deviceCap now (f.fetch P R deviceCap now) ∧
      ((f.page P R deviceCap now).more = false → ∀ q r, (q, r) ∈ (f.fetch P R deviceCap now).store.numbered →
        (f.fetch P R deviceCap now).store.visible (.all now deviceCap) q r = true →
        (q, r.bytes) ∈ (f.fetch P R deviceCap now).got) ∧
      ((f.page P R deviceCap now).more = true →
        ∃ last, (f.fetch P R deviceCap now).since = some last ∧ f.since.getD 0 < last) := by
  have hdue := publishDue_changes (fun _ => True) now h.signed
  have hgrown := (h.grow (hdue.pendingSigned h.signed) hdue.records).later hle
  have hsorted := sorted_unread (R.publishDue P f.store now) deviceCap (f.since.getD 0) now
  have hpast : ∀ e ∈ unread (R.publishDue P f.store now) deviceCap (f.since.getD 0) now,
      f.since.getD 0 < e.1 := fun e he => (mem_unread.mp he).choose_spec.2.1
  have hpage : f.page P R deviceCap now =
      page (unread (R.publishDue P f.store now) deviceCap (f.since.getD 0) now) pageBudget := rfl
  obtain ⟨⟨rest, hrest⟩, hall, hsome⟩ :=
    page_spec (unread (R.publishDue P f.store now) deviceCap (f.since.getD 0) now) pageBudget
  rw [← hpage] at hrest hall hsome
  obtain ⟨hmono, hupto, hafter, hon⟩ := Follower.ends hrest hpast hsorted
  have hin : ∀ e ∈ (f.page P R deviceCap now).entries,
      e ∈ unread (R.publishDue P f.store now) deviceCap (f.since.getD 0) now := fun e he =>
    hrest ▸ List.mem_append_left _ he
  have hread : ∀ q r, (q, r) ∈ (R.publishDue P f.store now).numbered →
      (R.publishDue P f.store now).visible (.all now deviceCap) q r = true →
      (q, r.bytes) ∈ f.got ∨
        (q, r.bytes) ∈ unread (R.publishDue P f.store now) deviceCap (f.since.getD 0) now := by
    intro q r hr hseen
    rcases Nat.lt_or_ge (f.since.getD 0) q with hq | hq
    · exact .inr (mem_unread.mpr ⟨r, hr, hq, hseen, rfl⟩)
    · exact .inl (hgrown.read q r hr hq hseen)
  refine ⟨⟨hgrown.signed, ?_, ?_, ?_, ?_⟩, ?_, ?_⟩
  · show ((_ : Option Nat).or f.since).getD 0 ≤ (R.publishDue P f.store now).records.length
    by_cases hnil : (f.page P R deviceCap now).entries = []
    · rw [hnil]
      exact hgrown.since_le
    · obtain ⟨e, he, hlast, -⟩ := hon hnil
      rw [hlast]
      obtain ⟨r, hr, -⟩ := mem_unread.mp (hin e he)
      exact seq_le hr
  · intro e he
    rcases List.mem_append.mp he with he | he
    · exact (hgrown.got_le e he).trans hmono
    · exact hupto e he
  · refine List.pairwise_append.mpr ⟨hgrown.sorted, ?_, fun e he e' he' => ?_⟩
    · exact hsorted.sublist (hrest ▸ List.sublist_append_left _ _)
    · exact (hgrown.got_le e he).trans_lt (hpast e' (hin e' he'))
  · intro q r hr hq hseen
    rcases hread q r hr hseen with hgot | hnew
    · exact List.mem_append_left _ hgot
    · rw [← hrest] at hnew
      rcases List.mem_append.mp hnew with hnew | hnew
      · exact List.mem_append_right _ hnew
      · exact absurd (hafter _ hnew) (Nat.not_lt_of_le hq)
  · intro hmore q r hr hseen
    rcases hread q r hr hseen with hgot | hnew
    · exact List.mem_append_left _ hgot
    · rw [← hall hmore] at hnew
      exact List.mem_append_right _ hnew
  · intro hmore
    obtain ⟨e, -, hlast, hlt⟩ := hon (hsome hmore)
    exact ⟨e.1, hlast, hlt⟩

end Fetch

/-! ## Runs -/

/-- Whatever others do between its fetches. -/
theorem following (events : List Followed) {t : UInt64}
    (htimes : (events.filterMap Followed.fetched).Pairwise (· ≤ ·))
    (hlast : ∀ u ∈ events.filterMap Followed.fetched, u ≤ t) :
    Following P R deviceCap t (Follower.follow P R deviceCap events) := by
  induction events using List.reverseRecOn generalizing t with
  | nil =>
    exact ⟨(fun _ _ h => nomatch h), le_rfl, (fun _ h => nomatch h), List.Pairwise.nil,
      fun q r h => absurd h List.not_mem_nil⟩
  | append_singleton events event ih =>
    rw [List.filterMap_append] at htimes hlast
    have hstep : Follower.follow P R deviceCap (events ++ [event]) =
        (Follower.follow P R deviceCap events).step P R deviceCap event := List.foldl_append ..
    rw [hstep]
    obtain ⟨hbefore, -, hcross⟩ := List.pairwise_append.mp htimes
    cases event with
    | call now op =>
      have h : Following P R deviceCap t (Follower.follow P R deviceCap events) :=
        ih hbefore fun u hu => hlast u (List.mem_append_left _ hu)
      have hchanges : Changes P R (fun _ => True) now (Follower.follow P R deviceCap events).store
          (R.step P (Follower.follow P R deviceCap events).store now op) :=
        step_changes _ h.signed op fun _ _ _ _ => trivial
      exact h.grow (hchanges.pendingSigned h.signed) hchanges.records
    | fetch now =>
      have h : Following P R deviceCap now (Follower.follow P R deviceCap events) :=
        ih hbefore fun u hu => hcross u hu now (List.mem_singleton_self now)
      exact (h.fetch (UInt64.le_refl now)).1.later
        (hlast now (List.mem_append_right _ (List.mem_singleton_self now)))

end HxdNg.Registrars
