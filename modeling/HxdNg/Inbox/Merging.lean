import HxdNg.Inbox.Store
import HxdNg.Relationships.Pairs

/-!
# What a merge of two mailboxes leaves

* `Inner.items` : the rows and stubs, by what names them;
* `collapse_unmarked`, `collapse_stubs` : a collapse only drops rows and stubs, and only stamps rows;
* `Inner.Settled` : nothing that moves has the key of something at the destination; both passes of a
  collapse leave it so (`collapse_settled`).
-/

namespace HxdNg.Inbox

open Relationships History Assoc
open Identity (Fingerprint)

/-- A row without what was stamped on it. -/
def StoredMessage.unmarked (m : StoredMessage) : StoredMessage :=
  { m with deliveredAt := none, readAt := none }

theorem named_of_unmarked {m k : StoredMessage} (h : m.unmarked = k.unmarked) :
    m.named = k.named := by
  show m.unmarked.named = k.unmarked.named
  rw [h]

theorem map_unmarked {ms : List StoredMessage} {f : StoredMessage → StoredMessage}
    (hf : ∀ m, (f m).unmarked = m.unmarked) : (ms.map f).map (·.unmarked) = ms.map (·.unmarked) := by
  rw [List.map_map]
  exact List.map_congr_left fun m _ => hf m

namespace Inner

/-- The rows and stubs, by what names them. -/
def items (s : Inner) : List Named := s.msgs.map (·.named) ++ s.stubs.map (·.named)

/-- Rows and stubs only go, and rows are only stamped. -/
structure Drops (s s' : Inner) : Prop where
  msgs : (s'.msgs.map (·.unmarked)).Sublist (s.msgs.map (·.unmarked))
  stubs : s'.stubs.Sublist s.stubs
  cursors : s'.cursors = s.cursors
  nextId : s'.nextId = s.nextId

theorem Drops.trans {s₁ s₂ s₃ : Inner} (h : s₁.Drops s₂) (h' : s₂.Drops s₃) : s₁.Drops s₃ :=
  ⟨h'.msgs.trans h.msgs, h'.stubs.trans h.stubs, h'.cursors.trans h.cursors,
    h'.nextId.trans h.nextId⟩

theorem Drops.items {s s' : Inner} (h : s.Drops s') : s'.items.Sublist s.items := by
  refine List.Sublist.append ?_ (h.stubs.map _)
  have := h.msgs.map StoredMessage.named
  rwa [List.map_map, List.map_map] at this

theorem drops_forgetRemoved (s : Inner) : s.Drops s.forgetRemoved :=
  ⟨List.Sublist.refl _, List.Sublist.refl _, rfl, rfl⟩

end Inner

namespace Merge

variable {g : Merge} {senderSide : Bool} {s : Inner} {msgs : List StoredMessage}

theorem learn_unmarked (k : StoredMessage) (d : Option StoredMessage) :
    (learn k d).unmarked = k.unmarked := rfl

theorem stampRead_unmarked (g : Merge) (senderSide : Bool) (stubs : List Stub) (m : StoredMessage) :
    (g.stampRead senderSide stubs m).unmarked = m.unmarked := by
  unfold stampRead
  split
  · split <;> rfl
  · rfl

theorem modify_unmarked (msgs : List StoredMessage) (i : Nat) (d : Option StoredMessage) :
    (msgs.modify i fun k => learn k d).map (·.unmarked) = msgs.map (·.unmarked) := by
  refine List.ext_getElem? fun j => ?_
  rw [List.getElem?_map, List.getElem?_map, List.getElem?_modify]
  cases msgs[j]? with
  | none => rfl
  | some m =>
    by_cases hij : i = j
    · simp [hij, learn_unmarked]
    · simp [hij]

theorem promote_unmarked (msgs : List StoredMessage) (doomed : List (Nat × Nat)) :
    (promote msgs doomed).map (·.unmarked) = msgs.map (·.unmarked) := by
  unfold promote
  induction doomed generalizing msgs with
  | nil => rfl
  | cons p doomed ih => exact (ih _).trans (modify_unmarked ..)

theorem withoutDoomed_sublist (msgs : List StoredMessage) (doomed : List (Nat × Nat)) :
    (withoutDoomed msgs doomed).Sublist msgs := by
  have h := (List.filter_sublist (p := fun (p : StoredMessage × Nat) =>
    !doomed.any fun d => d.1 = p.2) (l := msgs.zipIdx)).map Prod.fst
  rwa [List.zipIdx_map_fst] at h

theorem drops_collapseRows (g : Merge) (senderSide : Bool) (s : Inner) :
    s.Drops (g.collapseRows senderSide s) := by
  refine ⟨?_, List.Sublist.refl _, rfl, rfl⟩
  show (((withoutDoomed (promote s.msgs _) _).map (g.stampRead senderSide s.stubs)).map _).Sublist _
  rw [map_unmarked (stampRead_unmarked g senderSide s.stubs)]
  have h := (withoutDoomed_sublist (promote s.msgs (g.doomed senderSide s.msgs))
    (g.doomed senderSide s.msgs)).map StoredMessage.unmarked
  rwa [promote_unmarked] at h

theorem drops_collapseOntoStubs (g : Merge) (senderSide : Bool) (s : Inner) :
    s.Drops (g.collapseOntoStubs senderSide s) :=
  ⟨List.filter_sublist.map _, List.Sublist.refl _, rfl, rfl⟩

theorem drops_collapseStubs (g : Merge) (senderSide : Bool)
    (kept : List ((List Char × List Char × Option MessageGuid) × MessageRef)) (s : Inner) :
    s.Drops (g.collapseStubs senderSide kept s) :=
  ⟨List.Sublist.refl _, List.filter_sublist, rfl, rfl⟩

theorem drops_pass (g : Merge) (senderSide : Bool) (s : Inner) : s.Drops (g.pass senderSide s) :=
  (drops_collapseRows g senderSide s).trans ((drops_collapseOntoStubs g senderSide _).trans
    ((drops_collapseStubs g senderSide _ _).trans (drops_collapseStubs g senderSide _ _)))

theorem drops_collapse (g : Merge) (s : Inner) : s.Drops (g.collapse s) :=
  (drops_pass g false s).trans (drops_pass g true _)

/-! ## Nothing moves onto something kept -/

/-- On one side nothing that moves has the key of something at the destination. -/
def Settled (g : Merge) (senderSide : Bool) (items : List Named) : Prop :=
  ∀ x ∈ items, x.side senderSide g.moves = true → ∀ y ∈ items,
    y.side senderSide g.present = true → x.mergedKey g.after ≠ y.mergedKey g.after

theorem Settled.sublist {xs ys : List Named} (h : g.Settled senderSide ys) (hs : xs.Sublist ys) :
    g.Settled senderSide xs :=
  fun x hx hm y hy => h x (hs.subset hx) hm y (hs.subset hy)

theorem mem_withoutDoomed {doomed : List (Nat × Nat)} {m : StoredMessage} :
    m ∈ withoutDoomed msgs doomed ↔ ∃ i, msgs[i]? = some m ∧ ∀ p ∈ doomed, p.1 ≠ i := by
  unfold withoutDoomed
  rw [List.mem_map]
  constructor
  · rintro ⟨⟨m', i⟩, hm, rfl⟩
    obtain ⟨hmem, hd⟩ := List.mem_filter.1 hm
    refine ⟨i, List.mem_zipIdx_iff_getElem?.1 hmem, fun p hp e => ?_⟩
    rw [Bool.not_eq_true', List.any_eq_false] at hd
    exact hd p hp (decide_eq_true e)
  · rintro ⟨i, hi, hd⟩
    refine ⟨(m, i), List.mem_filter.2 ⟨List.mem_zipIdx_iff_getElem?.2 hi, ?_⟩, rfl⟩
    rw [Bool.not_eq_true', List.any_eq_false]
    exact fun p hp e => hd p hp (of_decide_eq_true e)

/-- Which rows a pass finds doomed. -/
theorem mem_doomed {i : Nat} {m : StoredMessage} (hi : msgs[i]? = some m) :
    (∃ j, (i, j) ∈ g.doomed senderSide msgs) ↔ m.named.side senderSide g.moves = true ∧
      ∃ k ∈ msgs, k.named.side senderSide g.present = true ∧ g.rowKey k = g.rowKey m := by
  unfold doomed
  constructor
  · rintro ⟨j, hj⟩
    obtain ⟨⟨m', i'⟩, hmem, hf⟩ := List.mem_filterMap.1 hj
    dsimp only at hf
    split at hf
    case isFalse => cases hf
    case isTrue hm =>
    obtain ⟨j', hj', heq⟩ := Option.map_eq_some_iff.1 hf
    obtain ⟨rfl, rfl⟩ := Prod.mk.inj heq
    have hi' := List.mem_zipIdx_iff_getElem?.1 hmem
    obtain rfl : m = m' := Option.some.inj (hi.symm.trans hi')
    obtain ⟨hlt, hp, -⟩ := List.findIdx?_eq_some_iff_getElem.1 hj'
    rw [Bool.and_eq_true, decide_eq_true_eq] at hp
    exact ⟨hm, _, List.getElem_mem hlt, hp⟩
  · rintro ⟨hm, k, hk, hp⟩
    have hsome : (msgs.findIdx? fun k => k.named.side senderSide g.present &&
        decide (g.rowKey k = g.rowKey m)).isSome = true := by
      rw [List.findIdx?_isSome, List.any_eq_true]
      exact ⟨k, hk, by rw [Bool.and_eq_true, decide_eq_true_eq]; exact hp⟩
    obtain ⟨j, hj⟩ := Option.isSome_iff_exists.1 hsome
    refine ⟨j, List.mem_filterMap.2 ⟨(m, i), List.mem_zipIdx_iff_getElem?.2 hi, ?_⟩⟩
    show (if _ then _ else _) = _
    rw [if_pos hm, hj]
    rfl

/-- A row of a list promoted is a row of the list, stamped. -/
theorem promote_getElem? {doomed : List (Nat × Nat)} {i : Nat} {m : StoredMessage}
    (h : (promote msgs doomed)[i]? = some m) :
    ∃ m', msgs[i]? = some m' ∧ m'.unmarked = m.unmarked := by
  have hu := congrArg (·[i]?) (promote_unmarked msgs doomed)
  simp only [List.getElem?_map, h, Option.map_some] at hu
  obtain ⟨m', hm', he⟩ := Option.map_eq_some_iff.1 hu.symm
  exact ⟨m', hm', he⟩

/-- A moving row left by the first step of a pass meets no row at the destination. -/
theorem collapseRows_meets {m k : StoredMessage} (hm : m ∈ (g.collapseRows senderSide s).msgs)
    (hmoves : m.named.side senderSide g.moves = true) (hk : k ∈ s.msgs)
    (hpresent : k.named.side senderSide g.present = true) : g.rowKey m ≠ g.rowKey k := by
  intro hkey
  obtain ⟨m₁, hm₁, rfl⟩ := List.mem_map.1 hm
  have hname := named_of_unmarked (stampRead_unmarked g senderSide s.stubs m₁)
  obtain ⟨i, hi, hd⟩ := mem_withoutDoomed.1 hm₁
  obtain ⟨m₂, hi₂, hu⟩ := promote_getElem? hi
  have hname₂ := (named_of_unmarked hu).trans hname.symm
  have hkey₂ : g.rowKey k = g.rowKey m₂ := by
    rw [rowKey, rowKey, hname₂]
    exact hkey.symm
  obtain ⟨j, hj⟩ : ∃ j, (_, j) ∈ g.doomed senderSide _ := (mem_doomed hi₂).2
    ⟨by rw [hname₂]; exact hmoves, k, hk, hpresent, hkey₂⟩
  exact hd _ hj rfl

theorem mem_meeting {κ : Type*} [DecidableEq κ] {moving kept : List (κ × MessageRef)} {key : κ}
    {d r : MessageRef} (hd : (key, d) ∈ moving) (hr : (key, r) ∈ kept) :
    (d, r) ∈ meeting moving kept := by
  refine List.mem_flatMap.2 ⟨(key, d), hd, List.mem_map.2 ⟨(key, r), List.mem_filter.2 ⟨hr, ?_⟩, rfl⟩⟩
  exact decide_eq_true rfl

/-- What is kept is the first of no pair. -/
theorem ne_of_kept {pairs : List (MessageRef × MessageRef)} {d r ref : MessageRef}
    (hk : (!pairs.any fun p => decide (p.1 = ref)) = true) (h : (d, r) ∈ pairs) : ref ≠ d := by
  intro e
  subst e
  rw [Bool.not_eq_true', List.any_eq_false] at hk
  exact hk _ h (decide_eq_true rfl)

theorem mem_rowsOf {f : Mailbox → Bool} {m : StoredMessage} (hm : m ∈ msgs)
    (hf : m.named.side senderSide f = true) :
    (g.rowKey m, m.reference) ∈ g.rowsOf senderSide f msgs :=
  List.mem_map.2 ⟨m, List.mem_filter.2 ⟨hm, hf⟩, rfl⟩

theorem mem_stubsOf {f : Mailbox → Bool} {stubs : List Stub} {t : Stub} (ht : t ∈ stubs)
    (hf : t.named.side senderSide f = true) :
    (g.stubKey t, t.reference) ∈ g.stubsOf senderSide f stubs :=
  List.mem_map.2 ⟨t, List.mem_filter.2 ⟨ht, hf⟩, rfl⟩

theorem collapseOntoStubs_meets {m : StoredMessage} {t : Stub}
    (hm : m ∈ (g.collapseOntoStubs senderSide s).msgs)
    (hmoves : m.named.side senderSide g.moves = true) (ht : t ∈ s.stubs)
    (hpresent : t.named.side senderSide g.present = true) : g.rowKey m ≠ g.stubKey t := by
  intro hkey
  obtain ⟨hmem, hkept⟩ := List.mem_filter.1 hm
  exact ne_of_kept hkept (mem_meeting (hkey ▸ mem_rowsOf hmem hmoves) (mem_stubsOf ht hpresent)) rfl

theorem collapseStubs_meets {kept : List ((List Char × List Char × Option MessageGuid) × MessageRef)}
    {t : Stub} {r : MessageRef} (ht : t ∈ (g.collapseStubs senderSide kept s).stubs)
    (hmoves : t.named.side senderSide g.moves = true) : (g.stubKey t, r) ∉ kept := by
  intro hr
  obtain ⟨hmem, hkept⟩ := List.mem_filter.1 ht
  exact ne_of_kept hkept (mem_meeting (mem_stubsOf hmem hmoves) hr) rfl

theorem pass_settled (g : Merge) (senderSide : Bool) (s : Inner) :
    g.Settled senderSide (g.pass senderSide s).items := by
  have hdrop := drops_collapseRows g senderSide s
  -- The rows kept, up to stamps, are among those there were.
  have hrow : ∀ m ∈ (g.collapseRows senderSide s).msgs, ∃ k ∈ s.msgs, k.named = m.named := fun m hm => by
    have hu := hdrop.msgs.subset (List.mem_map_of_mem hm)
    obtain ⟨k, hk, he⟩ := List.mem_map.1 hu
    exact ⟨k, hk, named_of_unmarked he⟩
  intro x hx hmoves y hy hpresent hkey
  rcases List.mem_append.1 hx with hx | hx
  · obtain ⟨m, hm, rfl⟩ := List.mem_map.1 hx
    have hm₁ : m ∈ (g.collapseRows senderSide s).msgs := (List.mem_filter.1 hm).1
    rcases List.mem_append.1 hy with hy | hy
    · obtain ⟨k, hk, rfl⟩ := List.mem_map.1 hy
      obtain ⟨k₀, hk₀, he⟩ := hrow k (List.mem_filter.1 hk).1
      refine collapseRows_meets hm₁ hmoves hk₀ (by rw [he]; exact hpresent) ?_
      rw [rowKey, rowKey, he]
      exact hkey
    · obtain ⟨t, ht, rfl⟩ := List.mem_map.1 hy
      have ht₀ : t ∈ s.stubs := (drops_pass g senderSide s).stubs.subset ht
      exact collapseOntoStubs_meets (s := g.collapseRows senderSide s) hm hmoves ht₀ hpresent hkey
  · obtain ⟨t, ht, rfl⟩ := List.mem_map.1 hx
    rcases List.mem_append.1 hy with hy | hy
    · obtain ⟨k, hk, rfl⟩ := List.mem_map.1 hy
      refine collapseStubs_meets (List.mem_filter.1 ht).1 hmoves
        (?_ : (_, k.reference) ∈ g.rowsOf senderSide g.present (g.collapseRows senderSide s).msgs)
      rw [show g.stubKey t = g.rowKey k from hkey]
      exact mem_rowsOf (List.mem_filter.1 hk).1 hpresent
    · obtain ⟨t', ht', rfl⟩ := List.mem_map.1 hy
      have ht₀ : t' ∈ s.stubs := (drops_pass g senderSide s).stubs.subset ht'
      refine collapseStubs_meets ht hmoves
        (?_ : (_, t'.reference) ∈ g.stubsOf senderSide g.present s.stubs)
      rw [show g.stubKey t = g.stubKey t' from hkey]
      exact mem_stubsOf ht₀ hpresent

/-- After both passes nothing moves onto something kept, on either side. -/
theorem collapse_settled (g : Merge) (s : Inner) (senderSide : Bool) :
    g.Settled senderSide (g.collapse s).items := by
  cases senderSide with
  | true => exact pass_settled g true _
  | false => exact (pass_settled g false s).sublist (drops_pass g true _).items

end Merge

end HxdNg.Inbox
