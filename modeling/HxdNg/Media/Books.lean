import HxdNg.Media.Pins

/-!
# The media store's books

* `Books` : the bytes counted are those held, and `order` lists what is held as it came;
* `Books.remove`, `sweep`, `update`, `revoke`, `evict`, `accept` : every call keeps them;
* `Evicted`, `evicted` : what an eviction takes, and what it leaves; `Landed` : an image come in;
* `Books.step`, `Books.run`, `books_balance` : the books over a run of the core.
-/

namespace HxdNg.Media

open Assoc Relationships

def Entry.held (e : Entry) : Nat := e.bytes.elim 0 List.length

namespace StoreInner

/-- The books balance; `made` are the handles there ever were, as they came. -/
structure Books (s : StoreInner) (made : List Handle) : Prop where
  total : s.totalBytes = s.items.total Entry.held
  listed : ∀ h, h ∈ s.order ↔ (s.items.get h).isSome = true
  order : s.order.Sublist made
  once : made.Nodup

variable {s : StoreInner} {made : List Handle} {id h : Handle} {e : Entry} {now : Instant}

namespace Books

theorem nodup (hs : Books s made) : s.order.Nodup := hs.order.nodup hs.once

/-- No subtraction of what an entry holds saturates. -/
theorem held_le (hs : Books s made) (he : s.items.get h = some e) : e.held ≤ s.totalBytes := by
  have := Map.total_drop Entry.held s.items h
  rw [he, Option.elim_some, ← hs.total] at this
  omega

theorem remove (hs : Books s made) (id : Handle) : Books (s.remove id) made := by
  refine ⟨?_, fun h => ?_, List.erase_sublist.trans hs.order, hs.once⟩
  · have hdrop := Map.total_drop Entry.held s.items id
    have htotal := hs.total
    show s.totalBytes - ((s.items.get id).bind Entry.bytes).elim 0 List.length = _
    cases he : s.items.get id with
    | none =>
      rw [he, Option.elim_none] at hdrop
      rw [Option.bind_none, Option.elim_none]
      show _ = (s.items.drop id).total Entry.held
      omega
    | some e =>
      rw [he, Option.elim_some] at hdrop
      rw [Option.bind_some]
      show s.totalBytes - e.held = (s.items.drop id).total Entry.held
      omega
  · show h ∈ s.order.erase id ↔ _
    rw [get_remove, hs.nodup.mem_erase_iff, hs.listed]
    by_cases hid : h = id <;> simp [hid]

theorem removes (hs : Books s made) (ids : List Handle) : Books (ids.foldl StoreInner.remove s) made := by
  induction ids generalizing s with
  | nil => exact hs
  | cons id ids ih => exact ih (hs.remove id)

theorem sweep (hs : Books s made) (now : Instant) : Books (s.sweep now) made := hs.removes _

theorem put (hs : Books s made) (he : s.items.get id = some e) {e' : Entry} {n : Nat}
    (hn : n + e.held = s.totalBytes + e'.held) (blocked : List (Bytes 32)) :
    Books ⟨s.items.set id e', s.order, n, blocked⟩ made := by
  refine ⟨?_, fun h => ?_, hs.order, hs.once⟩
  · have hset := Map.total_set Entry.held s.items id e'
    have htotal := hs.total
    rw [he, Option.elim_some] at hset
    show n = (s.items.set id e').total Entry.held
    omega
  · show h ∈ s.order ↔ ((s.items.set id e').get h).isSome = true
    rw [hs.listed, Map.get_set]
    by_cases hid : h = id <;> simp [hid, he]

theorem update (hs : Books s made) (id : Handle) {f : Entry → Entry} (hf : ∀ e, (f e).held = e.held) :
    Books (s.update id f) made := by
  unfold StoreInner.update
  split
  next e he => exact hs.put he (by rw [hf]) s.blocked
  · exact hs

theorem revoke (hs : Books s made) (id : Handle) (block : Bool) : Books (s.mediaRevoke id block) made := by
  unfold mediaRevoke
  split
  · exact hs
  next e he =>
    have hle := hs.held_le he
    refine hs.put he ?_ _
    show s.totalBytes - e.held + e.held = s.totalBytes + 0
    omega

theorem blockHashes (hs : Books s made) (hashes : List (Bytes 32)) : Books (s.mediaBlockHashes hashes) made :=
  ⟨hs.total, hs.listed, hs.order, hs.once⟩

theorem grant (hs : Books s made) (now : Instant) (id : Handle) (who : Principal) :
    Books (s.mediaGrant now id who) made := by
  refine hs.update id fun e => ?_
  split <;> rfl

theorem pin (hs : Books s made) (now : Instant) (id : Handle) (d : Instant) :
    Books (s.mediaPin now id d) made := by
  refine hs.update id fun e => ?_
  unfold Entry.pin
  split
  · split <;> rfl
  · rfl

end Books

/-! ## Eviction -/

/-- An eviction goes through `rest`, takes all that is not pinned, and stops where the image fits. -/
structure Evicted (incoming cap : Nat) (now : Instant) (s : StoreInner) (front rest : List Handle)
    (s' : StoreInner) : Prop where
  entries : ∀ h ∈ s'.order, s'.items.get h = s.items.get h
  order : ∃ gone kept, rest = gone ++ kept ∧ s'.order = front ++ (gone.filter (s.pinned now) ++ kept) ∧
    (s'.totalBytes + incoming ≤ cap ∨ kept = [])

/-- The loop, past what is pinned in front. -/
theorem evictGo_evicted {incoming cap fuel : Nat} {front rest : List Handle} (hs : Books s made)
    (horder : s.order = front ++ rest) (hfuel : rest.length ≤ fuel) :
    Books (evictGo incoming cap now fuel front.length s) made ∧
      Evicted incoming cap now s front rest (evictGo incoming cap now fuel front.length s) := by
  have hstop : s.totalBytes + incoming ≤ cap ∨ rest = [] → Evicted incoming cap now s front rest s :=
    fun hfits => ⟨fun _ _ => rfl, [], rest, rfl, horder, hfits⟩
  induction fuel generalizing s front rest with
  | zero => exact ⟨hs, hstop (.inr (List.length_eq_zero_iff.1 (Nat.le_zero.1 hfuel)))⟩
  | succ fuel ih =>
    unfold evictGo
    split
    next hfit => exact ⟨hs, hstop (.inl hfit)⟩
    next =>
      cases rest with
      | nil =>
        have hget : s.order[front.length]? = none := by simp [horder]
        rw [hget]
        exact ⟨hs, hstop (.inr rfl)⟩
      | cons oldest rest =>
        have hget : s.order[front.length]? = some oldest := by simp [horder]
        simp only [hget]
        rw [List.length_cons] at hfuel
        split
        next hp =>
          have horder' : s.order = (front ++ [oldest]) ++ rest := by rw [horder, List.append_cons]
          obtain ⟨hb, hentries, gone, kept, hcut, hleft, hfits⟩ := ih hs horder' (by omega)
            fun hfits => ⟨fun _ _ => rfl, [], rest, rfl, horder', hfits⟩
          rw [List.length_append, List.length_singleton] at hb hentries hleft hfits
          refine ⟨hb, hentries, oldest :: gone, kept, by rw [hcut, List.cons_append], ?_, hfits⟩
          rw [hleft, List.filter_cons_of_pos hp, List.cons_append, List.append_assoc, List.singleton_append]
        next hp =>
          have hout : oldest ∉ front ++ rest := (List.nodup_middle.1 (horder ▸ hs.nodup)).notMem
          have herase : (s.remove oldest).order = front ++ rest := by
            show s.order.erase oldest = _
            rw [horder, List.erase_append_right _ fun hm => hout (List.mem_append_left _ hm), List.erase_cons_head]
          have hget' : ∀ h ∈ front ++ rest, (s.remove oldest).items.get h = s.items.get h := by
            intro h hm
            rw [get_remove, if_neg]
            rintro rfl
            exact hout hm
          obtain ⟨hb, hentries, gone, kept, hcut, hleft, hfits⟩ := ih (hs.remove oldest) herase (by omega)
            fun hfits => ⟨fun _ _ => rfl, [], rest, rfl, herase, hfits⟩
          have hin : ∀ h ∈ gone ++ kept, h ∈ front ++ rest := fun h hm => List.mem_append_right _ (hcut ▸ hm)
          have hpinned : gone.filter ((s.remove oldest).pinned now) = gone.filter (s.pinned now) := by
            refine List.filter_congr fun h hm => ?_
            unfold pinned
            rw [hget' h (hin h (List.mem_append_left _ hm))]
          refine ⟨hb, fun h hm => ?_, oldest :: gone, kept, by rw [hcut, List.cons_append], ?_, hfits⟩
          · rw [hentries h hm]
            rw [hleft] at hm
            rcases List.mem_append.1 hm with hm | hm
            · exact hget' h (List.mem_append_left _ hm)
            · exact hget' h (hin h (List.Sublist.append List.filter_sublist (List.Sublist.refl _) |>.subset hm))
          · rw [hleft, hpinned, List.filter_cons_of_neg hp]

theorem evicted (hs : Books s made) (incoming cap : Nat) (now : Instant) :
    Books (s.evictToFit incoming cap now) made ∧
      Evicted incoming cap now s [] s.order (s.evictToFit incoming cap now) :=
  evictGo_evicted hs (List.nil_append _).symm le_rfl

/-- An image came in as `id`: it stands behind what an eviction for it left, and fits unless all else is pinned. -/
structure Landed (cfg : MediaConfig) (canonical : Canonical) (now : Instant) (s : StoreInner) (id : Handle)
    (s' : StoreInner) : Prop where
  behind : ∃ left, Evicted canonical.bytes.length cfg.maxTotalBytes now s [] s.order left ∧
    s'.order = left.order ++ [id] ∧ s'.totalBytes = left.totalBytes + canonical.bytes.length
  fits : s'.totalBytes ≤ cfg.maxTotalBytes ∨ ∀ h ∈ s'.order, h = id ∨ s.pinned now h = true

theorem Evicted.landed {cfg : MediaConfig} {canonical : Canonical} {left s' : StoreInner}
    (hev : Evicted canonical.bytes.length cfg.maxTotalBytes now s [] s.order left)
    (horder : s'.order = left.order ++ [id]) (htotal : s'.totalBytes = left.totalBytes + canonical.bytes.length) :
    Landed cfg canonical now s id s' := by
  refine ⟨⟨left, hev, horder, htotal⟩, ?_⟩
  obtain ⟨gone, kept, _, hleft, hfits⟩ := hev.order
  refine hfits.imp htotal.le.trans fun hkept h hm => ?_
  rw [horder, hleft, hkept, List.append_nil, List.nil_append, List.mem_append, List.mem_singleton] at hm
  exact hm.symm.imp_right fun hm => (List.mem_filter.1 hm).2

/-- What an upload leaves: nothing new where it is refused, and else its image. -/
theorem Books.accept (hs : Books s made) (cfg : MediaConfig) (hash : Bytes 32) (who : Uploader)
    (canonical : Canonical) (drawn : Option Handle) (now : Instant) (hfresh : ∀ id, drawn = some id → id ∉ made) :
    accept cfg hash s who canonical drawn now = (none, s) ∨
    ∃ id, drawn = some id ∧ (accept cfg hash s who canonical drawn now).1.isSome = true ∧
      Books (accept cfg hash s who canonical drawn now).2 (made ++ [id]) ∧
      Landed cfg canonical now s id (accept cfg hash s who canonical drawn now).2 := by
  unfold StoreInner.accept
  split
  · exact .inl rfl
  · split
    · exact .inl rfl
    next id =>
      obtain ⟨hb, hev⟩ := evicted hs canonical.bytes.length cfg.maxTotalBytes now
      have hout := hfresh id rfl
      have hnone : (s.evictToFit canonical.bytes.length cfg.maxTotalBytes now).items.get id = none := by
        rw [← Option.not_isSome_iff_eq_none, ← hb.listed]
        exact fun hm => hout (hb.order.subset hm)
      have hset := fun e => Map.total_set Entry.held
        (s.evictToFit canonical.bytes.length cfg.maxTotalBytes now).items id e
      simp only [hnone, Option.elim_none, Nat.add_zero] at hset
      refine .inr ⟨id, rfl, rfl, ⟨?_, fun h => ?_, ?_, ?_⟩, hev.landed rfl rfl⟩
      · refine Eq.trans ?_ (hset _).symm
        exact congrArg (· + canonical.bytes.length) hb.total
      · simp only [Map.get_set, List.mem_append, List.mem_singleton, hb.listed]
        by_cases hid : h = id <;> simp [hid]
      · exact List.Sublist.append hb.order (List.Sublist.refl _)
      · exact List.nodup_append.2 ⟨hs.once, List.nodup_singleton id, fun a ha b hb' => by
          rw [List.mem_singleton.1 hb']
          rintro rfl
          exact hout ha⟩

end StoreInner

/-! ## The books over a run -/

/-- A call that keeps the books whatever was uploaded. -/
def StoreInner.Keeps (s s' : StoreInner) : Prop := ∀ made, s.Books made → s'.Books made

variable {v : Server} {c : Core} {made : List Handle}

theorem StoreInner.Keeps.foldl {α : Type*} {f : StoreInner → α → StoreInner}
    (hf : ∀ (s : StoreInner) a, s.Keeps (f s a)) :
    ∀ (as : List α) (s : StoreInner), s.Keeps (as.foldl f s)
  | [], _ => fun _ hs => hs
  | a :: as, s => fun made hs => Keeps.foldl hf as (f s a) made (hf s a made hs)

theorem keeps_grants (now : Instant) (h : Handle) (who : List Principal) (s : StoreInner) :
    s.Keeps (who.foldl (fun s p => s.mediaGrant now h p) s) :=
  .foldl (fun s p made (hs : s.Books made) => hs.grant now h p) who s

theorem media_closeReportsOn (c : Core) (target : ReportTarget) (about : Option Mailbox) :
    (c.closeReportsOn target about).media = c.media := by
  rw [Core.closeReportsOn, Core.foldl_closeRemoved]

theorem media_closeReportsOnAny (c : Core) (targets : List ReportTarget) :
    (c.closeReportsOnAny targets).media = c.media := by
  rw [Core.closeReportsOnAny, Core.foldl_closeRemoved]

theorem media_revokeAll (hs : List Handle) (c : Core) :
    (hs.foldl (fun c h => c.revokeQuietly h true) c).media = hs.foldl (fun s h => s.mediaRevoke h true) c.media := by
  induction hs generalizing c with
  | nil => rfl
  | cons h hs ih => exact ih _

theorem keeps_settle {α : Type} {after : α → Core} {answer : Except ModError α}
    (hok : ∀ a, answer = .ok a → c.media.Keeps (after a).media) : c.media.Keeps (c.settle after answer).media := by
  cases answer with
  | error => exact fun _ hs => hs
  | ok a => exact hok a rfl

theorem keeps_report {by_ : Reporter} {request : ReportRequest} {allows : Bool} {moderators : List Principal}
    {r : Filed × Core} (hok : c.report v by_ request allows moderators = .ok r) : c.media.Keeps r.2.media := by
  unfold Core.report at hok
  cases hw : c.reported by_ request with
  | error e =>
    rw [hw] at hok
    cases hok
  | ok what =>
    rw [hw] at hok
    dsimp only [bind, Except.bind] at hok
    split at hok
    · cases hok
      exact fun _ hs => hs
    · split at hok
      · obtain rfl := Except.ok.inj hok
        intro made hs
        simp only [Core.fileReport]
        split
        · exact keeps_grants _ _ _ _ _ (hs.pin _ _ _)
        · exact hs
      · cases hok

theorem keeps_close {person : Option Subject} {id : ReportId} {outcome : Outcome} {of : Option ReportId} {c' : Core}
    (hok : c.reportClose person id outcome of = .ok c') : c.media.Keeps c'.media := by
  obtain ⟨report, closed, -, rfl⟩ := reportClose_ok hok
  intro made hs
  cases report.media with
  | none => exact hs
  | some handle =>
    simp only [Option.elim_some, Core.release]
    split
    · exact hs
    · exact hs.update handle fun _ => rfl

theorem keeps_redact {guarded : Subject → Bool} {id : LineId} {c' : Core} (hok : c.redactLine guarded id = .ok c') :
    c.media.Keeps c'.media := by
  unfold Core.redactLine at hok
  intro made hs
  split at hok
  · cases hok
  · split at hok
    · obtain rfl := Except.ok.inj hok
      rw [media_closeReportsOn]
      exact hs
    · split at hok
      · cases hok
      · obtain rfl := Except.ok.inj hok
        rw [media_closeReportsOn]
        split
        · rw [media_closeReportsOn]
          exact hs.revoke _ true
        · exact hs

theorem keeps_revoke {guarded : Option Mailbox → Bool} {handle : Handle} {block : Bool} {c' : Core}
    (hok : c.revokeMedia guarded handle block = .ok c') : c.media.Keeps c'.media := by
  unfold Core.revokeMedia at hok
  split at hok
  · cases hok
  · split at hok
    · cases hok
    · obtain rfl := Except.ok.inj hok
      rw [media_closeReportsOn]
      exact fun _ hs => hs.revoke handle block

/-- Every operation keeps the books, with the handle it draws for an image, if any, put behind the others. -/
theorem StoreInner.Books.step (hs : c.media.Books made) (op : Op) (hnodup : (made ++ op.drawn.toList).Nodup) :
    (c.step v op).media.Books (made ++ op.drawn.toList) := by
  have hnone {s' : StoreInner} (hk : c.media.Keeps s') : s'.Books (made ++ (none : Option Handle).toList) := by
    rw [Option.toList_none, List.append_nil]
    exact hk made hs
  cases op with
  | finishUpload who canonical drawn =>
    have hgrow : c.media.Books (made ++ drawn.toList) :=
      ⟨hs.total, hs.listed, hs.order.trans (List.sublist_append_left _ _), hnodup⟩
    obtain h | ⟨id, rfl, -, hbooks, -⟩ := hs.accept v.media (v.sha256 canonical.bytes) who canonical drawn c.now
      fun id hid hm => (List.nodup_append.1 hnodup).2.2 id hm id (by simp [Op.drawn, hid]) rfl
    · show StoreInner.Books (StoreInner.accept _ _ _ _ _ _ _).2 _
      rw [h]
      exact hgrow
    · exact hbooks
  | wait d | sendGhost key | pruneReports before | dropLines keep => exact hnone fun _ hs => hs
  | uploadPart | sweep => exact hnone fun _ hs => hs.sweep c.now
  | send sender login fp media audience =>
    refine hnone fun made hs => ?_
    show (c.send sender login fp media audience).media.Books made
    unfold Core.send
    split
    · exact hs
    · split
      · exact hs
      · exact hs.update _ fun _ => rfl
  | capture handle who => exact hnone fun _ hs => hs.update handle fun _ => rfl
  | history who id =>
    refine hnone fun made hs => ?_
    show (c.historyMediaFetchable v who id).2.media.Books made
    unfold Core.historyMediaFetchable
    split
    · exact hs
    · split
      · exact hs
      · split
        · exact hs.grant _ _ _
        · exact hs
  | report by_ request allows moderators => exact hnone (keeps_settle fun _ hok => keeps_report hok)
  | reports who filter before limit => exact hnone (.foldl (fun s h => keeps_grants c.now h who s) _ _)
  | close person id outcome of => exact hnone (keeps_settle fun _ hok => keeps_close hok)
  | redact guarded id => exact hnone (keeps_settle fun _ hok => keeps_redact hok)
  | revoke guarded handle block => exact hnone (keeps_settle fun _ hok => keeps_revoke hok)
  | purge who within articles =>
    refine hnone ?_
    show c.media.Keeps (c.purgeSender who within articles).media
    unfold Core.purgeSender
    rw [media_closeReportsOn, media_closeReportsOnAny, media_revokeAll]
    exact .foldl (fun s h made (hs : s.Books made) => hs.revoke h true) _ _
  | purgeGhost key within =>
    refine hnone fun made hs => ?_
    show (c.purgeGhost key within).media.Books made
    unfold Core.purgeGhost
    rw [media_closeReportsOnAny]
    exact hs
  | blockHashes hashes => exact hnone fun _ hs => hs.blockHashes hashes

theorem draws_cons (op : Op) (ops : List Op) : draws (op :: ops) = op.drawn.toList ++ draws ops := by
  unfold draws
  rw [List.filterMap_cons]
  cases op.drawn <;> rfl

theorem StoreInner.Books.run {w : World} {ops : List Op} (hs : w.core.media.Books made)
    (hnodup : (made ++ draws ops).Nodup) : (w.run v ops).core.media.Books (made ++ draws ops) := by
  induction ops generalizing w made with
  | nil =>
    rw [draws, List.filterMap_nil, List.append_nil]
    exact hs
  | cons op ops ih =>
    rw [draws_cons, ← List.append_assoc] at hnodup ⊢
    exact ih (hs.step op (List.nodup_append.1 hnodup).1) hnodup

end HxdNg.Media
