import HxdNg.Media.Held

/-!
# An image once gone stays gone

* `Orderly` : a run of steps that let images go;
* `Pinned` : a handle's pin runs from the first of the reports that hold it without a gap, and there is
  none without one; `Pinned.step` keeps it;
* `fetchable_of_step` : no step brings an image back;
* `image_gone_stays_gone` : so over a run of such steps an image gone is gone for good, one past its TTL
  is held by a report for its days at most, and one no report holds has its TTL alone.
-/

namespace HxdNg.Media

open Relationships Assoc

/-- Every step of a run is one that lets images go. -/
def Orderly (v : Server) (w : World) : List Op → Prop
  | [] => True
  | op :: ops => op.Lets w.core ∧ Orderly v (w.step v op) ops

def draws (ops : List Op) : List Handle := ops.filterMap Op.drawn

structure Pinned (v : Server) (w : World) : Prop where
  sound : Sound w.core w.watch.issued
  since : ∀ h, (w.watch.since h).isSome = w.core.moderation.holdsMedia h
  pins : ∀ h e, w.core.media.items.get h = some e → e.bytes.isSome = true →
    e.pinnedUntil = (w.watch.since h).map (· + days v.pinDays)

variable {v : Server} {w : World} {h : Handle} {op : Op} {ops : List Op}

theorem Pinned.initial (v : Server) : Pinned v .initial where
  sound := ⟨nofun, List.nodup_nil, nofun, nofun, ⟨List.nodup_nil, nofun⟩, nofun, nofun⟩
  since _ := rfl
  pins := nofun

/-- While the reports on a handle stay as they were, so does the time they hold it since. -/
theorem Pinned.since_of_held (hw : Pinned v w)
    (hheld : (w.step v op).core.moderation.holdsMedia h = w.core.moderation.holdsMedia h) :
    (w.step v op).watch.since h = w.watch.since h := by
  show (if (w.step v op).core.moderation.holdsMedia h then (w.watch.since h).or _ else none) = _
  rw [hheld, ← hw.since h]
  cases w.watch.since h <;> rfl

theorem Pinned.step (hw : Pinned v w) (hlets : op.Lets w.core)
    (hfresh : ∀ h, op.drawn = some h → w.watch.issued h = false) : Pinned v (w.step v op) := by
  obtain ⟨hsound, hmoves⟩ := step_ok v hw.sound op hlets
  refine ⟨hsound, fun h => ?_, fun h e' he' hb => ?_⟩
  · show (if (w.step v op).core.moderation.holdsMedia h then (w.watch.since h).or _ else none).isSome = _
    cases (w.step v op).core.moderation.holdsMedia h with
    | true => cases w.watch.since h <;> rfl
    | false => rfl
  · rcases hmoves.entry h e' he' hb with ⟨hd, hp, hheld⟩ | ⟨e, he, hbe, -, hpin⟩
    · -- No report holds a handle that was not drawn before.
      have hnone : w.core.moderation.holdsMedia h = false := by
        rw [Bool.eq_false_iff]
        intro hh
        obtain ⟨r, ⟨hr, ho⟩, hm⟩ := MemoryModeration.holdsMedia_iff.1 hh
        have hi := hw.sound.held r hr ho h hm
        rw [hfresh h hd] at hi
        cases hi
      rw [hp, hw.since_of_held hheld]
      rw [← hw.since h, Option.isSome_eq_false_iff, Option.isNone_iff_eq_none] at hnone
      rw [hnone]
      rfl
    · cases hpin with
      | stays pin held => rw [pin, hw.since_of_held held, hw.pins h e he hbe]
      | released pin held =>
        rw [pin]
        show none = (if (w.step v op).core.moderation.holdsMedia h then _ else none : Option Instant).map _
        rw [show (w.step v op).core.moderation.holdsMedia h = false from held]
        rfl
      | pinned live now pin was held =>
        have hnone : w.watch.since h = none := by
          rw [← Option.isNone_iff_eq_none, ← Option.isSome_eq_false_iff, hw.since h]
          exact was
        have hpe := hw.pins h e he hbe
        rw [hnone] at hpe
        rw [pin hpe]
        show _ = (if (w.step v op).core.moderation.holdsMedia h then
          (w.watch.since h).or (some (w.step v op).core.now) else none).map _
        rw [show (w.step v op).core.moderation.holdsMedia h = true from held, hnone,
          show (w.step v op).core.now = w.core.now from now]
        rfl

/-! ## What may be fetched -/

theorem fetchable_iff : w.Fetchable h ↔ ∃ e, w.core.media.items.get h = some e ∧ e.live w.core.now = true := by
  unfold World.Fetchable StoreInner.mediaFetchAs
  cases w.core.media.items.get h with
  | none => simp
  | some e =>
    constructor
    · rintro ⟨who, hf⟩
      refine ⟨e, rfl, ?_⟩
      by_contra hl
      simp [hl] at hf
    · rintro ⟨e', he', hl⟩
      obtain rfl := Option.some.inj he'
      refine ⟨e.uploader, ?_⟩
      have hb : e.bytes.isSome = true := (Bool.and_eq_true _ _ ▸ hl).1
      simp [hl, Entry.shown, hb]

theorem Entry.live_iff {e : Entry} {now : Instant} :
    e.live now = true ↔ e.bytes.isSome = true ∧ now < e.deadline := by
  rw [Entry.live, Bool.and_eq_true, Entry.dead, Bool.not_eq_true', decide_eq_false_iff_not, Nat.not_le]

theorem Entry.expires_le_deadline (e : Entry) : e.expires ≤ e.deadline := by
  unfold Entry.deadline
  split
  · split
    case isTrue hlt => exact Nat.le_of_lt hlt
    case isFalse => exact Nat.le_refl _
  · exact Nat.le_refl _

theorem Entry.deadline_congr {e e' : Entry} (hexp : e'.expires = e.expires)
    (hpin : e'.pinnedUntil = e.pinnedUntil) : e'.deadline = e.deadline := by
  rw [Entry.deadline, Entry.deadline, hexp, hpin]

/-- A handle drawn before, that may be fetched after a step, could be before it. -/
theorem fetchable_of_step (hw : Pinned v w) (hlets : op.Lets w.core)
    (hfresh : ∀ h, op.drawn = some h → w.watch.issued h = false) (hi : w.watch.issued h = true)
    (hf : (w.step v op).Fetchable h) : w.Fetchable h := by
  obtain ⟨-, hmoves⟩ := step_ok v hw.sound op hlets
  obtain ⟨e', he', hl⟩ := fetchable_iff.1 hf
  obtain ⟨hb, hlt⟩ := Entry.live_iff.1 hl
  have hnow := hmoves.now
  replace hlt : (w.core.step v op).now < e'.deadline := hlt
  rcases hmoves.entry h e' he' hb with ⟨hd, -, -⟩ | ⟨e, he, hbe, hexp, hpin⟩
  · rw [hfresh h hd] at hi
    cases hi
  · refine fetchable_iff.2 ⟨e, he, Entry.live_iff.2 ⟨hbe, ?_⟩⟩
    cases hpin with
    | stays pin _ =>
      rw [Entry.deadline_congr hexp pin] at hlt
      exact Nat.lt_of_le_of_lt hnow hlt
    | released pin _ =>
      have hdead : e'.deadline = e.expires := by
        rw [Entry.deadline, pin]
        exact hexp
      rw [hdead] at hlt
      exact Nat.lt_of_le_of_lt hnow (Nat.lt_of_lt_of_le hlt e.expires_le_deadline)
    | pinned live _ _ _ _ => exact Nat.lt_of_not_le (of_decide_eq_false live)

/-! ## Runs -/

theorem run_append (w : World) (ops more : List Op) : w.run v (ops ++ more) = (w.run v ops).run v more :=
  List.foldl_append

theorem orderly_append (w : World) (ops more : List Op) :
    Orderly v w (ops ++ more) ↔ Orderly v w ops ∧ Orderly v (w.run v ops) more := by
  induction ops generalizing w with
  | nil => exact ⟨fun h => ⟨trivial, h⟩, And.right⟩
  | cons op ops ih =>
    show op.Lets w.core ∧ Orderly v (w.step v op) (ops ++ more) ↔ _
    rw [ih, ← and_assoc]
    rfl

/-- The handles a run draws are distinct, and were not drawn before. -/
def Fresh (w : World) (ops : List Op) : Prop :=
  (draws ops).Nodup ∧ ∀ h ∈ draws ops, w.watch.issued h = false

theorem fresh_cons (hf : Fresh w (op :: ops)) :
    (∀ h, op.drawn = some h → w.watch.issued h = false) ∧ Fresh (w.step v op) ops := by
  obtain ⟨hnodup, hnew⟩ := hf
  unfold draws at hnodup hnew
  cases hd : op.drawn with
  | none =>
    rw [List.filterMap_cons_none hd] at hnodup hnew
    refine ⟨nofun, hnodup, fun h hm => ?_⟩
    show (w.watch.issued h || decide (op.drawn = some h)) = false
    rw [hnew h hm, hd]
    rfl
  | some d =>
    rw [List.filterMap_cons_some hd] at hnodup hnew
    obtain ⟨hout, hnodup⟩ := List.nodup_cons.1 hnodup
    refine ⟨fun h hh => hnew h (Option.some.inj hh ▸ List.mem_cons_self), hnodup, fun h hm => ?_⟩
    show (w.watch.issued h || decide (op.drawn = some h)) = false
    rw [hnew h (List.mem_cons_of_mem d hm), hd, Bool.false_or, decide_eq_false_iff_not]
    rintro ⟨⟩
    exact hout hm

theorem issued_run (ops : List Op) (w : World) (hi : (w.run v ops).watch.issued h = true) :
    w.watch.issued h = true ∨ h ∈ draws ops := by
  induction ops generalizing w with
  | nil => exact .inl hi
  | cons op ops ih =>
    rw [draws, List.mem_filterMap]
    rcases ih (w.step v op) hi with hi | hm
    · rcases Bool.or_eq_true _ _ ▸ hi with hi | hd
      · exact .inl hi
      · exact .inr ⟨op, List.mem_cons_self, of_decide_eq_true hd⟩
    · obtain ⟨op', hop', hd⟩ := List.mem_filterMap.1 hm
      exact .inr ⟨op', List.mem_cons_of_mem op hop', hd⟩

/-- What a run leaves: the pins as they should be, and no handle drawn before it brought back. -/
theorem Pinned.run (hw : Pinned v w) (ho : Orderly v w ops) (hf : Fresh w ops) :
    Pinned v (w.run v ops) ∧
      ∀ h, w.watch.issued h = true → (w.run v ops).Fetchable h → w.Fetchable h := by
  induction ops generalizing w with
  | nil => exact ⟨hw, fun h _ hfetch => hfetch⟩
  | cons op ops ih =>
    obtain ⟨hlets, ho⟩ := ho
    obtain ⟨hfresh, hf⟩ := fresh_cons (v := v) hf
    obtain ⟨hpinned, hback⟩ := ih (hw.step hlets hfresh) ho hf
    refine ⟨hpinned, fun h hi hfetch => fetchable_of_step hw hlets hfresh hi (hback h ?_ hfetch)⟩
    show (w.watch.issued h || decide (op.drawn = some h)) = true
    rw [hi, Bool.true_or]

/-- An image past its TTL is one a report holds, from the first without a gap and for its days. -/
theorem Pinned.held (hw : Pinned v w) {e : Entry} (he : w.core.media.items.get h = some e)
    (hexp : e.expires ≤ w.core.now) (hf : w.Fetchable h) :
    w.core.moderation.holdsMedia h = true ∧
      ∃ first, w.watch.since h = some first ∧ w.core.now < first + days v.pinDays := by
  obtain ⟨e', he', hl⟩ := fetchable_iff.1 hf
  obtain rfl := Option.some.inj (he.symm.trans he')
  obtain ⟨hb, hlt⟩ := Entry.live_iff.1 hl
  have hpin := hw.pins h e he hb
  rw [← hw.since h]
  cases hs : w.watch.since h with
  | none =>
    rw [hs] at hpin
    rw [Entry.deadline, hpin] at hlt
    exact absurd hlt (Nat.not_lt_of_le hexp)
  | some first =>
    refine ⟨rfl, first, rfl, ?_⟩
    rw [hs] at hpin
    rw [Entry.deadline, hpin] at hlt
    replace hlt : w.core.now <
      if e.expires < first + days v.pinDays then first + days v.pinDays else e.expires := hlt
    split at hlt
    · exact hlt
    · exact absurd hlt (Nat.not_lt_of_le hexp)

/-- An image no open report holds has its TTL alone. -/
theorem Pinned.let_go (hw : Pinned v w) (hheld : w.core.moderation.holdsMedia h = false) {e : Entry}
    (he : w.core.media.items.get h = some e) (t : Instant) :
    e.live t = true ↔ e.bytes.isSome = true ∧ t < e.expires := by
  rw [Entry.live_iff]
  refine and_congr_right fun hb => ?_
  have hpin := hw.pins h e he hb
  rw [← hw.since h, Option.isSome_eq_false_iff, Option.isNone_iff_eq_none] at hheld
  rw [Entry.deadline, hpin, hheld]
  rfl

/-- Over any run whose steps let images go: a handle that nobody may fetch at one point is one nobody
may fetch at any later one; one past its TTL may be fetched only while an open report holds it, and
less than its days after the first of those that held it without a gap; and one no open report holds
may be fetched until its TTL runs out or its bytes are taken, whatever closed its reports. -/
theorem image_gone_stays_gone (v : Server) (ops : List Op) (hdraws : (draws ops).Nodup)
    (ho : Orderly v .initial ops) :
    (∀ pre post, ops = pre ++ post → ∀ h, (World.initial.run v pre).watch.issued h = true →
      ¬(World.initial.run v pre).Fetchable h → ¬(World.initial.run v ops).Fetchable h) ∧
    (∀ h e, (World.initial.run v ops).core.media.items.get h = some e →
      e.expires ≤ (World.initial.run v ops).core.now → (World.initial.run v ops).Fetchable h →
        (World.initial.run v ops).core.moderation.holdsMedia h = true ∧
          ∃ first, (World.initial.run v ops).watch.since h = some first ∧
            (World.initial.run v ops).core.now < first + days v.pinDays) ∧
    ∀ h e, (World.initial.run v ops).core.moderation.holdsMedia h = false →
      (World.initial.run v ops).core.media.items.get h = some e →
        ∀ t, e.live t = true ↔ e.bytes.isSome = true ∧ t < e.expires := by
  have hpinned := ((Pinned.initial v).run ho ⟨hdraws, fun _ _ => rfl⟩).1
  refine ⟨?_, fun h e he => hpinned.held he, fun h e hheld he => hpinned.let_go hheld he⟩
  rintro pre post rfl h hi hgone hback
  obtain ⟨hpre, hpost⟩ := (orderly_append .initial pre post).1 ho
  rw [draws, List.filterMap_append, List.nodup_append] at hdraws
  obtain ⟨hnpre, hnpost, hdisjoint⟩ := hdraws
  have hmid := ((Pinned.initial v).run hpre ⟨hnpre, fun _ _ => rfl⟩).1
  have hfresh : Fresh (World.initial.run v pre) post := by
    refine ⟨hnpost, fun h hm => ?_⟩
    rw [Bool.eq_false_iff]
    intro hi
    rcases issued_run pre .initial hi with hi | hi
    · cases hi
    · exact hdisjoint h hi h hm rfl
  rw [run_append] at hback
  exact hgone ((hmid.run hpost hfresh).2 h hi hback)

/-! ## Runs on fixed inputs -/

namespace Sample

def server (ttl : Instant) : Server := ⟨fun _ => .replicate 32 0, ⟨ttl, 1000, .recipients⟩, 1⟩

def handle : Handle := .replicate 16 1

def alice : Mailbox := ⟨"alice", none⟩

def upload : Op := .finishUpload ⟨"alice", some alice, .session 1 1⟩ ⟨.png, 1, 1, [1, 2, 3]⟩ (some handle)

def send : Op := .send (.session 1 1) (some "alice") none (some handle) [.session 2 2]

def report (uid : Nat) (login : String) : Op := .report ⟨uid, uid, some ⟨login, none⟩⟩ (.line 1 true) true []

end Sample

open Sample in
theorem image_gone_stays_gone_reported :
    (draws [upload, send, report 2 "bob", .close none 1 .dismissed none]).Nodup ∧
      ∀ e, (World.initial.run (server 1000)
          [upload, send, report 2 "bob", .close none 1 .dismissed none]).core.media.items.get handle = some e →
        ∀ t, e.live t = true ↔ e.bytes.isSome = true ∧ t < e.expires := by
  have hdraws : (draws [upload, send, report 2 "bob", .close none 1 .dismissed none]).Nodup := by decide
  have hlets : Orderly (server 1000) .initial [upload, send, report 2 "bob", .close none 1 .dismissed none] := by
    refine ⟨trivial, trivial, fun _ what h e hw _ _ hm he hb => ?_, trivial, trivial⟩
    cases hw
    cases hm
    cases he
    decide +kernel
  exact ⟨hdraws, fun e he => (image_gone_stays_gone (server 1000) _ hdraws hlets).2.2 handle e
    (by decide +kernel) he⟩

namespace Sample

/-- The image's TTL has run out, and no sweep has passed. -/
def expired : World := World.initial.run (server 10) [upload, send, .wait 20]

/-- The pin of a first report has lapsed when a second is filed, and the image's TTL has since run out. -/
def renewed : World := World.initial.run (server (10 ^ 16)) [upload, send, .wait (9 * 10 ^ 15),
  report 2 "bob", .wait (95 * 10 ^ 13), report 3 "carol", .wait (6 * 10 ^ 13)]

/-- The line is newer than the image it carries, which the purge's window misses. -/
def purged : World := World.initial.run (server 1000)
  [upload, .wait 500, send, report 2 "bob", .purge alice 100 []]

end Sample

open Sample in
/-- A report on a line whose image has expired brings the image back; one filed once the pin of another
has lapsed holds it for its own days; and a purge that leaves the image leaves it pinned. -/
theorem expired_image_reported :
    (expired.watch.issued handle = true ∧ ¬expired.Fetchable handle ∧
      (expired.step (server 10) (report 2 "bob")).Fetchable handle) ∧
    (renewed.watch.since handle = some (9 * 10 ^ 15) ∧ 9 * 10 ^ 15 + days 1 ≤ renewed.core.now ∧
      renewed.Fetchable handle ∧
        ∀ e, renewed.core.media.items.get handle = some e → e.expires ≤ renewed.core.now) ∧
    purged.core.moderation.holdsMedia handle = false ∧
      ∃ e, purged.core.media.items.get handle = some e ∧ e.expires ≤ 2000 ∧ e.live 2000 = true := by
  refine ⟨⟨by decide +kernel, ?_, .session 1 1, by decide +kernel⟩,
    ⟨by decide +kernel, by decide +kernel, ⟨.session 1 1, by decide +kernel⟩, ?_⟩, by decide +kernel,
    (purged.core.media.items.get handle).get (by decide +kernel), by simp, by decide +kernel,
    by decide +kernel⟩
  · rw [fetchable_iff]
    rintro ⟨e, he, hl⟩
    have hdead : (expired.core.media.items.get handle).any (fun e => e.live expired.core.now) = false := by
      decide +kernel
    rw [he, Option.any_some, hl] at hdead
    cases hdead
  · intro e he
    have hexp : (renewed.core.media.items.get handle).all
        (fun e => decide (e.expires ≤ renewed.core.now)) = true := by decide +kernel
    rw [he, Option.all_some, decide_eq_true_iff] at hexp
    exact hexp

end HxdNg.Media
