import HxdNg.Voice.Answer

/-!
# The answer, section by section

* `foldl_first` : what a line can only fill is what the first line of it says;
* `foldl_part` : what a run of lines without an `m=` line leaves, of what the pass carried into it;
* `foldl_sections` : what the pass over a text comes to, by its sections;
* `entry_perm` : the order of a section's lines, once it declares a FID group;
* `parseAnswer_sections` : the answer is the one read section by section, if the microphone's SSRC stands
  where the pass hears it.
-/

namespace HxdNg.Sdp

/-! ## The first of a kind -/

theorem findSome?_or {α β : Type} (g : α → Option β) (x : α) (xs : List α) :
    (x :: xs).findSome? g = (g x).or (xs.findSome? g) := by
  rw [List.findSome?_cons]
  cases g x <;> rfl

/-- A field that a line can only fill holds what the first line of it says. -/
theorem foldl_first {β : Type} {f : Reading → Option β} {g : Line → Option β}
    (hline : ∀ r l, f (r.line l) = (f r).or (g l)) (lines : List Line) (r : Reading) :
    f (lines.foldl Reading.line r) = (f r).or (lines.findSome? g) := by
  induction lines generalizing r with
  | nil => simp
  | cons l lines ih => rw [List.foldl_cons, ih, hline, findSome?_or, Option.or_assoc]

/-- An `m=` line leaves what the whole text is read for. -/
theorem line_media (r : Reading) (rest : List Char) :
    r.line (.media rest) = { r.flush with
      inMicSection := false
      hasPcmu := r.hasPcmu || Section.hasPcmu ⟨Media.read rest, []⟩
      videoOpen := if (Media.read rest).kind = "video".toList then
        some ((Media.read rest).live && "96".toList ∈ (Media.read rest).formats) else none } := by
  unfold Reading.line Section.hasPcmu
  dsimp only
  generalize Media.read rest = m
  split
  case isTrue h =>
    obtain ⟨hkind, hlive, hformats⟩ := h
    have hne : m.kind ≠ "video".toList := by
      rw [hkind]
      decide
    have hpcmu : (decide (m.kind = "audio".toList) && m.live && decide ("0".toList ∈ m.formats)) = true := by
      rw [decide_eq_true hkind, hlive, decide_eq_true hformats]
      rfl
    rw [hpcmu, Bool.or_true, if_neg hne]
    rfl
  case isFalse h =>
    have hno : (decide (m.kind = "audio".toList) && m.live && decide ("0".toList ∈ m.formats)) = false := by
      rw [Bool.eq_false_iff]
      simpa [and_assoc] using h
    rw [hno, Bool.or_false]
    split <;> rfl

theorem line_ufrag (r : Reading) (l : Line) : (r.line l).ufrag = r.ufrag.or l.ufrag? := by
  cases l with
  | media rest => rw [line_media]; exact (Option.or_none).symm
  | iceUfrag v => rfl
  | _ => exact (Option.or_none).symm

theorem line_pass (r : Reading) (l : Line) : (r.line l).pass = r.pass.or l.pwd? := by
  cases l with
  | media rest => rw [line_media]; exact (Option.or_none).symm
  | icePwd v => rfl
  | _ => exact (Option.or_none).symm

theorem line_fingerprint (r : Reading) (l : Line) :
    (r.line l).fingerprint = r.fingerprint.or l.fingerprint? := by
  cases l with
  | media rest => rw [line_media]; exact (Option.or_none).symm
  | fingerprint v => rfl
  | _ => exact (Option.or_none).symm

theorem line_setup (r : Reading) (l : Line) : (r.line l).setup = r.setup.or l.setup? := by
  cases l with
  | media rest => rw [line_media]; exact (Option.or_none).symm
  | setup v => rfl
  | _ => exact (Option.or_none).symm

/-! ## A part -/

def Line.isMedia : Line → Bool
  | .media _ => true
  | _ => false

/-- What lines that open nothing and name nothing leave. -/
structure Quiet (body : List Line) (r r' : Reading) : Prop where
  hasPcmu : r'.hasPcmu = r.hasPcmu
  videoSend : r'.videoSend = r.videoSend
  inMicSection : r'.inMicSection = r.inMicSection
  videoOpen : r'.videoOpen = r.videoOpen
  videoMid : r'.videoMid = r.videoMid
  micSsrc : r'.micSsrc = if r.inMicSection then r.micSsrc.or (body.findSome? Line.ssrc?) else r.micSsrc
  videoSsrc : r'.videoSsrc =
    if r.videoOpen.isSome then r.videoSsrc.or (body.findSome? Line.ssrc?) else r.videoSsrc
  videoFid : r'.videoFid =
    if r.videoOpen.isSome then r.videoFid.or (body.findSome? Line.fid?) else r.videoFid

theorem Quiet.nil (r : Reading) : Quiet [] r r := by
  constructor <;> simp

theorem Quiet.cons {l : Line} {body : List Line} {r r' : Reading} (hl : l.isMedia = false)
    (hmid : l.mid? = none) (h : Quiet body (r.line l) r') : Quiet (l :: body) r r' := by
  have hfirst : Quiet [l] r (r.line l) := by
    cases l with
    | media rest => cases hl
    | mid v => cases hmid
    | ssrc n =>
      refine ⟨rfl, rfl, rfl, rfl, rfl, ?_, ?_, ?_⟩
      · simp [Reading.line, Line.ssrc?]
      · simp [Reading.line, Line.ssrc?]
      · simp [Reading.line, Line.fid?]
    | fid pair =>
      refine ⟨rfl, rfl, rfl, rfl, rfl, ?_, ?_, ?_⟩
      · simp [Reading.line, Line.ssrc?]
      · simp [Reading.line, Line.ssrc?]
      · simp [Reading.line, Line.fid?]
    | _ => constructor <;> simp [Reading.line, Line.ssrc?, Line.fid?]
  have hssrc : List.findSome? Line.ssrc? (l :: body) =
      (List.findSome? Line.ssrc? [l]).or (List.findSome? Line.ssrc? body) := by
    rw [← List.findSome?_append]
    rfl
  have hfid : List.findSome? Line.fid? (l :: body) =
      (List.findSome? Line.fid? [l]).or (List.findSome? Line.fid? body) := by
    rw [← List.findSome?_append]
    rfl
  refine ⟨h.hasPcmu.trans hfirst.hasPcmu, h.videoSend.trans hfirst.videoSend,
    h.inMicSection.trans hfirst.inMicSection, h.videoOpen.trans hfirst.videoOpen,
    h.videoMid.trans hfirst.videoMid, ?_, ?_, ?_⟩
  · rw [h.micSsrc, hfirst.inMicSection, hfirst.micSsrc, hssrc]
    split <;> simp [Option.or_assoc]
  · rw [h.videoSsrc, hfirst.videoOpen, hfirst.videoSsrc, hssrc]
    split <;> simp [Option.or_assoc]
  · rw [h.videoFid, hfirst.videoOpen, hfirst.videoFid, hfid]
    split <;> simp [Option.or_assoc]

theorem foldl_quiet {body : List Line} (hbody : ∀ l ∈ body, l.isMedia = false ∧ l.mid? = none) :
    ∀ r : Reading, Quiet body r (body.foldl Reading.line r) := by
  induction body with
  | nil => exact Quiet.nil
  | cons l body ih =>
    intro r
    obtain ⟨hl, hmid⟩ := hbody l List.mem_cons_self
    exact .cons hl hmid (ih (fun l' hl' => hbody l' (List.mem_cons_of_mem _ hl')) _)

/-- A part names itself once at most. -/
def OneMid (body : List Line) : Prop := (body.filterMap Line.mid?).length ≤ 1

/-- A body with one mid at most: with none, or around it. -/
theorem OneMid.split {body : List Line} (h : OneMid body) : (∀ l ∈ body, l.mid? = none) ∨
    ∃ pre v post, body = pre ++ .mid v :: post ∧ (∀ l ∈ pre, l.mid? = none) ∧ ∀ l ∈ post, l.mid? = none := by
  have hnone : ∀ {ls : List Line}, ls.filterMap Line.mid? = [] → ∀ l ∈ ls, l.mid? = none := by
    intro ls hls l hl
    cases hmid : l.mid? with
    | none => rfl
    | some v =>
      have hmem : v ∈ ls.filterMap Line.mid? := List.mem_filterMap.mpr ⟨l, hl, hmid⟩
      rw [hls] at hmem
      cases hmem
  cases hmids : body.filterMap Line.mid? with
  | nil => exact .inl (hnone hmids)
  | cons v vs =>
    unfold OneMid at h
    rw [hmids] at h
    obtain rfl : vs = [] := List.length_eq_zero_iff.mp (by simpa using h)
    obtain ⟨pre, l, post, rfl, hpre, hl, hpost⟩ := List.filterMap_eq_cons_iff.mp hmids
    cases l with
    | mid v' => exact .inr ⟨pre, v', post, rfl, hpre, hnone hpost⟩
    | _ => cases hl

/-- What a part leaves that names itself once at most. -/
structure Part (body : List Line) (r r' : Reading) : Prop where
  hasPcmu : r'.hasPcmu = r.hasPcmu
  videoSend : r'.videoSend = r.videoSend
  videoOpen : r'.videoOpen = r.videoOpen
  videoMid : r'.videoMid = if r.videoOpen.isSome then (body.findSome? Line.mid?).or r.videoMid else r.videoMid
  micSsrc : r.inMicSection = false → r'.micSsrc = r.micSsrc.or (heard body)
  videoSsrc : r'.videoSsrc =
    if r.videoOpen.isSome then r.videoSsrc.or (body.findSome? Line.ssrc?) else r.videoSsrc
  videoFid : r'.videoFid =
    if r.videoOpen.isSome then r.videoFid.or (body.findSome? Line.fid?) else r.videoFid

theorem findSome?_mid_none {body : List Line} (h : ∀ l ∈ body, l.mid? = none) :
    body.findSome? Line.mid? = none := List.findSome?_eq_none_iff.mpr h

theorem heard_quiet {body : List Line} (h : ∀ l ∈ body, l.mid? = none) : heard body = none := by
  unfold heard
  have hdrop : body.dropWhile (fun line => line.mid? ≠ some MIC_MID) = [] :=
    List.dropWhile_eq_nil_iff.mpr fun l hl => by simp [h l hl]
  rw [hdrop]
  rfl

theorem heard_named {pre post : List Line} {v : List Char} (hpre : ∀ l ∈ pre, l.mid? = none)
    (hpost : ∀ l ∈ post, l.mid? = none) :
    heard (pre ++ .mid v :: post) = if v = MIC_MID then post.findSome? Line.ssrc? else none := by
  unfold heard
  rw [List.dropWhile_append_of_pos fun l hl => by simp [hpre l hl]]
  split
  case isTrue hv =>
    subst hv
    rw [List.dropWhile_cons_of_neg (by simp [Line.mid?])]
    rfl
  case isFalse hv =>
    rw [List.dropWhile_cons_of_pos (by simp [Line.mid?, hv])]
    have hdrop : post.dropWhile (fun line => line.mid? ≠ some MIC_MID) = [] :=
      List.dropWhile_eq_nil_iff.mpr fun l hl => by simp [hpost l hl]
    rw [hdrop]
    rfl

theorem foldl_part {body : List Line} (hbody : ∀ l ∈ body, l.isMedia = false) (hmid : OneMid body)
    (r : Reading) : Part body r (body.foldl Reading.line r) := by
  rcases hmid.split with hnone | ⟨pre, v, post, rfl, hpre, hpost⟩
  · have hq := foldl_quiet (fun l hl => ⟨hbody l hl, hnone l hl⟩) r
    refine ⟨hq.hasPcmu, hq.videoSend, hq.videoOpen, ?_, fun hout => ?_, hq.videoSsrc, hq.videoFid⟩
    · rw [hq.videoMid, findSome?_mid_none hnone]
      simp
    · rw [hq.micSsrc, hout, heard_quiet hnone]
      simp
  · have hq := foldl_quiet (fun l hl => ⟨hbody l (List.mem_append_left _ hl), hpre l hl⟩) r
    rw [List.foldl_append, List.foldl_cons]
    generalize pre.foldl Reading.line r = r₁ at hq ⊢
    have hq' := foldl_quiet (fun l hl => ⟨hbody l (List.mem_append_right _ (List.mem_cons_of_mem _ hl)),
      hpost l hl⟩) (r₁.line (.mid v))
    generalize post.foldl Reading.line (r₁.line (.mid v)) = r₂ at hq' ⊢
    have hssrc : (pre ++ .mid v :: post).findSome? Line.ssrc? =
        (pre.findSome? Line.ssrc?).or (post.findSome? Line.ssrc?) := by
      rw [List.findSome?_append, findSome?_or]
      rfl
    have hfid : (pre ++ .mid v :: post).findSome? Line.fid? =
        (pre.findSome? Line.fid?).or (post.findSome? Line.fid?) := by
      rw [List.findSome?_append, findSome?_or]
      rfl
    refine ⟨hq'.hasPcmu.trans hq.hasPcmu, hq'.videoSend.trans hq.videoSend, hq'.videoOpen.trans hq.videoOpen,
      ?_, fun hout => ?_, ?_, ?_⟩
    · rw [hq'.videoMid, List.findSome?_append, findSome?_mid_none hpre, findSome?_or]
      simp only [Reading.line, hq.videoOpen, hq.videoMid, Line.mid?]
      split <;> simp
    · rw [hq'.micSsrc, heard_named hpre hpost]
      have hmic := hq.micSsrc
      rw [hout] at hmic
      simp only [Reading.line, hmic, decide_eq_true_eq]
      split <;> simp
    · rw [hq'.videoSsrc, hssrc]
      simp only [Reading.line, hq.videoOpen, hq.videoSsrc]
      split <;> simp [Option.or_assoc]
    · rw [hq'.videoFid, hfid]
      simp only [Reading.line, hq.videoOpen, hq.videoFid]
      split <;> simp [Option.or_assoc]

/-! ## The sections -/

theorem cut_spec (lines : List Line) : (∀ l ∈ (cut lines).session, l.isMedia = false) ∧
    ((lines = (cut lines).session ∧ (cut lines).sections = []) ∨
      ∃ rest lines', lines = (cut lines).session ++ .media rest :: lines' ∧
        (cut lines).sections = ⟨Media.read rest, (cut lines').session⟩ :: (cut lines').sections) := by
  induction lines with
  | nil => exact ⟨fun l hl => (by cases hl), .inl ⟨rfl, rfl⟩⟩
  | cons l lines ih =>
    have hcons : (hl : l.isMedia = false) → cut (l :: lines) = ⟨l :: (cut lines).session, (cut lines).sections⟩ := by
      intro hl
      cases l with
      | media rest => cases hl
      | _ => rfl
    cases hl : l.isMedia with
    | true =>
      cases l with
      | media rest => exact ⟨fun l hl => (by cases hl), .inr ⟨rest, lines, rfl, rfl⟩⟩
      | _ => cases hl
    | false =>
      rw [hcons hl]
      obtain ⟨hplain, hrest⟩ := ih
      refine ⟨fun l' hl' => ?_, ?_⟩
      · rcases List.mem_cons.mp hl' with rfl | hl'
        · exact hl
        · exact hplain l' hl'
      · rcases hrest with ⟨hall, hnone⟩ | ⟨rest, lines', hall, hsome⟩
        · exact .inl ⟨congrArg (l :: ·) hall, hnone⟩
        · exact .inr ⟨rest, lines', congrArg (l :: ·) hall, hsome⟩

theorem flush_entry {r r' : Reading} {rest : List Char} {body : List Line}
    (hp : Part body (r.line (.media rest)) r') :
    r'.flush.videoSend = r.flush.videoSend ++ (Section.entry ⟨Media.read rest, body⟩).toList := by
  have hopen := hp.videoOpen
  have hmid := hp.videoMid
  have hssrc := hp.videoSsrc
  have hfid := hp.videoFid
  have hsend := hp.videoSend
  rw [line_media] at hopen hmid hssrc hfid hsend
  simp only [Reading.flush] at hopen hmid hssrc hfid hsend ⊢
  unfold Section.entry Section.mid Section.fids Section.ssrcs
  rw [List.head?_filterMap, List.head?_filterMap, hsend]
  congr 1
  by_cases hkind : (Media.read rest).kind = "video".toList
  · simp only [if_pos hkind, Option.isSome_some, if_true, Option.or_none, Option.none_or] at hopen hmid hssrc hfid ⊢
    rw [hopen, hmid, hssrc, hfid]
    cases List.findSome? Line.mid? body with
    | none => rfl
    | some mid =>
      dsimp only
      split <;> rfl
  · simp only [if_neg hkind, Option.isSome_none, Bool.false_eq_true, if_false] at hmid ⊢
    rw [hmid]
    rfl

theorem foldl_sections {secs : List Section} (hone : ∀ s ∈ secs, OneMid s.body) :
    ∀ {lines : List Line} (r : Reading), (cut lines).sections = secs →
      let r' := (cut lines).session.foldl Reading.line r
      let final := (lines.foldl Reading.line r).flush
      final.hasPcmu = (r'.hasPcmu || secs.any Section.hasPcmu) ∧
      final.videoSend = r'.flush.videoSend ++ secs.filterMap Section.entry ∧
      final.micSsrc = r'.micSsrc.or (secs.findSome? fun s => heard s.body) := by
  induction secs with
  | nil =>
    intro lines r hsecs
    obtain ⟨-, ⟨hall, -⟩ | ⟨rest, lines', -, hsome⟩⟩ := cut_spec lines
    · dsimp only
      rw [← hall]
      simp [Reading.flush]
    · rw [hsecs] at hsome
      cases hsome
  | cons sec secs ih =>
    intro lines r hsecs
    obtain ⟨-, ⟨-, hnone⟩ | ⟨rest, lines', hall, hsome⟩⟩ := cut_spec lines
    · rw [hsecs] at hnone
      cases hnone
    rw [hsecs] at hsome
    obtain ⟨rfl, hsecs'⟩ := List.cons.inj hsome
    obtain ⟨hplain, -⟩ := cut_spec lines'
    dsimp only
    generalize hr' : (cut lines).session.foldl Reading.line r = r'
    have hfold : lines.foldl Reading.line r = lines'.foldl Reading.line (r'.line (.media rest)) := by
      conv_lhs => rw [hall]
      rw [List.foldl_append, hr', List.foldl_cons]
    rw [hfold]
    obtain ⟨hpcmu, hsend, hmic⟩ := ih (fun s hs => hone s (List.mem_cons_of_mem _ hs))
      (r'.line (.media rest)) hsecs'.symm
    have hp := foldl_part hplain (hone _ List.mem_cons_self) (r'.line (.media rest))
    generalize (cut lines').session.foldl Reading.line (r'.line (.media rest)) = r'' at hpcmu hsend hmic hp
    refine ⟨?_, ?_, ?_⟩
    · rw [hpcmu, hp.hasPcmu, line_media, List.any_cons, Bool.or_assoc]
      rfl
    · rw [hsend, flush_entry hp, List.append_assoc, List.filterMap_cons]
      cases Section.entry ⟨Media.read rest, (cut lines').session⟩ <;> rfl
    · rw [hmic, hp.micSsrc (by rw [line_media]), line_media, findSome?_or, Option.or_assoc]
      rfl

/-! ## The answer -/

/-- Every part of a text names itself once at most. -/
def Parts.OneMid (parts : Parts) : Prop :=
  Sdp.OneMid parts.session ∧ ∀ s ∈ parts.sections, Sdp.OneMid s.body

/-- The microphone's SSRC is one declared in a section whose mid is its own, if there is one. -/
def MicRead (sections : List Section) : Option Nat → Prop
  | some n => ∃ s ∈ sections, s.isMic ∧ n ∈ s.ssrcs
  | none => ∀ s ∈ sections, s.isMic → s.ssrcs = []

/-- The answer as its sections give it, each read by itself: the credentials, the fingerprint and the role
are the first in the text. -/
def readSections (lines : List Line) (mic : Option Nat) : Except AnswerError Answer :=
  { ufrag := lines.findSome? Line.ufrag?
    pass := lines.findSome? Line.pwd?
    fingerprint := lines.findSome? Line.fingerprint?
    setup := lines.findSome? Line.setup?
    micSsrc := mic
    hasPcmu := (cut lines).sections.any Section.hasPcmu
    videoSend := (cut lines).sections.filterMap Section.entry : Reading }.answer

/-- One section with its lines in another order, which declares one FID group. -/
def Reordered (parts parts' : Parts) : Prop :=
  ∃ pre s s' post, parts.sections = pre ++ s :: post ∧ parts'.sections = pre ++ s' :: post ∧
    parts'.session = parts.session ∧ s'.media = s.media ∧ s'.body.Perm s.body ∧
    ∃ pair ∈ s.fids, ∀ p ∈ s.fids, p = pair

/-- The answer is the one read section by section, and the order of the lines of a section that declares a
FID group makes nothing of its entry. -/
def BySection (sdp : String) : Prop :=
  (∃ mic, MicRead (cut (linesOf sdp.toList)).sections mic ∧
    parseAnswer sdp = readSections (linesOf sdp.toList) mic) ∧
  ∀ sdp' answer answer', Reordered (cut (linesOf sdp.toList)) (cut (linesOf sdp'.toList)) →
    parseAnswer sdp = .ok answer → parseAnswer sdp' = .ok answer' → answer'.videoSend = answer.videoSend

/-- A text with all an answer needs. -/
def Usable (lines : List Line) : Prop :=
  (cut lines).sections.any Section.hasPcmu ∧ (lines.findSome? Line.ufrag?).isSome ∧
    (lines.findSome? Line.pwd?).isSome ∧ (lines.findSome? Line.fingerprint?).isSome

/-- The microphone's SSRC stands where the pass hears it: none behind an `a=mid:send` of the session part
that is not a microphone section's too, and if a microphone section declares one, then some microphone
section declares one behind its `a=mid` line. -/
def HearsMic (parts : Parts) : Prop :=
  (∀ n, heard parts.session = some n → ∃ s ∈ parts.sections, s.isMic ∧ n ∈ s.ssrcs) ∧
  (heard parts.session = none → (∃ s ∈ parts.sections, s.isMic ∧ s.ssrcs ≠ []) →
    ∃ s ∈ parts.sections, (heard s.body).isSome)

theorem mem_ssrcs_of_heard {s : Section} {n : Nat} (hone : OneMid s.body) (h : heard s.body = some n) :
    s.isMic ∧ n ∈ s.ssrcs := by
  rcases hone.split with hnone | ⟨pre, v, post, hbody, hpre, hpost⟩
  · rw [heard_quiet hnone] at h
    cases h
  · have hmem : ∀ {ls : List Line} {k : Nat}, ls.findSome? Line.ssrc? = some k → k ∈ ls.filterMap Line.ssrc? := by
      intro ls k hk
      obtain ⟨l, hl, hs⟩ := List.exists_of_findSome?_eq_some hk
      exact List.mem_filterMap.mpr ⟨l, hl, hs⟩
    unfold Section.isMic Section.mid Section.ssrcs
    rw [hbody] at h ⊢
    rw [heard_named hpre hpost] at h
    split at h
    case isFalse => cases h
    case isTrue hv =>
      refine ⟨?_, ?_⟩
      · rw [List.findSome?_append, findSome?_mid_none hpre, findSome?_or, hv]
        rfl
      · rw [List.filterMap_append, List.filterMap_cons]
        exact List.mem_append_right _ (hmem h)

/-- What the pass hears, of the parts of a text. -/
def heardIn (parts : Parts) : Option Nat :=
  (heard parts.session).or (parts.sections.findSome? fun s => heard s.body)

theorem micRead_heardIn {parts : Parts} (hone : parts.OneMid) :
    MicRead parts.sections (heardIn parts) ↔ HearsMic parts := by
  unfold HearsMic heardIn
  cases hsession : heard parts.session with
  | some n =>
    rw [Option.some_or]
    constructor
    · intro hmic
      refine ⟨fun m hm => ?_, fun hnone => (by cases hnone)⟩
      obtain rfl := Option.some.inj hm
      exact hmic
    · exact fun h => h.1 n rfl
  | none =>
    rw [Option.none_or]
    cases hfound : parts.sections.findSome? fun s => heard s.body with
    | some n =>
      obtain ⟨s, hs, hn⟩ := List.exists_of_findSome?_eq_some hfound
      have hmic := mem_ssrcs_of_heard (hone.2 s hs) hn
      refine ⟨fun _ => ⟨fun m hm => (by cases hm), fun _ _ => ⟨s, hs, by rw [hn]; rfl⟩⟩, fun _ => ?_⟩
      exact ⟨s, hs, hmic⟩
    | none =>
      have hquiet := List.findSome?_eq_none_iff.mp hfound
      constructor
      · intro hmic
        refine ⟨fun m hm => (by cases hm), fun _ hdeclares => ?_⟩
        obtain ⟨s, hs, his, hne⟩ := hdeclares
        exact absurd (hmic s hs his) hne
      · intro h s hs his
        by_contra hne
        obtain ⟨s', hs', hheard⟩ := h.2 rfl ⟨s, hs, his, hne⟩
        rw [hquiet s' hs'] at hheard
        cases hheard

theorem reading_answer {r r' : Reading} (hufrag : r.ufrag = r'.ufrag) (hpass : r.pass = r'.pass)
    (hfingerprint : r.fingerprint = r'.fingerprint) (hsetup : r.setup = r'.setup)
    (hmic : r.micSsrc = r'.micSsrc) (hpcmu : r.hasPcmu = r'.hasPcmu) (hsend : r.videoSend = r'.videoSend) :
    r.answer = r'.answer := by
  unfold Reading.answer
  rw [hufrag, hpass, hfingerprint, hsetup, hmic, hpcmu, hsend]

/-- What the pass comes to: its sections, each read by itself, and the SSRC it hears. -/
theorem parseAnswer_eq {sdp : String} (hone : (cut (linesOf sdp.toList)).OneMid) :
    parseAnswer sdp = readSections (linesOf sdp.toList) (heardIn (cut (linesOf sdp.toList))) := by
  unfold parseAnswer readSections
  generalize linesOf sdp.toList = lines at hone ⊢
  obtain ⟨hplain, -⟩ := cut_spec lines
  obtain ⟨hpcmu, hsend, hmic⟩ := foldl_sections hone.2 {} (rfl : (cut lines).sections = _)
  have hp := foldl_part hplain hone.1 {}
  generalize (cut lines).session.foldl Reading.line {} = r' at hpcmu hsend hmic hp
  refine reading_answer ?_ ?_ ?_ ?_ ?_ ?_ ?_
  · exact (foldl_first line_ufrag lines {}).trans (Option.none_or)
  · exact (foldl_first line_pass lines {}).trans (Option.none_or)
  · exact (foldl_first line_fingerprint lines {}).trans (Option.none_or)
  · exact (foldl_first line_setup lines {}).trans (Option.none_or)
  · rw [hmic, hp.micSsrc rfl]
    rfl
  · rw [hpcmu, hp.hasPcmu]
    rfl
  · have hmid : r'.videoMid = none := hp.videoMid
    rw [hsend]
    simp only [Reading.flush, hmid, hp.videoSend, List.append_nil]
    rfl

theorem entry_perm {s s' : Section} (hmedia : s'.media = s.media) (hbody : s'.body.Perm s.body)
    (hone : OneMid s.body) (hfid : ∃ pair ∈ s.fids, ∀ p ∈ s.fids, p = pair) : s'.entry = s.entry := by
  obtain ⟨pair, hpair, hall⟩ := hfid
  have hhead : ∀ {l : List (Nat × Nat)}, pair ∈ l → (∀ p ∈ l, p = pair) → l.head? = some pair := by
    intro l hmem hl
    cases l with
    | nil => cases hmem
    | cons p l => rw [List.head?_cons, hl p List.mem_cons_self]
  have hfids : s'.fids.Perm s.fids := hbody.filterMap _
  have hmids : (s'.body.filterMap Line.mid?).Perm (s.body.filterMap Line.mid?) := hbody.filterMap _
  have hmid : s'.mid = s.mid := by
    unfold Section.mid
    rw [← List.head?_filterMap, ← List.head?_filterMap]
    unfold OneMid at hone
    cases hs : s.body.filterMap Line.mid? with
    | nil =>
      rw [hs] at hmids
      rw [hmids.eq_nil]
    | cons v vs =>
      rw [hs] at hone hmids
      obtain rfl : vs = [] := List.length_eq_zero_iff.mp (by simpa using hone)
      rw [List.perm_singleton.mp hmids]
  unfold Section.entry
  rw [hmedia, hmid, hhead hpair hall,
    hhead (hfids.mem_iff.mpr hpair) fun p hp => hall p (hfids.mem_iff.mp hp)]
  rfl

theorem readSections_usable {lines : List Line} (h : Usable lines) (mic : Option Nat) :
    ∃ answer, readSections lines mic = .ok answer ∧ answer.micSsrc = mic := by
  obtain ⟨hpcmu, hufrag, hpass, hfingerprint⟩ := h
  obtain ⟨ufrag, hufrag⟩ := Option.isSome_iff_exists.mp hufrag
  obtain ⟨pass, hpass⟩ := Option.isSome_iff_exists.mp hpass
  obtain ⟨fingerprint, hfingerprint⟩ := Option.isSome_iff_exists.mp hfingerprint
  unfold readSections Reading.answer
  simp only [hpcmu, hufrag, hpass, hfingerprint, Bool.not_true, Bool.false_eq_true, if_false]
  exact ⟨_, rfl, rfl⟩

theorem readSections_unusable {lines : List Line} (h : ¬Usable lines) (mic mic' : Option Nat) :
    readSections lines mic = readSections lines mic' := by
  unfold readSections Reading.answer
  dsimp only
  split
  · rfl
  case isFalse hpcmu =>
    split
    next ufrag pass hufrag hpass =>
      split
      · rfl
      next fingerprint hfingerprint =>
        refine absurd ⟨by simpa using hpcmu, ?_, ?_, ?_⟩ h
        · rw [hufrag]
          rfl
        · rw [hpass]
          rfl
        · rw [hfingerprint]
          rfl
    · rfl

theorem readSections_videoSend {lines : List Line} {mic : Option Nat} {answer : Answer}
    (h : readSections lines mic = .ok answer) :
    answer.videoSend = (cut lines).sections.filterMap Section.entry := by
  unfold readSections Reading.answer at h
  dsimp only at h
  split at h
  · cases h
  · split at h
    · split at h
      · cases h
      · obtain rfl := Except.ok.inj h
        rfl
    · cases h

theorem Reordered.oneMid {parts parts' : Parts} (h : Reordered parts parts') (hone : parts.OneMid) :
    parts'.OneMid := by
  obtain ⟨pre, s, s', post, hparts, hparts', hsession, -, hbody, -⟩ := h
  obtain ⟨hone, hsections⟩ := hone
  rw [hparts] at hsections
  refine ⟨by rw [hsession]; exact hone, fun t ht => ?_⟩
  rw [hparts'] at ht
  rcases List.mem_append.mp ht with ht | ht
  · exact hsections t (List.mem_append_left _ ht)
  · rcases List.mem_cons.mp ht with rfl | ht
    · have hs := hsections s (List.mem_append_right _ List.mem_cons_self)
      unfold Sdp.OneMid at hs ⊢
      rw [(hbody.filterMap Line.mid?).length_eq]
      exact hs
    · exact hsections t (List.mem_append_right _ (List.mem_cons_of_mem _ ht))

theorem Reordered.entries {parts parts' : Parts} (h : Reordered parts parts') (hone : parts.OneMid) :
    parts'.sections.filterMap Section.entry = parts.sections.filterMap Section.entry := by
  obtain ⟨pre, s, s', post, hparts, hparts', -, hmedia, hbody, hfid⟩ := h
  have hs : OneMid s.body := hone.2 s (by rw [hparts]; simp)
  rw [hparts, hparts', List.filterMap_append, List.filterMap_append, List.filterMap_cons, List.filterMap_cons,
    entry_perm hmedia hbody hs hfid]

/-- The answer is the one read section by section if and only if, where it has all it needs, the
microphone's SSRC stands where the pass hears it. -/
theorem parseAnswer_sections (sdp : String) (hone : (cut (linesOf sdp.toList)).OneMid) :
    BySection sdp ↔ (Usable (linesOf sdp.toList) → HearsMic (cut (linesOf sdp.toList))) := by
  have hparse := parseAnswer_eq hone
  have hreorder : ∀ sdp' answer answer', Reordered (cut (linesOf sdp.toList)) (cut (linesOf sdp'.toList)) →
      parseAnswer sdp = .ok answer → parseAnswer sdp' = .ok answer' →
      answer'.videoSend = answer.videoSend := by
    intro sdp' answer answer' hre hok hok'
    rw [hparse] at hok
    rw [parseAnswer_eq (hre.oneMid hone)] at hok'
    rw [readSections_videoSend hok, readSections_videoSend hok', hre.entries hone]
  unfold BySection
  rw [hparse]
  constructor
  · rintro ⟨⟨mic, hmic, heq⟩, -⟩ husable
    obtain ⟨answer, hanswer, hheard⟩ := readSections_usable husable (heardIn (cut (linesOf sdp.toList)))
    obtain ⟨answer', hanswer', hmic'⟩ := readSections_usable husable mic
    rw [hanswer, hanswer'] at heq
    obtain rfl := Except.ok.inj heq
    rw [← micRead_heardIn hone, ← hheard, hmic']
    exact hmic
  · intro hhears
    refine ⟨?_, fun sdp' answer answer' hre hok hok' => hreorder sdp' answer answer' hre (hparse.trans hok) hok'⟩
    by_cases husable : Usable (linesOf sdp.toList)
    · exact ⟨_, (micRead_heardIn hone).mpr (hhears husable), rfl⟩
    · have hsome : ∃ mic, MicRead (cut (linesOf sdp.toList)).sections mic := by
        by_cases hdeclares : ∃ s ∈ (cut (linesOf sdp.toList)).sections, s.isMic ∧ s.ssrcs ≠ []
        · obtain ⟨s, hs, his, hne⟩ := hdeclares
          obtain ⟨n, hn⟩ := List.exists_mem_of_ne_nil _ hne
          exact ⟨some n, s, hs, his, hn⟩
        · refine ⟨none, fun s hs his => ?_⟩
          by_contra hne
          exact hdeclares ⟨s, hs, his, hne⟩
      obtain ⟨mic, hmic⟩ := hsome
      exact ⟨mic, hmic, readSections_unusable husable _ _⟩

/-- An answer whose microphone section declares its SSRC before its mid. -/
def ssrcFirst : String :=
  "v=0\r\na=ice-ufrag:u\r\na=ice-pwd:p\r\na=fingerprint:sha-256 AB\r\na=setup:active\r\n" ++
    "m=audio 9 UDP/TLS/RTP/SAVPF 0\r\na=ssrc:7 cname:c\r\na=mid:send\r\n"

/-- The pass hears no microphone in it. -/
theorem ssrcFirst_unheard : ¬BySection ssrcFirst := by
  rintro ⟨⟨mic, hmic, heq⟩, -⟩
  have hnone : (parseAnswer ssrcFirst).toOption.map (·.micSsrc) = some none := by decide +kernel
  have husable : Usable (linesOf ssrcFirst.toList) := by
    refine ⟨?_, ?_, ?_, ?_⟩ <;> decide +kernel
  obtain ⟨answer, hanswer, hmic'⟩ := readSections_usable husable mic
  rw [heq, hanswer] at hnone
  obtain rfl : mic = none := hmic'.symm.trans (Option.some.inj hnone)
  have hdeclares : ∃ s ∈ (cut (linesOf ssrcFirst.toList)).sections, s.isMic ∧ s.ssrcs ≠ [] := by
    decide +kernel
  obtain ⟨s, hs, his, hne⟩ := hdeclares
  exact hne (hmic s hs his)

/-- One whose microphone section has its mid first. -/
def midFirst : String :=
  "a=ice-ufrag:u\na=ice-pwd:p\na=fingerprint:sha-256 AB\nm=audio 9 RTP 0\na=mid:send\na=ssrc:7\n"

theorem parseAnswer_sections_midFirst : BySection midFirst := by
  have hone : (cut (linesOf midFirst.toList)).OneMid := by
    constructor
    · unfold OneMid
      decide +kernel
    · unfold OneMid
      decide +kernel
  refine (parseAnswer_sections midFirst hone).mpr fun _ => ⟨fun n hn => ?_, fun _ _ => by decide +kernel⟩
  have hnone : heard (cut (linesOf midFirst.toList)).session = none := by decide +kernel
  rw [hnone] at hn
  cases hn

end HxdNg.Sdp
