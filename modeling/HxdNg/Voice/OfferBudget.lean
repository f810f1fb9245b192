import HxdNg.Voice.Offer

/-!
# What the offer budget bounds

* `spent`, `spared` : the bytes of a section whose widths vary, and what its estimate leaves for them;
* `size_offer` : an offer's size, against the sum of the estimates;
* `Peer.Budgeted` : a peer's count is the estimate of its sections, and stays below the ceiling;
* `offer_within_budget` : when the estimates bound the offer.
-/

namespace HxdNg.Sdp

def width (n : Nat) : Nat := (dec n).utf8ByteSize

theorem size_join (l : List String) : (String.join l).utf8ByteSize = (l.map String.utf8ByteSize).sum := by
  have hfold : ∀ (l : List String) (s : String),
      (l.foldl (· ++ ·) s).utf8ByteSize = s.utf8ByteSize + (l.map String.utf8ByteSize).sum := by
    intro l
    induction l with
    | nil => simp
    | cons x l ih =>
      intro s
      rw [List.foldl_cons, ih, String.utf8ByteSize_append, List.map_cons, List.sum_cons, Nat.add_assoc]
  unfold String.join
  rw [hfold]
  simp

theorem size_hexDigit {n : Nat} (h : n < 16) : (hexDigit n).utf8ByteSize = 1 := by
  interval_cases n <;> rfl

theorem size_hexByte (b : UInt8) : (hexByte b).utf8ByteSize = 2 := by
  have hlt := b.toNat_lt
  unfold hexByte
  rw [String.utf8ByteSize_append, size_hexDigit (by omega), size_hexDigit (by omega)]

theorem size_fingerprintHex (bytes : List UInt8) :
    (fingerprintHex bytes).utf8ByteSize = 3 * bytes.length - 1 := by
  cases bytes with
  | nil => rfl
  | cons b bs =>
    have hrest : ∀ x ∈ bs, (":" ++ hexByte x).utf8ByteSize = 3 := by
      intro x _
      rw [String.utf8ByteSize_append, size_hexByte]
      rfl
    have hsizes : bs.map (String.utf8ByteSize ∘ fun b => ":" ++ hexByte b) = bs.map fun _ => 3 :=
      List.map_congr_left hrest
    unfold fingerprintHex
    rw [String.utf8ByteSize_append, size_hexByte, size_join, List.map_map, hsizes, List.map_const',
      List.sum_replicate, List.length_cons, smul_eq_mul]
    omega

theorem size_candidates (candidates : List String) :
    (String.join (candidates.map fun c => "a=" ++ c ++ "\r\n")).utf8ByteSize = candidateBytes candidates := by
  have hline : ∀ c ∈ candidates, ("a=" ++ c ++ "\r\n").utf8ByteSize = c.utf8ByteSize + 4 := by
    intro c _
    have h₁ : "a=".utf8ByteSize = 2 := rfl
    have h₂ : "\r\n".utf8ByteSize = 2 := rfl
    rw [String.utf8ByteSize_append, String.utf8ByteSize_append, h₁, h₂]
    omega
  rw [size_join, List.map_map]
  exact congrArg List.sum (List.map_congr_left hline)

/-- The bytes of a `b=AS` line, and of the lines that declare what a section sends. -/
def spentRate : Option UInt32 → Nat
  | some kbps => 7 + width kbps.toNat
  | none => 0

def spentSsrc (media : SectionMedia) (rtx : Option UInt32) : Option (UInt32 × UInt16) → Nat
  | none => 0
  | some (ssrc, uid) =>
    let source := fun n : UInt32 => 17 + media.cnamePrefix.utf8ByteSize + width n.toNat + width uid.toNat
    match rtx with
    | some rtx => 20 + width ssrc.toNat + width rtx.toNat + source ssrc + source rtx
    | none => source ssrc

/-- The bytes of a section whose widths vary, its mid and its candidates aside. -/
def spent (creds : OfferCreds) (sec : OfferSection) : Nat :=
  creds.ufrag.utf8ByteSize + creds.pass.utf8ByteSize + creds.hashFunc.utf8ByteSize +
    (3 * creds.fingerprint.length - 1) + spentRate sec.bandwidthKbps + spentSsrc sec.media sec.rtxSsrc sec.ssrc

/-- What a section's estimate leaves for them. -/
def spared : SectionMedia → Nat
  | .audio => 177
  | .camera => 257
  | .screen => 257

theorem size_bandwidthLine (kbps : Option UInt32) : (bandwidthLine kbps).utf8ByteSize = spentRate kbps := by
  cases kbps with
  | none => rfl
  | some kbps =>
    have h₁ : "b=AS:".utf8ByteSize = 5 := rfl
    have h₂ : "\r\n".utf8ByteSize = 2 := rfl
    simp only [bandwidthLine, spentRate, width, String.utf8ByteSize_append, h₁, h₂]
    omega

theorem size_ssrcLines (sec : OfferSection) :
    (ssrcLines sec).utf8ByteSize = spentSsrc sec.media sec.rtxSsrc sec.ssrc := by
  have h₁ : "a=ssrc:".utf8ByteSize = 7 := rfl
  have h₂ : " cname:".utf8ByteSize = 7 := rfl
  have h₃ : "-".utf8ByteSize = 1 := rfl
  have h₄ : "\r\n".utf8ByteSize = 2 := rfl
  have h₅ : "a=ssrc-group:FID ".utf8ByteSize = 17 := rfl
  have h₆ : " ".utf8ByteSize = 1 := rfl
  unfold ssrcLines spentSsrc
  cases sec.ssrc with
  | none => rfl
  | some source =>
    cases sec.rtxSsrc with
    | none =>
      simp only [width, String.utf8ByteSize_append, h₁, h₂, h₃, h₄]
      omega
    | some rtx =>
      simp only [width, String.utf8ByteSize_append, h₁, h₂, h₃, h₄, h₅, h₆]
      omega

theorem size_direction (d : Direction) : d.asStr.utf8ByteSize = 8 := by
  cases d <;> rfl

/-- A section's text, its place in the BUNDLE group counted, and what it is taken to cost. -/
theorem size_sectionText (p : OfferParams) (sec : OfferSection) :
    (sectionText p sec).utf8ByteSize + (" " ++ sec.mid).utf8ByteSize + spared sec.media =
      sectionBytes sec.mid sec.media (candidateBytes p.candidates) + spent p.toOfferCreds sec := by
  have h₁ : "m=video 9 UDP/TLS/RTP/SAVPF ".utf8ByteSize = 28 := rfl
  have h₂ : (dec VP8_PT).utf8ByteSize = 2 := by decide +kernel
  have h₃ : " ".utf8ByteSize = 1 := rfl
  have h₄ : (dec VP8_RTX_PT).utf8ByteSize = 2 := by decide +kernel
  have h₅ : "\r\n".utf8ByteSize = 2 := rfl
  have h₆ : "m=audio 9 UDP/TLS/RTP/SAVPF 0\r\n".utf8ByteSize = 31 := rfl
  have h₇ : "c=IN IP4 0.0.0.0\r\n".utf8ByteSize = 18 := rfl
  have h₈ : "a=mid:".utf8ByteSize = 6 := rfl
  have h₉ : "a=content:slides\r\n".utf8ByteSize = 18 := rfl
  have h₁₀ : "a=rtpmap:".utf8ByteSize = 9 := rfl
  have h₁₁ : " VP8/90000\r\n".utf8ByteSize = 12 := rfl
  have h₁₂ : " rtx/90000\r\n".utf8ByteSize = 12 := rfl
  have h₁₃ : "a=fmtp:".utf8ByteSize = 7 := rfl
  have h₁₄ : " apt=".utf8ByteSize = 5 := rfl
  have h₁₅ : "a=rtcp-fb:".utf8ByteSize = 10 := rfl
  have h₁₆ : " nack\r\n".utf8ByteSize = 7 := rfl
  have h₁₇ : " nack pli\r\n".utf8ByteSize = 11 := rfl
  have h₁₈ : " ccm fir\r\n".utf8ByteSize = 10 := rfl
  have h₁₉ : (dec PCMU_PT).utf8ByteSize = 1 := by decide +kernel
  have h₂₀ : " PCMU/8000\r\n".utf8ByteSize = 12 := rfl
  have h₂₁ : "a=".utf8ByteSize = 2 := rfl
  have h₂₂ : "a=rtcp-mux\r\n".utf8ByteSize = 12 := rfl
  have h₂₃ : "a=setup:actpass\r\n".utf8ByteSize = 17 := rfl
  have h₂₄ : "a=ice-ufrag:".utf8ByteSize = 12 := rfl
  have h₂₅ : "a=ice-pwd:".utf8ByteSize = 10 := rfl
  have h₂₆ : "a=fingerprint:".utf8ByteSize = 14 := rfl
  have h₂₇ : "".utf8ByteSize = 0 := rfl
  unfold sectionText sectionBytes spent
  simp only [String.utf8ByteSize_append, size_bandwidthLine, size_ssrcLines, size_candidates,
    size_fingerprintHex, size_direction, h₃, h₅, h₇, h₈, h₂₁, h₂₂, h₂₃, h₂₄, h₂₅, h₂₆]
  cases sec.media with
  | audio =>
    simp only [SectionMedia.isVideo, spared, reduceCtorEq, Bool.false_eq_true, if_false,
      String.utf8ByteSize_append, h₆, h₁₀, h₁₉, h₂₀, h₂₇]
    omega
  | camera =>
    simp only [SectionMedia.isVideo, spared, reduceCtorEq, if_true, if_false,
      String.utf8ByteSize_append, h₁, h₂, h₃, h₄, h₅, h₁₀, h₁₁, h₁₂, h₁₃, h₁₄, h₁₅, h₁₆, h₁₇, h₁₈, h₂₇]
    omega
  | screen =>
    simp only [SectionMedia.isVideo, spared, if_true,
      String.utf8ByteSize_append, h₁, h₂, h₃, h₄, h₅, h₉, h₁₀, h₁₁, h₁₂, h₁₃, h₁₄, h₁₅, h₁₆, h₁₇, h₁₈]
    omega

def estimate (p : OfferParams) (sections : List OfferSection) : Nat :=
  OFFER_BASE_BYTES +
    (sections.map fun sec => sectionBytes sec.mid sec.media (candidateBytes p.candidates)).sum

/-- The widths an offer writes fit what its estimate leaves for them: those of its session and version
numbers, its credentials and fingerprint, and of each section its ceiling, its SSRCs and its user. -/
def Fits (p : OfferParams) (sections : List OfferSection) : Prop :=
  width p.sessionId.toNat + width p.version.toNat + (sections.map (spent p.toOfferCreds)).sum ≤
    31 + (sections.map fun sec => spared sec.media).sum

theorem size_offer (p : OfferParams) (sections : List OfferSection) :
    (offer p sections).utf8ByteSize + 31 + (sections.map fun sec => spared sec.media).sum =
      estimate p sections + width p.sessionId.toNat + width p.version.toNat +
        (sections.map (spent p.toOfferCreds)).sum := by
  have hsections : (sections.map fun sec => (" " ++ sec.mid).utf8ByteSize).sum +
      (sections.map fun sec => (sectionText p sec).utf8ByteSize).sum +
      (sections.map fun sec => spared sec.media).sum =
      (sections.map fun sec => sectionBytes sec.mid sec.media (candidateBytes p.candidates)).sum +
        (sections.map (spent p.toOfferCreds)).sum := by
    induction sections with
    | nil => rfl
    | cons sec sections ih =>
      have hsec := size_sectionText p sec
      simp only [List.map_cons, List.sum_cons]
      omega
  have h₁ : "v=0\r\n".utf8ByteSize = 5 := rfl
  have h₂ : "o=- ".utf8ByteSize = 4 := rfl
  have h₃ : " ".utf8ByteSize = 1 := rfl
  have h₄ : " IN IP4 0.0.0.0\r\n".utf8ByteSize = 17 := rfl
  have h₅ : "s=-\r\n".utf8ByteSize = 5 := rfl
  have h₆ : "t=0 0\r\n".utf8ByteSize = 7 := rfl
  have h₇ : "a=group:BUNDLE".utf8ByteSize = 14 := rfl
  have h₈ : "\r\n".utf8ByteSize = 2 := rfl
  have h₉ : "a=msid-semantic: WMS\r\n".utf8ByteSize = 22 := rfl
  have h₁₀ : "a=ice-lite\r\n".utf8ByteSize = 12 := rfl
  have hmids : (String.join (sections.map fun sec => " " ++ sec.mid)).utf8ByteSize =
      (sections.map fun sec => (" " ++ sec.mid).utf8ByteSize).sum := by
    rw [size_join, List.map_map]
    rfl
  have htexts : (String.join (sections.map (sectionText p))).utf8ByteSize =
      (sections.map fun sec => (sectionText p sec).utf8ByteSize).sum := by
    rw [size_join, List.map_map]
    rfl
  unfold offer estimate OFFER_BASE_BYTES width
  simp only [String.utf8ByteSize_append, h₁, h₂, h₃, h₄, h₅, h₆, h₇, h₈, h₉, h₁₀, hmids, htexts]
  simp only [String.utf8ByteSize_append, h₃] at hsections
  omega

theorem offer_le_estimate (p : OfferParams) (sections : List OfferSection) :
    (offer p sections).utf8ByteSize ≤ estimate p sections ↔ Fits p sections := by
  have hsize := size_offer p sections
  unfold Fits
  omega

/-! ## A peer's sections -/

def PeerSection.cost (candidates : Nat) (s : PeerSection) : Nat := sectionBytes s.mid s.kind.media candidates

/-- A peer's count is what its sections are taken to cost, each added while there was room for it. -/
structure Peer.Budgeted (candidates : List String) (p : Peer) : Prop where
  candidateBytes : p.candidateBytes = Sdp.candidateBytes candidates
  offerBytes : p.offerBytes = OFFER_BASE_BYTES + (p.sections.map (PeerSection.cost p.candidateBytes)).sum
  room : p.offerBytes ≤ MAX_OFFER_BYTES
  mids : ∀ s ∈ p.sections, s.mid.utf8ByteSize ≤ MAX_MID_LEN

namespace Peer.Budgeted
variable {candidates : List String} {p : Peer}

theorem new (candidates : List String) (sessionId : UInt64) :
    Budgeted candidates (.new candidates sessionId) where
  candidateBytes := rfl
  offerBytes := rfl
  room := by
    show OFFER_BASE_BYTES ≤ MAX_OFFER_BYTES
    decide
  mids s hs := by cases hs

theorem changed (h : p.Budgeted candidates) {f : PeerSection → PeerSection}
    (hmid : ∀ s, (f s).mid = s.mid) (hkind : ∀ s, (f s).kind = s.kind) {q : Peer}
    (hsections : q.sections = p.sections.map f) (hbytes : q.offerBytes = p.offerBytes)
    (hcandidates : q.candidateBytes = p.candidateBytes) : q.Budgeted candidates where
  candidateBytes := hcandidates.trans h.candidateBytes
  offerBytes := by
    have hcost : (p.sections.map f).map (PeerSection.cost p.candidateBytes) =
        p.sections.map (PeerSection.cost p.candidateBytes) := by
      rw [List.map_map]
      refine List.map_congr_left fun s _ => ?_
      unfold Function.comp PeerSection.cost
      rw [hmid, hkind]
    rw [hbytes, h.offerBytes, hsections, hcandidates, hcost]
  room := by
    rw [hbytes]
    exact h.room
  mids s hs := by
    rw [hsections] at hs
    obtain ⟨t, ht, rfl⟩ := List.mem_map.mp hs
    rw [hmid]
    exact h.mids t ht

theorem onSection (h : p.Budgeted candidates) (kind : SectionKind) {f : PeerSection → PeerSection}
    (hmid : ∀ s, (f s).mid = s.mid) (hkind : ∀ s, (f s).kind = s.kind) :
    (p.onSection kind f).Budgeted candidates := by
  refine h.changed (f := fun s => if s.kind = kind then f s else s) (fun s => ?_) (fun s => ?_) rfl rfl rfl
  · split
    · exact hmid s
    · rfl
  · split
    · exact hkind s
    · rfl

theorem pushSection (h : p.Budgeted candidates) (mid : String) (kind : SectionKind) :
    (p.pushSection mid kind).2.Budgeted candidates := by
  unfold Peer.pushSection
  split
  · exact h
  case isFalse hlen =>
    dsimp only
    split
    · exact h
    case isFalse hroom =>
      refine ⟨h.candidateBytes, ?_, Nat.le_of_not_lt hroom, fun s hs => ?_⟩
      · simp only
        rw [h.offerBytes, List.map_append, List.sum_append, Nat.add_assoc]
        rfl
      · rcases List.mem_append.mp hs with hs | hs
        · exact h.mids s hs
        · obtain rfl := List.mem_singleton.mp hs
          exact Nat.le_of_not_lt hlen

theorem withSection (h : p.Budgeted candidates) (mid : String) (kind : SectionKind)
    {f : PeerSection → PeerSection} (hmid : ∀ s, (f s).mid = s.mid) (hkind : ∀ s, (f s).kind = s.kind) :
    (p.withSection mid kind f).Budgeted candidates := by
  unfold Peer.withSection
  split
  · exact h.onSection kind hmid hkind
  · dsimp only
    split
    · exact (h.pushSection mid kind).onSection kind hmid hkind
    · exact h

theorem declareVideoSend (h : p.Budgeted candidates) (kind : VideoKind) :
    (p.declareVideoSend kind).Budgeted candidates := by
  unfold Peer.declareVideoSend
  split
  · exact h
  · split
    · exact ⟨h.candidateBytes, h.offerBytes, h.room, h.mids⟩
    · dsimp only
      split
      · have hp := h.pushSection (sendMid kind) (.videoSend kind)
        exact ⟨hp.candidateBytes, hp.offerBytes, hp.room, hp.mids⟩
      · exact h

theorem step (h : p.Budgeted candidates) (op : PeerOp) : (p.step candidates op).2.Budgeted candidates := by
  cases op with
  | declareMic =>
    show (p.declareMic).Budgeted candidates
    unfold Peer.declareMic
    split
    · exact h
    · exact h.pushSection ..
  | declareRemote other ssrc =>
    refine h.withSection _ _ (fun s => ?_) (fun s => ?_)
    · split <;> rfl
    · split <;> rfl
  | declareVideoSend kind => exact h.declareVideoSend kind
  | undeclareVideoSend kind => exact ⟨h.candidateBytes, h.offerBytes, h.room, h.mids⟩
  | declareRemoteVideo other kind source ssrc rtx =>
    refine h.withSection _ _ (fun s => ?_) (fun s => ?_)
    · split <;> rfl
    · split <;> rfl
  | deactivateAbsentVideo present =>
    refine h.changed (fun s => ?_) (fun s => ?_) rfl rfl rfl
    · split
      · split <;> rfl
      · rfl
    · split
      · split <;> rfl
      · rfl
  | offer present presentVideo creds limits => exact ⟨h.candidateBytes, h.offerBytes, h.room, h.mids⟩

/-- What a peer's next offer is taken to cost is its count. -/
theorem estimate_eq (h : p.Budgeted candidates) (present : List UInt16)
    (presentVideo : List (UInt16 × VideoKind)) (creds : OfferCreds) (limits : Peer.VideoConfig) :
    estimate (p.offerParams creds candidates) (p.offerSections present presentVideo limits) =
      p.offerBytes := by
  unfold estimate Peer.offerSections
  rw [h.offerBytes, List.map_map, h.candidateBytes]
  rfl

end Peer.Budgeted

/-- The budget bounds an offer, of any sections, if and only if the widths it writes fit what the estimates
leave for them; and so it is for every offer of a peer in any run, which is then below the ceiling. -/
theorem offer_within_budget (params : OfferParams) (all : List OfferSection) :
    ((offer params all).utf8ByteSize ≤ estimate params all ↔ Fits params all) ∧
    ∀ candidates sessionId ops present presentVideo creds limits,
      let peer := (runs (Peer.step candidates) (.new candidates sessionId) ops).2
      let p := peer.offerParams creds candidates
      let sections := peer.offerSections present presentVideo limits
      let made := (peer.offer present presentVideo creds candidates limits).1
      (made.utf8ByteSize ≤ estimate p sections ∧ made.utf8ByteSize ≤ MAX_OFFER_BYTES) ↔ Fits p sections := by
  refine ⟨offer_le_estimate params all, ?_⟩
  intro candidates sessionId ops present presentVideo creds limits peer p sections made
  have h : peer.Budgeted candidates :=
    runs_invariant (Peer.Budgeted candidates) (fun _ op h => h.step op) (.new candidates sessionId) ops
  have hle := offer_le_estimate p sections
  constructor
  · exact fun hmade => hle.mp hmade.1
  · intro hfits
    have hestimate := hle.mpr hfits
    refine ⟨hestimate, hestimate.trans ?_⟩
    rw [h.estimate_eq present presentVideo creds limits]
    exact h.room

/-- Five screens shared to one peer, at the widest ceiling a server can be set to. -/
def fiveScreens : List OfferSection :=
  [65531, 65532, 65533, 65534, 65535].map fun uid : UInt16 =>
    { mid := "scr-user-" ++ dec uid.toNat, media := .screen, direction := .sendOnly
      ssrc := some (4000000001, uid), rtxSsrc := some 4000000002, bandwidthKbps := some 4294967 }

def fiveParams : OfferParams :=
  { ufrag := "abcdefgh", pass := "abcdefghijklmnopqrstuvwx", hashFunc := "sha-256"
    fingerprint := List.replicate 32 0, sessionId := 1, version := 1, candidates := [] }

/-- Their offer is longer than the budget has it. -/
theorem fiveScreens_over : (∀ sec ∈ fiveScreens, sec.mid.utf8ByteSize ≤ MAX_MID_LEN) ∧
    ¬(offer fiveParams fiveScreens).utf8ByteSize ≤ estimate fiveParams fiveScreens := by
  rw [offer_le_estimate]
  unfold Fits
  decide +kernel

end HxdNg.Sdp
