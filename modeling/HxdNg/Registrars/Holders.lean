import HxdNg.Registrars.Standing
import HxdNg.Registrars.Signing
import HxdNg.Identity.Vectors

/-!
# One holder of a handle

* `Valid` : an attestation not expired, not voided by a published revocation, of an identity neither
  revoked nor rotated away;
* `Held` : what a run keeps: an attestation that is valid names the identity in its handle's row, whose
  row has not lapsed and lasts as long, and is dated no later than the second after the last revocation;
* `Change.held` : every change keeps it; `one_attested_holder` : so every run does.
-/

namespace HxdNg.Registrars

open HxdNg.Identity HxdNg.Identity.Cbor
open Assoc
open Registrar (rotationAllowed)

variable (P : Primitives) (R : Registrar)

/-! ## Attestations and what ends them -/

/-- A record's bytes are those of an attestation revocation. -/
def Revokes (r : NewRecord) (x : AttestationRevocation) : Prop :=
  Record.parse P r.bytes (some (R.signer P)) = .ok (.revokeAttestation x)

/-- A published revocation voids the attestation. -/
def Voided (s : State) (a : Attestation) : Prop :=
  ∃ r ∈ s.records, ∃ x, Revokes P R r x ∧ x.voids a

def Gone (s : State) (k : PublicKey) : Prop :=
  ∃ row, s.identities.get k = some row ∧ (row.revoked = true ∨ row.rotatedTo.isSome = true)

/-- Not expired, not voided, and its identity neither revoked nor rotated away. -/
structure Valid (now : UInt64) (s : State) (a : Attestation) : Prop where
  unexpired : now < a.expires
  unvoided : ¬ Voided P R s a
  present : ¬ Gone s a.identity

instance (r : NewRecord) (a : Attestation) :
    Decidable (∃ x, Revokes P R r x ∧ x.voids a) :=
  match h : Record.parse P r.bytes (some (R.signer P)) with
  | .ok (.revokeAttestation x) =>
    decidable_of_iff (x.voids a) ⟨fun hv => ⟨x, h, hv⟩, fun ⟨y, hy, hv⟩ => by
      obtain rfl := Record.revokeAttestation.inj (Except.ok.inj (h.symm.trans hy))
      exact hv⟩
  | .ok (.revokeDevice _) | .ok (.revokeIdentity _) | .ok (.rotate _) | .ok (.freeze _) | .error _ =>
    .isFalse fun ⟨_, hy, _⟩ => nomatch h.symm.trans hy

instance (s : State) (a : Attestation) : Decidable (Voided P R s a) :=
  inferInstanceAs (Decidable (∃ r ∈ s.records, _))

instance (s : State) (k : PublicKey) : Decidable (Gone s k) :=
  decidable_of_iff (∃ row ∈ s.identities.get k, row.revoked = true ∨ row.rotatedTo.isSome = true)
    (by simp [Gone])

instance (now : UInt64) (s : State) (a : Attestation) : Decidable (Valid P R now s a) :=
  decidable_of_iff (now < a.expires ∧ ¬ Voided P R s a ∧ ¬ Gone s a.identity)
    ⟨fun ⟨he, hv, hg⟩ => ⟨he, hv, hg⟩, fun ⟨he, hv, hg⟩ => ⟨he, hv, hg⟩⟩

/-- An attestation is dated by now, or by the second after its last revocation. -/
def Dated (now : UInt64) (s : State) (a : Attestation) : Prop :=
  a.issued ≤ now ∨ ∃ t, R.revokedThrough P s a.identity a.handle = some t ∧ a.issued ≤ satAdd t 1

/-- A handle a revocation can name. -/
structure Named (name : String) : Prop where
  host : isHost R.host = true
  ne : name ≠ ""
  le : name.utf8ByteSize ≤ maxHandleBytes

/-- What a registrar keeps of what it issued. -/
structure Held (now : UInt64) (s : State) : Prop where
  host : ∀ k row, s.identities.get k = some row → isHost R.host = true
  granted : ∀ name g, s.recoveries.get name = some g → g.handle = name
  rows : ∀ name h, s.handles.get name = some h →
    (s.identities.get h.identity).isSome = true ∧ h.name = name ∧ Named R name
  logged : ∀ e ∈ s.log, e.attestation.registrar = R.host ∧
    (s.handles.get e.attestation.handle).isSome = true ∧
    e.attestation.expires = satAdd e.attestation.issued (satMul R.attestationDays day)
  indexed : ∀ r ∈ s.records, ∀ x, Revokes P R r x →
    r.identity = x.identity ∧ (s.identities.get x.identity).isSome = true
  dated : ∀ e ∈ s.log, Dated P R now s e.attestation
  held : ∀ e ∈ s.log, Valid P R now s e.attestation → ∃ h, s.handles.get e.attestation.handle = some h ∧
    h.identity = e.attestation.identity ∧ h.lapsedAt = none ∧ e.attestation.expires ≤ h.expires ∧
    s.recoveries.get e.attestation.handle = none

variable {P} {R} {said : UInt64 → Prop} {now : UInt64} {s s' : State}

/-! ## Revocations -/

theorem revokes_eq_some {identity : PublicKey} {handle : String} {r : NewRecord} {t : UInt64} :
    R.revokes P identity handle r = some t ↔
      ∃ x, Revokes P R r x ∧ x.identity = identity ∧ x.handle = handle ∧ x.time = t := by
  rw [Registrar.revokes]
  split
  · next x hx =>
    rw [Option.ite_none_right_eq_some, Option.some.injEq]
    constructor
    · rintro ⟨⟨hid, hh⟩, ht⟩
      exact ⟨x, hx, hid, hh, ht⟩
    · rintro ⟨y, hy, hid, hh, ht⟩
      rw [Revokes, hx] at hy
      obtain rfl := Record.revokeAttestation.inj (Except.ok.inj hy)
      exact ⟨⟨hid, hh⟩, ht⟩
  · next hno =>
    simp only [reduceCtorEq, false_iff, not_exists]
    rintro x ⟨hx, -⟩
    exact hno x hx

/-- The last revocation is one, and no other is later. -/
theorem revokedThrough_eq_some {identity : PublicKey} {handle : String} {t : UInt64} :
    R.revokedThrough P s identity handle = some t ↔
      (∃ r ∈ Registrar.recordsOf s identity, R.revokes P identity handle r = some t) ∧
      ∀ r ∈ Registrar.recordsOf s identity, ∀ t', R.revokes P identity handle r = some t' → t' ≤ t := by
  rw [Registrar.revokedThrough, List.max?_eq_some_iff, List.mem_filterMap]
  simp only [List.mem_filterMap]
  constructor
  · rintro ⟨h, hmax⟩
    exact ⟨h, fun r hr t' ht' => hmax t' ⟨r, hr, ht'⟩⟩
  · rintro ⟨h, hmax⟩
    exact ⟨h, fun t' ⟨r, hr, ht'⟩ => hmax r hr t' ht'⟩

theorem exists_revokedThrough {identity : PublicKey} {handle : String} {r : NewRecord} {t : UInt64}
    (hr : r ∈ Registrar.recordsOf s identity) (ht : R.revokes P identity handle r = some t) :
    ∃ t', R.revokedThrough P s identity handle = some t' ∧ t ≤ t' := by
  cases hthrough : R.revokedThrough P s identity handle with
  | some t' => exact ⟨t', rfl, (revokedThrough_eq_some.mp hthrough).2 r hr t ht⟩
  | none =>
    rw [Registrar.revokedThrough, List.max?_eq_none_iff, List.filterMap_eq_nil_iff] at hthrough
    rw [hthrough r hr] at ht
    cases ht

/-- More records revoke through no earlier. -/
theorem revokedThrough_mono (hsub : s.records ⊆ s'.records) {identity : PublicKey} {handle : String}
    {t : UInt64} (h : R.revokedThrough P s identity handle = some t) :
    ∃ t', R.revokedThrough P s' identity handle = some t' ∧ t ≤ t' := by
  obtain ⟨⟨r, hr, ht⟩, -⟩ := revokedThrough_eq_some.mp h
  refine exists_revokedThrough ?_ ht
  rw [Registrar.recordsOf, List.mem_filter] at hr ⊢
  exact ⟨hsub hr.1, hr.2⟩

theorem le_past {through : Option UInt64} {x : UInt64}
    (h : x ≤ now ∨ ∃ t, through = some t ∧ x ≤ satAdd t 1) : x ≤ Registrar.past through now := by
  cases through with
  | none =>
    rcases h with h | ⟨t, ht, -⟩
    · exact h
    · cases ht
  | some t =>
    simp only [Registrar.past]
    split
    · next hge =>
      rcases h with h | ⟨t', ht', h⟩
      · refine UInt64.le_trans h ?_
        rw [ge_iff_le, UInt64.le_iff_toNat_le] at *
        rw [toNat_satAdd]
        have := t.toNat_lt
        simp only [maxWord]
        omega
      · obtain rfl := Option.some.inj ht'
        exact h
    · next hlt =>
      rcases h with h | ⟨t', ht', h⟩
      · exact h
      · obtain rfl := Option.some.inj ht'
        refine UInt64.le_trans h ?_
        rw [ge_iff_le, UInt64.le_iff_toNat_le] at *
        rw [toNat_satAdd]
        simp only [UInt64.toNat_one]
        omega

theorem past_dated (through : Option UInt64) (now : UInt64) : Registrar.past through now ≤ now ∨
    ∃ t, through = some t ∧ Registrar.past through now ≤ satAdd t 1 := by
  cases through with
  | none => exact Or.inl (UInt64.le_refl now)
  | some t =>
    simp only [Registrar.past]
    split
    · exact Or.inr ⟨t, rfl, UInt64.le_refl _⟩
    · exact Or.inl (UInt64.le_refl now)

/-- Short of the last second there is, the time past a revocation is past it. -/
theorem lt_past {t : UInt64} (ht : t.toNat ≠ maxWord) : t < Registrar.past (some t) now := by
  simp only [Registrar.past]
  split
  · rw [UInt64.lt_iff_toNat_lt, toNat_satAdd, UInt64.toNat_one]
    have := t.toNat_lt
    simp only [maxWord] at ht ⊢
    omega
  · next hlt => exact UInt64.not_le.mp hlt

theorem Dated.mono {now' : UInt64} {a : Attestation} (h : Dated P R now s a) (hnow : now ≤ now')
    (hsub : s.records ⊆ s'.records) : Dated P R now' s' a := by
  rcases h with h | ⟨t, ht, h⟩
  · exact Or.inl (UInt64.le_trans h hnow)
  · obtain ⟨t', ht', hle⟩ := revokedThrough_mono hsub ht
    exact Or.inr ⟨t', ht', UInt64.le_trans h (satAdd_le_satAdd hle (UInt64.le_refl 1))⟩

theorem Voided.mono {a : Attestation} (h : Voided P R s a) (hsub : s.records ⊆ s'.records) :
    Voided P R s' a := by
  obtain ⟨r, hr, x, hx, hv⟩ := h
  exact ⟨r, hsub hr, x, hx, hv⟩

theorem Gone.mono {k : PublicKey} (h : Gone s k)
    (hkept : ∀ row, s.identities.get k = some row → ∃ row', s'.identities.get k = some row' ∧ row.Kept row') :
    Gone s' k := by
  obtain ⟨row, hrow, hgone⟩ := h
  obtain ⟨row', hrow', hk⟩ := hkept row hrow
  refine ⟨row', hrow', ?_⟩
  rcases hgone with hrev | hto
  · exact Or.inl (hk.revoked hrev)
  · obtain ⟨t, ht⟩ := Option.isSome_iff_exists.mp hto
    exact Or.inr (by rw [hk.rotatedTo t ht]; rfl)

/-- What is valid later, and after more was written, was valid before. -/
theorem Valid.back {now' : UInt64} {a : Attestation} (h : Valid P R now' s' a) (hnow : now ≤ now')
    (hsub : s.records ⊆ s'.records) (hkept : ∀ k row, s.identities.get k = some row →
      ∃ row', s'.identities.get k = some row' ∧ row.Kept row') : Valid P R now s a where
  unexpired := UInt64.lt_of_le_of_lt hnow h.unexpired
  unvoided hv := h.unvoided (hv.mono hsub)
  present hg := h.present (hg.mono (hkept a.identity))

theorem Held.later {now' : UInt64} (h : Held P R now s) (hnow : now ≤ now') : Held P R now' s where
  host := h.host
  granted := h.granted
  rows := h.rows
  logged := h.logged
  indexed := h.indexed
  dated e he := (h.dated e he).mono hnow (List.Subset.refl _)
  held e he hv := h.held e he (hv.back hnow (List.Subset.refl _) fun _ row hrow => ⟨row, hrow, .refl row⟩)

/-! ## Each change keeps it -/

theorem isSome_kept (hkept : ∀ k row, s.identities.get k = some row →
    ∃ row', s'.identities.get k = some row' ∧ row.Kept row') {k : PublicKey}
    (h : (s.identities.get k).isSome = true) : (s'.identities.get k).isSome = true := by
  obtain ⟨row, hrow⟩ := Option.isSome_iff_exists.mp h
  obtain ⟨row', hrow', -⟩ := hkept k row hrow
  rw [hrow']
  rfl

/-- A record that is no revocation, or one of an identity that has a row, under its own name. -/
def Indexed (P : Primitives) (R : Registrar) (s : State) (r : NewRecord) : Prop :=
  ∀ x, Revokes P R r x → r.identity = x.identity ∧ (s.identities.get x.identity).isSome = true

/-- A change that issues nothing keeps it, if it keeps the rows of the handles that are validly held. -/
theorem Held.of_frame (h : Held P R now s) (hlog : s'.log = s.log)
    (rs : List NewRecord) (hrecords : s'.records = (s.written rs).records)
    (hrs : ∀ r ∈ rs, Indexed P R s r)
    (hkept : ∀ k row, s.identities.get k = some row →
      ∃ row', s'.identities.get k = some row' ∧ row.Kept row')
    (hhost : ∀ k row', s'.identities.get k = some row' → ∃ k row, s.identities.get k = some row)
    (hgranted : ∀ name g, s'.recoveries.get name = some g → g.handle = name)
    (hrows : ∀ name h', s'.handles.get name = some h' → ∃ h, s.handles.get name = some h ∧
      (s'.identities.get h'.identity).isSome = true ∧ h'.name = h.name)
    (hstay : ∀ name h, s.handles.get name = some h → ∃ h', s'.handles.get name = some h')
    (hheld : ∀ e ∈ s.log, Valid P R now s' e.attestation → ∀ h,
      s.handles.get e.attestation.handle = some h → h.identity = e.attestation.identity →
      ∃ h', s'.handles.get e.attestation.handle = some h' ∧ h'.identity = h.identity ∧
        h'.lapsedAt = h.lapsedAt ∧ h'.expires = h.expires ∧
        s'.recoveries.get e.attestation.handle = s.recoveries.get e.attestation.handle) :
    Held P R now s' := by
  obtain ⟨new, hw, hnew, -⟩ := s.written_eq rs
  rw [hw] at hrecords
  have hsub : s.records ⊆ s'.records := by
    rw [hrecords]
    exact List.subset_append_left _ _
  refine ⟨fun k row' hrow' => ?_, hgranted, fun name h' hh' => ?_, fun e he => ?_, fun r hr x hx => ?_,
    fun e he => ?_, fun e he hv => ?_⟩
  · obtain ⟨k₀, row, hrow⟩ := hhost k row' hrow'
    exact h.host k₀ row hrow
  · obtain ⟨h₀, hh₀, hsome, hn⟩ := hrows name h' hh'
    obtain ⟨-, hn₀, hnamed⟩ := h.rows name h₀ hh₀
    exact ⟨hsome, hn.trans hn₀, hnamed⟩
  · rw [hlog] at he
    obtain ⟨hhost, hsome, hexp⟩ := h.logged e he
    obtain ⟨h₀, hh₀⟩ := Option.isSome_iff_exists.mp hsome
    obtain ⟨h', hh'⟩ := hstay _ h₀ hh₀
    exact ⟨hhost, by rw [hh']; rfl, hexp⟩
  · rw [hrecords] at hr
    obtain ⟨hid, hsome⟩ : r.identity = x.identity ∧ (s.identities.get x.identity).isSome = true := by
      rcases List.mem_append.mp hr with hr | hr
      · exact h.indexed r hr x hx
      · exact hrs r (hnew hr) x hx
    exact ⟨hid, isSome_kept hkept hsome⟩
  · rw [hlog] at he
    exact (h.dated e he).mono (UInt64.le_refl now) hsub
  · rw [hlog] at he
    obtain ⟨h₀, hh₀, hid, hlap, hexp, hrec⟩ := h.held e he (hv.back (UInt64.le_refl now) hsub hkept)
    obtain ⟨h', hh', hid', hlap', hexp', hrec'⟩ := hheld e he hv h₀ hh₀ hid
    exact ⟨h', hh', hid'.trans hid, hlap'.trans hlap, hexp' ▸ hexp, hrec'.trans hrec⟩

/-- A record a user signed revokes no attestation. -/
theorem indexed_of_parse {r : NewRecord} {x : Record}
    (h : Record.parse P r.bytes (some (R.signer P)) = .ok x) (hx : ∀ y, x ≠ .revokeAttestation y) :
    Indexed P R s r := by
  intro y hy
  rw [Revokes, h] at hy
  exact absurd (Except.ok.inj hy) (hx y)

/-- A revocation signed for a handle parses as itself. -/
theorem revokes_attestationRevocation (s : State) (now : UInt64) (hP : P.Correct) {name : String} (hn : Named R name)
    {reason : UInt64} (hreason : reason ≤ attestationReason.abuse) (k : PublicKey) :
    Revokes P R (R.attestationRevocation P s k name reason now)
      ⟨k, R.host, name, Registrar.past (R.revokedThrough P s k name) now, some reason⟩ :=
  AttestationRevocation.parse_sign (r := ⟨k, R.host, name, _, some reason⟩)
    ⟨hn.host, hn.ne, hn.le, fun _ h => Option.mem_some.mp h ▸ hreason⟩ hP List.mem_cons_self

theorem indexed_attestationRevocation (hP : P.Correct) {name : String} (hn : Named R name)
    {reason : UInt64} (hreason : reason ≤ attestationReason.abuse) {k : PublicKey}
    (hk : (s.identities.get k).isSome = true) :
    Indexed P R s (R.attestationRevocation P s k name reason now) := by
  intro x hx
  have hself := revokes_attestationRevocation s now hP hn hreason k
  rw [Revokes, hself] at hx
  obtain rfl := Record.revokeAttestation.inj (Except.ok.inj hx)
  exact ⟨rfl, hk⟩

/-- Once the handle's row's identity has its attestations for it revoked, none for it is valid. -/
theorem Held.voids (h : Held P R now s) (hP : P.Correct) {name : String} {row : HandleRow}
    (hrow : s.handles.get name = some row) {reason : UInt64} (hreason : reason ≤ attestationReason.abuse)
    (hrecords : s'.records =
      (s.written [R.attestationRevocation P s row.identity name reason now]).records)
    (hkept : ∀ k row, s.identities.get k = some row →
      ∃ row', s'.identities.get k = some row' ∧ row.Kept row')
    {e : LogEntry} (he : e ∈ s.log) (hname : e.attestation.handle = name) :
    ¬ Valid P R now s' e.attestation := by
  intro hv
  obtain ⟨new, hw, -, hall⟩ := s.written_eq [R.attestationRevocation P s row.identity name reason now]
  rw [hw] at hrecords
  have hsub : s.records ⊆ s'.records := by
    rw [hrecords]
    exact List.subset_append_left _ _
  obtain ⟨row₀, hrow₀, hid, -⟩ := h.held e he (hv.back (UInt64.le_refl now) hsub hkept)
  rw [hname, hrow] at hrow₀
  obtain rfl := Option.some.inj hrow₀
  obtain ⟨r, hr, hbytes⟩ := hall _ (List.mem_singleton.mpr rfl)
  have hx := revokes_attestationRevocation s now hP (h.rows name row hrow).2.2 hreason
    row.identity
  refine hv.unvoided ⟨r, hrecords ▸ hr, _, by rw [Revokes, hbytes]; exact hx, hid.symm,
    (h.logged e he).1, hname, le_past ?_⟩
  have hdated := h.dated e he
  rwa [Dated, ← hid, hname] at hdated

theorem Held.same_rows (h : Held P R now s)
    (hkept : ∀ k row, s.identities.get k = some row →
      ∃ row', s'.identities.get k = some row' ∧ row.Kept row')
    (hhandles : s'.handles = s.handles) {name : String} {h' : HandleRow}
    (hh' : s'.handles.get name = some h') : ∃ h, s.handles.get name = some h ∧
      (s'.identities.get h'.identity).isSome = true ∧ h'.name = h.name := by
  rw [hhandles] at hh'
  exact ⟨h', hh', isSome_kept hkept (h.rows name h' hh').1, rfl⟩

/-- A change that leaves the handles, the log and the grants as they are. -/
theorem Held.of_same (h : Held P R now s) (hc : Change P R said now s s') (hlog : s'.log = s.log)
    (hhandles : s'.handles = s.handles) (hrec : s'.recoveries = s.recoveries) (rs : List NewRecord)
    (hrecords : s'.records = (s.written rs).records) (hrs : ∀ r ∈ rs, Indexed P R s r)
    (hhost : ∀ k row', s'.identities.get k = some row' → ∃ k row, s.identities.get k = some row) :
    Held P R now s' := by
  have hkept := fun k row (hk : s.identities.get k = some row) => hc.kept hk
  refine h.of_frame hlog rs hrecords hrs hkept hhost (hrec ▸ h.granted) (fun _ _ => h.same_rows hkept hhandles)
    (fun name row hrow => ⟨row, hhandles ▸ hrow⟩)
    (fun e he hv row hrow hid => ⟨row, hhandles ▸ hrow, rfl, rfl, rfl, ?_⟩)
  rw [hrec]

/-- A registration names a handle a revocation can name. -/
theorem named_of_parse {bytes : List UInt8} {req : RegisterRequest}
    (hparse : RegisterRequest.parse P bytes = .ok req) (hhost : req.registrar = R.host) :
    Named R req.handle := by
  simp only [RegisterRequest.parse, ite_error_eq_ok, bind_eq_ok, ite_throw_eq_ok, pure_eq_ok] at hparse
  obtain ⟨-, env, -, id, -, reg, -, handle, -, t, -, succ, -, proof, -, ⟨⟩, hcheck, hhandle, -, ⟨⟩, -, rfl⟩ :=
    hparse
  rw [not_or] at hhandle
  exact ⟨hhost ▸ checkHost_eq_ok.mp hcheck, hhandle.1, Nat.le_of_not_lt hhandle.2⟩

/-- A change that revokes the attestations of a handle's identity for it, and lapses it. -/
theorem Held.of_lapse (h : Held P R now s) (hP : P.Correct) (hc : Change P R said now s s')
    {name : String} {row : HandleRow} (hrow : s.handles.get name = some row) {reason : UInt64}
    (hreason : reason ≤ attestationReason.abuse) (barred : Bool) (hlog : s'.log = s.log)
    (hids : s'.identities = s.identities)
    (hhandles : s'.handles = s.handles.mapVals fun n h => if n = name then State.lapse h now barred else h)
    (hrec : ∀ n, n ≠ name → s'.recoveries.get n = s.recoveries.get n)
    (hgranted : ∀ g, s'.recoveries.get name = some g → g.handle = name)
    (hrecords : s'.records =
      (s.written [R.attestationRevocation P s row.identity name reason now]).records) :
    Held P R now s' := by
  have hkept := fun k row (hk : s.identities.get k = some row) => hc.kept hk
  obtain ⟨hsome, -, hnamed⟩ := h.rows name row hrow
  have hget : ∀ n, s'.handles.get n =
      (s.handles.get n).map fun h => if n = name then State.lapse h now barred else h := fun n => by
    rw [hhandles, Map.get_mapVals]
  refine h.of_frame hlog [R.attestationRevocation P s row.identity name reason now] hrecords
    (fun x hx => ?_) hkept (fun k row' hk => ⟨k, row', hids ▸ hk⟩) (fun n g hg => ?_) (fun n h' hh' => ?_)
    (fun n h₀ hh₀ => ⟨_, by rw [hget, hh₀, Option.map_some]⟩) (fun e he hv h₀ hh₀ hid => ?_)
  · obtain rfl := List.mem_singleton.mp hx
    exact indexed_attestationRevocation hP hnamed hreason hsome
  · by_cases hn : n = name
    · subst hn
      exact hgranted g hg
    · exact h.granted n g (hrec n hn ▸ hg)
  · rw [hget] at hh'
    obtain ⟨h₀, hh₀, rfl⟩ := Option.map_eq_some_iff.mp hh'
    have hsome₀ := isSome_kept hkept (h.rows n h₀ hh₀).1
    refine ⟨h₀, hh₀, ?_⟩
    split <;> exact ⟨hsome₀, rfl⟩
  · -- No attestation for this handle is valid any more, so the row is another's.
    have hne : e.attestation.handle ≠ name := fun hname => h.voids hP hrow hreason hrecords hkept he hname hv
    exact ⟨h₀, by rw [hget, hh₀, Option.map_some, if_neg hne], rfl, rfl, rfl, hrec _ hne⟩

theorem exists_of_mapVals {m : Map PublicKey IdentityRow} {f : PublicKey → IdentityRow → IdentityRow}
    (hm : m = s.identities) {k : PublicKey} {row' : IdentityRow} (h : (m.mapVals f).get k = some row') :
    ∃ k row, s.identities.get k = some row := by
  rw [Map.get_mapVals, hm] at h
  obtain ⟨row, hrow, -⟩ := Option.map_eq_some_iff.mp h
  exact ⟨k, row, hrow⟩

/-- A registration is dated past the revocations there were, or now. -/
theorem Decided.dated {req : RegisterRequest} {w : Issue} (h : Decided P R s now req w) :
    Dated P R now s w.attestation := by
  obtain ⟨hid, -, hname⟩ := h.names
  rw [Dated, h.issued, hid, hname, Registrar.issuedAt]
  split
  · exact past_dated _ now
  · exact Or.inl (UInt64.le_refl now)

/-- What was validly held of a handle when it is issued is held by the identity it is issued to, and
ends no later than what it is issued. -/
theorem Held.outlived (h : Held P R now s) {req : RegisterRequest} {w : Issue}
    (hd : Decided P R s now req w) {e : LogEntry} (he : e ∈ s.log) (hv : Valid P R now s e.attestation)
    (hname : e.attestation.handle = req.handle) :
    e.attestation.identity = req.identity ∧ e.attestation.expires ≤ w.handle.expires := by
  obtain ⟨row, hrow, hid, hlap, hexp, hrec⟩ := h.held e he hv
  rw [hname] at hrow hrec
  rcases hd.route with ⟨g, hg, -⟩ | ⟨-, -, hroute⟩
  · rw [hrec] at hg
    cases hg
  have hown : row.identity = req.identity := by
    rcases hroute row hrow with hrel | ⟨hown, -⟩
    · -- A row that has not lapsed early is released once it expired, and so did the attestation.
      exfalso
      simp only [HandleRow.state, HandleRow.lapsed, hlap] at hrel
      split at hrel
      · cases hrel
      next t ht =>
      split at ht
      · next hle => exact UInt64.not_le.mpr hv.unexpired (UInt64.le_trans hexp hle)
      · cases ht
    · exact hown
  have hsame := hid.symm.trans hown
  refine ⟨hsame, ?_⟩
  obtain ⟨-, -, hlast⟩ := h.logged e he
  rw [hlast, hd.expires]
  refine satAdd_le_satAdd ?_ (UInt64.le_refl _)
  obtain ⟨k, hk⟩ := Option.isSome_iff_exists.mp (h.rows _ row hrow).1
  rw [hd.issued, Registrar.issuedAt, ← hown, hk]
  have hdated := h.dated e he
  rw [Dated, ← hid, hname] at hdated
  exact le_past hdated

theorem Change.keeps_held (h : Change P R (· ≤ attestationReason.abuse) now s s') (hP : P.Correct)
    (hs : Held P R now s) : Held P R now s' := by
  have hkept := fun k row (hk : s.identities.get k = some row) => h.kept hk
  have hc := h
  have hsame : ∀ k row', s.identities.get k = some row' → ∃ k row, s.identities.get k = some row :=
    fun k row' h => ⟨k, row', h⟩
  cases h with
  | @rotated r bytes row hparse hrow husable hallowed =>
    have hne := rotation_ne hparse
    have hget := fun k => get_identity_rotated P R s _ _ bytes now k hne
    have hhandle := get_handle_rotated P R s r.identity r.successor bytes now
    have hrec : (R.publishRotation P s r.identity r.successor bytes now).2.recoveries = s.recoveries :=
      State.recoveries_written _ _
    refine hs.of_frame (State.log_written _ _) (R.rotationRecords P s r.identity r.successor bytes now)
      rfl (fun x hx => ?_) hkept (fun k row' _ => ⟨_, row, hrow⟩) (hrec ▸ hs.granted)
      (fun name h' hh' => ?_) (fun name h₀ hh₀ => ?_) (fun e he hv h₀ hh₀ hid => ?_)
    · rcases List.mem_cons.mp hx with rfl | hx
      · exact indexed_of_parse hparse (by simp)
      · obtain ⟨h₀, hmem, rfl⟩ := List.mem_map.mp hx
        obtain ⟨hval, -⟩ := List.mem_filter.mp hmem
        obtain ⟨name, hname⟩ := Map.mem_values_iff.mp hval
        obtain ⟨-, hn, hnamed⟩ := hs.rows name h₀ hname
        exact indexed_attestationRevocation hP (hn ▸ hnamed) (by decide) (by rw [hrow]; rfl)
    · rw [hhandle] at hh'
      obtain ⟨h₀, hh₀, rfl⟩ := Option.map_eq_some_iff.mp hh'
      refine ⟨h₀, hh₀, ?_⟩
      split
      · refine ⟨?_, rfl⟩
        rw [hget, if_pos rfl]
        rfl
      · exact ⟨isSome_kept hkept (hs.rows name h₀ hh₀).1, rfl⟩
    · exact ⟨_, by rw [hhandle, hh₀, Option.map_some]⟩
    · -- The identity rotated away has no valid attestation left, so the row is another's.
      refine ⟨h₀, ?_, rfl, rfl, rfl, by rw [hrec]⟩
      rw [hhandle, hh₀, Option.map_some, if_neg]
      intro hgone
      refine hv.present ⟨{ row with rotatedTo := some r.successor }, ?_, Or.inr rfl⟩
      rw [← hid, hgone, hget, if_neg hne, hrow, Option.map_some, if_pos rfl]
  | dropped key => exact hs.of_same hc rfl rfl rfl [] rfl (by simp) hsame
  | held hp => exact hs.of_same hc rfl rfl rfl [] rfl (by simp) hsame
  | @device r bytes hparse =>
    refine hs.of_same hc (State.log_written _ _) (State.handles_written _ _) (State.recoveries_written _ _)
      _ rfl (fun x hx => ?_) ((State.identities_written s _).symm ▸ hsame)
    obtain rfl := List.mem_singleton.mp hx
    exact indexed_of_parse hparse (by simp)
  | @revoked r bytes row hparse hrow husable =>
    have hhandle : ∀ name, (s.publish [⟨.revokeIdentity, r.identity, none, none, bytes⟩]
        [.revoke r.identity, .lapseHandles r.identity now, .dropPending r.identity]).2.handles.get name =
        (s.handles.get name).map fun h => if h.identity = r.identity then State.lapse h now false else h :=
      fun name => by
        simp only [State.publish_snd, List.foldl, State.apply, State.onIdentity, State.handles_written,
          Map.get_mapVals]
    have hrec : (s.publish [⟨.revokeIdentity, r.identity, none, none, bytes⟩]
        [.revoke r.identity, .lapseHandles r.identity now, .dropPending r.identity]).2.recoveries =
        s.recoveries := State.recoveries_written _ _
    refine hs.of_frame (State.log_written _ _) [⟨.revokeIdentity, r.identity, none, none, bytes⟩] rfl
      (fun x hx => ?_) hkept (fun k row' => exists_of_mapVals (State.identities_written _ _))
      (hrec ▸ hs.granted) (fun name h' hh' => ?_) (fun name h₀ hh₀ => ?_) (fun e he hv h₀ hh₀ hid => ?_)
    · obtain rfl := List.mem_singleton.mp hx
      exact indexed_of_parse hparse (by simp)
    · rw [hhandle] at hh'
      obtain ⟨h₀, hh₀, rfl⟩ := Option.map_eq_some_iff.mp hh'
      have hsome := isSome_kept hkept (hs.rows name h₀ hh₀).1
      refine ⟨h₀, hh₀, ?_⟩
      split <;> exact ⟨hsome, rfl⟩
    · exact ⟨_, by rw [hhandle, hh₀, Option.map_some]⟩
    · -- The identity revoked has no valid attestation left, so the row is another's.
      refine ⟨h₀, ?_, rfl, rfl, rfl, by rw [hrec]⟩
      rw [hhandle, hh₀, Option.map_some, if_neg]
      intro hgone
      refine hv.present ⟨{ row with revoked := true }, ?_, Or.inl rfl⟩
      simp only [State.publish_snd, List.foldl, State.apply, State.onIdentity, State.identities_written,
        Map.get_mapVals, ← hid, hgone, hrow, Option.map_some, if_true]
  | @frozen row fr hrow =>
    refine hs.of_same hc ?_ ?_ ?_ [⟨.freeze, row.key, none, none,
        Freeze.sign P ⟨row.key, R.host, fr, R.freezeTime P s row.key now⟩ R.key⟩] ?_ (fun x hx => ?_) ?_
    · cases fr <;> exact State.log_written _ _
    · cases fr <;> exact State.handles_written _ _
    · cases fr <;> exact State.recoveries_written _ _
    · cases fr <;> rfl
    · obtain rfl := List.mem_singleton.mp hx
      obtain ⟨k, hk⟩ := Map.mem_values_iff.mp hrow
      exact indexed_of_parse (Freeze.parse_sign (r := ⟨row.key, R.host, fr, _⟩) (hs.host k row hk) hP
        List.mem_cons_self) (by simp)
    · intro k row'
      cases fr <;> exact exists_of_mapVals (State.identities_written _ _)
  | lapsed hreason bar hh =>
    exact hs.of_lapse hP hc hh hreason bar (State.log_written _ _) (State.identities_written _ _)
      (by simp only [State.publish_snd, List.foldl, State.apply, State.handles_written])
      (fun n _ => by simp only [State.publish_snd, List.foldl, State.apply, State.recoveries_written])
      (fun g hg => hs.granted _ g (by
        simpa only [State.publish_snd, List.foldl, State.apply, State.recoveries_written] using hg)) rfl
  | @recovered name h fp keepAge hh hfp =>
    refine hs.of_lapse hP hc hh (by decide) true (State.log_written _ _) (State.identities_written _ _)
      (by simp only [State.publish_snd, List.foldl, State.apply, State.handles_written])
      (fun n hn => ?_) (fun g hg => ?_) rfl
    · simp only [State.publish_snd, List.foldl, State.apply, State.recoveries_written, Map.get_set, if_neg hn]
    · simp only [State.publish_snd, List.foldl, State.apply, State.recoveries_written, Map.get_set,
        if_true, Option.some.injEq] at hg
      exact hg ▸ rfl
  | committed key c =>
    exact hs.of_same hc rfl rfl rfl [] rfl (by simp) fun k row' => exists_of_mapVals rfl
  | invited hashes => exact hs.of_same hc rfl rfl rfl [] rfl (by simp) hsame
  | @issued bytes req limited w s' hparse hhost hdecided hissue =>
    have hd := registration_eq_ok hdecided
    have hnamed := named_of_parse hparse hhost
    obtain ⟨hid, hreg, hhandle⟩ := hd.names
    obtain ⟨invites, rfl, -⟩ := State.issue_eq_some hissue
    have hself : ∀ {name : String} {row : HandleRow}, (s.handles.set w.handle.name w.handle).get name = some row →
        (name = req.handle ∧ row = w.handle) ∨ (name ≠ req.handle ∧ s.handles.get name = some row) :=
      fun h => hd.name ▸ Map.get_set_cases h
    have hrecoveries : ∀ {name : String} {g : Recovery},
        (w.recovery.elim s.recoveries s.recoveries.drop).get name = some g →
          name ≠ req.handle ∧ s.recoveries.get name = some g := fun {name g} hg => by
      rcases hd.route with ⟨g', hg', -, hrec⟩ | ⟨hnone, hrec, -⟩
      · rw [hrec, Option.elim_some, hs.granted _ g' hg'] at hg
        exact Map.get_drop_some hg
      · rw [hrec, Option.elim_none] at hg
        refine ⟨fun hname => ?_, hg⟩
        rw [hname, hnone] at hg
        cases hg
    refine ⟨fun _ _ _ => hnamed.host, fun name g hg => hs.granted name g (hrecoveries hg).2,
      fun name row hrow => ?_, fun e he => ?_, fun r hr x hx => ?_, fun e he => ?_, fun e he hv => ?_⟩
    · rcases hself hrow with ⟨rfl, rfl⟩ | ⟨-, hrow⟩
      · refine ⟨?_, hd.name, hnamed⟩
        dsimp only
        rw [Map.get_set, if_pos (hd.holder.trans hd.identity.symm)]
        rfl
      · obtain ⟨hsome, hn⟩ := hs.rows name row hrow
        exact ⟨isSome_kept hkept hsome, hn⟩
    · have hstay : ∀ name, (s.handles.get name).isSome = true ∨ name = req.handle →
          ((s.handles.set w.handle.name w.handle).get name).isSome = true := fun name hor => by
        rw [Map.get_set, hd.name]
        split
        · rfl
        · next hne => exact hor.resolve_right hne
      rcases List.mem_append.mp he with he | he
      · obtain ⟨hhost', hsome, hexp⟩ := hs.logged e he
        exact ⟨hhost', hstay _ (Or.inl hsome), hexp⟩
      · obtain rfl := List.mem_singleton.mp he
        exact ⟨hreg, hstay _ (Or.inr hhandle), hd.lasts.trans hd.expires⟩
    · obtain ⟨hrid, hsome⟩ := hs.indexed r hr x hx
      exact ⟨hrid, isSome_kept hkept hsome⟩
    · rcases List.mem_append.mp he with he | he
      · exact hs.dated e he
      · obtain rfl := List.mem_singleton.mp he
        exact hd.dated
    · have hnone : ∀ name, name = req.handle ∨ s.recoveries.get name = none →
          (w.recovery.elim s.recoveries s.recoveries.drop).get name = none := fun name hor => by
        cases hg : (w.recovery.elim s.recoveries s.recoveries.drop).get name with
        | none => rfl
        | some g =>
          obtain ⟨hne, hg'⟩ := hrecoveries hg
          rw [hor.resolve_left hne] at hg'
          cases hg'
      have hissued : ∀ name, name = req.handle →
          (s.handles.set w.handle.name w.handle).get name = some w.handle := fun name hname => by
        rw [hname, ← hd.name, Map.get_set, if_pos rfl]
      rcases List.mem_append.mp he with he | he
      · have hv' : Valid P R now s e.attestation :=
          hv.back (UInt64.le_refl now) (List.Subset.refl _) hkept
        by_cases hname : e.attestation.handle = req.handle
        · obtain ⟨hsame', hexp⟩ := hs.outlived hd he hv' hname
          exact ⟨w.handle, hissued _ hname, hd.holder.trans hsame'.symm, hd.fresh.1, hexp,
            hnone _ (Or.inl hname)⟩
        · obtain ⟨row, hrow, hrid, hlap, hexp, hrec⟩ := hs.held e he hv'
          refine ⟨row, ?_, hrid, hlap, hexp, hnone _ (Or.inr hrec)⟩
          dsimp only
          rw [Map.get_set, hd.name, if_neg hname, hrow]
      · obtain rfl := List.mem_singleton.mp he
        exact ⟨w.handle, hissued _ hhandle, hd.holder.trans hid.symm, hd.fresh.1,
          hd.lasts ▸ UInt64.le_refl _, hnone _ (Or.inl hhandle)⟩

/-! ## Runs -/

theorem Changes.keeps_held (h : Changes P R (· ≤ attestationReason.abuse) now s s') (hP : P.Correct)
    (hs : Held P R now s) : Held P R now s' := by
  induction h with
  | refl => exact hs
  | tail _ hc ih => exact hc.keeps_held hP ih

/-- The reason an operator gives for a revocation is one the format names. -/
def Registrar.Op.Reasoned (op : Registrar.Op) : Prop :=
  ∀ handle reason bar, op = .revokeHandle handle reason bar → reason ≤ attestationReason.abuse

variable (R) in
theorem held_run (hP : P.Correct) {calls : List (UInt64 × Registrar.Op)}
    (htimes : (calls.map Prod.fst).Pairwise (· ≤ ·)) (hreasons : ∀ c ∈ calls, c.2.Reasoned)
    (hnow : ∀ c ∈ calls, c.1 ≤ now) : Held P R now (R.run P calls) := by
  induction calls using List.reverseRecOn generalizing now with
  | nil =>
    exact ⟨(fun _ _ h => nomatch h), (fun _ _ h => nomatch h), (fun _ _ h => nomatch h),
      (fun _ h => nomatch h), (fun _ h => nomatch h), (fun _ h => nomatch h), (fun _ h => nomatch h)⟩
  | append_singleton calls c ih =>
    rw [List.map_append, List.pairwise_append] at htimes
    rw [List.forall_mem_append] at hreasons hnow
    have hbefore : Held P R c.1 (R.run P calls) := ih htimes.1 hreasons.1 fun d hd =>
      htimes.2.2 d.1 (List.mem_map_of_mem hd) c.1 (List.mem_singleton.mpr rfl)
    rw [run_append]
    refine Held.later ?_ (hnow.2 c (List.mem_singleton.mpr rfl))
    exact (step_changes _ (pendingSigned_run calls) c.2 (hreasons.2 c (List.mem_singleton.mpr rfl))).keeps_held
      hP hbefore

/-- No revocation there is voids what is issued, short of the last second there is. -/
theorem Issuance.unvoided {w : Issue} (h : Issuance P R now s s' w) (hs : Held P R now s)
    (hlast : ∀ t, R.revokedThrough P s w.attestation.identity w.attestation.handle = some t →
      t.toNat ≠ maxWord) : ¬ Voided P R s' w.attestation := by
  obtain ⟨req, hd, hi⟩ := h
  obtain ⟨invites, rfl, -⟩ := State.issue_eq_some hi
  rintro ⟨r, hr, x, hx, hid, -, hname, hle⟩
  obtain ⟨hrid, hsome⟩ := hs.indexed r hr x hx
  obtain ⟨t, ht, htx⟩ : ∃ t, R.revokedThrough P s w.attestation.identity w.attestation.handle = some t ∧
      x.time ≤ t :=
    exists_revokedThrough (List.mem_filter.mpr ⟨hr, by simp [hrid, hid]⟩)
      (revokes_eq_some.mpr ⟨x, hx, hid.symm, hname.symm, rfl⟩)
  obtain ⟨row, hrow⟩ := Option.isSome_iff_exists.mp hsome
  obtain ⟨hidr, -, hnamer⟩ := hd.names
  have hissued : w.attestation.issued = Registrar.past (some t) now := by
    rw [← hid] at hrow
    rw [hd.issued, Registrar.issuedAt, ← hidr, ← hnamer, hrow, ht]
  have hlt : t < Registrar.past (some t) now := lt_past (hlast t ht)
  rw [← hissued] at hlt
  exact UInt64.not_le.mpr (UInt64.lt_of_le_of_lt htx hlt) hle

/-- A call that extends the log publishes what is due and then issues. -/
theorem issuance_of_log {op : Registrar.Op} {e : LogEntry}
    (hlog : (R.step P s now op).log = s.log ++ [e]) :
    ∃ w, Issuance P R now (R.publishDue P s now) (R.step P s now op) w ∧ e.attestation = w.attestation := by
  have hframe := publishDue_frame P R now s
  rcases step_cases P R (fun _ => True) now s op fun _ _ _ _ => trivial with h | ⟨k, c, h⟩ | ⟨hashes, h⟩ | h | h
  · exact absurd hlog (append_ne_self (by rw [h]))
  · exact absurd hlog (append_ne_self (by rw [h]; rfl))
  · exact absurd hlog (append_ne_self (by rw [h]; rfl))
  · exact absurd hlog (append_ne_self (by rw [h, hframe.log]))
  · rcases h.log_cases with heq | ⟨w, hw⟩
    · exact absurd hlog (append_ne_self (heq.trans hframe.log))
    · refine ⟨w, hw, ?_⟩
      rw [hw.log, hframe.log] at hlog
      have he : (⟨w.attestation, w.first, w.bytes⟩ : LogEntry) = e := by simpa using hlog
      exact he ▸ rfl

/-- One validly attested holder of a handle: at any time from the last call on, the valid attestations
for a handle all name the identity in its row; and what a call issues, no record published by then
voids, unless the identity's attestations for the handle are revoked through the last second there is. -/
theorem one_attested_holder (P : Primitives) (hP : P.Correct) (R : Registrar)
    (calls : List (UInt64 × Registrar.Op)) (now : UInt64)
    (htimes : (calls.map Prod.fst).Pairwise (· ≤ ·)) (hnow : ∀ c ∈ calls, c.1 ≤ now)
    (hreasons : ∀ c ∈ calls, c.2.Reasoned) :
    (∀ e ∈ (R.run P calls).log, Valid P R now (R.run P calls) e.attestation →
      ∃ row, (R.run P calls).handles.get e.attestation.handle = some row ∧
        row.identity = e.attestation.identity) ∧
    ∀ op e, (R.run P (calls ++ [(now, op)])).log = (R.run P calls).log ++ [e] →
      (∀ t, R.revokedThrough P (R.run P (calls ++ [(now, op)])) e.attestation.identity
        e.attestation.handle = some t → t.toNat ≠ maxWord) →
      ¬ Voided P R (R.run P (calls ++ [(now, op)])) e.attestation := by
  have hs := held_run R hP htimes hreasons hnow
  have hpend := pendingSigned_run (P := P) (R := R) calls
  constructor
  · intro e he hv
    obtain ⟨row, hrow, hid, -⟩ := hs.held e he hv
    exact ⟨row, hrow, hid⟩
  · intro op e hlog hlast
    rw [run_append] at hlog hlast ⊢
    obtain ⟨w, hw, he⟩ := issuance_of_log hlog
    rw [he] at hlast ⊢
    have hdue : Held P R now (R.publishDue P (R.run P calls) now) :=
      (publishDue_changes _ now hpend).keeps_held hP hs
    refine hw.unvoided hdue fun t ht => hlast t ?_
    obtain ⟨req, -, hi⟩ := hw
    obtain ⟨invites, heq, -⟩ := State.issue_eq_some hi
    dsimp only
    rw [heq]
    exact ht

/-! ## Two identities after one handle -/

namespace Trial

def aliceSeed : Bytes 32 := Bytes.replicate 32 1

def bobSeed : Bytes 32 := Bytes.replicate 32 2

def registrarSeed : Bytes 32 := Bytes.replicate 32 3

def alice : PublicKey := Vectors.identityKey

def bob : PublicKey := Vectors.deviceKey

def registrarKey : PublicKey :=
  beArray 32 0xed4928c628d1c2c6eae90338905995612959273a5c63f93636c14614ac8737d1

/-- Anyone may sign up, and a handle given up is anyone's at once. -/
def registrar : Registrar where
  host := "registrar.example"
  signup := .anyone
  proofUrl := none
  level := 1
  attestationDays := 90
  holdDays := 0
  handleMin := 3
  handleMax := 32
  reserved := []
  rotationDelay := 0
  recordsMaxAge := 600
  retiring := []
  clockSkew := 300
  key := registrarSeed

def request (identity : PublicKey) (time : UInt64) (proof : Option String) : RegisterRequest :=
  ⟨identity, "registrar.example", "alice", time, none, proof⟩

def attestation (identity : PublicKey) (issued expires : UInt64) : Attestation :=
  let registered := if issued.toNat = maxWord then issued - 1 else issued
  ⟨identity, "registrar.example", registrarKey, "alice", registered, issued, expires, some 1⟩

def revocation (time reason : UInt64) : AttestationRevocation :=
  ⟨alice, "registrar.example", "alice", time, some reason⟩

/-- The second before the last there is. -/
def late : UInt64 := 0xfffffffffffffffe

/-- A request dated as early as the skew lets it. -/
def lateRequest (proof : Option String) : RegisterRequest := request alice (late - 300) proof

def row (signer : PublicKey) (domain : String) (value : Value) (signature : Nat) :
    (PublicKey × List UInt8) × Signature :=
  ((signer, domainMessage domain (encode value)), beArray 64 signature)

def requested (r : RegisterRequest) := row r.identity RegisterRequest.domain r.unsigned

def attested (a : Attestation) := row registrarKey Attestation.domain a.unsigned

def revoked (r : AttestationRevocation) := row registrarKey AttestationRevocation.domain r.unsigned

def table : Table where
  publicKeys := [(aliceSeed, alice), (bobSeed, bob), (registrarSeed, registrarKey)]
  signatures := [
    requested (request alice 1000 none) 0xeed29a3fda5d3e7ed2476ffc0579cb1a2551319daf47df303fade7cc19d1f38b_64bb5680fdbfc896c7f0d6a1ec0aec38ef52c308ba34b415e40e96494e9e3e0e,
    requested (request bob 3000 none) 0x5940e9dc929d784e07df482bf29b03a69e9296483eb99cc711fdc046a4970f11_f15cb05ae3ac039c5492674b2674034c59e091ca6487e8745eb1c597c382be0a,
    attested (attestation alice 1000 7777000) 0xf2b8235faf6ca91c39c6b4c1a6b42a3703527c7fafbc4c35240b38de009128af_e5d8d08c8589ba01ae9c35e504baef1639bd79a5f5de5dda7875dd9ba744d009,
    attested (attestation bob 3000 7779000) 0xcdbb377efac7b2ae6fd66de6333ab9132d93b67ba78a68178a9951ff7605a8fa_fe59776f12569ef541869ef2c747d384db1e258bfa42621c5d7baf65db06770b,
    revoked (revocation 2000 4) 0xdb1b4d3ddd77790b0832635259e5c80fef532c64530d7b1ce8db6a21bd9cab53_f573f24b982bf7649ad5a7d91c087d37405f0ae5c30585ac2b9ca679185d4005,
    revoked (revocation 2000 5) 0x6b056d01df10a5f90231cc79f03b3e99283582362aefea930f56d3b1868878c1_cce93d3ed6bb00193da5f982ca525207ee2eefbe78bfbceebfccc896dfe63a0c,
    requested (lateRequest none) 0x8e7de54c56964a72f5fa2422fe16b194c0ffd7a15e8da52894eed55d8be88fb4_df9c5cb8e6f31178380c183307cf6e2a9cab6854c231dfefb847d39df66c3502,
    requested (lateRequest (some "again")) 0x2b4224a87d345f858a18cf69084b2dbf75ec13e590f2bccae5e3987c9a3279ac_0a3dc878d1ad754e8d63b5f0dc48b2e88468cc5b5ace072a0760d8ab7406fd06,
    attested (attestation alice late (late + 1)) 0xbf55039dd684fc569b78820410feb2ab565a1e217dc70315b87a982211c243e2_ba53436cf6eea07362ff4bc0eeba120876cdbac6a489ff2e0cd9208c79a6920b,
    attested (attestation alice (late + 1) (late + 1)) 0x8983264d98aa869df5a8f7aeca4aa04696251a1ef6325655c3965dec4d2339fb_6d8d41acc6d989a32f87b08a1c1563b44696a07918a98f9f92ca9544fbd46502,
    revoked (revocation late 4) 0xa413352242a61acfd0ff78036303869ec56870ac9a52268d4b08f19a1a2ed31d_443956d636b8ecd37f7617420dc531fe4988f0fff56dacadc4ec1e4c0e956a01,
    revoked (revocation (late + 1) 4) 0x60a7b41142514ec6b2a7a00cc1489b2ede49a4a63bb047fdf4de9e84994c5c70_e64d4bd18e7e1b2dba170196c456ed75ffdc9224dbe96242bf3dad6363ef7e08]
  hashes := []
  encKeys := []

def register (r : RegisterRequest) (seed : Bytes 32) : Registrar.Op :=
  .register (r.sign table.primitives seed) none none

/-- Alice registers, the operator takes the handle from her for `reason`, and Bob registers. -/
def handedOn (reason : UInt64) : List (UInt64 × Registrar.Op) :=
  [(1000, register (request alice 1000 none) aliceSeed),
    (2000, .revokeHandle "alice" reason false),
    (3000, register (request bob 3000 none) bobSeed)]

/-- Alice registers and is revoked twice, the second time at the last second there is. -/
def revokedTwice : List (UInt64 × Registrar.Op) :=
  [(late, register (lateRequest none) aliceSeed),
    (late, .revokeHandle "alice" attestationReason.abuse false),
    (late, .revokeHandle "alice" attestationReason.abuse false)]

theorem reasoned_handedOn {reason : UInt64} (h : reason ≤ attestationReason.abuse) :
    ∀ c ∈ handedOn reason, c.2.Reasoned := by
  intro c hc handle reason' bar heq
  simp only [handedOn, List.mem_cons, List.not_mem_nil, or_false] at hc
  rcases hc with rfl | rfl | rfl
  · cases heq
  · cases heq
    exact h
  · cases heq

end Trial

open Trial in
/-- Bob alone holds the handle taken from Alice as abuse, and both were attested it. -/
theorem one_attested_holder_handed_on :
    ((registrar.run table.primitives (handedOn attestationReason.abuse)).log.map fun e =>
      e.attestation.identity) = [alice, bob] ∧
    (∀ e ∈ (registrar.run table.primitives (handedOn attestationReason.abuse)).log,
      Valid table.primitives registrar 3000
        (registrar.run table.primitives (handedOn attestationReason.abuse)) e.attestation →
      ∃ row, (registrar.run table.primitives (handedOn attestationReason.abuse)).handles.get
        e.attestation.handle = some row ∧ row.identity = e.attestation.identity) :=
  ⟨by decide +kernel, (one_attested_holder table.primitives table.correct registrar
    (handedOn attestationReason.abuse) 3000 (by decide) (by decide)
    (reasoned_handedOn (by decide))).1⟩

open Trial in
/-- A revocation whose reason the format does not know is not read, and voids nothing: Alice's
attestation stays good after the handle is Bob's. And past the last second but one a revocation's time
stands still, and what is issued after it is void at once. -/
theorem two_holders_and_void_when_issued :
    (∃ e ∈ (registrar.run table.primitives (handedOn 5)).log,
      Valid table.primitives registrar 3000 (registrar.run table.primitives (handedOn 5)) e.attestation ∧
      ¬ ∃ row ∈ (registrar.run table.primitives (handedOn 5)).handles.get e.attestation.handle,
        row.identity = e.attestation.identity) ∧
    ∃ e ∈ (registrar.run table.primitives
        (revokedTwice ++ [(late, register (lateRequest (some "again")) aliceSeed)])).log,
      (registrar.run table.primitives
        (revokedTwice ++ [(late, register (lateRequest (some "again")) aliceSeed)])).log =
        (registrar.run table.primitives revokedTwice).log ++ [e] ∧
      Voided table.primitives registrar (registrar.run table.primitives
        (revokedTwice ++ [(late, register (lateRequest (some "again")) aliceSeed)])) e.attestation := by
  decide +kernel

end HxdNg.Registrars
