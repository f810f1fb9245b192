import HxdNg.Registrars.Following
import HxdNg.Registrars.Holders

/-!
# A revocation outlasts what it voids

* `Covers` : what a run keeps: an attestation revocation lasts as long as each attestation in the log
  that it voids, unless it is dated the last second there is;
* `Change.covers`, `covers_run` : every change keeps it, whatever the clock does;
* `followed_list` : a reader of the full list misses nothing, and no revocation is left out of it early.
-/

namespace HxdNg.Registrars

open HxdNg.Identity
open Assoc

variable {P : Primitives} {R : Registrar} {said : UInt64 → Prop} {now : UInt64} {s s' : State}

/-- A record lasts as long as what it voids. -/
def Lasts (log : List LogEntry) (r : NewRecord) (x : AttestationRevocation) : Prop :=
  ∀ e ∈ log, x.voids e.attestation → ∃ u, r.lastsUntil = some u ∧ e.attestation.expires ≤ u

/-- What a registrar keeps of its rows, its records and its log. -/
structure Covers (P : Primitives) (R : Registrar) (s : State) : Prop where
  host : ∀ k row, s.identities.get k = some row → isHost R.host = true
  rows : ∀ name h, s.handles.get name = some h →
    (s.identities.get h.identity).isSome = true ∧ h.name = name ∧ Named R name
  indexed : ∀ r ∈ s.records, ∀ x, Revokes P R r x → r.kind = .revokeAttestation ∧
    r.identity = x.identity ∧ (s.identities.get x.identity).isSome = true
  covered : ∀ r ∈ s.records, ∀ x, Revokes P R r x → x.time.toNat ≠ maxWord → Lasts s.log r x

/-- What is to hold of a record that is published. -/
def Sound (P : Primitives) (R : Registrar) (s : State) (r : NewRecord) : Prop :=
  ∀ x, Revokes P R r x → (r.kind = .revokeAttestation ∧ r.identity = x.identity ∧
    (s.identities.get x.identity).isSome = true) ∧ Lasts s.log r x

theorem sound_of_parse {r : NewRecord} {x : Record}
    (h : Record.parse P r.bytes (some (R.signer P)) = .ok x) (hx : ∀ y, x ≠ .revokeAttestation y) :
    Sound P R s r := by
  intro y hy
  rw [Revokes, h] at hy
  exact absurd (Except.ok.inj hy) (hx y)

/-- An entry that is voided counts for how long its revocation lasts. -/
theorem le_attestationsExpire {k : PublicKey} {name : String} {t : UInt64} {e : LogEntry} (he : e ∈ s.log)
    (hid : e.attestation.identity = k) (hname : e.attestation.handle = name) (hle : e.attestation.issued ≤ t) :
    ∃ u, s.attestationsExpire k name t = some u ∧ e.attestation.expires ≤ u := by
  have hin : e.attestation.expires ∈ (s.log.filter fun e => e.attestation.identity = k ∧
      e.attestation.handle = name ∧ e.attestation.issued ≤ t).map fun e => e.attestation.expires :=
    List.mem_map.mpr ⟨e, List.mem_filter.mpr ⟨he, decide_eq_true ⟨hid, hname, hle⟩⟩, rfl⟩
  unfold State.attestationsExpire
  cases hmax : ((s.log.filter fun e => e.attestation.identity = k ∧ e.attestation.handle = name ∧
      e.attestation.issued ≤ t).map fun e => e.attestation.expires).max? with
  | none =>
    rw [List.max?_eq_none_iff] at hmax
    rw [hmax] at hin
    exact absurd hin List.not_mem_nil
  | some u => exact ⟨u, rfl, (List.max?_eq_some_iff.mp hmax).2 _ hin⟩

/-- A revocation is published to last as long as what it voids. -/
theorem sound_attestationRevocation {name : String} (hn : Named R name) (reason : UInt64) {k : PublicKey}
    (hk : (s.identities.get k).isSome = true) :
    Sound P R s (R.attestationRevocation P s k name reason now) := by
  intro x hx
  have hself : x = ⟨k, R.host, name, Registrar.past (R.revokedThrough P s k name) now, some reason⟩ :=
    AttestationRevocation.eq_of_parse_sign hn.host hn.le hx
  subst hself
  refine ⟨⟨rfl, rfl, hk⟩, ?_⟩
  rintro e he ⟨hid, -, hname, hle⟩
  obtain ⟨u, hu, hexp⟩ := le_attestationsExpire he hid hname hle
  refine ⟨u, ?_, hexp⟩
  unfold Registrar.attestationRevocation
  dsimp only at hu ⊢
  rw [hu, Option.getD_some]

theorem Covers.of_frame (h : Covers P R s) (hlog : s'.log = s.log) (rs : List NewRecord)
    (hrecords : s'.records = (s.written rs).records) (hrs : ∀ r ∈ rs, Sound P R s r)
    (hkept : ∀ k row, s.identities.get k = some row →
      ∃ row', s'.identities.get k = some row' ∧ row.Kept row')
    (hhost : ∀ k row', s'.identities.get k = some row' → ∃ k row, s.identities.get k = some row)
    (hrows : ∀ name h', s'.handles.get name = some h' → ∃ h, s.handles.get name = some h ∧
      (s'.identities.get h'.identity).isSome = true ∧ h'.name = h.name) : Covers P R s' := by
  obtain ⟨new, hw, hnew, -⟩ := s.written_eq rs
  rw [hw] at hrecords
  have hcases : ∀ r ∈ s'.records, ∀ x, Revokes P R r x → (r.kind = .revokeAttestation ∧
      r.identity = x.identity ∧ (s.identities.get x.identity).isSome = true) ∧
      (x.time.toNat ≠ maxWord → Lasts s.log r x) := by
    intro r hr x hx
    rw [hrecords] at hr
    rcases List.mem_append.mp hr with hr | hr
    · exact ⟨h.indexed r hr x hx, h.covered r hr x hx⟩
    · obtain ⟨hindexed, hlasts⟩ := hrs r (hnew hr) x hx
      exact ⟨hindexed, fun _ => hlasts⟩
  refine ⟨fun k row' hrow' => ?_, fun name h' hh' => ?_, fun r hr x hx => ?_, fun r hr x hx htime => ?_⟩
  · obtain ⟨k₀, row, hrow⟩ := hhost k row' hrow'
    exact h.host k₀ row hrow
  · obtain ⟨h₀, hh₀, hsome, hn⟩ := hrows name h' hh'
    obtain ⟨-, hn₀, hnamed⟩ := h.rows name h₀ hh₀
    exact ⟨hsome, hn.trans hn₀, hnamed⟩
  · obtain ⟨⟨hkind, hid, hsome⟩, -⟩ := hcases r hr x hx
    exact ⟨hkind, hid, isSome_kept hkept hsome⟩
  · rw [hlog]
    exact (hcases r hr x hx).2 htime

theorem Covers.same_rows (h : Covers P R s)
    (hkept : ∀ k row, s.identities.get k = some row →
      ∃ row', s'.identities.get k = some row' ∧ row.Kept row')
    (hhandles : s'.handles = s.handles) {name : String} {h' : HandleRow}
    (hh' : s'.handles.get name = some h') : ∃ h, s.handles.get name = some h ∧
      (s'.identities.get h'.identity).isSome = true ∧ h'.name = h.name := by
  rw [hhandles] at hh'
  exact ⟨h', hh', isSome_kept hkept (h.rows name h' hh').1, rfl⟩

theorem Covers.lapsed_rows (h : Covers P R s)
    (hkept : ∀ k row, s.identities.get k = some row →
      ∃ row', s'.identities.get k = some row' ∧ row.Kept row')
    {f : String → HandleRow → HandleRow} (hf : ∀ n row, (f n row).identity = row.identity ∧ (f n row).name = row.name)
    (hhandles : s'.handles = s.handles.mapVals f) {name : String} {h' : HandleRow}
    (hh' : s'.handles.get name = some h') : ∃ h, s.handles.get name = some h ∧
      (s'.identities.get h'.identity).isSome = true ∧ h'.name = h.name := by
  rw [hhandles, Map.get_mapVals] at hh'
  obtain ⟨h₀, hh₀, rfl⟩ := Option.map_eq_some_iff.mp hh'
  obtain ⟨hid, hn⟩ := hf name h₀
  exact ⟨h₀, hh₀, by rw [hid]; exact isSome_kept hkept (h.rows name h₀ hh₀).1, hn⟩

/-! ## Each change keeps it -/

/-- A time past a revocation is past all that were revoked through no later, but for the last second. -/
theorem lt_past_of_le {x t : UInt64} (hx : x.toNat ≠ maxWord) (hle : x ≤ t) :
    x < Registrar.past (some t) now := by
  by_cases ht : t.toNat = maxWord
  · have hnow : t ≥ now := by
      rw [ge_iff_le, UInt64.le_iff_toNat_le, ht]
      exact Nat.le_of_lt_succ now.toNat_lt
    have hpast : Registrar.past (some t) now = satAdd t 1 := if_pos hnow
    have hxlt := x.toNat_lt
    rw [hpast, UInt64.lt_iff_toNat_lt, toNat_satAdd, ht]
    simp only [maxWord] at hx ⊢
    omega
  · exact UInt64.lt_of_le_of_lt hle (lt_past ht)

/-- What is issued is dated past every revocation there is of the identity for the handle. -/
theorem Covers.issued_past (h : Covers P R s) {req : RegisterRequest} {w : Issue}
    (hd : Decided P R s now req w) {r : NewRecord} (hr : r ∈ s.records) {x : AttestationRevocation}
    (hx : Revokes P R r x) (htime : x.time.toNat ≠ maxWord) : ¬x.voids w.attestation := by
  rintro ⟨hid, -, hname, hle⟩
  obtain ⟨-, hrid, hsome⟩ := h.indexed r hr x hx
  have hof : r ∈ Registrar.recordsOf s w.attestation.identity :=
    List.mem_filter.mpr ⟨hr, decide_eq_true (.inl (hrid.trans hid.symm))⟩
  obtain ⟨t, ht, htx⟩ := exists_revokedThrough hof (revokes_eq_some.mpr ⟨x, hx, hid.symm, hname.symm, rfl⟩)
  obtain ⟨row, hrow⟩ := Option.isSome_iff_exists.mp hsome
  obtain ⟨hidr, -, hnamer⟩ := hd.names
  have hissued : w.attestation.issued = Registrar.past (some t) now := by
    rw [← hid] at hrow
    rw [hd.issued, Registrar.issuedAt, ← hidr, ← hnamer, hrow, ht]
  rw [hissued] at hle
  exact UInt64.not_le.mpr (lt_past_of_le htime htx) hle

theorem Change.covers (h : Change P R said now s s') (hs : Covers P R s) : Covers P R s' := by
  have hkept := fun k row (hk : s.identities.get k = some row) => h.kept hk
  have hsame : ∀ k row', s.identities.get k = some row' → ∃ k row, s.identities.get k = some row :=
    fun k row' h => ⟨k, row', h⟩
  have hlapse : ∀ (p : String → HandleRow → Prop) [∀ n h, Decidable (p n h)] (bar : Bool) (n : String)
      (h : HandleRow), (if p n h then State.lapse h now bar else h).identity = h.identity ∧
        (if p n h then State.lapse h now bar else h).name = h.name := by
    intro p _ bar n h
    split <;> exact ⟨rfl, rfl⟩
  cases h with
  | @rotated r bytes row hparse hrow husable hallowed =>
    have hne := rotation_ne hparse
    have hget := fun k => get_identity_rotated P R s _ _ bytes now k hne
    have hhandle := get_handle_rotated P R s r.identity r.successor bytes now
    refine hs.of_frame (State.log_written _ _) (R.rotationRecords P s r.identity r.successor bytes now)
      rfl (fun x hx => ?_) hkept (fun k row' _ => ⟨_, row, hrow⟩) (fun name h' hh' => ?_)
    · rcases List.mem_cons.mp hx with rfl | hx
      · exact sound_of_parse hparse nofun
      · obtain ⟨h₀, hmem, rfl⟩ := List.mem_map.mp hx
        obtain ⟨hval, -⟩ := List.mem_filter.mp hmem
        obtain ⟨name, hname⟩ := Map.mem_values_iff.mp hval
        obtain ⟨-, hn, hnamed⟩ := hs.rows name h₀ hname
        exact sound_attestationRevocation (hn ▸ hnamed) _ (by rw [hrow]; rfl)
    · rw [hhandle] at hh'
      obtain ⟨h₀, hh₀, rfl⟩ := Option.map_eq_some_iff.mp hh'
      refine ⟨h₀, hh₀, ?_⟩
      split
      · refine ⟨?_, rfl⟩
        rw [hget, if_pos rfl]
        rfl
      · exact ⟨isSome_kept hkept (hs.rows name h₀ hh₀).1, rfl⟩
  | dropped key =>
    exact hs.of_frame rfl [] rfl (fun r hr => absurd hr List.not_mem_nil) hkept hsame
      fun _ _ => hs.same_rows hkept rfl
  | held hp =>
    exact hs.of_frame rfl [] rfl (fun r hr => absurd hr List.not_mem_nil) hkept hsame
      fun _ _ => hs.same_rows hkept rfl
  | @device r bytes hparse =>
    refine hs.of_frame (State.log_written _ _) _ rfl (fun x hx => ?_) hkept
      ((State.identities_written s _).symm ▸ hsame)
      fun _ _ => hs.same_rows hkept (State.handles_written _ _)
    obtain rfl := List.mem_singleton.mp hx
    exact sound_of_parse hparse nofun
  | @revoked r bytes row hparse hrow husable =>
    refine hs.of_frame (State.log_written _ _) [⟨.revokeIdentity, r.identity, none, none, bytes⟩] rfl
      (fun x hx => ?_) hkept (fun k row' => exists_of_mapVals (State.identities_written _ _))
      fun _ _ => hs.lapsed_rows hkept (hlapse (fun _ h => h.identity = r.identity) false) ?_
    · obtain rfl := List.mem_singleton.mp hx
      exact sound_of_parse hparse nofun
    · simp only [State.publish_snd, List.foldl, State.apply, State.onIdentity, State.handles_written]
  | @frozen row fr hrow =>
    refine hs.of_frame ?_ [⟨.freeze, row.key, none, none,
        Freeze.sign P ⟨row.key, R.host, fr, R.freezeTime P s row.key now⟩ R.key⟩] ?_ (fun x hx => ?_) hkept ?_
      fun _ _ => hs.same_rows hkept ?_
    · cases fr <;> exact State.log_written _ _
    · cases fr <;> rfl
    · obtain rfl := List.mem_singleton.mp hx
      obtain ⟨k, hk⟩ := Map.mem_values_iff.mp hrow
      have hhost : isHost (Freeze.mk row.key R.host fr (R.freezeTime P s row.key now)).registrar = true :=
        hs.host k row hk
      exact fun y hy => absurd hy (Freeze.parse_sign_ne hhost y)
    · intro k row'
      cases fr <;> exact exists_of_mapVals (State.identities_written _ _)
    · cases fr <;> exact State.handles_written _ _
  | @lapsed name row reason hreason bar hh =>
    obtain ⟨hsome, -, hnamed⟩ := hs.rows name row hh
    refine hs.of_frame (State.log_written _ _) [R.attestationRevocation P s row.identity name reason now] rfl
      (fun x hx => ?_) hkept ((State.identities_written s _).symm ▸ hsame)
      fun _ _ => hs.lapsed_rows hkept (hlapse (fun n _ => n = name) bar) ?_
    · obtain rfl := List.mem_singleton.mp hx
      exact sound_attestationRevocation hnamed reason hsome
    · simp only [State.publish_snd, List.foldl, State.apply, State.handles_written]
  | @recovered name row fp keepAge hh hfp =>
    obtain ⟨hsome, -, hnamed⟩ := hs.rows name row hh
    refine hs.of_frame (State.log_written _ _)
      [R.attestationRevocation P s row.identity name attestationReason.recovered now] rfl
      (fun x hx => ?_) hkept ((State.identities_written s _).symm ▸ hsame)
      fun _ _ => hs.lapsed_rows hkept (hlapse (fun n _ => n = name) true) ?_
    · obtain rfl := List.mem_singleton.mp hx
      exact sound_attestationRevocation hnamed _ hsome
    · simp only [State.publish_snd, List.foldl, State.apply, State.handles_written]
  | committed key c =>
    exact hs.of_frame rfl [] rfl (fun r hr => absurd hr List.not_mem_nil) hkept
      (fun k row' => exists_of_mapVals rfl) fun _ _ => hs.same_rows hkept rfl
  | invited hashes =>
    exact hs.of_frame rfl [] rfl (fun r hr => absurd hr List.not_mem_nil) hkept hsame
      fun _ _ => hs.same_rows hkept rfl
  | @issued bytes req limited w s' hparse hhost hdecided hissue =>
    have hd := registration_eq_ok hdecided
    have hnamed := named_of_parse hparse hhost
    obtain ⟨hid, hreg, hhandle⟩ := hd.names
    obtain ⟨invites, rfl, -⟩ := State.issue_eq_some hissue
    refine ⟨fun _ _ _ => hnamed.host, fun name row hrow => ?_, fun r hr x hx => ?_, fun r hr x hx htime => ?_⟩
    · have hset : (name = req.handle ∧ row = w.handle) ∨ (name ≠ req.handle ∧ s.handles.get name = some row) :=
        hd.name ▸ Map.get_set_cases hrow
      rcases hset with ⟨rfl, rfl⟩ | ⟨-, hrow⟩
      · refine ⟨?_, hd.name, hnamed⟩
        dsimp only
        rw [Map.get_set, if_pos (hd.holder.trans hd.identity.symm)]
        rfl
      · obtain ⟨hsome, hn⟩ := hs.rows name row hrow
        exact ⟨isSome_kept hkept hsome, hn⟩
    · obtain ⟨hkind, hrid, hsome⟩ := hs.indexed r hr x hx
      exact ⟨hkind, hrid, isSome_kept hkept hsome⟩
    · intro e he hv
      rcases List.mem_append.mp he with he | he
      · exact hs.covered r hr x hx htime e he hv
      · obtain rfl := List.mem_singleton.mp he
        exact absurd hv (hs.issued_past hd hr hx htime)

theorem Changes.covers (h : Changes P R said now s s') (hs : Covers P R s) : Covers P R s' := by
  induction h with
  | refl => exact hs
  | tail _ hc ih => exact hc.covers ih

/-- Whatever the calls and the fetches, and whatever the clock says at each. -/
theorem covers_follow (deviceCap : Nat) (events : List Followed) :
    Covers P R (Follower.follow P R deviceCap events).store ∧
      (Follower.follow P R deviceCap events).store.PendingSigned P R := by
  induction events using List.reverseRecOn with
  | nil =>
    exact ⟨⟨(fun _ _ h => nomatch h), (fun _ _ h => nomatch h), (fun _ h => nomatch h), fun _ h => nomatch h⟩,
      fun _ _ h => nomatch h⟩
  | append_singleton events event ih =>
    obtain ⟨hcovers, hsigned⟩ := ih
    have hstep : Follower.follow P R deviceCap (events ++ [event]) =
        (Follower.follow P R deviceCap events).step P R deviceCap event := List.foldl_append ..
    rw [hstep]
    cases event with
    | call now op =>
      have hchanges : Changes P R (fun _ => True) now (Follower.follow P R deviceCap events).store
          (R.step P (Follower.follow P R deviceCap events).store now op) :=
        step_changes _ hsigned op fun _ _ _ _ => trivial
      exact ⟨hchanges.covers hcovers, hchanges.pendingSigned hsigned⟩
    | fetch now =>
      have hchanges := publishDue_changes (fun _ => True) now hsigned
      exact ⟨hchanges.covers hcovers, hchanges.pendingSigned hsigned⟩

/-- A reader that follows the full list by deltas, at times that do not go back, has every record that is
seen whenever it is told there is no more, is told no seq twice and gets on wherever there is more. And at
no time is an attestation revocation left out that voids an attestation not expired, but for one dated the
last second there is. -/
theorem followed_list (P : Primitives) (R : Registrar) (deviceCap : Nat) (events : List Followed) :
    (((events.filterMap Followed.fetched).Pairwise (· ≤ ·) →
      ((Follower.follow P R deviceCap events).got.map Prod.fst).Nodup ∧
      ∀ now, (∀ t ∈ events.filterMap Followed.fetched, t ≤ now) →
        let f := Follower.follow P R deviceCap events
        let f' := Follower.follow P R deviceCap (events ++ [.fetch now])
        ((f.page P R deviceCap now).more = false → ∀ q r, (q, r) ∈ f'.store.numbered →
          f'.store.visible (.all now deviceCap) q r = true → (q, r.bytes) ∈ f'.got) ∧
        ((f.page P R deviceCap now).more = true →
          ∃ last, f'.since = some last ∧ f.since.getD 0 < last))) ∧
    ∀ now q r, (q, r) ∈ (Follower.follow P R deviceCap events).store.numbered → ∀ x, Revokes P R r x →
      x.time.toNat ≠ maxWord → ∀ e ∈ (Follower.follow P R deviceCap events).store.log,
        x.voids e.attestation → now < e.attestation.expires →
        (Follower.follow P R deviceCap events).store.visible (.all now deviceCap) q r = true := by
  refine ⟨fun htimes => ⟨?_, fun now hnow => ?_⟩, fun now q r hr x hx htime e he hv hlive => ?_⟩
  · have hle : ∀ t ∈ events.filterMap Followed.fetched, t ≤ (.ofNat maxWord : UInt64) := fun t _ => by
      rw [UInt64.le_iff_toNat_le]
      exact Nat.le_of_lt_succ t.toNat_lt
    have h : Following P R deviceCap _ (Follower.follow P R deviceCap events) := following events htimes hle
    exact List.pairwise_map.mpr (h.sorted.imp ne_of_lt)
  · have h : Following P R deviceCap now (Follower.follow P R deviceCap events) := following events htimes hnow
    have hstep : Follower.follow P R deviceCap (events ++ [.fetch now]) =
        (Follower.follow P R deviceCap events).fetch P R deviceCap now := List.foldl_append ..
    dsimp only
    rw [hstep]
    exact (h.fetch (UInt64.le_refl now)).2
  · obtain ⟨hcovers, -⟩ := covers_follow (P := P) (R := R) deviceCap events
    have hmem : r ∈ (Follower.follow P R deviceCap events).store.records :=
      List.mem_of_getElem? (mem_numbered.mp hr).2
    obtain ⟨hkind, -⟩ := hcovers.indexed r hmem x hx
    obtain ⟨u, hu, hexp⟩ := hcovers.covered r hmem x hx htime e he hv
    unfold State.visible
    dsimp only
    rw [hkind, hu]
    exact decide_eq_true (UInt64.le_of_lt (UInt64.lt_of_lt_of_le hlive hexp))

namespace Trial

/-- Alice registers, the operator takes the handle from her, and somebody reads the list. -/
def readOnce : List Followed :=
  [.call 1000 (register (request alice 1000 none) aliceSeed),
    .call 2000 (.revokeHandle "alice" attestationReason.abuse false)]

/-- Alice is revoked twice long after what she was issued expired, and is issued another in the same
second, the last but one there is. -/
def revokedLate : List Followed :=
  [.call 1000 (register (request alice 1000 none) aliceSeed),
    .call late (.revokeHandle "alice" attestationReason.abuse false),
    .call late (.revokeHandle "alice" attestationReason.abuse false),
    .call late (register (lateRequest none) aliceSeed)]

end Trial

open Trial in
/-- The one record there is has been read. -/
theorem followed_list_once :
    ((Follower.follow table.primitives registrar 256 readOnce).got.map Prod.fst).Nodup ∧
    (Follower.follow table.primitives registrar 256 (readOnce ++ [.fetch 2500])).store.numbered.length = 1 ∧
    ∀ q r, (q, r) ∈ (Follower.follow table.primitives registrar 256 (readOnce ++ [.fetch 2500])).store.numbered →
      (Follower.follow table.primitives registrar 256 (readOnce ++ [.fetch 2500])).store.visible
        (.all 2500 256) q r = true →
      (q, r.bytes) ∈ (Follower.follow table.primitives registrar 256 (readOnce ++ [.fetch 2500])).got := by
  have h := (followed_list table.primitives registrar 256 readOnce).1 (by decide)
  have hall : ((readOnce.filterMap Followed.fetched).all fun t => decide (t ≤ 2500)) = true := by decide
  have hnow : ∀ t ∈ readOnce.filterMap Followed.fetched, t ≤ 2500 := fun t ht =>
    of_decide_eq_true (List.all_eq_true.mp hall t ht)
  exact ⟨h.1, by decide +kernel, (h.2 2500 hnow).1 (by decide +kernel)⟩

open Trial in
/-- Past the last second but one a revocation's time stands still: it voids what is issued after it, and
lasts no longer than what was issued before. -/
theorem revocation_left_out :
    ∃ r ∈ (Follower.follow table.primitives registrar 256 revokedLate).store.numbered,
      ∃ e ∈ (Follower.follow table.primitives registrar 256 revokedLate).store.log,
        r.2.kind = .revokeAttestation ∧
        (∃ x, Revokes table.primitives registrar r.2 x ∧ x.voids e.attestation) ∧
        late < e.attestation.expires ∧
        (Follower.follow table.primitives registrar 256 revokedLate).store.visible (.all late 256) r.1 r.2 =
          false := by
  decide +kernel

end HxdNg.Registrars
