import HxdNg.Moderation.Bans

/-!
# The matcher over a run

* `Op`, `Core.step` : the operations on a server's bans;
* `Op.Whole` : no lift of the run stops half way; `Orderly` : a run of whole operations, in the order of
  their times;
* `Sound.step` : a whole operation leaves the matcher and the store in agreement;
* `matcher_says_store` : so the matcher refuses, after any such run, what the store bans.
-/

namespace HxdNg.Moderation

open Relationships Assoc History
open Identity (Fingerprint)

inductive Op where
  | place (fails : Fails) (acting : Acting) (ban : NewBan) (also : List BanTarget) (now : SystemTime)
  | lift (fails : Fails) (acting : Acting) (id : BanId) (now : SystemTime)
  | reload (fails : Fails) (now : SystemTime)

def Op.now : Op → SystemTime
  | .place _ _ _ _ now => now
  | .lift _ _ _ now => now
  | .reload _ now => now

/-- A lift whose first row is lifted lifts the others and is recorded. -/
def Op.Whole (c : Core) : Op → Prop
  | .lift fails _ id now => ∀ s ids, c.moderation = some s → Core.lifting fails s id now = .ok ids →
      fails (.lift 0) = none → (∀ n, 0 < n → n < ids.length → fails (.lift n) = none) ∧
        fails .record = none
  | _ => True

namespace Core

def step (v : Server) (c : Core) : Op → Core
  | .place fails acting ban also now => (c.placeBansAct v fails acting ban also now).2
  | .lift fails acting id now => (c.liftBanAs fails acting id now).2
  | .reload fails now => c.reloadBans fails now

def given (s : MemoryModeration) (now : SystemTime) : Core where
  moderation := some s
  bans := .load (s.listed (some now) none none)

/-- The matcher agrees with the store, where there is one. -/
def Sound (c : Core) (now : SystemTime) : Prop := ∃ s, c.moderation = some s ∧ Agrees s c.bans now

variable {v : Server} {c : Core} {t now : SystemTime} {fails : Fails}

theorem sound_given {s : MemoryModeration} (h : s.Wf) (now : SystemTime) : (given s now).Sound now :=
  ⟨s, rfl, agrees_load h now⟩

theorem agrees_record {s : MemoryModeration} {m : BanMatcher} (h : Agrees s m now) :
    Agrees s.record.2 m now :=
  ⟨⟨h.store.ids, h.store.last, h.store.one⟩, h.matcher, h.filed, h.known⟩

theorem Sound.placeRows (h : c.Sound now) {row : BanTarget → Ban} (hrow : ∀ t, (row t).liftedAt = none)
    (placed : List Ban) (targets : List BanTarget) :
    (placeRows fails row c placed targets).2.Sound now := by
  induction targets generalizing c placed with
  | nil => exact h
  | cons target targets ih =>
    obtain ⟨s, hs, ha⟩ := h
    unfold Core.placeRows
    split
    case h_1 => exact ⟨s, hs, ha⟩
    case h_2 =>
    refine ih ?_ _
    have hplace : (c.placeRow (row target)).2 = { c with
        moderation := some (s.ban (row target)).2
        bans := c.bans.insert (s.ban (row target)).1 } := by
      unfold placeRow
      rw [hs]
    show (c.placeRow (row target)).2.Sound now
    rw [hplace]
    exact ⟨_, rfl, ha.bans (MemoryModeration.bans_ban ha.store (hrow target)).1⟩

theorem Sound.place (h : c.Sound now) (acting : Acting) (ban : NewBan) (also : List BanTarget) :
    (c.placeBansAct v fails acting ban also now).2.Sound now := by
  unfold placeBansAct
  split
  · exact h
  split
  · exact h
  case h_2 targets _ =>
  obtain ⟨s, hs, ha⟩ := h
  have hrec : (recordAct fails c).2.Sound now := by
    unfold recordAct
    rw [hs]
    dsimp only
    split
    · exact ⟨s, hs, ha⟩
    · exact ⟨_, rfl, agrees_record ha⟩
  split
  case h_1 e c' he => rwa [he] at hrec
  case h_2 act c' he =>
  rw [he] at hrec
  exact hrec.placeRows (fun _ => rfl) [] targets

section Lift
variable {s : MemoryModeration} {m : BanMatcher} {by_ : String}

/-- Rows lifted one after another, and unfiled. -/
theorem agrees_liftRows {lifted : List Ban}
    (h : Agrees s (lifted.foldl (fun m row => m.remove row.id) m) now) {ids : List BanId} {n : Nat}
    {rows : List Ban} {s' : MemoryModeration}
    (hr : liftRows fails by_ t s n lifted ids = (.ok rows, s')) :
    Agrees s' (rows.foldl (fun m row => m.remove row.id) m) now := by
  induction ids generalizing s n lifted with
  | nil =>
    obtain ⟨hrows, hs⟩ := Prod.mk.inj hr
    obtain rfl := Except.ok.inj hrows
    exact hs ▸ h
  | cons id ids ih =>
    unfold liftRows at hr
    split at hr
    case h_1 => cases (Prod.mk.inj hr).1
    case h_2 =>
    split at hr
    case h_1 row s₁ he =>
      have hl : Agrees (s.liftBan id by_ t).2 ((lifted.foldl (fun m row => m.remove row.id) m).remove
          row.id) now := h.lift (by rw [he])
      rw [he] at hl
      refine @ih s₁ (lifted ++ [row]) ?_ _ hr
      rw [List.foldl_append]
      exact hl
    case h_2 s₁ he =>
      have hs₁ : s₁ = s := by
        rcases MemoryModeration.liftBan_cases h.store id by_ t with ⟨-, hs⟩ | ⟨row, hrow, -⟩
        · rw [he] at hs
          exact hs
        · rw [he] at hrow
          cases hrow
      split at hr
      · cases (Prod.mk.inj hr).1
      · exact @ih s₁ lifted (hs₁ ▸ h) _ hr

/-- With rows lifted already, only a call that fails stops the rest. -/
theorem liftRows_ok {ids : List BanId} {n : Nat} {lifted : List Ban} (hl : lifted ≠ [])
    (hf : ∀ k, n ≤ k → k < n + ids.length → fails (.lift k) = none) :
    ∃ rows, (liftRows fails by_ t s n lifted ids).1 = .ok rows := by
  induction ids generalizing s n lifted with
  | nil => exact ⟨lifted, rfl⟩
  | cons id ids ih =>
    have hlen : (id :: ids).length = ids.length + 1 := rfl
    have hrest : ∀ k, n + 1 ≤ k → k < n + 1 + ids.length → fails (.lift k) = none :=
      fun k hk hk' => hf k (by omega) (by omega)
    unfold liftRows
    rw [hf n (Nat.le_refl _) (by omega)]
    dsimp only
    split
    case h_1 row s₁ _ => exact ih (by simp) hrest
    case h_2 s₁ _ =>
      rw [if_neg hl]
      exact ih hl hrest

/-- A lift that fails with its first row fails with the store as it was. -/
theorem liftRows_error (h : s.Wf) {ids : List BanId} {e : ModError} {s' : MemoryModeration}
    (hf : fails (.lift 0) = none → ∀ n, 0 < n → n < ids.length → fails (.lift n) = none)
    (hr : liftRows fails by_ t s 0 [] ids = (.error e, s')) : s' = s := by
  cases ids with
  | nil => cases (Prod.mk.inj hr).1
  | cons id ids =>
    unfold liftRows at hr
    split at hr
    case h_1 => exact (Prod.mk.inj hr).2.symm
    case h_2 hnone =>
    split at hr
    case h_1 row s₁ he =>
      have hrest : ∀ k, 1 ≤ k → k < 1 + ids.length → fails (.lift k) = none := fun k hk hk' =>
        hf hnone k hk (by rw [List.length_cons]; omega)
      have hok : ∃ rows, (liftRows fails by_ t s₁ 1 ([] ++ [row]) ids).1 = .ok rows :=
        liftRows_ok (by simp) hrest
      obtain ⟨rows, hok⟩ := hok
      rw [show liftRows fails by_ t s₁ 1 ([] ++ [row]) ids = (.error e, s') from hr] at hok
      cases hok
    case h_2 s₁ he =>
      rw [if_pos rfl] at hr
      rcases MemoryModeration.liftBan_cases h id by_ t with ⟨-, hs⟩ | ⟨row, hrow, -⟩
      · rw [he] at hs
        exact (Prod.mk.inj hr).2.symm.trans hs
      · rw [he] at hrow
        cases hrow

end Lift

theorem Sound.lift (h : c.Sound now) {acting : Acting} {id : BanId}
    (hw : (Op.lift fails acting id now).Whole c) : (c.liftBanAs fails acting id now).2.Sound now := by
  obtain ⟨s, hs, ha⟩ := h
  unfold liftBanAs
  rw [hs]
  dsimp only
  split
  case h_1 => exact ⟨s, hs, ha⟩
  case h_2 ids hids =>
  have hwhole := hw s ids hs hids
  split
  case h_1 e s' he =>
    have hsame := liftRows_error ha.store (fun hz => (hwhole hz).1) he
    exact ⟨s', rfl, hsame ▸ ha⟩
  case h_2 rows s' he =>
    have hal : Agrees s' (rows.foldl (fun m row => m.remove row.id) c.bans) now :=
      @agrees_liftRows _ _ _ s c.bans _ [] ha _ _ _ _ he
    -- The first row was lifted, so the lift is recorded.
    have hfirst : fails (.lift 0) = none := by
      cases ids with
      | nil =>
        unfold lifting at hids
        split at hids
        · cases hids
        split at hids
        · cases hids
        split at hids
        · cases hids
        split at hids
        · cases hids
        split at hids <;> cases hids
      | cons id ids =>
        cases hz : fails (.lift 0) with
        | none => rfl
        | some e =>
          unfold liftRows at he
          rw [hz] at he
          cases (Prod.mk.inj he).1
    rw [(hwhole hfirst).2]
    exact ⟨_, rfl, agrees_record hal⟩

theorem Sound.reload (h : c.Sound now) : (c.reloadBans fails now).Sound now := by
  obtain ⟨s, hs, ha⟩ := h
  unfold reloadBans
  rw [hs]
  dsimp only
  split
  · exact ⟨s, hs, ha⟩
  · exact ⟨s, rfl, agrees_load ha.store now⟩

theorem Sound.later (h : c.Sound t) (hle : t ≤ now) : c.Sound now := by
  obtain ⟨s, hs, ha⟩ := h
  exact ⟨s, hs, ha.later hle⟩

/-- A whole operation leaves the two in agreement, whatever it answers. -/
theorem Sound.step (h : c.Sound t) {op : Op} (hle : t ≤ op.now) (hw : op.Whole c) :
    (c.step v op).Sound op.now := by
  cases op with
  | place fails acting ban also now => exact (h.later hle).place acting ban also
  | lift fails acting id now => exact (h.later hle).lift hw
  | reload fails now => exact (h.later hle).reload

/-- A run of whole operations, each not before the one before it. -/
def Orderly (v : Server) : Core → SystemTime → List Op → Prop
  | _, _, [] => True
  | c, t, op :: ops => t ≤ op.now ∧ op.Whole c ∧ Orderly v (c.step v op) op.now ops

def lastTime (t : SystemTime) (ops : List Op) : SystemTime := ops.foldl (fun _ op => op.now) t

theorem Sound.run (h : c.Sound t) {ops : List Op} (hr : Orderly v c t ops) :
    (ops.foldl (Core.step v) c).Sound (lastTime t ops) := by
  induction ops generalizing c t with
  | nil => exact h
  | cons op ops ih =>
    obtain ⟨hle, hw, hr⟩ := hr
    exact ih (h.step hle hw) hr

end Core

/-- After a run of whole operations, from any store a server was given: at every time from the last
operation's on, an address and a person are refused exactly where a ban standing in the store covers
them; a target has one unlifted ban and one entry, filed under the id of the store's row. -/
theorem matcher_says_store (v : Server) {s₀ : MemoryModeration} (h₀ : s₀.Wf) (t₀ : SystemTime)
    {ops : List Op} (hr : Core.Orderly v (.given s₀ t₀) t₀ ops) :
    ∃ s, (ops.foldl (Core.step v) (.given s₀ t₀)).moderation = some s ∧
      let m := (ops.foldl (Core.step v) (.given s₀ t₀)).bans
      (∀ now, Core.lastTime t₀ ops ≤ now →
        (∀ ip, (m.address ip now).isSome = true ↔
          ∃ b ∈ s.bans, b.standing now = true ∧ b.target.CoversAddress ip) ∧
        ∀ p, (m.person v.lower p now).isSome = true ↔
          ∃ b ∈ s.bans, b.standing now = true ∧ b.target.CoversPerson v.lower p) ∧
      (s.bans.Pairwise fun a b => a.liftedAt = none → b.liftedAt = none → a.target ≠ b.target) ∧
      Valid m.held ∧
      ∀ t hit, lookup m.held t = some hit →
        ∃ b ∈ s.bans, b.liftedAt = none ∧ b.target = t ∧ b.id = hit.id := by
  obtain ⟨s, hs, ha⟩ := (Core.sound_given h₀ t₀).run hr
  refine ⟨s, hs, fun now hle => ⟨fun ip => ?_, fun p => ?_⟩, ha.store.one, ha.matcher.held,
    fun t hit hl => ?_⟩
  · rw [BanMatcher.address_isSome]
    exact (ha.later hle).live_iff (·.CoversAddress ip)
  · rw [BanMatcher.person_isSome]
    exact (ha.later hle).live_iff (·.CoversPerson v.lower p)
  · obtain ⟨b, hb, hlb, ht, rfl⟩ := ha.filed t hit hl
    exact ⟨b, hb, hlb, ht, rfl⟩

/-! A person and the identity their account links, banned and let in again. -/

def villain : Fingerprint := Bytes.replicate 32 7

def sampleServer : Server where
  lower := id
  system := some "server"
  account := fun login => if login = "mallory" then some villain else none

def operator : Acting := ⟨"operator", none, none⟩

def forSpam : NewBan := ⟨.login "mallory", "spam", none, some 100, .moderator⟩

def noFailure : Fails := fun _ => none

def noRecord : Fails := fun call => if call = .record then some ⟨"the disk is full"⟩ else none

theorem matcher_says_store_lifted :
    ∃ s, ([Op.place noFailure operator forSpam [] 1, .lift noFailure operator 1 2].foldl
      (Core.step sampleServer) (.given {} 0)).moderation = some s ∧ s.bans.length = 2 := by
  obtain ⟨s, hs, h⟩ := @matcher_says_store sampleServer _ MemoryModeration.wf_empty 0
    [Op.place noFailure operator forSpam [] 1, .lift noFailure operator 1 2]
    ⟨by decide, trivial, by decide, fun _ _ _ _ _ => ⟨fun _ _ _ => rfl, rfl⟩, trivial⟩
  refine ⟨s, hs, ?_⟩
  have hlen : (([Op.place noFailure operator forSpam [] 1, .lift noFailure operator 1 2].foldl
      (Core.step sampleServer) (.given {} 0)).moderation.map (·.bans.length)) = some 2 := by
    decide +kernel
  rw [hs] at hlen
  exact Option.some.inj hlen

/-- A lift whose act the trail does not take is an error, and the person it lifted the ban of in the
store stays refused. -/
theorem failed_lift_keeps_refusing :
    let c := [Op.place noFailure operator forSpam [] 1, .lift noRecord operator 1 2].foldl
      (Core.step sampleServer) (.given {} 0)
    (c.bans.person id ⟨some "mallory", none, none⟩ 3).isSome = true ∧
      c.moderation.any (·.bans.all fun b => !b.standing 3) = true := by
  decide +kernel

end HxdNg.Moderation
