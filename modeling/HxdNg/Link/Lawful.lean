import Mathlib
import HxdNg.Link.Moves

/-!
# What a link may carry

* `Carried` : fields that may cross a link, within the bound of their transaction;
* `ServerGroup.Lawful`, `UserGroup.Lawful` and their kind : what is kept of a link, and what waits in its
  channel, may be passed on as it is;
* `parse_carried`, `carried_of_extra` : what has been checked on receipt may be;
* `carried_map`, `carried_relayed` : and with the IDs of the next hop.
-/

namespace HxdNg.Link

open Assoc (Map)
open Session (beside)

/-- No field that never crosses a link, and no more than `bound` bytes beside the baseline. -/
def Carried (baseline : List UInt16) (bound : Nat) (fields : List Field) : Prop :=
  (∀ f ∈ fields, neverCrosses f.id = false) ∧ weight (beside baseline fields) ≤ bound

instance (baseline : List UInt16) (bound : Nat) (fields : List Field) :
    Decidable (Carried baseline bound fields) :=
  inferInstanceAs (Decidable (_ ∧ _))

def serverBaseline : List UInt16 :=
  [field.SERVER_ID, field.TAG, field.SERVER_NAME, field.HOPS, field.COLOR]

def userBaseline : List UInt16 :=
  [field.USER_ID, field.SERVER_ID, field.USER_NAME, field.USER_ICON, field.USER_FLAGS, field.COLOR,
    field.EXCLUDE]

def serverGoneBaseline : List UInt16 := [field.SERVER_ID]

def userGoneBaseline : List UInt16 := [field.USER_ID, field.REASON]

/-- What a reply to any request holds. -/
def replyBaseline : List UInt16 := [field.REASON, field.DATA, field.BAN_ID, field.DEVICE_CERT]

def requestBaseline (ty : UInt32) : List UInt16 :=
  if ty = tx.PRIVATE_MESSAGE then Session.messageBaseline
  else if ty = tx.DEVICE_KEYS then Session.keysBaseline
  else if ty = tx.USER_INFO then Session.infoBaseline
  else Session.moderationBaseline ty

def requestBound (ty : UInt32) : Nat :=
  if ty = tx.PRIVATE_MESSAGE then 2 * MAX_LINK_TEXT + MAX_EXTRA else MAX_EXTRA

/-- A server group that may be announced. -/
def ServerGroup.Lawful (g : ServerGroup) : Prop :=
  Carried serverBaseline MAX_EXTRA g.toFields ∧ g.hops ≤ MAX_HOPS

def UserGroup.Lawful (u : UserGroup) : Prop := Carried userBaseline MAX_EXTRA u.fields

def Relay.Lawful : Relay → Prop
  | .server g => g.Lawful
  | .serverGone fields => Carried serverGoneBaseline MAX_EXTRA fields
  | .user fields => Carried userBaseline MAX_EXTRA fields
  | .userGone fields => Carried userGoneBaseline MAX_EXTRA fields
  | .chat fields => Carried Session.chatBaseline MAX_EXTRA fields

/-- Asked over another link, not by someone here. -/
def Asker.remote : Asker → Bool
  | .here _ => false
  | .link _ _ _ => true

/-- A request forwarded: one made here is this server's own. -/
def Request.Lawful (r : Request) : Prop :=
  r.reply.remote = true → Carried (requestBaseline r.ty) (requestBound r.ty) r.fields

/-- What this server sends of what came over other links. -/
def Sent.Lawful : Sent → Prop
  | .servers groups => ∀ g ∈ groups, g.Lawful
  | .snapshot relayed => ∀ fields ∈ relayed, Carried userBaseline MAX_EXTRA fields
  | .passed what => what.Lawful
  | .request ty _ fields asker => (⟨ty, fields, asker⟩ : Request).Lawful
  | .reply _ _ fields => Carried replyBaseline MAX_EXTRA fields

/-! ## Checked on receipt -/

section Carried
variable {baseline : List UInt16} {bound : Nat} {fields : List Field}

theorem admissible_iff :
    admissibleExtraWithin fields bound = .ok () ↔
      (∀ f ∈ fields, neverCrosses f.id = false) ∧ weight fields ≤ bound := by
  unfold admissibleExtraWithin
  rw [ite_throw_bind_eq_ok, ite_throw_eq_ok, pure_eq_ok]
  simp

theorem toOption_isNone {ε : Type} {x : Except ε Unit} (h : ¬ x.toOption.isNone = true) : x = .ok () := by
  cases x with
  | error e => exact absurd rfl h
  | ok u => rfl

theorem mem_beside {f : Field} : f ∈ beside baseline fields ↔ f ∈ fields ∧ f.id ∉ baseline := by
  unfold beside
  rw [List.mem_filter]
  simp

/-- What is checked beside its baseline may be carried. -/
theorem carried_of_extra (hbase : ∀ id ∈ baseline, neverCrosses id = false)
    (h : admissibleExtraWithin (beside baseline fields) bound = .ok ()) :
    Carried baseline bound fields := by
  obtain ⟨hcross, hweight⟩ := admissible_iff.1 h
  refine ⟨fun f hf => ?_, hweight⟩
  by_cases hid : f.id ∈ baseline
  · exact hbase f.id hid
  · exact hcross f (mem_beside.2 ⟨hf, hid⟩)

/-- Fields rewritten in the baseline only, each under the ID it had. -/
theorem carried_map {φ : Field → Field} (hid : ∀ f, (φ f).id = f.id)
    (hsame : ∀ f, f.id ∉ baseline → φ f = f) (h : Carried baseline bound fields) :
    Carried baseline bound (fields.map φ) := by
  refine ⟨fun f hf => ?_, ?_⟩
  · obtain ⟨f', hf', rfl⟩ := List.mem_map.1 hf
    rw [hid]
    exact h.1 f' hf'
  · have hbeside : beside baseline (fields.map φ) = beside baseline fields := by
      unfold beside
      rw [List.filter_map]
      have hfilter : ((fun f : Field => !baseline.contains f.id) ∘ φ) =
          fun f => !baseline.contains f.id := by
        funext f
        simp [hid]
      rw [hfilter]
      refine (List.map_congr_left fun f hf => ?_).trans (List.map_id _)
      exact hsame f (mem_beside.1 hf).2
    rw [hbeside]
    exact h.2

theorem weight_filter_le (p : Field → Bool) (fields : List Field) :
    weight (fields.filter p) ≤ weight fields := by
  unfold weight
  induction fields with
  | nil => exact le_refl _
  | cons f fields ih =>
    rw [List.filter_cons]
    split
    · simp only [List.map_cons, List.sum_cons]
      omega
    · simp only [List.map_cons, List.sum_cons]
      omega

theorem carried_append {fields' : List Field} (hbase : ∀ f ∈ fields, f.id ∈ baseline)
    (hcross : ∀ id ∈ baseline, neverCrosses id = false)
    (h : admissibleExtraWithin fields' bound = .ok ()) : Carried baseline bound (fields ++ fields') := by
  obtain ⟨hcross', hweight⟩ := admissible_iff.1 h
  refine ⟨fun f hf => ?_, ?_⟩
  · rcases List.mem_append.1 hf with hf | hf
    · exact hcross f.id (hbase f hf)
    · exact hcross' f hf
  · have hnone : beside baseline fields = [] := by
      refine List.filter_eq_nil_iff.2 fun f hf => ?_
      simpa using hbase f hf
    unfold beside at hnone ⊢
    rw [List.filter_append, hnone, List.nil_append]
    exact le_trans (weight_filter_le _ _) hweight

/-! ## Groups -/

theorem crosses_none {baseline : List UInt16}
    (h : (baseline.all fun id => !neverCrosses id) = true) : ∀ id ∈ baseline, neverCrosses id = false := by
  intro id hid
  simpa using List.all_eq_true.1 h id hid

theorem crosses_server : ∀ id ∈ serverBaseline, neverCrosses id = false :=
  crosses_none (by decide)

theorem crosses_user : ∀ id ∈ userBaseline, neverCrosses id = false :=
  crosses_none (by decide)

theorem crosses_chat : ∀ id ∈ Session.chatBaseline, neverCrosses id = false :=
  crosses_none (by decide)

theorem crosses_request (ty : UInt32) : ∀ id ∈ requestBaseline ty, neverCrosses id = false := by
  unfold requestBaseline Session.moderationBaseline
  repeat' split
  all_goals exact crosses_none (by decide)

/-- A group within its bound, few enough hops away, may be announced. -/
theorem ServerGroup.lawful_of {g : ServerGroup} (hok : g.admissible = .ok ()) (hhops : g.hops ≤ MAX_HOPS) :
    g.Lawful := by
  refine ⟨?_, hhops⟩
  unfold ServerGroup.toFields
  refine carried_append (fun f hf => ?_) crosses_server ?_
  · rcases List.mem_append.1 hf with hf | hf
    · simp only [List.mem_cons, List.not_mem_nil, or_false] at hf
      rcases hf with rfl | rfl | rfl | rfl <;> simp [serverBaseline, Field.u16]
    · rw [Option.mem_toList, Option.map_eq_some_iff] at hf
      obtain ⟨v, -, rfl⟩ := hf
      simp [serverBaseline, Field.u32]
  · unfold ServerGroup.admissible at hok
    rw [ite_throw_bind_eq_ok] at hok
    exact hok.2

theorem admissible_farther {g : ServerGroup} (h : g.admissible = .ok ()) :
    (farther g).admissible = .ok () := h

/-- A field after the first is kept, and is extra unless it is of the baseline. -/
theorem UserGroup.read_kept {r r' : UserGroup.Read} {f : Field} (h : UserGroup.read r f = .ok r')
    (hid : f.id ≠ field.USER_ID) : (r'.kept = r.kept ∧ r'.extra = r.extra) ∨
      (r'.kept = r.kept ++ [f] ∧ r'.extra = r.extra ++ if f.id ∈ userBaseline then [] else [f]) := by
  have hin : f.id ∈ userBaseline → r'.kept = r.kept ++ [f] → r'.extra = r.extra →
      (r'.kept = r.kept ∧ r'.extra = r.extra) ∨
        (r'.kept = r.kept ++ [f] ∧ r'.extra = r.extra ++ if f.id ∈ userBaseline then [] else [f]) := by
    intro hf hkept hextra
    rw [if_pos hf, List.append_nil]
    exact .inr ⟨hkept, hextra⟩
  unfold UserGroup.read at h
  by_cases hmore : f.id = field.MORE
  · rw [if_pos hmore, pure_eq_ok] at h
    rw [← h]
    exact .inl ⟨rfl, rfl⟩
  rw [if_neg hmore] at h
  dsimp only at h
  by_cases h1 : f.id = field.SERVER_ID
  · simp only [if_pos h1, bind_eq_ok, pure_eq_ok] at h
    obtain ⟨_, -, _, rfl, rfl⟩ := h
    exact hin (by rw [h1]; decide) rfl rfl
  rw [if_neg h1] at h
  by_cases h2 : f.id = field.USER_NAME
  · simp only [if_pos h2, bind_eq_ok, pure_eq_ok] at h
    obtain ⟨_, -, _, rfl, rfl⟩ := h
    exact hin (by rw [h2]; decide) rfl rfl
  rw [if_neg h2] at h
  by_cases h3 : f.id = field.USER_ICON
  · simp only [if_pos h3, bind_eq_ok, pure_eq_ok] at h
    obtain ⟨_, -, _, rfl, rfl⟩ := h
    exact hin (by rw [h3]; decide) rfl rfl
  rw [if_neg h3] at h
  by_cases h4 : f.id = field.USER_FLAGS
  · simp only [if_pos h4, bind_eq_ok, pure_eq_ok] at h
    obtain ⟨_, -, _, rfl, rfl⟩ := h
    exact hin (by rw [h4]; decide) rfl rfl
  rw [if_neg h4] at h
  by_cases h5 : f.id = field.COLOR
  · simp only [if_pos h5, bind_eq_ok, pure_eq_ok] at h
    obtain ⟨_, -, _, rfl, rfl⟩ := h
    exact hin (by rw [h5]; decide) rfl rfl
  rw [if_neg h5] at h
  by_cases h6 : f.id = field.EXCLUDE
  · simp only [if_pos h6, bind_eq_ok, pure_eq_ok] at h
    obtain ⟨r₁, hread, rfl⟩ := h
    cases hfix : f.fixed 8 with
    | none =>
      rw [hfix] at hread
      cases hread
    | some id =>
      rw [hfix, Option.elim_some, pure_eq_ok] at hread
      exact hin (by rw [h6]; decide) rfl (by rw [← hread])
  rw [if_neg h6] at h
  have hout : f.id ∉ userBaseline := by
    unfold userBaseline
    simp only [List.mem_cons, List.not_mem_nil, or_false, not_or]
    exact ⟨hid, h1, h2, h3, h4, h5, h6⟩
  rw [if_neg hout]
  by_cases h7 : f.id = field.USER_TRANSPORT
  · simp only [if_pos h7, bind_eq_ok, pure_eq_ok] at h
    obtain ⟨_, rfl, rfl⟩ := h
    exact .inr ⟨rfl, rfl⟩
  rw [if_neg h7] at h
  by_cases h8 : f.id = field.USER_KEY
  · simp only [if_pos h8, bind_eq_ok, pure_eq_ok] at h
    obtain ⟨_, rfl, rfl⟩ := h
    exact .inr ⟨rfl, rfl⟩
  rw [if_neg h8] at h
  by_cases h9 : f.id = field.USER_KEY_FLAGS
  · simp only [if_pos h9, bind_eq_ok, pure_eq_ok] at h
    obtain ⟨_, rfl, rfl⟩ := h
    exact .inr ⟨rfl, rfl⟩
  simp only [if_neg h9, bind_eq_ok, pure_eq_ok] at h
  obtain ⟨_, rfl, rfl⟩ := h
  exact .inr ⟨rfl, rfl⟩

/-- What has been kept of a group is its baseline, and what was read as extra. -/
theorem UserGroup.readAll_beside {fields : List Field} {r r' : UserGroup.Read}
    (h : fields.foldlM UserGroup.read r = .ok r') (hid : ∀ f ∈ fields, f.id ≠ field.USER_ID)
    (hr : beside userBaseline r.kept = r.extra) : beside userBaseline r'.kept = r'.extra := by
  induction fields generalizing r with
  | nil =>
    rw [List.foldlM_nil, pure_eq_ok] at h
    rw [← h]
    exact hr
  | cons f fields ih =>
    rw [List.foldlM_cons, bind_eq_ok] at h
    obtain ⟨r₁, hread, h⟩ := h
    refine ih h (fun f' hf' => hid f' (List.mem_cons_of_mem _ hf')) ?_
    rcases UserGroup.read_kept hread (hid f List.mem_cons_self) with ⟨hkept, hextra⟩ | ⟨hkept, hextra⟩
    · rw [hkept, hextra]
      exact hr
    · rw [hkept, hextra]
      unfold beside at hr ⊢
      rw [List.filter_append, hr]
      congr 1
      by_cases hf : f.id ∈ userBaseline <;> simp [hf]

/-- A group that could be read may be passed on, every field as it came. -/
theorem UserGroup.parse_lawful {fields : List Field} {u : UserGroup}
    (h : UserGroup.parse fields = .ok u) : u.Lawful := by
  cases fields with
  | nil => cases h
  | cons first rest =>
    unfold UserGroup.parse at h
    rw [ite_throw_bind_eq_ok, bind_eq_ok] at h
    obtain ⟨hfirst, id, -, h⟩ := h
    rw [bind_eq_ok] at h
    obtain ⟨r, hread, h⟩ := h
    rw [bind_eq_ok] at h
    obtain ⟨name, -, h⟩ := h
    rw [ite_throw_bind_eq_ok, bind_eq_ok] at h
    obtain ⟨-, _, hextra, h⟩ := h
    rw [bind_eq_ok] at h
    obtain ⟨home, -, h⟩ := h
    rw [bind_eq_ok] at h
    obtain ⟨icon, -, h⟩ := h
    rw [bind_eq_ok] at h
    obtain ⟨flags, -, h⟩ := h
    rw [pure_eq_ok] at h
    subst h
    refine carried_of_extra crosses_user ?_
    have hopens : first.id = field.USER_ID := Classical.not_not.1 hfirst
    have hbeside := UserGroup.readAll_beside hread (fun f hf => ?_) ?_
    · rw [hbeside]
      rw [mapError_eq_ok] at hextra
      exact hextra
    · have hf' := List.mem_takeWhile_imp hf
      exact bne_iff_ne.1 hf'
    · unfold beside
      rw [List.filter_singleton, hopens]
      rfl

theorem UserGroup.parseAll_lawful {fields : List Field} {u : UserGroup}
    (h : u ∈ (UserGroup.parseAll fields).filterMap Except.toOption) : u.Lawful := by
  obtain ⟨x, hx, hu⟩ := List.mem_filterMap.1 h
  obtain ⟨t, -, rfl⟩ := List.mem_map.1 hx
  cases hp : UserGroup.parse t with
  | error e =>
    rw [hp] at hu
    cases hu
  | ok u' =>
    rw [hp] at hu
    obtain rfl := Option.some.inj hu
    exact UserGroup.parse_lawful hp

/-! ## With the IDs of the next hop -/

/-- A user's group under this server's ID and flag rules. -/
theorem UserGroup.Lawful.relayed {u : UserGroup} (h : u.Lawful) (uid : UInt16) (features : UInt32) :
    Carried userBaseline MAX_EXTRA (relayedGroup uid u features) := by
  unfold relayedGroup
  refine carried_map (fun f => ?_) (fun f hf => ?_) h
  · split
    next hid => exact hid.symm
    split
    next hid => exact hid.symm
    rfl
  · have hid : f.id ≠ field.USER_ID := fun heq => hf (by rw [heq]; decide)
    have hflags : f.id ≠ field.USER_FLAGS := fun heq => hf (by rw [heq]; decide)
    rw [if_neg hid, if_neg hflags]

theorem carried_renamed (hbase : field.USER_ID ∈ baseline) (h : Carried baseline bound fields)
    (uid : UInt16) : Carried baseline bound (renamed fields uid) := by
  unfold renamed
  refine carried_map (fun f => ?_) (fun f hf => ?_) h
  · split
    next hid => exact hid.symm
    rfl
  · have hid : f.id ≠ field.USER_ID := fun heq => hf (by rw [heq]; exact hbase)
    exact if_neg hid

/-- A request's own baseline holds the IDs that are translated in it. -/
theorem carried_translate (htarget : field.TARGET_ID ∈ baseline) (sender : Option UInt16)
    (hsender : sender.isSome → field.USER_ID ∈ baseline) (h : Carried baseline bound fields)
    (target : UInt16) : Carried baseline bound (translate fields target sender) := by
  unfold translate
  refine carried_map (fun f => ?_) (fun f hf => ?_) h
  · split
    next hid => exact hid.symm
    split
    next hid =>
      cases sender with
      | none => rfl
      | some uid => exact hid.symm
    rfl
  · have hid : f.id ≠ field.TARGET_ID := fun heq => hf (by rw [heq]; exact htarget)
    rw [if_neg hid]
    split
    next hid =>
      cases sender with
      | none => rfl
      | some uid => exact absurd (by rw [hid]; exact hsender rfl) hf
    rfl

theorem lawful_goneFields (uid : UInt16) (why : Reason) :
    Carried userGoneBaseline MAX_EXTRA (goneFields uid why) := by
  refine ⟨fun f hf => ?_, ?_⟩
  · unfold goneFields at hf
    rcases List.mem_cons.1 hf with rfl | hf
    · exact (by decide : neverCrosses field.USER_ID = false)
    · rw [List.mem_singleton.1 hf]
      exact (by decide : neverCrosses field.REASON = false)
  · exact Nat.zero_le _

theorem lawful_goneServer (id : ServerId) :
    Carried serverGoneBaseline MAX_EXTRA [⟨field.SERVER_ID, id.val⟩] := by
  refine ⟨fun f hf => ?_, Nat.zero_le _⟩
  rw [List.mem_singleton.1 hf]
  exact (by decide : neverCrosses field.SERVER_ID = false)

theorem lawful_reason (why : Reason) :
    Carried replyBaseline MAX_EXTRA [Field.u16 field.REASON why.code] := by
  refine ⟨fun f hf => ?_, Nat.zero_le _⟩
  rw [List.mem_singleton.1 hf]
  exact (by decide : neverCrosses field.REASON = false)

end Carried

end HxdNg.Link
