import Mathlib
import HxdNg.Lib.Grouped
import HxdNg.Link.Session

/-!
# Groups on the wire

Groups are sent one after another in a flat list of fields, cut into parts between them.

* `sendParts` : the parts; `sendParts_eq` : where they are cut;
* `UserGroup.parse_cons`, `ServerGroup.parse_cons` : a group is its opener and what is read of the
  fields to the next one, the transaction's own aside;
* `parse_ofLocal`, `parse_relayed`, `parse_toFields` : what each kind of group is read as;
* `groups_survive` : through any parts and any relays.
-/

namespace HxdNg.Link

/-- The most bytes of groups put in a part that has one already. -/
def SNAPSHOT_PART : Nat := 32 * 1024

def moreFollows : Field := Field.u16 field.MORE 1

/-- Groups sent behind `part`, which takes `size` bytes. -/
def partsFrom (part : List Field) (size : Nat) : List (List Field) → List (List Field)
  | [] => [part]
  | g :: groups =>
    if SNAPSHOT_PART < size + weight g ∧ part ≠ [] then
      (part ++ [moreFollows]) :: partsFrom g (weight g) groups
    else partsFrom (part ++ g) (size + weight g) groups

/-- Groups in as many parts as they need, each but the last marked, one part if there are none. -/
def sendParts (groups : List (List Field)) : List (List Field) := partsFrom [] 0 groups

/-- `parts` are `groups` cut between groups. -/
def CutAs (groups parts : List (List Field)) : Prop :=
  ∃ (init : List (List (List Field))) (last : List (List Field)),
    init.flatten ++ last = groups ∧
    parts = init.map (fun part => part.flatten ++ [moreFollows]) ++ [last.flatten]

theorem partsFrom_eq (before : List (List Field)) (size : Nat) (groups : List (List Field)) :
    CutAs (before ++ groups) (partsFrom before.flatten size groups) := by
  induction groups generalizing before size with
  | nil => exact ⟨[], before, by rw [List.append_nil]; rfl, rfl⟩
  | cons g groups ih =>
    unfold partsFrom
    split
    · obtain ⟨init, last, hgroups, hparts⟩ := ih [g] (weight g)
      refine ⟨before :: init, last, ?_, ?_⟩
      · rw [List.flatten_cons, List.append_assoc, hgroups]
        rfl
      · rw [List.flatten_singleton] at hparts
        rw [hparts]
        rfl
    · have hflatten : before.flatten ++ g = (before ++ [g]).flatten := by simp
      obtain ⟨init, last, hgroups, hparts⟩ := ih (before ++ [g]) (size + weight g)
      exact ⟨init, last, by rw [hgroups, List.append_assoc]; rfl, by rw [hflatten, hparts]⟩

theorem sendParts_eq (groups : List (List Field)) : CutAs groups (sendParts groups) :=
  partsFrom_eq [] 0 groups

/-- No field of a group is the transaction's. -/
def Unmarked (g : List Field) : Prop := ∀ f ∈ g, f.id ≠ field.MORE

/-- Each part but the last says more follow, the last does not. -/
structure EndsMarked (parts : List (List Field)) : Prop where
  init : ∀ part ∈ parts.dropLast, Session.more part = true
  last : ∀ part ∈ parts.getLast?, Session.more part = false

theorem find_flatten_more {groups : List (List Field)} (h : ∀ g ∈ groups, Unmarked g) :
    find groups.flatten field.MORE = none := by
  refine List.find?_eq_none.2 fun f hf => ?_
  obtain ⟨g, hg, hf⟩ := List.mem_flatten.1 hf
  simpa using h g hg f hf

theorem endsMarked_sendParts {groups : List (List Field)} (h : ∀ g ∈ groups, Unmarked g) :
    EndsMarked (sendParts groups) := by
  obtain ⟨init, last, hgroups, hparts⟩ := sendParts_eq groups
  have hinit : ∀ part ∈ init, ∀ g ∈ part, Unmarked g := fun part hpart g hg =>
    h g (hgroups ▸ List.mem_append_left _ (List.mem_flatten.2 ⟨part, hpart, hg⟩))
  have hlast : ∀ g ∈ last, Unmarked g := fun g hg =>
    h g (hgroups ▸ List.mem_append_right _ hg)
  rw [hparts]
  constructor
  · intro part hpart
    rw [List.dropLast_concat, List.mem_map] at hpart
    obtain ⟨chunk, hchunk, rfl⟩ := hpart
    have hnone := find_flatten_more (hinit chunk hchunk)
    unfold Session.more find at *
    rw [List.find?_append, hnone]
    rfl
  · intro part hpart
    rw [List.getLast?_concat, Option.mem_some_iff] at hpart
    unfold Session.more
    rw [← hpart, find_flatten_more hlast]
    rfl

/-- What reads one group reads each group of every part. -/
theorem flatMap_sendParts {β : Type} {opener : UInt16} (hopener : opener ≠ field.MORE)
    {read : List Field → β} {groups : List (List Field)}
    (hgroups : ∀ g ∈ groups, GroupOf (fun f => f.id == opener) g)
    (hnext : ∀ g ∈ groups, ∀ fields, fields.head?.any (fun f => f.id == opener) = true →
      read (g ++ fields) = read g)
    (hmore : ∀ g ∈ groups, read (g ++ [moreFollows]) = read g) :
    (sendParts groups).flatMap (fun part => (openings (fun f => f.id == opener) part).map read) =
      groups.map read := by
  obtain ⟨init, last, heq, hparts⟩ := sendParts_eq groups
  have hclosed : ∀ f ∈ [moreFollows], (f.id == opener) = false := by
    intro f hf
    rw [List.mem_singleton.1 hf]
    exact beq_eq_false_iff_ne.2 hopener.symm
  have hchunk : ∀ part ∈ init, ∀ g ∈ part, g ∈ groups := fun part hpart g hg =>
    heq ▸ List.mem_append_left _ (List.mem_flatten.2 ⟨part, hpart, hg⟩)
  have htail : ∀ g ∈ last, g ∈ groups := fun g hg => heq ▸ List.mem_append_right _ hg
  have hinit : (init.map fun part => part.flatten ++ [moreFollows]).flatMap
      (fun part => (openings (fun f => f.id == opener) part).map read) = init.flatten.map read := by
    rw [List.flatMap_map, List.map_flatten, ← List.flatMap_def]
    refine List.flatMap_congr fun part hpart => ?_
    have hmem := hchunk part hpart
    exact map_openings (fun g hg => hgroups g (hmem g hg)) hclosed
      (fun g hg => hnext g (hmem g hg)) fun g hg => hmore g (hmem g hg)
  have hend : (openings (fun f => f.id == opener) last.flatten).map read = last.map read := by
    have hnil : ∀ f ∈ ([] : List Field), (f.id == opener) = false := nofun
    have h := map_openings (fun g hg => hgroups g (htail g hg)) hnil
      (fun g hg => hnext g (htail g hg)) fun g hg => congrArg read (List.append_nil g)
    rw [List.append_nil] at h
    exact h
  rw [hparts, List.flatMap_append, hinit, List.flatMap_singleton, hend, ← List.map_append, heq]

/-! ## What is read of a group -/

/-- The fields of a group after its opener: to the next one, the transaction's own aside. -/
def body (opener : UInt16) (rest : List Field) : List Field :=
  (rest.takeWhile fun f => f.id != opener).filter fun f => f.id != field.MORE

section Body
variable {opener : UInt16} {xs : List Field}

theorem body_next (hxs : ∀ f ∈ xs, f.id ≠ opener) {fields : List Field}
    (h : fields.head?.any (fun f => f.id == opener) = true) : body opener (xs ++ fields) = body opener xs := by
  unfold body
  have hall : ∀ f ∈ xs, (f.id != opener) = true := fun f hf => bne_iff_ne.2 (hxs f hf)
  rw [List.takeWhile_append_of_pos hall, List.takeWhile_eq_self_iff.2 hall]
  cases fields with
  | nil => cases h
  | cons f fields =>
    have hf : (f.id == opener) = true := h
    rw [List.takeWhile_cons_of_neg (by simpa using hf), List.append_nil]

theorem body_more (hopener : opener ≠ field.MORE) (hxs : ∀ f ∈ xs, f.id ≠ opener) :
    body opener (xs ++ [moreFollows]) = body opener xs := by
  unfold body
  have hall : ∀ f ∈ xs, (f.id != opener) = true := fun f hf => bne_iff_ne.2 (hxs f hf)
  have hmore : (moreFollows.id != opener) = true := bne_iff_ne.2 hopener.symm
  have hkeep : [moreFollows].takeWhile (fun f => f.id != opener) = [moreFollows] := by
    rw [List.takeWhile_cons, if_pos hmore]
    rfl
  rw [List.takeWhile_append_of_pos hall, List.takeWhile_eq_self_iff.2 hall, hkeep,
    List.filter_append]
  exact List.append_nil _

theorem body_self (h : ∀ f ∈ xs, f.id ≠ opener) (hmore : Unmarked xs) : body opener xs = xs := by
  unfold body
  rw [List.takeWhile_eq_self_iff.2 fun f hf => bne_iff_ne.2 (h f hf), List.filter_eq_self]
  exact fun f hf => bne_iff_ne.2 (hmore f hf)

theorem ne_opener_of_mem_body {f : Field} (h : f ∈ body opener xs) : f.id ≠ opener := by
  have hmem : f ∈ xs.takeWhile fun f => f.id != opener := (List.mem_filter.1 h).1
  have hne := List.mem_takeWhile_imp hmem
  exact bne_iff_ne.1 hne

theorem unmarked_body (opener : UInt16) (xs : List Field) : Unmarked (body opener xs) := fun _ hf =>
  bne_iff_ne.1 (List.mem_filter.1 hf).2

end Body

/-- A fold that passes over some elements is the fold over the others. -/
theorem foldlM_filter {ε α β : Type} {step : β → α → Except ε β} {keep : α → Bool}
    (h : ∀ b a, keep a = false → step b a = .ok b) (xs : List α) (b : β) :
    (xs.filter keep).foldlM step b = xs.foldlM step b := by
  induction xs generalizing b with
  | nil => rfl
  | cons x xs ih =>
    cases hkeep : keep x with
    | true =>
      rw [List.filter_cons_of_pos hkeep, List.foldlM_cons, List.foldlM_cons]
      exact congrArg _ (funext ih)
    | false =>
      rw [List.filter_cons_of_neg (by simp [hkeep]), List.foldlM_cons, h b x hkeep]
      exact ih b

namespace UserGroup

def finish (id : UInt16) (r : Read) : Except UserGroupError UserGroup := do
  let name ← r.name.elim (throw (.missing field.USER_NAME)) pure
  if MAX_NAME < (utf8 name).length then throw (.inadmissible "name too long")
  (admissibleExtra r.extra).mapError .inadmissible
  let home ← r.home.elim (throw (.missing field.SERVER_ID)) pure
  let icon ← r.icon.elim (throw (.missing field.USER_ICON)) pure
  let flags ← r.flags.elim (throw (.missing field.USER_FLAGS)) pure
  let keyFlags := if r.key.isSome then r.keyFlags &&& (keyFlag.SIGNS ||| keyFlag.SEALED) else 0
  return ⟨id, home, name, icon, flags, r.color, r.exclude, r.transport, r.key, keyFlags, r.kept⟩

theorem read_more (r : Read) {f : Field} (h : f.id = field.MORE) : read r f = .ok r := by
  unfold read
  rw [if_pos h]
  rfl

theorem parse_cons (first : Field) (rest : List Field) :
    parse (first :: rest) = (do
      if first.id ≠ field.USER_ID then throw .notAGroup
      let id ← first.fixedU16.elim (throw (.malformed field.USER_ID)) pure
      let r ← (body field.USER_ID rest).foldlM read { kept := [first] }
      finish id r) := by
  unfold body
  rw [foldlM_filter fun (r : Read) f hf => read_more r (by simpa using hf)]
  rfl

/-- What one field after the opener adds to what has been read. -/
inductive Adds (r : Read) (f : Field) : Read → Prop where
  | more (hid : f.id = field.MORE) : Adds r f r
  | home {v : ServerId} (hid : f.id = field.SERVER_ID) (hnone : r.home = none)
      (hv : f.fixed 8 = some v) : Adds r f { r with home := some v, kept := r.kept ++ [f] }
  | name {v : String} (hid : f.id = field.USER_NAME) (hnone : r.name = none)
      (hv : fromUtf8 f.data = some v) : Adds r f { r with name := some v, kept := r.kept ++ [f] }
  | icon {v : UInt16} (hid : f.id = field.USER_ICON) (hnone : r.icon = none)
      (hv : short f = some v) : Adds r f { r with icon := some v, kept := r.kept ++ [f] }
  | flags {v : UInt16} (hid : f.id = field.USER_FLAGS) (hnone : r.flags = none)
      (hv : short f = some v) : Adds r f { r with flags := some v, kept := r.kept ++ [f] }
  | color {v : UInt32} (hid : f.id = field.COLOR) (hnone : r.color = none)
      (hv : f.uint = some v) : Adds r f { r with color := some v, kept := r.kept ++ [f] }
  | exclude {v : ServerId} (hid : f.id = field.EXCLUDE) (hv : f.fixed 8 = some v) :
      Adds r f { r with exclude := r.exclude ++ [v], kept := r.kept ++ [f] }
  | transport (hid : f.id = field.USER_TRANSPORT) : Adds r f { r with
      transport := transportOf f.uint, extra := r.extra ++ [f], kept := r.kept ++ [f] }
  | key (hid : f.id = field.USER_KEY) : Adds r f { r with
      key := f.fixed 32, extra := r.extra ++ [f], kept := r.kept ++ [f] }
  | keyFlags (hid : f.id = field.USER_KEY_FLAGS) : Adds r f { r with
      keyFlags := f.uint.elim 0 UInt32.toUInt16, extra := r.extra ++ [f], kept := r.kept ++ [f] }
  | other (hid : f.id ∉ [field.MORE, field.SERVER_ID, field.USER_NAME, field.USER_ICON,
        field.USER_FLAGS, field.COLOR, field.EXCLUDE, field.USER_TRANSPORT, field.USER_KEY,
        field.USER_KEY_FLAGS]) :
      Adds r f { r with extra := r.extra ++ [f], kept := r.kept ++ [f] }

theorem once_eq_ok {α β : Type} {given : Option α} {f : Field} {v : Option β} {b : β} :
    once given f v = .ok b ↔ given = none ∧ v = some b := by
  unfold once
  cases given <;> cases v <;> simp

theorem read_of_adds {r r' : Read} {f : Field} (h : Adds r f r') : read r f = .ok r' := by
  unfold read
  cases h with
  | more hid =>
    rw [if_pos hid]
    rfl
  | home hid hnone hv => simp [hid, hv, hnone, once, field.MORE, field.SERVER_ID]
  | name hid hnone hv =>
    simp [hid, hv, hnone, once, field.MORE, field.SERVER_ID, field.USER_NAME]
  | icon hid hnone hv =>
    simp [hid, hv, hnone, once, field.MORE, field.SERVER_ID, field.USER_NAME, field.USER_ICON]
  | flags hid hnone hv =>
    simp [hid, hv, hnone, once, field.MORE, field.SERVER_ID, field.USER_NAME, field.USER_ICON,
      field.USER_FLAGS]
  | color hid hnone hv =>
    simp [hid, hv, hnone, once, field.MORE, field.SERVER_ID, field.USER_NAME, field.USER_ICON,
      field.USER_FLAGS, field.COLOR]
  | exclude hid hv =>
    simp [hid, hv, field.MORE, field.SERVER_ID, field.USER_NAME, field.USER_ICON,
      field.USER_FLAGS, field.COLOR, field.EXCLUDE]
  | transport hid =>
    simp [hid, field.MORE, field.SERVER_ID, field.USER_NAME, field.USER_ICON, field.USER_FLAGS,
      field.COLOR, field.EXCLUDE, field.USER_TRANSPORT]
  | key hid =>
    simp [hid, field.MORE, field.SERVER_ID, field.USER_NAME, field.USER_ICON, field.USER_FLAGS,
      field.COLOR, field.EXCLUDE, field.USER_TRANSPORT, field.USER_KEY]
  | keyFlags hid =>
    simp [hid, field.MORE, field.SERVER_ID, field.USER_NAME, field.USER_ICON, field.USER_FLAGS,
      field.COLOR, field.EXCLUDE, field.USER_TRANSPORT, field.USER_KEY, field.USER_KEY_FLAGS]
  | other hid =>
    simp only [List.mem_cons, List.not_mem_nil, or_false, not_or] at hid
    simp [hid]

theorem adds_of_read {r r' : Read} {f : Field} (h : read r f = .ok r') : Adds r f r' := by
  unfold read at h
  by_cases h0 : f.id = field.MORE
  · rw [if_pos h0, pure_eq_ok] at h
    exact h ▸ .more h0
  rw [if_neg h0] at h
  dsimp only at h
  by_cases h1 : f.id = field.SERVER_ID
  · simp only [if_pos h1, bind_eq_ok, pure_eq_ok, once_eq_ok] at h
    obtain ⟨v, ⟨hnone, hv⟩, _, rfl, rfl⟩ := h
    exact .home h1 hnone hv
  rw [if_neg h1] at h
  by_cases h2 : f.id = field.USER_NAME
  · simp only [if_pos h2, bind_eq_ok, pure_eq_ok, once_eq_ok] at h
    obtain ⟨v, ⟨hnone, hv⟩, _, rfl, rfl⟩ := h
    exact .name h2 hnone hv
  rw [if_neg h2] at h
  by_cases h3 : f.id = field.USER_ICON
  · simp only [if_pos h3, bind_eq_ok, pure_eq_ok, once_eq_ok] at h
    obtain ⟨v, ⟨hnone, hv⟩, _, rfl, rfl⟩ := h
    exact .icon h3 hnone hv
  rw [if_neg h3] at h
  by_cases h4 : f.id = field.USER_FLAGS
  · simp only [if_pos h4, bind_eq_ok, pure_eq_ok, once_eq_ok] at h
    obtain ⟨v, ⟨hnone, hv⟩, _, rfl, rfl⟩ := h
    exact .flags h4 hnone hv
  rw [if_neg h4] at h
  by_cases h5 : f.id = field.COLOR
  · simp only [if_pos h5, bind_eq_ok, pure_eq_ok, once_eq_ok] at h
    obtain ⟨v, ⟨hnone, hv⟩, _, rfl, rfl⟩ := h
    exact .color h5 hnone hv
  rw [if_neg h5] at h
  by_cases h6 : f.id = field.EXCLUDE
  · simp only [if_pos h6, bind_eq_ok, pure_eq_ok] at h
    obtain ⟨r₁, hread, rfl⟩ := h
    cases hfix : f.fixed 8 with
    | none =>
      rw [hfix] at hread
      cases hread
    | some v =>
      rw [hfix, Option.elim_some, pure_eq_ok] at hread
      rw [← hread]
      exact .exclude h6 hfix
  rw [if_neg h6] at h
  by_cases h7 : f.id = field.USER_TRANSPORT
  · simp only [if_pos h7, bind_eq_ok, pure_eq_ok] at h
    obtain ⟨_, rfl, rfl⟩ := h
    exact .transport h7
  rw [if_neg h7] at h
  by_cases h8 : f.id = field.USER_KEY
  · simp only [if_pos h8, bind_eq_ok, pure_eq_ok] at h
    obtain ⟨_, rfl, rfl⟩ := h
    exact .key h8
  rw [if_neg h8] at h
  by_cases h9 : f.id = field.USER_KEY_FLAGS
  · simp only [if_pos h9, bind_eq_ok, pure_eq_ok] at h
    obtain ⟨_, rfl, rfl⟩ := h
    exact .keyFlags h9
  simp only [if_neg h9, bind_eq_ok, pure_eq_ok] at h
  obtain ⟨_, rfl, rfl⟩ := h
  refine .other ?_
  simp only [List.mem_cons, List.not_mem_nil, or_false, not_or]
  exact ⟨h0, h1, h2, h3, h4, h5, h6, h7, h8, h9⟩

/-- What is kept of a group, read one field after another, is those fields. -/
theorem kept_readAll {fields : List Field} {r r' : Read} (h : fields.foldlM read r = .ok r')
    (hmore : Unmarked fields) : r'.kept = r.kept ++ fields := by
  induction fields generalizing r with
  | nil =>
    rw [List.foldlM_nil, pure_eq_ok] at h
    rw [h, List.append_nil]
  | cons f fields ih =>
    rw [List.foldlM_cons, bind_eq_ok] at h
    obtain ⟨r₁, hread, h⟩ := h
    have hstep : r₁.kept = r.kept ++ [f] := by
      cases adds_of_read hread with
      | more hid => exact absurd hid (hmore f List.mem_cons_self)
      | home => rfl
      | name => rfl
      | icon => rfl
      | flags => rfl
      | color => rfl
      | exclude => rfl
      | transport => rfl
      | key => rfl
      | keyFlags => rfl
      | other => rfl
    rw [ih h fun f' hf' => hmore f' (List.mem_cons_of_mem _ hf'), hstep, List.append_assoc]
    rfl

end UserGroup

/-! ## Groups as this server passes them on -/

/-- A field of a ghost's group, as this server passes it on. -/
def relayedField (uid flags : UInt16) (f : Field) : Field :=
  if f.id = field.USER_ID then Field.u16 field.USER_ID uid
  else if f.id = field.USER_FLAGS then Field.u16 field.USER_FLAGS flags
  else f

def relayedFlags (flags : UInt16) (features : UInt32) : UInt16 :=
  let kept := flags &&& (flag.AWAY ||| flag.REFUSES_MESSAGES) ||| flag.REFUSES_CHAT
  if feature.has features feature.PRIVATE_MESSAGES then kept else kept ||| flag.REFUSES_MESSAGES

theorem relayedGroup_eq (uid : UInt16) (g : UserGroup) (features : UInt32) :
    relayedGroup uid g features = g.fields.map (relayedField uid (relayedFlags g.flags features)) := rfl

@[simp] theorem relayedField_id (uid flags : UInt16) (f : Field) : (relayedField uid flags f).id = f.id := by
  unfold relayedField
  split
  next h => exact h.symm
  next =>
    split
    next h => exact h.symm
    next => rfl

theorem relayedField_of_ne {uid flags : UInt16} {f : Field} (h : f.id ≠ field.USER_ID)
    (h' : f.id ≠ field.USER_FLAGS) : relayedField uid flags f = f := by
  unfold relayedField
  rw [if_neg h, if_neg h']

theorem uint_u16 (id v : UInt16) : (Field.u16 id v).uint = some v.toUInt32 := by
  have hlen : (Field.u16 id v).data.length = 2 := length_beBytes 2 v.toNat
  unfold Field.uint
  rw [if_pos (.inl hlen)]
  show some (UInt32.ofNat (ofBe (beBytes 2 v.toNat))) = _
  rw [ofBe_beBytes (by simpa using v.toNat_lt)]
  exact congrArg some (UInt32.toNat_inj.1 (by simp))

theorem uint_u32 (id : UInt16) (v : UInt32) : (Field.u32 id v).uint = some v := by
  have hlen : (Field.u32 id v).data.length = 4 := length_beBytes 4 v.toNat
  unfold Field.uint
  rw [if_pos (.inr hlen)]
  show some (UInt32.ofNat (ofBe (beBytes 4 v.toNat))) = _
  rw [ofBe_beBytes (by simpa using v.toNat_lt), UInt32.ofNat_toNat]

theorem fixed_bytes {n : Nat} (id : UInt16) (b : Bytes n) : (⟨id, b.val⟩ : Field).fixed n = some b := by
  show Bytes.ofList n b.val = some b
  unfold Bytes.ofList
  rw [dif_pos b.property]

theorem short_u16 (id v : UInt16) : UserGroup.short (Field.u16 id v) = some v := by
  unfold UserGroup.short
  rw [uint_u16]
  have hlt : v.toUInt32 < 0x10000 := by
    rw [UInt32.lt_iff_toNat_lt]
    simpa using v.toNat_lt
  rw [Option.filter_some, decide_eq_true hlt]
  simp

namespace UserGroup

/-- What has been read of a group as this server passes it on. -/
def Read.relayed (r : Read) (uid flags : UInt16) : Read :=
  { r with flags := r.flags.map fun _ => flags, kept := r.kept.map (relayedField uid flags) }

theorem adds_relayed {r r' : Read} {f : Field} (h : Adds r f r') (hid : f.id ≠ field.USER_ID)
    (uid flags : UInt16) :
    Adds (r.relayed uid flags) (relayedField uid flags f) (r'.relayed uid flags) := by
  have hkept : (r.kept ++ [f]).map (relayedField uid flags) =
      r.kept.map (relayedField uid flags) ++ [relayedField uid flags f] := List.map_append
  by_cases hflags : f.id = field.USER_FLAGS
  · have hf : relayedField uid flags f = Field.u16 field.USER_FLAGS flags := by
      unfold relayedField
      rw [if_neg hid, if_pos hflags]
    cases h with
    | flags _ hnone _ =>
      unfold Read.relayed
      rw [hkept, hf]
      exact .flags rfl (by rw [hnone]; rfl) (short_u16 _ _)
    | other hid' => exact absurd hflags (by simp at hid'; exact hid'.2.2.2.2.1)
    | more hid' => exact absurd (hid'.symm.trans hflags) (by decide)
    | home hid' => exact absurd (hid'.symm.trans hflags) (by decide)
    | name hid' => exact absurd (hid'.symm.trans hflags) (by decide)
    | icon hid' => exact absurd (hid'.symm.trans hflags) (by decide)
    | color hid' => exact absurd (hid'.symm.trans hflags) (by decide)
    | exclude hid' => exact absurd (hid'.symm.trans hflags) (by decide)
    | transport hid' => exact absurd (hid'.symm.trans hflags) (by decide)
    | key hid' => exact absurd (hid'.symm.trans hflags) (by decide)
    | keyFlags hid' => exact absurd (hid'.symm.trans hflags) (by decide)
  · have hf : relayedField uid flags f = f := relayedField_of_ne hid hflags
    rw [hf] at hkept ⊢
    cases h with
    | flags hid' => exact absurd hid' hflags
    | more hid' => exact .more hid'
    | home hid' hnone hv =>
      unfold Read.relayed
      rw [hkept]
      exact .home hid' hnone hv
    | name hid' hnone hv =>
      unfold Read.relayed
      rw [hkept]
      exact .name hid' hnone hv
    | icon hid' hnone hv =>
      unfold Read.relayed
      rw [hkept]
      exact .icon hid' hnone hv
    | color hid' hnone hv =>
      unfold Read.relayed
      rw [hkept]
      exact .color hid' hnone hv
    | exclude hid' hv =>
      unfold Read.relayed
      rw [hkept]
      exact .exclude hid' hv
    | transport hid' =>
      unfold Read.relayed
      rw [hkept]
      exact .transport hid'
    | key hid' =>
      unfold Read.relayed
      rw [hkept]
      exact .key hid'
    | keyFlags hid' =>
      unfold Read.relayed
      rw [hkept]
      exact .keyFlags hid'
    | other hid' =>
      unfold Read.relayed
      rw [hkept]
      exact .other hid'

theorem readAll_relayed {fields : List Field} {r r' : Read} (h : fields.foldlM read r = .ok r')
    (hid : ∀ f ∈ fields, f.id ≠ field.USER_ID) (uid flags : UInt16) :
    (fields.map (relayedField uid flags)).foldlM read (r.relayed uid flags) =
      .ok (r'.relayed uid flags) := by
  induction fields generalizing r with
  | nil =>
    rw [List.foldlM_nil, pure_eq_ok] at h
    rw [h]
    rfl
  | cons f fields ih =>
    rw [List.foldlM_cons, bind_eq_ok] at h
    obtain ⟨r₁, hread, h⟩ := h
    have hstep := read_of_adds (adds_relayed (adds_of_read hread) (hid f List.mem_cons_self) uid flags)
    rw [List.map_cons, List.foldlM_cons, hstep]
    exact ih h fun f' hf' => hid f' (List.mem_cons_of_mem _ hf')

theorem elim_eq_ok {α : Type} {o : Option α} {e : UserGroupError} {a : α} :
    o.elim (throw e) pure = (.ok a : Except UserGroupError α) ↔ o = some a := by
  cases o <;> simp

/-- A group is whole. -/
structure Whole (r : Read) (name : String) (home : ServerId) (icon flags : UInt16) : Prop where
  named : r.name = some name
  short : (utf8 name).length ≤ MAX_NAME
  extra : admissibleExtra r.extra = .ok ()
  homed : r.home = some home
  shown : r.icon = some icon
  flagged : r.flags = some flags

def Read.group (r : Read) (id : UInt16) (name : String) (home : ServerId) (icon flags : UInt16) :
    UserGroup :=
  ⟨id, home, name, icon, flags, r.color, r.exclude, r.transport, r.key,
    if r.key.isSome then r.keyFlags &&& (keyFlag.SIGNS ||| keyFlag.SEALED) else 0, r.kept⟩

theorem finish_eq_ok {id : UInt16} {r : Read} {g : UserGroup} : finish id r = .ok g ↔
    ∃ name home icon flags, Whole r name home icon flags ∧ r.group id name home icon flags = g := by
  unfold finish
  simp only [bind_eq_ok, ite_throw_bind_eq_ok, elim_eq_ok, mapError_eq_ok, pure_eq_ok]
  constructor
  · rintro ⟨name, hname, hshort, ⟨⟩, hextra, home, hhome, icon, hicon, flags, hflags, hg⟩
    exact ⟨name, home, icon, flags, ⟨hname, Nat.not_lt.1 hshort, hextra, hhome, hicon, hflags⟩, hg⟩
  · rintro ⟨name, home, icon, flags, h, hg⟩
    exact ⟨name, h.named, Nat.not_lt.2 h.short, (), h.extra, home, h.homed, icon, h.shown, flags,
      h.flagged, hg⟩

/-- A group whole as read is whole as passed on. -/
theorem finish_relayed {id : UInt16} {r : Read} {g : UserGroup} (h : finish id r = .ok g)
    (uid flags : UInt16) : finish uid (r.relayed uid flags) =
      .ok { g with id := uid, flags := flags, fields := g.fields.map (relayedField uid flags) } := by
  obtain ⟨name, home, icon, was, hwhole, rfl⟩ := finish_eq_ok.1 h
  refine finish_eq_ok.2 ⟨name, home, icon, flags, ?_, rfl⟩
  refine ⟨hwhole.named, hwhole.short, hwhole.extra, hwhole.homed, hwhole.shown, ?_⟩
  show r.flags.map _ = _
  rw [hwhole.flagged]
  rfl

/-- A group that could be read, in its parts. -/
theorem parse_eq_ok {first : Field} {rest : List Field} {g : UserGroup} :
    parse (first :: rest) = .ok g ↔ first.id = field.USER_ID ∧ ∃ id r, first.fixedU16 = some id ∧
      (body field.USER_ID rest).foldlM read { kept := [first] } = .ok r ∧ finish id r = .ok g := by
  rw [parse_cons, ite_throw_bind_eq_ok, Classical.not_not, bind_eq_ok]
  refine and_congr_right fun _ => exists_congr fun id => ?_
  cases first.fixedU16 with
  | none => simp
  | some id' =>
    simp only [Option.elim_some, pure_eq_ok, bind_eq_ok, Option.some.injEq]
    constructor
    · rintro ⟨rfl, r, hr, hg⟩
      exact ⟨r, rfl, hr, hg⟩
    · rintro ⟨r, rfl, hr, hg⟩
      exact ⟨rfl, r, hr, hg⟩

theorem fields_finish {id : UInt16} {r : Read} {g : UserGroup} (h : finish id r = .ok g) :
    g.fields = r.kept := by
  obtain ⟨name, home, icon, flags, -, rfl⟩ := finish_eq_ok.1 h
  rfl

/-- The fields a group was read from: its opener and its body. -/
theorem fields_parse {fields : List Field} {g : UserGroup} (h : parse fields = .ok g) :
    ∃ first rest, fields = first :: rest ∧ first.id = field.USER_ID ∧
      g.fields = first :: body field.USER_ID rest := by
  cases fields with
  | nil => cases h
  | cons first rest =>
    obtain ⟨hid, id, r, -, hread, hfinish⟩ := parse_eq_ok.1 h
    refine ⟨first, rest, rfl, hid, ?_⟩
    rw [fields_finish hfinish, kept_readAll hread (unmarked_body _ _)]
    rfl

/-- A group as this server passes it on is read as the same user, under its new ID and flags. -/
theorem parse_relayed {fields : List Field} {g : UserGroup} (h : parse fields = .ok g)
    (uid : UInt16) (features : UInt32) : parse (relayedGroup uid g features) = .ok { g with
      id := uid
      flags := relayedFlags g.flags features
      fields := relayedGroup uid g features } := by
  obtain ⟨first, rest, rfl, hid, hfields⟩ := fields_parse h
  obtain ⟨-, id, r, -, hread, hfinish⟩ := parse_eq_ok.1 h
  have hbody : body field.USER_ID ((body field.USER_ID rest).map
      (relayedField uid (relayedFlags g.flags features))) =
      (body field.USER_ID rest).map (relayedField uid (relayedFlags g.flags features)) := by
    refine body_self (fun f hf => ?_) fun f hf => ?_
    · obtain ⟨f', hf', rfl⟩ := List.mem_map.1 hf
      rw [relayedField_id]
      exact ne_opener_of_mem_body hf'
    · obtain ⟨f', hf', rfl⟩ := List.mem_map.1 hf
      rw [relayedField_id]
      exact unmarked_body _ _ f' hf'
  rw [relayedGroup_eq, hfields, List.map_cons]
  have hfirst : relayedField uid (relayedFlags g.flags features) first = Field.u16 field.USER_ID uid :=
    if_pos hid
  rw [hfirst, parse_eq_ok]
  refine ⟨rfl, uid, r.relayed uid (relayedFlags g.flags features), Field.fixedU16_u16 _ _, ?_, ?_⟩
  · rw [hbody]
    have hall := readAll_relayed hread (fun f => ne_opener_of_mem_body) uid
      (relayedFlags g.flags features)
    rw [← hall]
    congr 1
    unfold Read.relayed
    rw [List.map_singleton, hfirst]
    rfl
  · rw [finish_relayed hfinish, hfields, List.map_cons, hfirst]

/-- What is read of a group stops where the next opens, and passes over the transaction's fields. -/
theorem parse_congr {first : Field} {rest rest' : List Field}
    (h : body field.USER_ID rest = body field.USER_ID rest') :
    parse (first :: rest) = parse (first :: rest') := by
  rw [parse_cons, parse_cons, h]

/-- The fields of a group that could be read are a group of its own. -/
theorem group_relayed {fields : List Field} {g : UserGroup} (h : parse fields = .ok g) (uid : UInt16)
    (features : UInt32) : GroupOf (fun f => f.id == field.USER_ID) (relayedGroup uid g features) ∧
      Unmarked (relayedGroup uid g features) := by
  obtain ⟨first, rest, -, hid, hfields⟩ := fields_parse h
  rw [relayedGroup_eq, hfields, List.map_cons]
  constructor
  · refine group_cons.2 ⟨beq_iff_eq.2 ((relayedField_id _ _ _).trans hid), fun f hf => ?_⟩
    obtain ⟨f', hf', rfl⟩ := List.mem_map.1 hf
    rw [relayedField_id]
    exact beq_eq_false_iff_ne.2 (ne_opener_of_mem_body hf')
  · intro f hf
    rw [← List.map_cons (f := relayedField uid _)] at hf
    obtain ⟨f', hf', rfl⟩ := List.mem_map.1 hf
    rw [relayedField_id]
    rcases List.mem_cons.1 hf' with rfl | hf'
    · rw [hid]
      decide
    · exact unmarked_body _ _ f' hf'

end UserGroup

/-! ### Over many relays -/

/-- A group read, passed on and read again, by one server after another: the ID each gives the user,
and the features of the link it came over. -/
def relays (g : UserGroup) : List (UInt16 × UInt32) → Except UserGroupError UserGroup
  | [] => .ok g
  | (uid, features) :: hops => do
    let g ← UserGroup.parse (relayedGroup uid g features)
    relays g hops

/-- A field, without what it says if it gives the user's ID or flags. -/
def Field.unsaid (f : Field) : Field :=
  if f.id = field.USER_ID ∨ f.id = field.USER_FLAGS then ⟨f.id, []⟩ else f

/-- `g'` is `g` under another ID and other flags. -/
structure SameUser (g g' : UserGroup) : Prop where
  same : g' = { g with id := g'.id, flags := g'.flags, fields := g'.fields }
  fields : g'.fields.map Field.unsaid = g.fields.map Field.unsaid

/-- `flags` as `flags'` may be once passed on: an admin only if shown as one before, away just when
away before, and refusing messages if it did. -/
structure Tightens (flags flags' : UInt16) : Prop where
  admin : flags' &&& flag.ADMIN ≠ 0 → flags &&& flag.ADMIN ≠ 0
  away : flags' &&& flag.AWAY = flags &&& flag.AWAY
  refuses : flags &&& flag.REFUSES_MESSAGES ≠ 0 → flags' &&& flag.REFUSES_MESSAGES ≠ 0

theorem SameUser.refl (g : UserGroup) : SameUser g g := ⟨rfl, rfl⟩

theorem SameUser.trans {a b c : UserGroup} (h : SameUser a b) (h' : SameUser b c) : SameUser a c :=
  ⟨by rw [h'.same, h.same], h'.fields.trans h.fields⟩

theorem unsaid_relayedField (uid flags : UInt16) (f : Field) :
    (relayedField uid flags f).unsaid = f.unsaid := by
  unfold relayedField Field.unsaid
  by_cases h : f.id = field.USER_ID
  · rw [if_pos h, if_pos (.inl rfl), if_pos (.inl h), h]
    rfl
  · rw [if_neg h]
    by_cases h' : f.id = field.USER_FLAGS
    · rw [if_pos h', if_pos (.inr rfl), if_pos (.inr h'), h']
      rfl
    · rw [if_neg h']

theorem Tightens.refl (flags : UInt16) : Tightens flags flags := ⟨id, rfl, id⟩

theorem Tightens.trans {a b c : UInt16} (h : Tightens a b) (h' : Tightens b c) : Tightens a c :=
  ⟨fun hc => h.admin (h'.admin hc), h'.away.trans h.away, fun ha => h'.refuses (h.refuses ha)⟩

theorem or_and_bits (a b c : UInt16) : (a ||| b) &&& c = a &&& c ||| b &&& c := by
  apply UInt16.toBitVec_inj.1
  ext i
  simp [Bool.and_or_distrib_right]

theorem and_or_bits (a b c d : UInt16) : ((a &&& b) ||| c) &&& d = (a &&& (b &&& d)) ||| (c &&& d) := by
  rw [or_and_bits, UInt16.and_assoc]

theorem relayedFlags_admin (flags : UInt16) (features : UInt32) :
    relayedFlags flags features &&& flag.ADMIN = 0 := by
  have hadmin : (flag.AWAY ||| flag.REFUSES_MESSAGES) &&& flag.ADMIN = 0 ∧
      flag.REFUSES_CHAT &&& flag.ADMIN = 0 ∧ flag.REFUSES_MESSAGES &&& flag.ADMIN = 0 := by decide
  have hkept : (flags &&& (flag.AWAY ||| flag.REFUSES_MESSAGES) ||| flag.REFUSES_CHAT) &&&
      flag.ADMIN = 0 := by
    rw [and_or_bits, hadmin.1, hadmin.2.1, UInt16.or_zero, UInt16.and_zero]
  unfold relayedFlags
  dsimp only
  split
  · exact hkept
  · rw [or_and_bits, hkept, hadmin.2.2, UInt16.or_zero]

/-- One relay. -/
theorem tightens_relayed (flags : UInt16) (features : UInt32) :
    Tightens flags (relayedFlags flags features) := by
  have hkept : ∀ bit : UInt16,
      (flags &&& (flag.AWAY ||| flag.REFUSES_MESSAGES) ||| flag.REFUSES_CHAT) &&& bit =
        flags &&& ((flag.AWAY ||| flag.REFUSES_MESSAGES) &&& bit) ||| flag.REFUSES_CHAT &&& bit :=
    fun bit => and_or_bits _ _ _ _
  have haway : (flag.AWAY ||| flag.REFUSES_MESSAGES) &&& flag.AWAY = flag.AWAY ∧
      flag.REFUSES_CHAT &&& flag.AWAY = 0 ∧ flag.REFUSES_MESSAGES &&& flag.AWAY = 0 := by decide
  have hrefuses : (flag.AWAY ||| flag.REFUSES_MESSAGES) &&& flag.REFUSES_MESSAGES =
      flag.REFUSES_MESSAGES ∧ flag.REFUSES_CHAT &&& flag.REFUSES_MESSAGES = 0 ∧
      flag.REFUSES_MESSAGES &&& flag.REFUSES_MESSAGES ≠ 0 := by decide
  constructor
  · exact fun hset => absurd (relayedFlags_admin flags features) hset
  · unfold relayedFlags
    dsimp only
    split
    · rw [hkept, haway.1, haway.2.1, UInt16.or_zero]
    · rw [or_and_bits, hkept, haway.1, haway.2.1, haway.2.2, UInt16.or_zero, UInt16.or_zero]
  · intro h
    unfold relayedFlags
    dsimp only
    split
    · rw [hkept, hrefuses.1, hrefuses.2.1, UInt16.or_zero]
      exact h
    · rw [or_and_bits]
      exact fun hzero => hrefuses.2.2 (UInt16.or_eq_zero_iff.1 hzero).2

theorem sameUser_relayed (g : UserGroup) (uid : UInt16) (features : UInt32) : SameUser g { g with
    id := uid
    flags := relayedFlags g.flags features
    fields := relayedGroup uid g features } := by
  refine ⟨rfl, ?_⟩
  show (relayedGroup uid g features).map Field.unsaid = g.fields.map Field.unsaid
  rw [relayedGroup_eq, List.map_map]
  exact List.map_congr_left fun f _ => unsaid_relayedField _ _ f

/-- Any number of relays, and the group is the same user's. -/
theorem relays_same {fields : List Field} {g : UserGroup} (h : UserGroup.parse fields = .ok g)
    (hops : List (UInt16 × UInt32)) : ∃ g', relays g hops = .ok g' ∧ SameUser g g' ∧
      Tightens g.flags g'.flags ∧ (hops ≠ [] → g'.flags &&& flag.ADMIN = 0) := by
  induction hops generalizing fields g with
  | nil => exact ⟨g, rfl, .refl g, .refl _, fun hne => absurd rfl hne⟩
  | cons hop hops ih =>
    obtain ⟨uid, features⟩ := hop
    have hparse := UserGroup.parse_relayed h uid features
    obtain ⟨g', hrelays, hsame, htightens, hadmin⟩ := ih hparse
    refine ⟨g', ?_, (sameUser_relayed g uid features).trans hsame,
      (tightens_relayed _ features).trans htightens, fun _ => ?_⟩
    · unfold relays
      rw [hparse]
      exact hrelays
    · by_contra hset
      exact htightens.admin hset (relayedFlags_admin g.flags features)

/-! ## A local user's group -/

namespace UserGroup

section Adding
variable {r r₁ r₂ : Read} {xs ys : List Field}

theorem readAll_append (h : xs.foldlM read r = .ok r₁) (h' : ys.foldlM read r₁ = .ok r₂) :
    (xs ++ ys).foldlM read r = .ok r₂ := by
  rw [List.foldlM_append, h]
  exact h'

theorem readAll_cons {f : Field} (h : Adds r f r₁) (h' : xs.foldlM read r₁ = .ok r₂) :
    (f :: xs).foldlM read r = .ok r₂ := by
  rw [List.foldlM_cons, read_of_adds h]
  exact h'

theorem readAll_color (color : Option UInt32) (h : r.color = none) :
    (color.map (Field.u32 field.COLOR)).toList.foldlM read r = .ok { r with
      color := color
      kept := r.kept ++ (color.map (Field.u32 field.COLOR)).toList } := by
  cases color with
  | none =>
    show Except.ok r = .ok { r with color := none, kept := r.kept ++ [] }
    rw [← h, List.append_nil]
  | some c => exact readAll_cons (.color rfl h (uint_u32 _ _)) rfl

theorem readAll_exclude (exclude : List ServerId) (r : Read) :
    (exclude.map fun id => (⟨field.EXCLUDE, id.val⟩ : Field)).foldlM read r = .ok { r with
      exclude := r.exclude ++ exclude
      kept := r.kept ++ exclude.map fun id => ⟨field.EXCLUDE, id.val⟩ } := by
  induction exclude generalizing r with
  | nil =>
    show Except.ok r = .ok { r with exclude := r.exclude ++ [], kept := r.kept ++ [] }
    rw [List.append_nil, List.append_nil]
  | cons id exclude ih =>
    refine readAll_cons (.exclude rfl (fixed_bytes _ _)) ((ih _).trans ?_)
    rw [List.append_assoc, List.append_assoc]
    rfl

def saidTransport (encrypted : Bool) : RemoteTransport := if encrypted then .encrypted else .cleartext

def transportFields (encrypted : Option Bool) : List Field :=
  (encrypted.map fun encrypted =>
    Field.u16 field.USER_TRANSPORT (if encrypted then 1 else 2)).toList

theorem readAll_transport (encrypted : Option Bool) (h : r.transport = none) :
    (transportFields encrypted).foldlM read r = .ok { r with
      transport := encrypted.map saidTransport
      extra := r.extra ++ transportFields encrypted
      kept := r.kept ++ transportFields encrypted } := by
  cases encrypted with
  | none =>
    show Except.ok r = .ok { r with
      transport := none, extra := r.extra ++ [], kept := r.kept ++ [] }
    rw [← h, List.append_nil, List.append_nil]
  | some b =>
    have hread : transportOf (Field.u16 field.USER_TRANSPORT (if b then 1 else 2)).uint =
        some (saidTransport b) := by
      rw [uint_u16]
      cases b <;> decide
    refine readAll_cons (.transport rfl) ?_
    rw [hread]
    rfl

def keyFields (fingerprint : Option (Bytes 32)) (flags : UInt16) : List Field :=
  fingerprint.elim [] fun fp =>
    ⟨field.USER_KEY, fp.val⟩ :: if flags = 0 then [] else [Field.u16 field.USER_KEY_FLAGS flags]

theorem readAll_key (fingerprint : Option (Bytes 32)) (flags : UInt16) (h : r.key = none)
    (h' : r.keyFlags = 0) : (keyFields fingerprint flags).foldlM read r = .ok { r with
      key := fingerprint
      keyFlags := fingerprint.elim 0 fun _ => flags
      extra := r.extra ++ keyFields fingerprint flags
      kept := r.kept ++ keyFields fingerprint flags } := by
  cases fingerprint with
  | none =>
    show Except.ok r = .ok { r with
      key := none, keyFlags := 0, extra := r.extra ++ [], kept := r.kept ++ [] }
    rw [← h, ← h', List.append_nil, List.append_nil]
  | some fp =>
    have hkey : (⟨field.USER_KEY, fp.val⟩ : Field).fixed 32 = some fp := fixed_bytes _ _
    refine readAll_cons (.key rfl) ?_
    rw [hkey]
    by_cases hflags : flags = 0
    · rw [if_pos hflags]
      show Except.ok _ = Except.ok _
      simp [keyFields, hflags, h']
    · have huint : (Field.u16 field.USER_KEY_FLAGS flags).uint.elim 0 UInt32.toUInt16 = flags := by
        rw [uint_u16]
        simp
      rw [if_neg hflags]
      refine readAll_cons (.keyFlags rfl) ?_
      rw [huint]
      show Except.ok _ = Except.ok _
      simp [keyFields, hflags]

end Adding

/-- What a local user's group is read as. -/
def ofUser (u : LocalUser) (home : ServerId) (transport keys : Bool) : UserGroup where
  id := u.uid
  home := home
  name := u.nick
  icon := u.icon
  flags := flag.REFUSES_CHAT ||| if u.away then flag.AWAY else 0
  color := u.color
  exclude := u.exclude
  transport := (u.encrypted.filter fun _ => transport).map saidTransport
  key := u.fingerprint.filter fun _ => keys
  keyFlags := if (u.fingerprint.filter fun _ => keys).isSome then u.keyFlags else 0
  fields := ofLocal u home transport keys

/-- The fields of a local user's group that every such group has, after its ID. -/
def ownFields (u : LocalUser) (home : ServerId) : List Field :=
  [⟨field.SERVER_ID, home.val⟩, ⟨field.USER_NAME, utf8 u.nick⟩, Field.u16 field.USER_ICON u.icon,
    Field.u16 field.USER_FLAGS (flag.REFUSES_CHAT ||| if u.away then flag.AWAY else 0)]

theorem ofLocal_eq (u : LocalUser) (home : ServerId) (transport keys : Bool) :
    ofLocal u home transport keys = Field.u16 field.USER_ID u.uid :: (ownFields u home ++
      ((u.color.map (Field.u32 field.COLOR)).toList ++
        (u.exclude.map (fun id => (⟨field.EXCLUDE, id.val⟩ : Field)) ++
          (transportFields (u.encrypted.filter fun _ => transport) ++
            keyFields (u.fingerprint.filter fun _ => keys) u.keyFlags)))) := by
  unfold ofLocal ownFields transportFields keyFields
  simp only [List.append_assoc, List.cons_append, List.nil_append]

theorem mem_transportFields {encrypted : Option Bool} {f : Field} (h : f ∈ transportFields encrypted) :
    f.id = field.USER_TRANSPORT ∧ f.data.length = 2 := by
  unfold transportFields at h
  rw [Option.mem_toList, Option.map_eq_some_iff] at h
  obtain ⟨b, -, rfl⟩ := h
  exact ⟨rfl, length_beBytes 2 _⟩

theorem mem_keyFields {fingerprint : Option (Bytes 32)} {flags : UInt16} {f : Field}
    (h : f ∈ keyFields fingerprint flags) : f.id = field.USER_KEY ∨ f.id = field.USER_KEY_FLAGS := by
  unfold keyFields at h
  cases fingerprint with
  | none => cases h
  | some fp =>
    rw [Option.elim_some, List.mem_cons] at h
    rcases h with rfl | h
    · exact .inl rfl
    · split at h
      · cases h
      · rw [List.mem_singleton] at h
        rw [h]
        exact .inr rfl

theorem ids_ofLocal (u : LocalUser) (home : ServerId) (transport keys : Bool) :
    ∀ f ∈ (ofLocal u home transport keys).tail, f.id ≠ field.USER_ID ∧ f.id ≠ field.MORE := by
  have hall : ([field.SERVER_ID, field.USER_NAME, field.USER_ICON, field.USER_FLAGS, field.COLOR,
      field.EXCLUDE, field.USER_TRANSPORT, field.USER_KEY, field.USER_KEY_FLAGS].all fun id =>
        id != field.USER_ID && id != field.MORE) = true := by decide
  have hids : ∀ id ∈ [field.SERVER_ID, field.USER_NAME, field.USER_ICON, field.USER_FLAGS, field.COLOR,
      field.EXCLUDE, field.USER_TRANSPORT, field.USER_KEY, field.USER_KEY_FLAGS],
      id ≠ field.USER_ID ∧ id ≠ field.MORE := by
    intro id hid
    have hne := List.all_eq_true.1 hall id hid
    rw [Bool.and_eq_true, bne_iff_ne, bne_iff_ne] at hne
    exact hne
  intro f hf
  refine hids f.id ?_
  rw [ofLocal_eq, List.tail_cons] at hf
  simp only [List.mem_append] at hf
  rcases hf with hf | hf | hf | hf | hf
  · unfold ownFields at hf
    simp only [List.mem_cons, List.not_mem_nil, or_false] at hf
    rcases hf with rfl | rfl | rfl | rfl <;> simp [Field.u16]
  · rw [Option.mem_toList, Option.map_eq_some_iff] at hf
    obtain ⟨c, -, rfl⟩ := hf
    simp [Field.u32]
  · obtain ⟨id, -, rfl⟩ := List.mem_map.1 hf
    simp
  · rw [(mem_transportFields hf).1]
    simp
  · rcases mem_keyFields hf with hid | hid <;> simp [hid]

theorem weight_append (xs ys : List Field) : weight (xs ++ ys) = weight xs + weight ys := by
  unfold weight
  rw [List.map_append, List.sum_append]

theorem admissible_ofLocal (encrypted : Option Bool) (fingerprint : Option (Bytes 32)) (flags : UInt16) :
    admissibleExtra (transportFields encrypted ++ keyFields fingerprint flags) = .ok () := by
  have hids : neverCrosses field.USER_TRANSPORT = false ∧ neverCrosses field.USER_KEY = false ∧
      neverCrosses field.USER_KEY_FLAGS = false := by decide
  have hcross : ∀ f ∈ transportFields encrypted ++ keyFields fingerprint flags,
      neverCrosses f.id = false := by
    intro f hf
    rcases List.mem_append.1 hf with hf | hf
    · rw [(mem_transportFields hf).1]
      exact hids.1
    · rcases mem_keyFields hf with hid | hid
      · rw [hid]
        exact hids.2.1
      · rw [hid]
        exact hids.2.2
  have htransport : weight (transportFields encrypted) ≤ 6 := by
    cases encrypted with
    | none => exact Nat.zero_le _
    | some b => exact le_of_eq rfl
  have hkey : weight (keyFields fingerprint flags) ≤ 42 := by
    cases fingerprint with
    | none => exact Nat.zero_le _
    | some fp =>
      unfold keyFields weight
      rw [Option.elim_some]
      split <;> simp [Field.u16, fp.property]
  have hweight : ¬ MAX_EXTRA < weight (transportFields encrypted ++ keyFields fingerprint flags) := by
    rw [weight_append]
    unfold MAX_EXTRA
    omega
  unfold admissibleExtra admissibleExtraWithin
  rw [ite_throw_bind_eq_ok]
  refine ⟨fun hany => ?_, ?_⟩
  · obtain ⟨f, hf, hcrosses⟩ := List.any_eq_true.1 hany
    rw [hcross f hf] at hcrosses
    cases hcrosses
  · rw [if_neg hweight]
    rfl

theorem keyFlags_known (u : LocalUser) :
    u.keyFlags &&& (keyFlag.SIGNS ||| keyFlag.SEALED) = u.keyFlags := by
  unfold LocalUser.keyFlags
  cases u.signs <;> cases u.sealed <;> decide

/-- What has been read of a local user's group at its end. -/
def ofRead (u : LocalUser) (home : ServerId) (transport keys : Bool) : Read where
  home := some home
  name := some u.nick
  icon := some u.icon
  flags := some (flag.REFUSES_CHAT ||| if u.away then flag.AWAY else 0)
  color := u.color
  exclude := u.exclude
  transport := (u.encrypted.filter fun _ => transport).map saidTransport
  key := u.fingerprint.filter fun _ => keys
  keyFlags := (u.fingerprint.filter fun _ => keys).elim 0 fun _ => u.keyFlags
  extra := transportFields (u.encrypted.filter fun _ => transport) ++
    keyFields (u.fingerprint.filter fun _ => keys) u.keyFlags
  kept := ofLocal u home transport keys

theorem readAll_ownFields (u : LocalUser) (home : ServerId) (first : Field) :
    (ownFields u home).foldlM read { kept := [first] } = .ok {
      home := some home
      name := some u.nick
      icon := some u.icon
      flags := some (flag.REFUSES_CHAT ||| if u.away then flag.AWAY else 0)
      kept := first :: ownFields u home } :=
  readAll_cons (.home rfl rfl (fixed_bytes _ _)) <|
    readAll_cons (.name rfl rfl (fromUtf8_utf8 _)) <|
      readAll_cons (.icon rfl rfl (short_u16 _ _)) <|
        readAll_cons (.flags rfl rfl (short_u16 _ _)) rfl

theorem readAll_ofLocal (u : LocalUser) (home : ServerId) (transport keys : Bool) :
    (ofLocal u home transport keys).tail.foldlM read { kept := [Field.u16 field.USER_ID u.uid] } =
      .ok (ofRead u home transport keys) := by
  rw [ofLocal_eq, List.tail_cons]
  have hall := readAll_append (readAll_ownFields u home (Field.u16 field.USER_ID u.uid)) <|
    readAll_append (readAll_color u.color rfl) <|
      readAll_append (readAll_exclude u.exclude _) <|
        readAll_append (readAll_transport (u.encrypted.filter fun _ => transport) rfl) <|
          readAll_key (u.fingerprint.filter fun _ => keys) u.keyFlags rfl rfl
  rw [hall]
  unfold ofRead
  rw [ofLocal_eq]
  simp only [List.append_assoc, List.nil_append, List.cons_append]

theorem whole_ofRead (u : LocalUser) (home : ServerId) (transport keys : Bool)
    (h : (utf8 u.nick).length ≤ MAX_NAME) : Whole (ofRead u home transport keys) u.nick home u.icon
      (flag.REFUSES_CHAT ||| if u.away then flag.AWAY else 0) :=
  ⟨rfl, h, admissible_ofLocal _ _ _, rfl, rfl, rfl⟩

theorem group_ofRead (u : LocalUser) (home : ServerId) (transport keys : Bool) :
    (ofRead u home transport keys).group u.uid u.nick home u.icon
      (flag.REFUSES_CHAT ||| if u.away then flag.AWAY else 0) = ofUser u home transport keys := by
  unfold Read.group ofRead ofUser
  cases u.fingerprint.filter fun _ => keys with
  | none => rfl
  | some fp =>
    dsimp only [Option.elim_some, Option.isSome_some]
    rw [keyFlags_known]

/-- A local user's group reads back what it says of the user. -/
theorem parse_ofLocal (u : LocalUser) (home : ServerId) (transport keys : Bool)
    (h : (utf8 u.nick).length ≤ MAX_NAME) :
    parse (ofLocal u home transport keys) = .ok (ofUser u home transport keys) := by
  have hids := ids_ofLocal u home transport keys
  have hread := readAll_ofLocal u home transport keys
  have hcons : ofLocal u home transport keys =
      Field.u16 field.USER_ID u.uid :: (ofLocal u home transport keys).tail := by
    rw [ofLocal_eq, List.tail_cons]
  rw [← body_self (fun f hf => (hids f hf).1) fun f hf => (hids f hf).2] at hread
  rw [hcons]
  exact parse_eq_ok.2 ⟨rfl, u.uid, _, Field.fixedU16_u16 _ _, hread, finish_eq_ok.2
    ⟨_, _, _, _, whole_ofRead u home transport keys h, group_ofRead u home transport keys⟩⟩

theorem group_ofLocal (u : LocalUser) (home : ServerId) (transport keys : Bool) :
    GroupOf (fun f => f.id == field.USER_ID) (ofLocal u home transport keys) ∧
      Unmarked (ofLocal u home transport keys) := by
  have hids := ids_ofLocal u home transport keys
  have hcons : ofLocal u home transport keys =
      Field.u16 field.USER_ID u.uid :: (ofLocal u home transport keys).tail := by
    rw [ofLocal_eq, List.tail_cons]
  rw [hcons]
  refine ⟨group_cons.2 ⟨beq_self_eq_true _, fun f hf => beq_eq_false_iff_ne.2 (hids f hf).1⟩, fun f hf => ?_⟩
  rcases List.mem_cons.1 hf with rfl | hf
  · show field.USER_ID ≠ field.MORE
    decide
  · exact (hids f hf).2

end UserGroup

/-! ## Servers -/

namespace ServerGroup

theorem readServer_more (r : Read) {f : Field} (h : f.id = field.MORE) : read r f = .ok r := by
  unfold read
  simp [h, field.MORE, field.TAG, field.SERVER_NAME, field.HOPS, field.COLOR]

def finish (id : ServerId) (r : Read) : Except ServerGroupError ServerGroup := do
  let tag ← r.tag.elim (throw (.missing field.TAG)) pure
  (checkTag tag).mapError .tag
  let name ← r.name.elim (throw (.missing field.SERVER_NAME)) pure
  let hops ← r.hops.elim (throw (.missing field.HOPS)) pure
  return ⟨id, tag, name, hops, r.color, r.extra⟩

theorem parseServer_cons (first : Field) (rest : List Field) :
    parse (first :: rest) = (do
      if first.id ≠ field.SERVER_ID then throw .notAGroup
      let id ← (first.fixed 8).elim (throw (.malformed field.SERVER_ID)) pure
      let r ← (body field.SERVER_ID rest).foldlM read {}
      finish id r) := by
  unfold body
  rw [foldlM_filter fun (r : Read) f hf => readServer_more r (by simpa using hf)]
  rfl

def Beside (f : Field) : Prop :=
  f.id ≠ field.TAG ∧ f.id ≠ field.SERVER_NAME ∧ f.id ≠ field.HOPS ∧ f.id ≠ field.COLOR ∧
    f.id ≠ field.MORE ∧ f.id ≠ field.SERVER_ID

theorem readServer_beside (r : Read) {f : Field} (h : Beside f) :
    read r f = .ok { r with extra := r.extra ++ [f] } := by
  obtain ⟨h1, h2, h3, h4, h5, -⟩ := h
  unfold read
  rw [if_neg h1, if_neg h2, if_neg h3, if_neg h4, if_neg h5]
  rfl

theorem readServer_extra {fields : List Field} (h : ∀ f ∈ fields, Beside f) (r : Read) :
    fields.foldlM read r = .ok { r with extra := r.extra ++ fields } := by
  induction fields generalizing r with
  | nil =>
    show Except.ok r = .ok { r with extra := r.extra ++ [] }
    rw [List.append_nil]
  | cons f fields ih =>
    rw [List.foldlM_cons, readServer_beside r (h f List.mem_cons_self), ok_bind,
      ih fun f' hf' => h f' (List.mem_cons_of_mem _ hf'), List.append_assoc]
    rfl

theorem elim_server_ok {α : Type} {o : Option α} {e : ServerGroupError} {a : α} :
    o.elim (throw e) pure = (.ok a : Except ServerGroupError α) ↔ o = some a := by
  cases o <;> simp

/-- What is read beside a server's own fields is read as it came. -/
theorem beside_read {r r' : Read} {f : Field} (h : read r f = .ok r') (hid : f.id ≠ field.SERVER_ID)
    (hr : ∀ f ∈ r.extra, Beside f) : ∀ f ∈ r'.extra, Beside f := by
  unfold read at h
  by_cases h1 : f.id = field.TAG
  · rw [if_pos h1, bind_eq_ok] at h
    obtain ⟨_, -, h⟩ := h
    rw [pure_eq_ok] at h
    exact h ▸ hr
  rw [if_neg h1] at h
  by_cases h2 : f.id = field.SERVER_NAME
  · rw [if_pos h2, bind_eq_ok] at h
    obtain ⟨_, -, h⟩ := h
    rw [pure_eq_ok] at h
    exact h ▸ hr
  rw [if_neg h2] at h
  by_cases h3 : f.id = field.HOPS
  · rw [if_pos h3] at h
    cases hv : f.fixedU16 with
    | none =>
      rw [hv] at h
      cases h
    | some v =>
      rw [hv, Option.elim_some, pure_eq_ok] at h
      exact h ▸ hr
  rw [if_neg h3] at h
  by_cases h4 : f.id = field.COLOR
  · rw [if_pos h4] at h
    cases hv : f.uint with
    | none =>
      rw [hv] at h
      cases h
    | some v =>
      rw [hv, Option.elim_some, pure_eq_ok] at h
      exact h ▸ hr
  rw [if_neg h4] at h
  by_cases h5 : f.id = field.MORE
  · rw [if_pos h5, pure_eq_ok] at h
    exact h ▸ hr
  rw [if_neg h5, pure_eq_ok] at h
  rw [← h]
  intro f' hf'
  rcases List.mem_append.1 hf' with hf' | hf'
  · exact hr f' hf'
  · rw [List.mem_singleton.1 hf']
    exact ⟨h1, h2, h3, h4, h5, hid⟩

theorem beside_readAll {fields : List Field} {r r' : Read} (h : fields.foldlM read r = .ok r')
    (hid : ∀ f ∈ fields, f.id ≠ field.SERVER_ID) (hr : ∀ f ∈ r.extra, Beside f) :
    ∀ f ∈ r'.extra, Beside f := by
  induction fields generalizing r with
  | nil =>
    rw [List.foldlM_nil, pure_eq_ok] at h
    exact h ▸ hr
  | cons f fields ih =>
    rw [List.foldlM_cons, bind_eq_ok] at h
    obtain ⟨r₁, hread, h⟩ := h
    exact ih h (fun f' hf' => hid f' (List.mem_cons_of_mem _ hf'))
      (beside_read hread (hid f List.mem_cons_self) hr)

theorem parseServer_eq_ok {first : Field} {rest : List Field} {g : ServerGroup} :
    parse (first :: rest) = .ok g ↔ first.id = field.SERVER_ID ∧ ∃ id r, first.fixed 8 = some id ∧
      (body field.SERVER_ID rest).foldlM read {} = .ok r ∧ finish id r = .ok g := by
  rw [parseServer_cons, ite_throw_bind_eq_ok, Classical.not_not, bind_eq_ok]
  refine and_congr_right fun _ => exists_congr fun id => ?_
  cases first.fixed 8 with
  | none => simp
  | some id' =>
    simp only [Option.elim_some, pure_eq_ok, bind_eq_ok, Option.some.injEq]
    constructor
    · rintro ⟨rfl, r, hr, hg⟩
      exact ⟨r, rfl, hr, hg⟩
    · rintro ⟨r, rfl, hr, hg⟩
      exact ⟨rfl, r, hr, hg⟩

/-- What a group that could be read keeps: a tag that passes its check, and nothing of its own beside
its own fields. -/
theorem tag_and_extra {fields : List Field} {g : ServerGroup} (h : parse fields = .ok g) :
    checkTag g.tag = .ok () ∧ ∀ f ∈ g.extra, Beside f := by
  cases fields with
  | nil => cases h
  | cons first rest =>
    obtain ⟨-, id, r, -, hread, h⟩ := parseServer_eq_ok.1 h
    unfold finish at h
    simp only [bind_eq_ok, elim_server_ok, mapError_eq_ok, pure_eq_ok] at h
    obtain ⟨tag, -, ⟨⟩, htag, name, -, hops, -, rfl⟩ := h
    exact ⟨htag, beside_readAll hread (fun f hf => ne_opener_of_mem_body hf) (by simp)⟩

theorem readServer_color (color : Option UInt32) {r : Read} (h : r.color = none) :
    (color.map (Field.u32 field.COLOR)).toList.foldlM read r = .ok { r with color := color } := by
  cases color with
  | none =>
    show Except.ok r = .ok { r with color := none }
    rw [← h]
  | some c =>
    show (read r (Field.u32 field.COLOR c) >>= fun r => pure r) = _
    have hread : read r (Field.u32 field.COLOR c) = .ok { r with color := some c } := by
      unfold read
      rw [uint_u32]
      rfl
    rw [hread]
    rfl

theorem toFields_eq (g : ServerGroup) : g.toFields = ⟨field.SERVER_ID, g.id.val⟩ ::
    ([⟨field.TAG, utf8 g.tag⟩, ⟨field.SERVER_NAME, utf8 g.name⟩, Field.u16 field.HOPS g.hops] ++
      ((g.color.map (Field.u32 field.COLOR)).toList ++ g.extra)) := by
  unfold toFields
  simp only [List.cons_append, List.nil_append]

theorem ids_toFields {g : ServerGroup} (h : ∀ f ∈ g.extra, Beside f) :
    ∀ f ∈ g.toFields.tail, f.id ≠ field.SERVER_ID ∧ f.id ≠ field.MORE := by
  intro f hf
  rw [toFields_eq, List.tail_cons] at hf
  rcases List.mem_append.1 hf with hf | hf
  · simp only [List.mem_cons, List.not_mem_nil, or_false] at hf
    rcases hf with rfl | rfl | rfl <;> exact ⟨by simp [field.TAG, field.SERVER_NAME, field.HOPS,
      field.SERVER_ID, Field.u16], by simp [field.TAG, field.SERVER_NAME, field.HOPS, field.MORE,
      Field.u16]⟩
  · rcases List.mem_append.1 hf with hf | hf
    · rw [Option.mem_toList, Option.map_eq_some_iff] at hf
      obtain ⟨c, -, rfl⟩ := hf
      exact ⟨by simp [field.COLOR, field.SERVER_ID, Field.u32],
        by simp [field.COLOR, field.MORE, Field.u32]⟩
    · obtain ⟨-, -, -, -, hmore, hid⟩ := h f hf
      exact ⟨hid, hmore⟩

theorem readServer_own (g : ServerGroup) :
    ([⟨field.TAG, utf8 g.tag⟩, ⟨field.SERVER_NAME, utf8 g.name⟩, Field.u16 field.HOPS g.hops] :
      List Field).foldlM read {} = .ok { tag := some g.tag, name := some g.name, hops := some g.hops } := by
  have htag : ∀ r : Read, read r ⟨field.TAG, utf8 g.tag⟩ = .ok { r with tag := some g.tag } := by
    intro r
    unfold read text
    rw [if_pos rfl, fromUtf8_utf8]
    rfl
  have hname : ∀ r : Read, read r ⟨field.SERVER_NAME, utf8 g.name⟩ = .ok { r with name := some g.name } := by
    intro r
    have hne : field.SERVER_NAME ≠ field.TAG := by decide
    unfold read text
    rw [if_neg hne, if_pos rfl, fromUtf8_utf8]
    rfl
  have hhops : ∀ r : Read, read r (Field.u16 field.HOPS g.hops) = .ok { r with hops := some g.hops } := by
    intro r
    unfold read
    rw [Field.fixedU16_u16]
    rfl
  rw [List.foldlM_cons, htag, ok_bind, List.foldlM_cons, hname, ok_bind, List.foldlM_cons, hhops]
  rfl

/-- A group is read from what it is written as. -/
theorem parse_toFields {fields : List Field} {g : ServerGroup} (h : parse fields = .ok g) :
    parse g.toFields = .ok g := by
  obtain ⟨htag, hextra⟩ := tag_and_extra h
  have hids := ids_toFields hextra
  rw [toFields_eq, List.tail_cons] at hids
  have hread : (body field.SERVER_ID g.toFields.tail).foldlM read {} =
      .ok { tag := some g.tag, name := some g.name, hops := some g.hops, color := g.color,
            extra := g.extra } := by
    rw [toFields_eq, List.tail_cons, body_self (fun f hf => (hids f hf).1) fun f hf => (hids f hf).2,
      List.foldlM_append, readServer_own, ok_bind, List.foldlM_append,
      readServer_color g.color rfl, ok_bind, readServer_extra hextra]
    rfl
  rw [toFields_eq, List.tail_cons] at hread
  rw [toFields_eq]
  refine parseServer_eq_ok.2 ⟨rfl, g.id, _, fixed_bytes _ _, hread, ?_⟩
  unfold finish
  show (Except.mapError _ (checkTag g.tag) >>= _) = _
  rw [htag]
  rfl

theorem group_toFields {fields : List Field} {g : ServerGroup} (h : parse fields = .ok g) :
    GroupOf (fun f => f.id == field.SERVER_ID) g.toFields ∧ Unmarked g.toFields := by
  have hids := ids_toFields (tag_and_extra h).2
  rw [toFields_eq, List.tail_cons] at hids
  rw [toFields_eq]
  refine ⟨group_cons.2 ⟨beq_self_eq_true _, fun f hf => beq_eq_false_iff_ne.2 (hids f hf).1⟩,
    fun f hf => ?_⟩
  rcases List.mem_cons.1 hf with rfl | hf
  · show field.SERVER_ID ≠ field.MORE
    decide
  · exact (hids f hf).2

theorem parseServer_congr {first : Field} {rest rest' : List Field}
    (h : body field.SERVER_ID rest = body field.SERVER_ID rest') :
    parse (first :: rest) = parse (first :: rest') := by
  rw [parseServer_cons, parseServer_cons, h]

end ServerGroup

/-- A group's opener is all that is read of the fields' order between groups. -/
theorem read_alone {β : Type} {opener : UInt16} {read : List Field → β}
    (hcongr : ∀ first rest rest', body opener rest = body opener rest' →
      read (first :: rest) = read (first :: rest')) (hopener : opener ≠ field.MORE)
    {g : List Field} (hg : GroupOf (fun f => f.id == opener) g) :
    (∀ fields, fields.head?.any (fun f => f.id == opener) = true → read (g ++ fields) = read g) ∧
      read (g ++ [moreFollows]) = read g := by
  cases g with
  | nil => exact absurd hg.opens (by simp)
  | cons first rest =>
    have hrest : ∀ f ∈ rest, f.id ≠ opener := fun f hf =>
      beq_eq_false_iff_ne.1 ((group_cons.1 hg).2 f hf)
    exact ⟨fun fields h => hcongr _ _ _ (body_next hrest h), hcongr _ _ _ (body_more hopener hrest)⟩

/-! ## Through any parts -/

/-- Groups side by side, each read as it is alone, whatever the parts. -/
theorem read_sendParts {β : Type} {opener : UInt16} {read : List Field → β}
    (hcongr : ∀ first rest rest', body opener rest = body opener rest' →
      read (first :: rest) = read (first :: rest')) (hopener : opener ≠ field.MORE)
    {groups : List (List Field)} (hgroups : ∀ g ∈ groups, GroupOf (fun f => f.id == opener) g) :
    (sendParts groups).flatMap (fun part => (openings (fun f => f.id == opener) part).map read) =
      groups.map read :=
  flatMap_sendParts hopener hgroups (fun g hg => (read_alone hcongr hopener (hgroups g hg)).1)
    fun g hg => (read_alone hcongr hopener (hgroups g hg)).2

/-- A user group a server sends: of a user of its own, or of another server's. -/
inductive Exported : List Field → Prop where
  | own (u : LocalUser) (home : ServerId) (transport keys : Bool) : Exported (ofLocal u home transport keys)
  | relayed {fields : List Field} {g : UserGroup} (h : UserGroup.parse fields = .ok g) (uid : UInt16)
      (features : UInt32) : Exported (relayedGroup uid g features)

theorem group_exported {fields : List Field} (h : Exported fields) :
    GroupOf (fun f => f.id == field.USER_ID) fields ∧ Unmarked fields := by
  cases h with
  | own u home transport keys => exact UserGroup.group_ofLocal u home transport keys
  | relayed h uid features => exact UserGroup.group_relayed h uid features

theorem openings_ok {ε α β : Type} {f : α → Except ε β} {xs : List α} (h : ∀ x ∈ xs, ∃ y, f x = .ok y) :
    xs.map f = ((xs.map f).filterMap Except.toOption).map Except.ok := by
  induction xs with
  | nil => rfl
  | cons x xs ih =>
    obtain ⟨y, hy⟩ := h x List.mem_cons_self
    rw [List.map_cons, hy]
    exact congrArg (Except.ok y :: ·) (ih fun x' hx' => h x' (List.mem_cons_of_mem _ hx'))

/-- Every server group comes back, in order, whatever the parts. -/
theorem servers_sendParts {gs : List ServerGroup} (h : ∀ g ∈ gs, ∃ fields, ServerGroup.parse fields = .ok g) :
    ∃ parts, (sendParts (gs.map ServerGroup.toFields)).mapM ServerGroup.parseAll = .ok parts ∧
      parts.flatten = gs := by
  have hgroups : ∀ g ∈ gs.map ServerGroup.toFields, GroupOf (fun f => f.id == field.SERVER_ID) g := by
    intro fields hfields
    obtain ⟨g, hg, rfl⟩ := List.mem_map.1 hfields
    obtain ⟨came, hcame⟩ := h g hg
    exact (ServerGroup.group_toFields hcame).1
  have hread := read_sendParts (fun _ _ _ => ServerGroup.parseServer_congr) (by decide) hgroups
  have hself : (gs.map ServerGroup.toFields).map ServerGroup.parse = gs.map Except.ok := by
    rw [List.map_map]
    refine List.map_congr_left fun g hg => ?_
    obtain ⟨came, hcame⟩ := h g hg
    exact ServerGroup.parse_toFields hcame
  rw [hself] at hread
  have hok : ∀ part ∈ sendParts (gs.map ServerGroup.toFields),
      ∀ t ∈ openings (fun f => f.id == field.SERVER_ID) part, ∃ g, ServerGroup.parse t = .ok g := by
    intro part hpart t ht
    have hmem : ServerGroup.parse t ∈ gs.map Except.ok := by
      rw [← hread]
      exact List.mem_flatMap.2 ⟨part, hpart, List.mem_map_of_mem ht⟩
    obtain ⟨g, -, hg⟩ := List.mem_map.1 hmem
    exact ⟨g, hg.symm⟩
  refine ⟨(sendParts (gs.map ServerGroup.toFields)).map fun part =>
    ((openings (fun f => f.id == field.SERVER_ID) part).map ServerGroup.parse).filterMap
      Except.toOption, mapM_eq_ok ?_, ?_⟩
  · rw [List.map_map]
    exact List.map_congr_left fun part hpart => mapM_eq_ok (openings_ok (hok part hpart))
  · have hall := congrArg (List.filterMap Except.toOption) hread
    rw [List.filterMap_flatMap] at hall
    rw [← List.flatMap_def, hall, List.filterMap_map]
    exact List.filterMap_some

end HxdNg.Link
