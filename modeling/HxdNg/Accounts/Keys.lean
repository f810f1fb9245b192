import Mathlib
import HxdNg.Accounts.Files
import HxdNg.Lib.Keyed
import HxdNg.Lib.Results

/-!
# What an account's own keys say

An access table has three ways to name a bit: a key, `raw_bits` and `raw_deny`. What it says of a bit
at last is one answer, and the bits an account resolves to are that answer over what its roles grant.

* `AccessTable.verdict` : what a table says of a bit; `verdict_readTable` : that reading it does just that;
* `verdict_writeAccess`, `verdict_writeOverrides` : what each rewriting leaves said;
* `writeAccess_twice` : that an edit made again changes nothing;
* `edit_says` : all of it, as what the account then resolves to.
-/

namespace HxdNg.Accounts

open Assoc

/-! ## Saying a bit -/

/-- What a key says of a bit, if it names it. -/
def keySays (n : Nat) (o : Option Bool) (entry : String × Bool) : Option Bool :=
  if namedBit entry.1 = some n then some entry.2 else o

def keyOf (n : Nat) : Option String := (NAMES.find? (·.2 = n)).map (·.1)

theorem nodup_names : (NAMES.map Prod.fst).Nodup := by decide +kernel

theorem nodup_numbers : (NAMES.map Prod.snd).Nodup := by decide +kernel

theorem notMem_names : "chat_history" ∉ NAMES.map Prod.fst := by decide +kernel

theorem keyOf_eq_some {n : Nat} {key : String} : keyOf n = some key ↔ (key, n) ∈ NAMES := by
  unfold keyOf
  rw [Option.map_eq_some_iff]
  constructor
  · rintro ⟨⟨key', n'⟩, hfind, rfl⟩
    obtain ⟨hmem, rfl⟩ := (find?_key_iff nodup_numbers).mp hfind
    exact hmem
  · exact fun hmem => ⟨(key, n), (find?_key_iff nodup_numbers).mpr ⟨hmem, rfl⟩, rfl⟩

theorem named_eq_some {n : Nat} {key : String} : named key = some n ↔ (key, n) ∈ NAMES := by
  unfold named
  rw [Option.map_eq_some_iff]
  constructor
  · rintro ⟨⟨key', n'⟩, hfind, rfl⟩
    obtain ⟨hmem, rfl⟩ := (find?_key_iff nodup_names).mp hfind
    exact hmem
  · exact fun hmem => ⟨(key, n), (find?_key_iff nodup_names).mpr ⟨hmem, rfl⟩, rfl⟩

theorem namedBit_eq_some {n : Nat} {key : String} :
    namedBit key = some n ↔
      keyOf n = some key ∨ (n = bit.CHAT_HISTORY ∧ key = "chat_history") := by
  unfold namedBit
  rw [keyOf_eq_some]
  by_cases hkey : key = "chat_history"
  · rw [if_pos hkey]
    constructor
    · exact fun h => .inr ⟨(Option.some.inj h).symm, hkey⟩
    · rintro (hmem | h)
      · exact absurd (List.mem_map_of_mem (f := Prod.fst) hmem) (hkey ▸ notMem_names)
      · exact congrArg some h.1.symm
  · rw [if_neg hkey, named_eq_some]
    simp [hkey]

/-- What the keys of a table say of a bit. Of two that name it the later in their order counts. -/
def keysSay (m : Map String Bool) (n : Nat) : Option Bool :=
  ((keyOf n).bind m.get).or (if n = bit.CHAT_HISTORY then m.get "chat_history" else none)

/-- Keys say nothing of a bit with no name. -/
theorem keysSay_of_unnamed {n : Nat} (h : keyOf n = none) (m : Map String Bool) :
    keysSay m n = none := by
  have hne : n ≠ bit.CHAT_HISTORY := by
    rintro rfl
    exact absurd h (by decide +kernel)
  unfold keysSay
  rw [h, if_neg hne]
  rfl

/-- What a table says of a bit. -/
def AccessTable.verdict (t : AccessTable) (n : Nat) : Option Bool :=
  if n ∈ t.rawDeny then some false else if n ∈ t.rawBits then some true else keysSay t.named n

/-! ## Reading a table -/

/-- Where the reading of a table has come to, of one bit: what was last said of it decides. -/
structure Bits.Says (s₀ s : Bits) (n : Nat) (o : Option Bool) : Prop where
  access : s.access.has n = o.getD (s₀.access.has n)
  grant : s.grant.has n = o.elim (s₀.grant.has n) id
  deny : s.deny.has n = o.elim (s₀.deny.has n) not

variable {s₀ s : Bits} {n : Nat} {o : Option Bool}

theorem Bits.Says.setBit (hn : n < 64) (h : s₀.Says s n o) (b : Nat) (on : Bool) :
    s₀.Says (s.setBit b on) n (if b = n then some on else o) := by
  unfold Bits.setBit
  by_cases hb : b = n
  · subst hb
    cases on <;> constructor <;> simp [hn]
  · cases on <;> constructor <;> simp [hb, Ne.symm hb, h.access, h.grant, h.deny]

theorem Bits.Says.nameHistory (h : s₀.Says s n o) (b : Nat) : s₀.Says (s.nameHistory b) n o :=
  ⟨h.access, h.grant, h.deny⟩

theorem Bits.Says.readNamed (hn : n < 64) (h : s₀.Says s n o) (entry : String × Bool) :
    s₀.Says (s.readNamed entry) n (keySays n o entry) := by
  unfold Bits.readNamed keySays
  cases hb : namedBit entry.1 with
  | none =>
    rw [if_neg nofun]
    exact h
  | some b =>
    have hset := (h.setBit hn b entry.2).nameHistory b
    by_cases hbn : b = n
    · rw [if_pos hbn] at hset
      rw [if_pos (congrArg some hbn)]
      exact hset
    · rw [if_neg hbn] at hset
      rw [if_neg fun heq => hbn (Option.some.inj heq)]
      exact hset

theorem Bits.Says.foldl {α : Type} {f : Bits → α → Bits} {g : Option Bool → α → Option Bool}
    (hf : ∀ {s : Bits} {o : Option Bool}, s₀.Says s n o → ∀ a, s₀.Says (f s a) n (g o a))
    (l : List α) (h : s₀.Says s n o) : s₀.Says (l.foldl f s) n (l.foldl g o) := by
  induction l generalizing s o with
  | nil => exact h
  | cons a l ih => exact ih (hf h a)

theorem foldl_numbers (on : Bool) (bits : List Nat) :
    bits.foldl (fun o b => if b = n then some on else o) o = if n ∈ bits then some on else o := by
  induction bits generalizing o with
  | nil => simp
  | cons b bits ih =>
    rw [List.foldl_cons, ih]
    by_cases hmem : n ∈ bits
    · rw [if_pos hmem, if_pos (List.mem_cons_of_mem _ hmem)]
    · by_cases hb : b = n
      · rw [if_neg hmem, if_pos hb, if_pos (hb ▸ List.mem_cons_self)]
      · rw [if_neg hmem, if_neg hb, if_neg fun h => (List.mem_cons.mp h).elim (Ne.symm hb) hmem]

/-- Of keys in order the last that names a bit counts. -/
theorem foldl_keySays {l : List (String × Bool)} (hl : l.Pairwise fun a b => a.1 < b.1) :
    l.foldl (keySays n) o = ((keyOf n).bind (lookup l)).or
      ((if n = bit.CHAT_HISTORY then lookup l "chat_history" else none).or o) := by
  induction l generalizing o with
  | nil =>
    rw [List.foldl_nil]
    cases keyOf n <;> simp
  | cons e l ih =>
    obtain ⟨hhead, hl⟩ := List.pairwise_cons.mp hl
    have hmiss : ∀ k, k ≤ e.1 → lookup l k = none := by
      intro k hk
      refine lookup_eq_none.mpr fun hmem => ?_
      obtain ⟨e', he', rfl⟩ := List.mem_map.mp hmem
      exact absurd (hhead e' he') (not_lt.mpr hk)
    rw [List.foldl_cons, ih hl]
    unfold keySays
    obtain ⟨key, on⟩ := e
    dsimp only at hmiss ⊢
    simp only [lookup_cons]
    by_cases hkey : keyOf n = some key
    · -- the older key of bit 56 would stand before it
      have hold : (if n = bit.CHAT_HISTORY then lookup l "chat_history" else none) = none := by
        by_cases hn : n = bit.CHAT_HISTORY
        · rw [if_pos hn]
          apply hmiss
          rw [hn, show keyOf bit.CHAT_HISTORY = some "read_chat_history" by decide +kernel] at hkey
          rw [← Option.some.inj hkey]
          decide +kernel
        · rw [if_neg hn]
      rw [if_pos (namedBit_eq_some.mpr (.inl hkey)), hold, hkey, Option.bind_some, Option.bind_some,
        hmiss key le_rfl, lookup_cons, if_pos rfl]
      rfl
    · have hskip : (keyOf n).bind (lookup ((key, on) :: l)) = (keyOf n).bind (lookup l) := by
        cases hk : keyOf n with
        | none => rfl
        | some k =>
          rw [Option.bind_some, Option.bind_some, lookup_cons, if_neg]
          rintro rfl
          exact hkey hk
      rw [hskip]
      by_cases hn : n = bit.CHAT_HISTORY ∧ key = "chat_history"
      · rw [if_pos (namedBit_eq_some.mpr (.inr hn)), if_pos hn.1, if_pos hn.1, if_pos hn.2,
          hmiss _ hn.2.ge]
        rfl
      · have hnot : ¬namedBit key = some n := fun h => (namedBit_eq_some.mp h).elim hkey hn
        rw [if_neg hnot]
        by_cases hhist : n = bit.CHAT_HISTORY
        · rw [if_pos hhist, if_pos hhist, if_neg fun h => hn ⟨hhist, h⟩]
        · rw [if_neg hhist, if_neg hhist]

theorem lookup_sortBy (m : Map String Bool) (k : String) :
    lookup (sortBy Prod.fst m.entries) k = m.get k := by
  have hperm := perm_sortBy Prod.fst m.entries
  have hvalid : Valid (sortBy Prod.fst m.entries) := (hperm.map Prod.fst).nodup_iff.mpr m.valid
  cases hget : m.get k with
  | none =>
    refine lookup_eq_none.mpr fun hmem => ?_
    exact lookup_eq_none.mp hget ((hperm.map Prod.fst).mem_iff.mp hmem)
  | some v => exact lookup_of_mem hvalid (hperm.mem_iff.mpr (mem_of_lookup hget))

theorem foldl_named (m : Map String Bool) (n : Nat) :
    (sortBy Prod.fst m.entries).foldl (keySays n) none = keysSay m n := by
  rw [foldl_keySays (pairwise_lt_sortBy m.valid)]
  unfold keysSay
  have hlookup : lookup (sortBy Prod.fst m.entries) = m.get := funext (lookup_sortBy m)
  simp only [hlookup, Option.or_none]

/-- Reading a table sets the bits it says and leaves the others. -/
theorem verdict_readTable (hn : n < 64) (s : Bits) (t : AccessTable) :
    s.Says (s.readTable t) n (t.verdict n) := by
  have hstart : s.Says s n none := ⟨rfl, rfl, rfl⟩
  have hnamed := hstart.foldl (fun h e => h.readNamed hn e) (sortBy Prod.fst t.named.entries)
  have hraw := hnamed.foldl (f := Bits.readRaw) (fun h b => h.setBit hn b true) t.rawBits
  have hdeny := hraw.foldl (f := Bits.readDeny)
    (fun h b => (h.setBit hn b false).nameHistory b) t.rawDeny
  rw [foldl_named, foldl_numbers, foldl_numbers] at hdeny
  exact hdeny

/-- Bit 56 is named by a key of the table, by being withheld by number, or as it was before. -/
theorem historyNamed_readTable (s : Bits) (t : AccessTable) :
    (s.readTable t).historyNamed = (s.historyNamed || (keysSay t.named bit.CHAT_HISTORY).isSome ||
      decide (bit.CHAT_HISTORY ∈ t.rawDeny)) := by
  have hnamed : ∀ (l : List (String × Bool)) (s' : Bits) (o : Option Bool),
      s'.historyNamed = (s.historyNamed || o.isSome) →
      (l.foldl Bits.readNamed s').historyNamed =
        (s.historyNamed || (l.foldl (keySays bit.CHAT_HISTORY) o).isSome) := by
    intro l
    induction l with
    | nil => exact fun _ _ h => h
    | cons e l ih =>
      intro s' o h
      refine ih _ _ ?_
      unfold Bits.readNamed keySays
      cases hb : namedBit e.1 with
      | none =>
        rw [if_neg nofun]
        exact h
      | some b =>
        show ((s'.setBit b e.2).historyNamed || decide (b = bit.CHAT_HISTORY)) = _
        have hset : (s'.setBit b e.2).historyNamed = s'.historyNamed := by
          unfold Bits.setBit
          split <;> rfl
        rw [hset, h]
        by_cases hbn : b = bit.CHAT_HISTORY
        · rw [if_pos (congrArg some hbn), decide_eq_true hbn]
          simp
        · rw [if_neg fun heq => hbn (Option.some.inj heq), decide_eq_false hbn, Bool.or_false]
  have hraw : ∀ (l : List Nat) (s' : Bits),
      (l.foldl Bits.readRaw s').historyNamed = s'.historyNamed := by
    intro l
    induction l with
    | nil => exact fun _ => rfl
    | cons b l ih => exact fun s' => ih _
  have hdeny : ∀ (l : List Nat) (s' : Bits), (l.foldl Bits.readDeny s').historyNamed =
      (s'.historyNamed || decide (bit.CHAT_HISTORY ∈ l)) := by
    intro l
    induction l with
    | nil => simp
    | cons b l ih =>
      intro s'
      rw [List.foldl_cons, ih]
      show (s'.historyNamed || decide (b = bit.CHAT_HISTORY) || decide (bit.CHAT_HISTORY ∈ l)) = _
      rw [Bool.or_assoc]
      refine congrArg (s'.historyNamed || ·) ?_
      by_cases hb : b = bit.CHAT_HISTORY
      · simp [hb]
      · simp [hb, Ne.symm hb]
  unfold Bits.readTable
  rw [hdeny, hraw, hnamed _ _ none (by simp), foldl_named]

/-! ## Rewriting keys -/

/-- Keys rewritten one after another, each once: each holds what its rewriting makes of it. -/
theorem get_foldl_keys {f : Map String Bool → String × Nat → Map String Bool}
    {g : Nat → Option Bool → Option Bool}
    (hf : ∀ m e k, (f m e).get k = if k = e.1 then g e.2 (m.get k) else m.get k)
    {l : List (String × Nat)} (hl : (l.map Prod.fst).Nodup) (m : Map String Bool) (k : String) :
    (l.foldl f m).get k = match lookup l k with
      | some n => g n (m.get k)
      | none => m.get k := by
  induction l generalizing m with
  | nil => rfl
  | cons e l ih =>
    obtain ⟨hne, htail⟩ := List.nodup_cons.mp hl
    obtain ⟨key, n⟩ := e
    rw [List.foldl_cons, ih htail, lookup_cons, hf]
    by_cases hk : key = k
    · have hmiss : lookup l k = none := lookup_eq_none.mpr (hk ▸ hne)
      rw [hmiss, if_pos hk, if_pos hk.symm]
    · rw [if_neg hk, if_neg (Ne.symm hk)]

theorem lookup_names {n : Nat} {key : String} : lookup NAMES key = some n ↔ keyOf n = some key := by
  rw [keyOf_eq_some]
  exact ⟨mem_of_lookup, lookup_of_mem nodup_names⟩

theorem get_renameHistory (m : Map String Bool) (k : String) :
    (renameHistory m).get k =
      if k = "chat_history" then none
      else if k = "read_chat_history" then (m.get "read_chat_history").or (m.get "chat_history")
      else m.get k := by
  have hne : "read_chat_history" ≠ "chat_history" := by decide +kernel
  unfold renameHistory
  cases hold : m.get "chat_history" with
  | none =>
    dsimp only
    by_cases hk : k = "chat_history"
    · rw [if_pos hk, hk, hold]
    · rw [if_neg hk, Option.or_none]
      by_cases hnew : k = "read_chat_history"
      · rw [if_pos hnew, hnew]
      · rw [if_neg hnew]
  | some old =>
    dsimp only
    rw [Map.get_drop, if_neg hne]
    by_cases hk : k = "chat_history"
    · subst hk
      rw [if_pos rfl]
      split
      · rw [Map.get_set, if_neg hne.symm, Map.get_drop, if_pos rfl]
      · rw [Map.get_drop, if_pos rfl]
    · rw [if_neg hk]
      cases hnew : m.get "read_chat_history" with
      | none =>
        rw [if_pos rfl, Map.get_set, Map.get_drop, if_neg hk]
        rfl
      | some v =>
        rw [if_neg (by simp), Map.get_drop, if_neg hk]
        split
        · rename_i h
          rw [h, hnew]
          rfl
        · rfl

/-- The older key of bit 56 says what it said, under its name now. -/
theorem keysSay_renameHistory (m : Map String Bool) (n : Nat) :
    keysSay (renameHistory m) n = keysSay m n := by
  unfold keysSay
  by_cases hn : n = bit.CHAT_HISTORY
  · rw [if_pos hn, if_pos hn, hn,
      show keyOf bit.CHAT_HISTORY = some "read_chat_history" by decide +kernel, Option.bind_some,
      Option.bind_some, get_renameHistory, get_renameHistory, if_pos rfl, if_pos rfl,
      if_neg (by decide +kernel), Option.or_none]
  · rw [if_neg hn, if_neg hn, Option.or_none, Option.or_none]
    cases hk : keyOf n with
    | none => rfl
    | some k =>
      have hmem := keyOf_eq_some.mp hk
      have hold : k ≠ "chat_history" := by
        rintro rfl
        exact notMem_names (List.mem_map_of_mem (f := Prod.fst) hmem)
      have hnew : k ≠ "read_chat_history" := by
        rintro rfl
        have hhist : ("read_chat_history", bit.CHAT_HISTORY) ∈ NAMES := by decide +kernel
        exact hn (congrArg Prod.snd (List.inj_on_of_nodup_map nodup_names hmem hhist rfl))
      rw [Option.bind_some, Option.bind_some, get_renameHistory, if_neg hold, if_neg hnew]

/-! ## Numbers -/

@[simp] theorem mem_numbers {n : Nat} {bits : List Nat} : n ∈ numbers bits ↔ n ∈ bits := by
  unfold numbers
  rw [List.mem_dedup, mem_sortBy]

theorem strict_numbers (bits : List Nat) : (numbers bits).Pairwise (· < ·) := by
  have hle : (numbers bits).Pairwise (· ≤ ·) :=
    (pairwise_sortBy id bits).sublist (List.dedup_sublist _)
  exact hle.imp₂ (fun _ _ => lt_of_le_of_ne) (List.nodup_dedup _)

theorem eq_of_strict {bits bits' : List Nat} (hs : bits.Pairwise (· < ·))
    (hs' : bits'.Pairwise (· < ·)) (h : ∀ n, n ∈ bits ↔ n ∈ bits') : bits = bits' := by
  refine eq_of_perm_of_strict id ?_ hs hs'
  exact (List.perm_ext_iff_of_nodup (hs.imp ne_of_lt) (hs'.imp ne_of_lt)).mpr h

/-- The numbers written for bits are those with no name. -/
theorem mem_namesOf {n : Nat} {a : AccessBits} :
    n ∈ (namesOf a).2 ↔ a.has n = true ∧ keyOf n = none := by
  unfold namesOf
  rw [List.mem_filter, List.mem_range, Bool.and_eq_true, Bool.not_eq_true', ← Bool.not_eq_true]
  have hnamed : NAMES.any (fun p => decide (p.2 = n)) = true ↔ keyOf n ≠ none := by
    rw [List.any_eq_true]
    constructor
    · rintro ⟨⟨key, n'⟩, hmem, hn⟩
      obtain rfl : n' = n := by simpa using hn
      rw [keyOf_eq_some.mpr hmem]
      exact nofun
    · intro h
      obtain ⟨key, hk⟩ := Option.ne_none_iff_exists'.mp h
      exact ⟨(key, n), keyOf_eq_some.mp hk, decide_eq_true rfl⟩
  rw [hnamed, not_not]
  refine ⟨fun h => h.2, fun h => ⟨?_, h⟩⟩
  have := h.1
  unfold AccessBits.has at this
  rw [Bool.and_eq_true, decide_eq_true_iff] at this
  exact this.1

/-! ## An edit -/

/-- The bits an edit says: those up to the highest its editor shows. -/
def tierBits (tier : Option Nat) : AccessBits :=
  tier.elim (~~~0) fun t => (~~~0 : AccessBits) <<< (63 - min t 63)

/-- Is a bit this edit's to say? -/
def Shows (tier : Option Nat) (n : Nat) : Prop := n < 64 ∧ ∀ t, tier = some t → n ≤ t

theorem has_tierBits {tier : Option Nat} {n : Nat} :
    (tierBits tier).has n = true ↔ Shows tier n := by
  unfold tierBits Shows AccessBits.has
  rw [Bool.and_eq_true, decide_eq_true_iff]
  refine and_congr_right fun hn => ?_
  have hlt : 63 - n < 64 := by omega
  have hones : ∀ i < 64, (~~~0 : AccessBits).getLsbD i = true := by
    intro i hi
    rw [BitVec.getLsbD_not, decide_eq_true hi, Bool.true_and]
    exact congrArg not BitVec.getLsbD_zero
  cases tier with
  | none => exact iff_of_true (hones _ hlt) nofun
  | some t =>
    show ((~~~0 : AccessBits) <<< (63 - min t 63)).getLsbD (63 - n) = true ↔ _
    rw [BitVec.getLsbD_shiftLeft, decide_eq_true hlt, Bool.true_and, Bool.and_eq_true,
      Bool.not_eq_true', decide_eq_false_iff_not]
    constructor
    · rintro ⟨hge, -⟩ t' ht'
      obtain rfl := Option.some.inj ht'
      omega
    · intro h
      have := h t rfl
      exact ⟨by omega, hones _ (by omega)⟩

section Write
variable {t : AccessTable} {access baseline : AccessBits} {tier : Option Nat} {n : Nat}

/-- What becomes of what the keys say of a bit. -/
def keyWritten (access baseline : AccessBits) (tier : Option Nat) (n : Nat) (old : Option Bool) :
    Option Bool :=
  if n < 64 && !(tierBits tier).has n then old
  else if baseline.has n then (if access.has n then none else some false)
  else match old with
    | some _ => some (access.has n)
    | none =>
      let history := n = bit.CHAT_HISTORY
      if (access.has n && !history) || (history && access.has n != access.has bit.READ_CHAT) then
        some (access.has n)
      else none

/-- The keys before they are rewritten. -/
def namedBefore (t : AccessTable) (tier : Option Nat) : Map String Bool :=
  if bit.CHAT_HISTORY < 64 && !(tierBits tier).has bit.CHAT_HISTORY then t.named
  else renameHistory t.named

def writeKey (access baseline : AccessBits) (tier : Option Nat) (m : Map String Bool)
    (e : String × Nat) : Map String Bool :=
  if e.2 < 64 && !(tierBits tier).has e.2 then m
  else if baseline.has e.2 then (if access.has e.2 then m.drop e.1 else m.set e.1 false)
  else match m.get e.1 with
    | some _ => m.set e.1 (access.has e.2)
    | none =>
      let history := e.2 = bit.CHAT_HISTORY
      if (access.has e.2 && !history) || (history && access.has e.2 != access.has bit.READ_CHAT) then
        m.set e.1 (access.has e.2)
      else m

theorem named_writeAccess :
    (writeAccess t access baseline tier).named =
      NAMES.foldl (writeKey (access &&& tierBits tier) (baseline &&& tierBits tier) tier)
        (namedBefore t tier) :=
  rfl

theorem get_writeKey (m : Map String Bool) (e : String × Nat) (k : String) :
    (writeKey access baseline tier m e).get k =
      if k = e.1 then keyWritten access baseline tier e.2 (m.get k) else m.get k := by
  obtain ⟨key, n⟩ := e
  unfold writeKey keyWritten
  dsimp only
  by_cases hunsaid : (decide (n < 64) && !(tierBits tier).has n) = true
  · rw [if_pos hunsaid, if_pos hunsaid, ite_self]
  · rw [if_neg hunsaid, if_neg hunsaid]
    by_cases hgiven : baseline.has n = true
    · rw [if_pos hgiven, if_pos hgiven]
      split
      · exact Map.get_drop _ _
      · exact Map.get_set _ _ _
    · rw [if_neg hgiven, if_neg hgiven]
      by_cases hk : k = key
      · rw [if_pos hk, ← hk]
        cases hget : m.get k with
        | some old =>
          dsimp only
          rw [Map.get_set, if_pos rfl]
        | none =>
          dsimp only
          split
          · rw [Map.get_set, if_pos rfl]
          · exact hget
      · rw [if_neg hk]
        split
        · rw [Map.get_set, if_neg hk]
        · split
          · rw [Map.get_set, if_neg hk]
          · rfl

theorem get_writeAccess (k : String) :
    (writeAccess t access baseline tier).named.get k = match lookup NAMES k with
      | some n => keyWritten (access &&& tierBits tier) (baseline &&& tierBits tier) tier n
          ((namedBefore t tier).get k)
      | none => (namedBefore t tier).get k := by
  rw [named_writeAccess]
  exact get_foldl_keys (fun m e k => get_writeKey m e k) nodup_names _ k

/-- What the keys then say of a bit comes of what they said of it. -/
theorem keysSay_writeAccess :
    keysSay (writeAccess t access baseline tier).named n =
      match keyOf n with
      | some _ => keyWritten (access &&& tierBits tier) (baseline &&& tierBits tier) tier n
          (keysSay t.named n)
      | none => none := by
  have hbefore : keysSay (namedBefore t tier) n = keysSay t.named n := by
    unfold namedBefore
    split
    · rfl
    · exact keysSay_renameHistory _ _
  have hold : lookup NAMES "chat_history" = none := lookup_eq_none.mpr notMem_names
  rw [← hbefore]
  cases hkey : keyOf n with
  | none => exact keysSay_of_unnamed hkey _
  | some key =>
    unfold keysSay
    dsimp only
    rw [hkey]
    rw [Option.bind_some, Option.bind_some, get_writeAccess, get_writeAccess, lookup_names.mpr hkey,
      hold]
    dsimp only
    by_cases hunsaid : (decide (n < 64) && !(tierBits tier).has n) = true
    · unfold keyWritten
      rw [if_pos hunsaid, if_pos hunsaid]
    · -- a bit that is said has no older key left
      have hnone : (if n = bit.CHAT_HISTORY then (namedBefore t tier).get "chat_history" else none) =
          none := by
        by_cases hn' : n = bit.CHAT_HISTORY
        · rw [if_pos hn']
          unfold namedBefore
          rw [← hn', if_neg hunsaid, get_renameHistory, if_pos rfl]
        · rw [if_neg hn']
      rw [hnone, Option.or_none, Option.or_none]

/-! ## What the edit leaves said -/

theorem mem_rawBits :
    n ∈ (writeAccess t access baseline tier).rawBits ↔
      ((access &&& tierBits tier &&& ~~~(baseline &&& tierBits tier)).has n = true ∧ keyOf n = none) ∨
        (n ∈ t.rawBits ∧ n < 64 ∧ (tierBits tier).has n = false) := by
  show n ∈ numbers _ ↔ _
  rw [mem_numbers, List.mem_append, mem_namesOf, List.mem_filter, Bool.and_eq_true,
    decide_eq_true_iff, Bool.not_eq_true']
  rfl

theorem mem_rawDeny :
    n ∈ (writeAccess t access baseline tier).rawDeny ↔
      (n ∈ t.rawDeny ∧ (access &&& tierBits tier).has n = false) ∨
        ((baseline &&& tierBits tier &&& ~~~(access &&& tierBits tier)).has n = true ∧
          keyOf n = none) := by
  show n ∈ numbers _ ↔ _
  rw [mem_numbers, List.mem_append, mem_namesOf, List.mem_filter, Bool.not_eq_true']
  rfl

section Above
variable (hn : n < 64) (h : (tierBits tier).has n = false)
include h

theorem mem_rawDeny_above :
    n ∈ (writeAccess t access baseline tier).rawDeny ↔ n ∈ t.rawDeny := by
  rw [mem_rawDeny, AccessBits.has_andNot, AccessBits.has_and, AccessBits.has_and, h]
  simp

include hn

theorem mem_rawBits_above :
    n ∈ (writeAccess t access baseline tier).rawBits ↔ n ∈ t.rawBits := by
  rw [mem_rawBits, AccessBits.has_andNot, AccessBits.has_and, h]
  simp [hn]

theorem keysSay_above :
    keysSay (writeAccess t access baseline tier).named n = keysSay t.named n := by
  rw [keysSay_writeAccess]
  cases hkey : keyOf n with
  | none => exact (keysSay_of_unnamed hkey _).symm
  | some key =>
    unfold keyWritten
    dsimp only
    rw [h, decide_eq_true hn]
    rfl

/-- Above the tier all is said as it was, -/
theorem verdict_above : (writeAccess t access baseline tier).verdict n = t.verdict n := by
  unfold AccessTable.verdict
  simp only [mem_rawDeny_above h, mem_rawBits_above hn h, keysSay_above hn h]

/-- by the same key. -/
theorem get_above {key : String} (hkey : namedBit key = some n) :
    (writeAccess t access baseline tier).named.get key = t.named.get key := by
  have hunsaid : (decide (n < 64) && !(tierBits tier).has n) = true := by
    rw [h, decide_eq_true hn]
    rfl
  rw [get_writeAccess]
  rcases namedBit_eq_some.mp hkey with hkey | ⟨rfl, rfl⟩
  · have hbefore : (namedBefore t tier).get key = t.named.get key := by
      unfold namedBefore
      split
      · rfl
      · rename_i hhist
        have hmem := keyOf_eq_some.mp hkey
        have hold : key ≠ "chat_history" := by
          rintro rfl
          exact notMem_names (List.mem_map_of_mem (f := Prod.fst) hmem)
        have hnew : key ≠ "read_chat_history" := by
          rintro rfl
          have hread : ("read_chat_history", bit.CHAT_HISTORY) ∈ NAMES := by decide +kernel
          obtain rfl : n = bit.CHAT_HISTORY :=
            congrArg Prod.snd (List.inj_on_of_nodup_map nodup_names hmem hread rfl)
          exact hhist hunsaid
        rw [get_renameHistory, if_neg hold, if_neg hnew]
    rw [lookup_names.mpr hkey]
    dsimp only
    unfold keyWritten
    rw [if_pos hunsaid, hbefore]
  · rw [lookup_eq_none.mpr notMem_names]
    dsimp only
    unfold namedBefore
    rw [if_pos hunsaid]

end Above

section Shown
variable (h : (tierBits tier).has n = true)
include h

theorem mem_rawDeny_shown :
    n ∈ (writeAccess t access baseline tier).rawDeny ↔
      access.has n = false ∧ (n ∈ t.rawDeny ∨ (baseline.has n = true ∧ keyOf n = none)) := by
  rw [mem_rawDeny, AccessBits.has_andNot, AccessBits.has_and, AccessBits.has_and, h]
  cases access.has n <;> simp

theorem mem_rawBits_shown :
    n ∈ (writeAccess t access baseline tier).rawBits ↔
      access.has n = true ∧ baseline.has n = false ∧ keyOf n = none := by
  rw [mem_rawBits, AccessBits.has_andNot, AccessBits.has_and, AccessBits.has_and, h]
  simp [and_assoc]

theorem shows_readChat (hn : n = bit.CHAT_HISTORY) : (tierBits tier).has bit.READ_CHAT = true := by
  have hshows := has_tierBits.mp h
  refine has_tierBits.mpr ⟨by decide, fun t ht => le_trans ?_ (hshows.2 t ht)⟩
  rw [hn]
  decide

theorem keysSay_shown :
    keysSay (writeAccess t access baseline tier).named n =
      if keyOf n = none then none
      else if baseline.has n then (if access.has n then none else some false)
      else match keysSay t.named n with
        | some _ => some (access.has n)
        | none =>
          if n = bit.CHAT_HISTORY then
            if access.has n = access.has bit.READ_CHAT then none else some (access.has n)
          else if access.has n then some true else none := by
  rw [keysSay_writeAccess]
  cases hkey : keyOf n with
  | none => rfl
  | some key =>
    unfold keyWritten
    dsimp only
    rw [if_neg (show ¬(some key = none) from nofun), AccessBits.has_and, AccessBits.has_and, h,
      Bool.not_true, Bool.and_false, if_neg Bool.false_ne_true, Bool.and_true, Bool.and_true]
    by_cases hhist : n = bit.CHAT_HISTORY
    · rw [AccessBits.has_and, shows_readChat h hhist, Bool.and_true]
      simp only [hhist, decide_true, Bool.not_true, Bool.and_false, Bool.true_and, Bool.false_or,
        bne_iff_ne, ne_eq, ite_not, if_true]
    · simp only [hhist, decide_false, Bool.not_false, Bool.and_true, Bool.false_and, Bool.or_false,
        if_false]
      cases access.has n <;> rfl

/-- A bit that is set and that a role gives keeps no key. -/
theorem get_shown {key : String} (hkey : namedBit key = some n) (hon : access.has n = true)
    (hgiven : baseline.has n = true) :
    (writeAccess t access baseline tier).named.get key = none := by
  have hsaid : ¬(decide (n < 64) && !(tierBits tier).has n) = true := by
    rw [h]
    simp
  rw [get_writeAccess]
  rcases namedBit_eq_some.mp hkey with hkey | ⟨rfl, rfl⟩
  · rw [lookup_names.mpr hkey]
    dsimp only
    unfold keyWritten
    rw [if_neg hsaid, AccessBits.has_and, AccessBits.has_and, h, hon, hgiven]
    rfl
  · rw [lookup_eq_none.mpr notMem_names]
    dsimp only
    unfold namedBefore
    rw [if_neg hsaid, get_renameHistory, if_pos rfl]

end Shown

end Write

/-! ## What an account then resolves to -/

section Resolve
variable {file : AccountFile} {held : List Role} {n : Nat}

theorem has_configure (hn : n < 64) :
    (file.configureWith held).access.has n = (file.access.verdict n).getD ((grantedBits held).has n) :=
  (verdict_readTable hn _ file.access).access

theorem grant_configure (hn : n < 64) :
    (file.configureWith held).grant.has n = decide (file.access.verdict n = some true) := by
  have h := (verdict_readTable hn ⟨grantedBits held, 0, 0, (grantedBits held).has bit.CHAT_HISTORY⟩
    file.access).grant
  refine h.trans ?_
  cases file.access.verdict n with
  | none => exact AccessBits.has_empty n
  | some on => cases on <;> rfl

theorem deny_configure (hn : n < 64) :
    (file.configureWith held).deny.has n = decide (file.access.verdict n = some false) := by
  have h := (verdict_readTable hn ⟨grantedBits held, 0, 0, (grantedBits held).has bit.CHAT_HISTORY⟩
    file.access).deny
  refine h.trans ?_
  cases file.access.verdict n with
  | none => exact AccessBits.has_empty n
  | some on => cases on <;> rfl

theorem historyNamed_configure :
    (file.configureWith held).historyNamed = ((grantedBits held).has bit.CHAT_HISTORY ||
      (keysSay file.access.named bit.CHAT_HISTORY).isSome ||
      decide (bit.CHAT_HISTORY ∈ file.access.rawDeny)) :=
  historyNamed_readTable _ _

/-- The bit a file resolves to for its roles, unmasked. -/
def AccountFile.resolves (file : AccountFile) (held : List Role) (n : Nat) : Bool :=
  (file.configureWith held).can (.bit n)

theorem resolves_eq (n : Nat) : file.resolves held n = ((file.configureWith held).access.has n ||
    (!(file.configureWith held).historyNamed && (file.configureWith held).access.has bit.READ_CHAT &&
      decide (n = bit.CHAT_HISTORY))) :=
  has_derive _ true n

def AccountFile.edited (file : AccountFile) (held : List Role) (access : AccessBits)
    (tier : Option Nat) : AccountFile :=
  { file with access := writeAccess file.access access (grantedBits held) tier }

variable {access : AccessBits} {tier : Option Nat}

variable (file held access) in
/-- Bit 56 aside, what is said over the roles is what the edit says. -/
theorem has_edited (h : (tierBits tier).has n = true) (hne : n ≠ bit.CHAT_HISTORY) :
    ((file.edited held access tier).configureWith held).access.has n = access.has n := by
  rw [has_configure (has_tierBits.mp h).1]
  unfold AccountFile.edited AccessTable.verdict
  rw [keysSay_shown h]
  simp only [mem_rawDeny_shown h, mem_rawBits_shown h, hne, if_false]
  cases access.has n <;> cases (grantedBits held).has n <;> cases keyOf n <;>
    by_cases hdeny : n ∈ file.access.rawDeny <;> cases keysSay file.access.named n <;> simp [hdeny]

variable (file held access) in
/-- Bit 56 says what the edit says, or is left to follow read-chat where that is the same. -/
theorem history_edited (h : (tierBits tier).has bit.CHAT_HISTORY = true) :
    ((file.edited held access tier).configureWith held).access.has bit.CHAT_HISTORY =
        access.has bit.CHAT_HISTORY ∧
      (access.has bit.CHAT_HISTORY = false →
        ((file.edited held access tier).configureWith held).historyNamed = true ∨
          access.has bit.READ_CHAT = false) ∨
    access.has bit.CHAT_HISTORY = true ∧ access.has bit.READ_CHAT = true ∧
      ((file.edited held access tier).configureWith held).historyNamed = false := by
  have hkey : keyOf bit.CHAT_HISTORY ≠ none := by decide +kernel
  rw [has_configure (by decide), historyNamed_configure]
  unfold AccountFile.edited AccessTable.verdict
  rw [keysSay_shown h]
  simp only [mem_rawDeny_shown h, mem_rawBits_shown h, hkey, if_false, if_true, and_false, or_false]
  cases access.has bit.CHAT_HISTORY <;> cases access.has bit.READ_CHAT <;>
    cases (grantedBits held).has bit.CHAT_HISTORY <;>
    by_cases hdeny : bit.CHAT_HISTORY ∈ file.access.rawDeny <;>
    cases keysSay file.access.named bit.CHAT_HISTORY <;> simp [hdeny]

/-- The file resolves to what the edit says, of the bits the edit says. -/
theorem resolves_edited (h : Shows tier n) :
    (file.edited held access tier).resolves held n = access.has n := by
  have hshows := has_tierBits.mpr h
  rw [resolves_eq]
  by_cases hne : n = bit.CHAT_HISTORY
  · subst hne
    have hread := has_edited file held access
      (shows_readChat hshows rfl) (by decide)
    rw [hread]
    rcases history_edited file held access hshows with
      ⟨hhas, hnamed⟩ | ⟨hon, hreadOn, hnamed⟩
    · rw [hhas]
      cases hon : access.has bit.CHAT_HISTORY with
      | true => rfl
      | false =>
        rcases hnamed hon with hnamed | hreadOff
        · rw [hnamed]
          rfl
        · rw [hreadOff, Bool.and_false]
          rfl
    · rw [hon, hreadOn, hnamed]
      simp
  · rw [has_edited file held access hshows hne, decide_eq_false hne, Bool.and_false, Bool.or_false]

/-- Above the tier what is granted is as it was, and what is not said follows what it followed. -/
theorem has_above (hn : n < 64) (h : ¬Shows tier n) :
    ((file.edited held access tier).configureWith held).access.has n =
      (file.configureWith held).access.has n := by
  have habove : (tierBits tier).has n = false :=
    Bool.eq_false_iff.mpr fun hshows => h (has_tierBits.mp hshows)
  rw [has_configure hn, has_configure hn]
  exact congrArg (Option.getD · _) (verdict_above hn habove)

end Resolve

/-! ## The same edit again -/

theorem drop_of_get_none {m : Map String Bool} {k : String} (h : m.get k = none) : m.drop k = m := by
  apply Map.ext_entries
  show alter k (fun _ => none) m.entries = m.entries
  have hget : lookup m.entries k = none := h
  revert hget
  induction m.entries with
  | nil => exact fun _ => rfl
  | cons e t ih =>
    obtain ⟨k', v⟩ := e
    intro hget
    rw [lookup_cons] at hget
    unfold alter
    by_cases hk : k' = k
    · rw [if_pos hk] at hget
      cases hget
    · rw [if_neg hk] at hget ⊢
      rw [ih hget]

section Again
variable {t : AccessTable} {access baseline : AccessBits} {tier : Option Nat}

/-- A key that says what its rewriting makes of some key is left alone. -/
theorem writeKey_again {m : Map String Bool} {key : String} {n : Nat} {old : Option Bool}
    (h : m.get key = keyWritten access baseline tier n old) :
    writeKey access baseline tier m (key, n) = m := by
  unfold keyWritten at h
  unfold writeKey
  dsimp only
  split
  · rfl
  · rename_i hunsaid
    rw [if_neg hunsaid] at h
    split
    · rename_i hgiven
      rw [if_pos hgiven] at h
      split
      · rename_i hon
        rw [if_pos hon] at h
        exact drop_of_get_none h
      · rename_i hoff
        rw [if_neg hoff] at h
        exact Map.set_self h
    · rename_i hgiven
      rw [if_neg hgiven] at h
      cases old with
      | some v =>
        dsimp only at h
        rw [h]
        exact Map.set_self h
      | none =>
        dsimp only at h
        by_cases hcond : ((access.has n && !decide (n = bit.CHAT_HISTORY)) ||
            (decide (n = bit.CHAT_HISTORY) && access.has n != access.has bit.READ_CHAT)) = true
        · rw [if_pos hcond] at h
          rw [h]
          exact Map.set_self h
        · rw [if_neg hcond] at h
          rw [h]
          dsimp only
          rw [if_neg hcond]

theorem namedBefore_again :
    namedBefore (writeAccess t access baseline tier) tier =
      (writeAccess t access baseline tier).named := by
  unfold namedBefore
  split
  · rfl
  · rename_i hsaid
    have hnone : (writeAccess t access baseline tier).named.get "chat_history" = none := by
      rw [get_writeAccess, lookup_eq_none.mpr notMem_names]
      dsimp only
      unfold namedBefore
      rw [if_neg hsaid, get_renameHistory, if_pos rfl]
    unfold renameHistory
    rw [hnone]

theorem named_again :
    (writeAccess (writeAccess t access baseline tier) access baseline tier).named =
      (writeAccess t access baseline tier).named := by
  have hfixed : ∀ e ∈ NAMES, writeKey (access &&& tierBits tier) (baseline &&& tierBits tier) tier
      (writeAccess t access baseline tier).named e = (writeAccess t access baseline tier).named := by
    rintro ⟨key, n⟩ hmem
    have hwritten : (writeAccess t access baseline tier).named.get key =
        keyWritten (access &&& tierBits tier) (baseline &&& tierBits tier) tier n
          ((namedBefore t tier).get key) := by
      rw [get_writeAccess, lookup_names.mpr (keyOf_eq_some.mpr hmem)]
    exact writeKey_again hwritten
  rw [named_writeAccess, namedBefore_again]
  revert hfixed
  generalize (writeAccess t access baseline tier).named = m
  induction NAMES with
  | nil => exact fun _ => rfl
  | cons e l ih =>
    intro hfixed
    rw [List.foldl_cons, hfixed e List.mem_cons_self]
    exact ih fun e he => hfixed e (List.mem_cons_of_mem _ he)

/-- The same edit again changes nothing. -/
theorem writeAccess_twice :
    writeAccess (writeAccess t access baseline tier) access baseline tier =
      writeAccess t access baseline tier := by
  have hext : ∀ a b : AccessTable,
      a.rawBits = b.rawBits → a.rawDeny = b.rawDeny → a.named = b.named → a = b := by
    rintro ⟨⟩ ⟨⟩ rfl rfl rfl
    rfl
  refine hext _ _ (eq_of_strict (strict_numbers _) (strict_numbers _) fun n => ?_)
    (eq_of_strict (strict_numbers _) (strict_numbers _) fun n => ?_) named_again
  · rw [mem_rawBits, mem_rawBits, AccessBits.has_andNot, AccessBits.has_and]
    constructor
    · rintro (h | ⟨⟨h, -⟩ | h, -, habove⟩)
      · exact .inl h
      · rw [habove] at h
        simp at h
      · exact .inr h
    · rintro (h | h)
      · exact .inl h
      · exact .inr ⟨.inr h, h.2⟩
  · rw [mem_rawDeny, mem_rawDeny, AccessBits.has_andNot, AccessBits.has_and]
    constructor
    · rintro (⟨h, -⟩ | h)
      · exact h
      · exact .inr h
    · rintro (h | ⟨h, hkey⟩)
      · exact .inl ⟨.inl h, h.2⟩
      · exact .inr ⟨h, hkey⟩

end Again

/-! ## Overrides -/

section Overrides
variable {t : AccessTable} {grant deny : AccessBits} {n : Nat}

theorem get_writeOverrides (k : String) :
    (writeOverrides t grant deny).named.get k = match lookup NAMES k with
      | some n => if grant.has n || deny.has n then some (grant.has n) else none
      | none => (renameHistory t.named).get k := by
  refine get_foldl_keys (g := fun n _ =>
    if grant.has n || deny.has n then some (grant.has n) else none) (fun m e k => ?_) nodup_names _ k
  obtain ⟨key, n⟩ := e
  dsimp only
  by_cases hnamed : (grant.has n || deny.has n) = true
  · rw [if_pos hnamed, if_pos hnamed]
    exact Map.get_set _ _ _
  · rw [if_neg hnamed, if_neg hnamed]
    exact Map.get_drop _ _

/-- What is granted and denied, apart, is what is then said. -/
theorem verdict_writeOverrides (hd : (grant.has n && deny.has n) = false) :
    (writeOverrides t grant deny).verdict n =
      if grant.has n then some true else if deny.has n then some false else none := by
  have hold : lookup NAMES "chat_history" = none := lookup_eq_none.mpr notMem_names
  have hraw : n ∈ (writeOverrides t grant deny).rawBits ↔ grant.has n = true ∧ keyOf n = none := by
    show n ∈ numbers _ ↔ _
    rw [mem_numbers, mem_namesOf]
  have hdeny : n ∈ (writeOverrides t grant deny).rawDeny ↔ deny.has n = true ∧ keyOf n = none := by
    show n ∈ numbers _ ↔ _
    rw [mem_numbers, mem_namesOf]
  unfold AccessTable.verdict
  simp only [hraw, hdeny]
  cases hkey : keyOf n with
  | none =>
    rw [keysSay_of_unnamed hkey]
    cases hg : grant.has n <;> cases hdn : deny.has n <;> simp_all
  | some key =>
    have hkeys : keysSay (writeOverrides t grant deny).named n =
        if grant.has n || deny.has n then some (grant.has n) else none := by
      unfold keysSay
      rw [hkey, Option.bind_some, get_writeOverrides, get_writeOverrides, lookup_names.mpr hkey, hold]
      dsimp only
      rw [get_renameHistory, if_pos rfl, ite_self, Option.or_none]
    rw [hkeys]
    cases hg : grant.has n <;> cases hdn : deny.has n <;> simp_all

end Overrides

/-! ## The whole of it -/

/-- What an edit of the access bits leaves: the file resolves to what the edit says on every bit it
says; above the tier every key and number stays as written, so each bit resolves as it did, bit 56
following bit 9 where it is not named; a bit that is set and that a role gives has no key of its own;
and the same edit again changes nothing. -/
structure SaysExactly (file : AccountFile) (held : List Role) (access : AccessBits)
    (tier : Option Nat) : Prop where
  resolves : ∀ n, Shows tier n → (file.edited held access tier).resolves held n = access.has n
  keys : ∀ key n, namedBit key = some n → n < 64 → ¬Shows tier n →
    (file.edited held access tier).access.named.get key = file.access.named.get key
  rawBits : ∀ n < 64, ¬Shows tier n →
    (n ∈ (file.edited held access tier).access.rawBits ↔ n ∈ file.access.rawBits)
  rawDeny : ∀ n < 64, ¬Shows tier n →
    (n ∈ (file.edited held access tier).access.rawDeny ↔ n ∈ file.access.rawDeny)
  above : ∀ n < 64, ¬Shows tier n → n ≠ bit.CHAT_HISTORY →
    (file.edited held access tier).resolves held n = file.resolves held n
  history : ¬Shows tier bit.CHAT_HISTORY →
    (file.edited held access tier).resolves held bit.CHAT_HISTORY =
      if (file.configureWith held).historyNamed then file.resolves held bit.CHAT_HISTORY
      else (file.configureWith held).access.has bit.CHAT_HISTORY ||
        (file.edited held access tier).resolves held bit.READ_CHAT
  follows : ∀ n, Shows tier n → access.has n = true → (grantedBits held).has n = true →
    (∀ key, namedBit key = some n → (file.edited held access tier).access.named.get key = none) ∧
      n ∉ (file.edited held access tier).access.rawBits ∧
      n ∉ (file.edited held access tier).access.rawDeny
  again : (file.edited held access tier).edited held access tier = file.edited held access tier

/-- Every bit an editor shows and left as it was shown resolves as it did. -/
def KeepsShown (edit : AccountEdit) (roles : Roles) (login : String) (file : AccountFile) : Prop :=
  ∀ file' sent shown, edit.apply roles login (some file) = .ok file' → edit.overrides = none →
    edit.access = some sent → edit.shown = some shown →
    ∀ n, Shows edit.editorTier n → sent.has n = shown.has n →
      file'.resolves (roles.held file'.roles) n = file.resolves (roles.held file.roles) n

/-- A file's own grants and denials become those given, where they are apart. -/
def SetsOverrides (file : AccountFile) (held : List Role) (grant deny : AccessBits) : Prop :=
  grant &&& deny = 0 →
    let config := { file with access := writeOverrides file.access grant deny }.configureWith held
    config.grant = grant ∧ config.deny = deny

theorem saysExactly_edited (file : AccountFile) (held : List Role) (access : AccessBits)
    (tier : Option Nat) : SaysExactly file held access tier := by
  have habove : ∀ {n}, ¬Shows tier n → (tierBits tier).has n = false := fun h =>
    Bool.eq_false_iff.mpr fun hshows => h (has_tierBits.mp hshows)
  refine ⟨fun n h => resolves_edited h, fun key n hkey hn h => get_above hn (habove h) hkey,
    fun n hn h => mem_rawBits_above hn (habove h), fun n _ h => mem_rawDeny_above (habove h),
    fun n hn h hne => ?_, fun h => ?_, fun n h hon hgiven => ?_, ?_⟩
  · rw [resolves_eq, resolves_eq, has_above hn h, decide_eq_false hne, Bool.and_false, Bool.and_false]
  · have hnamed : ((file.edited held access tier).configureWith held).historyNamed =
        (file.configureWith held).historyNamed := by
      rw [historyNamed_configure, historyNamed_configure]
      unfold AccountFile.edited
      simp only [keysSay_above (show bit.CHAT_HISTORY < 64 by decide) (habove h),
        mem_rawDeny_above (habove h)]
    have hne : bit.READ_CHAT ≠ bit.CHAT_HISTORY := by decide
    rw [resolves_eq, resolves_eq, resolves_eq, has_above (by decide) h, hnamed, decide_eq_false hne,
      Bool.and_false, Bool.or_false]
    cases (file.configureWith held).historyNamed <;> simp
  · have hshows := has_tierBits.mpr h
    refine ⟨fun key hkey => get_shown hshows hkey hon hgiven, fun hmem => ?_, fun hmem => ?_⟩
    · have := ((mem_rawBits_shown hshows).mp hmem).2.1
      rw [hgiven] at this
      cases this
    · have := ((mem_rawDeny_shown hshows).mp hmem).1
      rw [hon] at this
      cases this
  · unfold AccountFile.edited
    dsimp only
    rw [writeAccess_twice]

theorem keepsShown_apply (edit : AccountEdit) (roles : Roles) (login : String) (file : AccountFile) :
    KeepsShown edit roles login file := by
  intro file' sent shown happly hover hsent hshown n hn hsame
  unfold AccountEdit.apply at happly
  rw [hover, hsent, hshown] at happly
  simp only [bind_eq_ok, pure_eq_ok] at happly
  obtain ⟨listed, -, rfl⟩ := happly
  have hnow : (file.intoAccount login roles).access.has n = file.resolves (roles.held file.roles) n :=
    can_accountWith file login _ (.bit n)
  refine (resolves_edited hn).trans ?_
  rw [AccessBits.has_or, AccessBits.has_andNot, AccessBits.has_and, AccessBits.has_xor, hnow, hsame]
  simp

theorem setsOverrides (file : AccountFile) (held : List Role) (grant deny : AccessBits) :
    SetsOverrides file held grant deny := by
  intro hdisjoint
  have hapart : ∀ n, (grant.has n && deny.has n) = false := by
    intro n
    rw [← AccessBits.has_and, hdisjoint]
    exact AccessBits.has_empty n
  refine ⟨AccessBits.ext_has fun n hn => ?_, AccessBits.ext_has fun n hn => ?_⟩
  · rw [grant_configure hn]
    show decide ((writeOverrides file.access grant deny).verdict n = some true) = grant.has n
    rw [verdict_writeOverrides (hapart n)]
    cases hg : grant.has n <;> cases hd : deny.has n <;> simp
  · rw [deny_configure hn]
    show decide ((writeOverrides file.access grant deny).verdict n = some false) = deny.has n
    have := hapart n
    rw [verdict_writeOverrides (hapart n)]
    cases hg : grant.has n <;> cases hd : deny.has n <;> simp_all

/-- An account edit says what it was asked to: the bits, what its editor left as shown, and the
account's own keys. -/
theorem edit_says :
    (∀ file held access tier, SaysExactly file held access tier) ∧
      (∀ edit roles login file, KeepsShown edit roles login file) ∧
      ∀ file held grant deny, SetsOverrides file held grant deny :=
  ⟨saysExactly_edited, keepsShown_apply, setsOverrides⟩

/-- A file that grants only read-chat, which bit 56 follows. -/
def reader : AccountFile := { access := { named := Map.empty.set "read_chat" true } }

/-- The bits it resolves to. -/
def readerBits : AccessBits := (0 : AccessBits).withBit bit.READ_CHAT |>.withBit bit.CHAT_HISTORY

/-- An edit by an editor that shows bits up to 40, clearing read-chat. -/
def unread : AccountEdit where
  login := "al"
  access := some (readerBits.without bit.READ_CHAT)
  editorTier := some 40
  shown := some readerBits

/-- A role, and a file of its holder with a key of its own for a bit the role gives. -/
def sharing : Role := { Role.empty "r" with access := (0 : AccessBits).withBit 60 }

def sharer : AccountFile := { access := { named := Map.empty.set "screen_share" true } }

/-- Above the tier a bit sent as it was shown may resolve otherwise, and one a role gives keeps a key
of its own. -/
theorem above_tier :
    (¬ ∀ (edit : AccountEdit) (roles : Roles) (login : String) (file file' : AccountFile)
        (sent shown : AccessBits), edit.apply roles login (some file) = .ok file' →
        edit.overrides = none → edit.access = some sent → edit.shown = some shown →
        ∀ n, sent.has n = shown.has n →
          file'.resolves (roles.held file'.roles) n = file.resolves (roles.held file.roles) n) ∧
      ¬ ∀ (file : AccountFile) (held : List Role) (access : AccessBits) (tier : Option Nat) (n : Nat),
        (file.edited held access tier).resolves held n = true → (grantedBits held).has n = true →
        ∀ key, namedBit key = some n → (file.edited held access tier).access.named.get key = none := by
  constructor
  · intro h
    have hafter := h unread .empty "al" reader
      { reader with access := { named := Map.empty.set "read_chat" false } }
      (readerBits.without bit.READ_CHAT) readerBits (by decide +kernel) rfl rfl rfl bit.CHAT_HISTORY
      (by decide +kernel)
    revert hafter
    decide +kernel
  · intro h
    have hkey := h sharer [sharing] 0 (some 40) 60 (by decide +kernel) (by decide +kernel)
      "screen_share" (by decide +kernel)
    revert hkey
    decide +kernel

end HxdNg.Accounts
