import Mathlib

/-!
# The access bitmap

* `AccessBits` : 64 bits, bit 0 the highest; `has`, `withBit`, `without` and what they leave;
* `within_iff` : a bitmap has no bit beyond another's;
* `NAMES`, `named`, `namesOf` : the named bits.
-/

namespace HxdNg.Accounts

/-- Bit `n` of the protocol is stored at `63 - n`. -/
abbrev AccessBits := BitVec 64

namespace AccessBits

/-- Bits from 64 on read as unset. -/
def has (a : AccessBits) (n : Nat) : Bool := decide (n < 64) && a.getLsbD (63 - n)

def withBit (a : AccessBits) (n : Nat) : AccessBits := if n < 64 then a ||| 1#64 <<< (63 - n) else a

def without (a : AccessBits) (n : Nat) : AccessBits :=
  if n < 64 then a &&& ~~~(1#64 <<< (63 - n)) else a

theorem getLsbD_one_shift {n i : Nat} (hn : n < 64) (hi : i < 64) :
    (1#64 <<< (63 - n)).getLsbD i = decide (i = 63 - n) := by
  rw [BitVec.getLsbD_shiftLeft, BitVec.getLsbD_one]
  simp only [hi, decide_true, Bool.true_and]
  by_cases h : i = 63 - n
  · simp [h]
  · by_cases hlt : i < 63 - n
    · simp [hlt, h]
    · have : i - (63 - n) ≠ 0 := by omega
      simp [hlt, h, this]

@[simp] theorem has_empty (n : Nat) : (0 : AccessBits).has n = false := by
  rw [has, show (0 : AccessBits) = 0#64 from rfl, BitVec.getLsbD_zero, Bool.and_false]

@[simp] theorem has_or (a b : AccessBits) (n : Nat) : has (a ||| b) n = (a.has n || b.has n) := by
  rw [has, has, has, BitVec.getLsbD_or, Bool.and_or_distrib_left]

@[simp] theorem has_and (a b : AccessBits) (n : Nat) : has (a &&& b) n = (a.has n && b.has n) := by
  rw [has, has, has, BitVec.getLsbD_and]
  cases decide (n < 64) <;> rfl

@[simp] theorem has_xor (a b : AccessBits) (n : Nat) :
    has (a ^^^ b) n = (a.has n ^^ b.has n) := by
  rw [has, has, has, BitVec.getLsbD_xor]
  cases decide (n < 64) <;> simp

/-- What is in one bitmap and not in another. -/
@[simp] theorem has_andNot (a b : AccessBits) (n : Nat) :
    has (a &&& ~~~b) n = (a.has n && !b.has n) := by
  rw [has_and]
  unfold has
  by_cases hn : n < 64
  · rw [BitVec.getLsbD_not, decide_eq_true hn, decide_eq_true (by omega : 63 - n < 64)]
    simp
  · rw [decide_eq_false hn]
    rfl

@[simp] theorem has_withBit (a : AccessBits) (b n : Nat) :
    (a.withBit b).has n = (a.has n || decide (n = b ∧ n < 64)) := by
  unfold withBit
  split
  case isTrue hb =>
    rw [has_or]
    refine congrArg (a.has n || ·) ?_
    unfold has
    by_cases hn : n < 64
    · rw [getLsbD_one_shift hb (by omega), decide_eq_true hn, Bool.true_and]
      exact decide_eq_decide.2 ⟨fun h => ⟨by omega, hn⟩, fun h => by rw [h.1]⟩
    · rw [decide_eq_false hn, Bool.false_and]
      exact (decide_eq_false fun h => hn h.2).symm
  case isFalse hb =>
    have hno : ¬(n = b ∧ n < 64) := fun h => hb (h.1 ▸ h.2)
    rw [decide_eq_false hno, Bool.or_false]

@[simp] theorem has_without (a : AccessBits) (b n : Nat) :
    (a.without b).has n = (a.has n && decide (n ≠ b)) := by
  unfold without
  split
  case isTrue hb =>
    unfold has
    by_cases hn : n < 64
    · rw [BitVec.getLsbD_and, BitVec.getLsbD_not, getLsbD_one_shift hb (by omega),
        decide_eq_true hn, decide_eq_true (by omega : 63 - n < 64), Bool.true_and, Bool.true_and,
        Bool.true_and, ← decide_not]
      refine congrArg (a.getLsbD (63 - n) && ·) (decide_eq_decide.2 ?_)
      omega
    · rw [decide_eq_false hn, Bool.false_and, Bool.false_and, Bool.false_and]
  case isFalse hb =>
    by_cases hn : n = b
    · have : a.has n = false := by rw [has, decide_eq_false (hn ▸ hb), Bool.false_and]
      rw [this, Bool.false_and]
    · rw [decide_eq_true hn, Bool.and_true]

theorem ext_has {a b : AccessBits} (h : ∀ n < 64, a.has n = b.has n) : a = b := by
  refine BitVec.eq_of_getLsbD_eq fun i hi => ?_
  have := h (63 - i) (by omega)
  rw [has, has, show 63 - (63 - i) = i by omega, decide_eq_true (by omega : 63 - i < 64),
    Bool.true_and, Bool.true_and] at this
  exact this

/-- No bit of `a` is beyond those of `b`. -/
theorem within_iff {a b : AccessBits} :
    a &&& ~~~b = 0 ↔ ∀ n, a.has n = true → b.has n = true := by
  constructor
  · intro h n hn
    rw [has, Bool.and_eq_true, decide_eq_true_eq] at hn
    have hbit := congrArg (·.getLsbD (63 - n)) h
    simp only [BitVec.getLsbD_and, BitVec.getLsbD_not, hn.2, Bool.true_and,
      decide_eq_true (by omega : 63 - n < 64)] at hbit
    rw [has, decide_eq_true hn.1, Bool.true_and]
    simpa using hbit
  · intro h
    refine BitVec.eq_of_getLsbD_eq fun i hi => ?_
    rw [BitVec.getLsbD_and, BitVec.getLsbD_not, decide_eq_true hi, Bool.true_and]
    have := h (63 - i)
    rw [has, has, show 63 - (63 - i) = i by omega, decide_eq_true (by omega : 63 - i < 64),
      Bool.true_and, Bool.true_and] at this
    rw [show (0 : AccessBits) = 0#64 from rfl, BitVec.getLsbD_zero]
    cases ha : a.getLsbD i with
    | false => rfl
    | true =>
      rw [this ha]
      rfl

end AccessBits

/-! ## Names -/

namespace bit

def READ_CHAT : Nat := 9
def CREATE_USERS : Nat := 14
def DELETE_USERS : Nat := 15
def MODIFY_USERS : Nat := 17
def DISCONNECT_USERS : Nat := 22
def CHAT_HISTORY : Nat := 56
def SEND_MEDIA : Nat := 57

end bit

/-- Every bit's name: the key an account file grants it by. -/
def NAMES : List (String × Nat) :=
  [("delete_files", 0), ("upload_files", 1), ("download_files", 2), ("rename_files", 3),
    ("move_files", 4), ("create_folders", 5), ("delete_folders", 6), ("rename_folders", 7),
    ("move_folders", 8), ("read_chat", bit.READ_CHAT), ("send_chat", 10), ("create_pchats", 11),
    ("create_users", bit.CREATE_USERS), ("delete_users", bit.DELETE_USERS), ("read_users", 16),
    ("modify_users", bit.MODIFY_USERS), ("read_news", 20), ("post_news", 21),
    ("disconnect_users", bit.DISCONNECT_USERS), ("cant_be_disconnected", 23), ("get_user_info", 24),
    ("upload_anywhere", 25), ("use_any_name", 26), ("dont_show_agreement", 27),
    ("comment_files", 28), ("comment_folders", 29), ("view_drop_boxes", 30), ("make_aliases", 31),
    ("can_broadcast", 32), ("delete_articles", 33), ("create_categories", 34),
    ("delete_categories", 35), ("create_news_bundles", 36), ("delete_news_bundles", 37),
    ("upload_folders", 38), ("download_folders", 39), ("send_msgs", 40), ("voice_chat", 55),
    ("read_chat_history", bit.CHAT_HISTORY), ("send_media", bit.SEND_MEDIA), ("messaging", 58),
    ("video_chat", 59), ("screen_share", 60)]

def named (name : String) : Option Nat := (NAMES.find? (·.1 = name)).map (·.2)

/-- The names of a bitmap's named bits, and the numbers of the rest. -/
def namesOf (access : AccessBits) : List String × List Nat :=
  ((NAMES.filter fun p => access.has p.2).map (·.1),
    (List.range 64).filter fun b => access.has b && !NAMES.any (·.2 = b))

/-- The bit an account file's key names. The older name of bit 56 is still read. -/
def namedBit (key : String) : Option Nat :=
  if key = "chat_history" then some bit.CHAT_HISTORY else named key

end HxdNg.Accounts
