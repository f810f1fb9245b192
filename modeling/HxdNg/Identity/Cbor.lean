import HxdNg.Lib.Bytes
import HxdNg.Lib.Sorting

/-!
# The CBOR subset of the identity objects

`encode` writes the deterministic form; `Reader.item` reads leniently; `decodeCanonical` accepts a
byte string when the value read re-encodes to it and no map repeats a key. A reader's state is the
input it has not consumed, and its nesting is counted down: `room` is `MAX_DEPTH + 1` less the depth
the source counts up.
-/

namespace HxdNg.Identity.Cbor

/-- A decoded value. A text is UTF-8 by its type, as in the source. -/
inductive Value where
  | uint (n : UInt64)
  | bytes (b : List UInt8)
  | text (s : String)
  | array (items : List Value)
  | map (entries : List (Value × Value))
  | bool (b : Bool)

/-- Why a byte string failed to decode. -/
inductive CborError where
  | truncated
  | trailing
  | unsupported (b : UInt8)
  | utf8
  | tooDeep
  | notCanonical
  deriving DecidableEq, Repr

def maxDepth : Nat := 8

/-! ## Encoding -/

/-- The shortest head of a major type and its argument. -/
def putHead (major : UInt8) (n : Nat) : List UInt8 :=
  let mt := major <<< 5
  if n < 24 then [mt ||| UInt8.ofNat n]
  else if n ≤ 0xff then [mt ||| 24, UInt8.ofNat n]
  else if n ≤ 0xffff then (mt ||| 25) :: beBytes 2 n
  else if n ≤ 0xffffffff then (mt ||| 26) :: beBytes 4 n
  else (mt ||| 27) :: beBytes 8 n

/-- Encode a value in deterministic form: map entries go out sorted by their encoded keys. -/
def encode : Value → List UInt8
  | .uint n => putHead 0 n.toNat
  | .bytes b => putHead 2 b.length ++ b
  | .text s => putHead 3 (utf8 s).length ++ utf8 s
  | .array items => putHead 4 items.length ++ encodeItems items
  | .map entries =>
    let encoded := sortBy Prod.fst (encodeEntries entries)
    putHead 5 encoded.length ++ encoded.flatMap fun e => e.1 ++ e.2
  | .bool b => [if b then 0xf5 else 0xf4]
where
  encodeItems : List Value → List UInt8
    | [] => []
    | v :: vs => encode v ++ encodeItems vs
  encodeEntries : List (Value × Value) → List (List UInt8 × List UInt8)
    | [] => []
    | (k, v) :: es => (encode k, encode v) :: encodeEntries es

/-! ## Reading -/

namespace Reader

def byte : List UInt8 → Except CborError (UInt8 × List UInt8)
  | [] => .error .truncated
  | b :: buf => .ok (b, buf)

def take (n : Nat) (buf : List UInt8) : Except CborError (List UInt8 × List UInt8) :=
  if n ≤ buf.length then .ok (buf.take n, buf.drop n) else .error .truncated

/-- A head: its major type and its argument, in any of the argument's widths. -/
def head (buf : List UInt8) : Except CborError ((UInt8 × Nat) × List UInt8) := do
  let (b, buf) ← byte buf
  let major := b >>> 5
  let ai := b &&& 0x1f
  if ai < 24 then
    return ((major, ai.toNat), buf)
  else if ai = 24 then
    let (x, buf) ← byte buf
    return ((major, x.toNat), buf)
  else if ai = 25 then
    let (x, buf) ← take 2 buf
    return ((major, ofBe x), buf)
  else if ai = 26 then
    let (x, buf) ← take 4 buf
    return ((major, ofBe x), buf)
  else if ai = 27 then
    let (x, buf) ← take 8 buf
    return ((major, ofBe x), buf)
  else
    throw (.unsupported b)

/-- `n` items one after another. -/
def items {α : Type} (item : List UInt8 → Except CborError (α × List UInt8)) :
    Nat → List UInt8 → Except CborError (List α × List UInt8)
  | 0, buf => .ok ([], buf)
  | n + 1, buf => do
    let (x, buf) ← item buf
    let (xs, buf) ← items item n buf
    return (x :: xs, buf)

/-- A map entry: two items. -/
def entry (item : List UInt8 → Except CborError (Value × List UInt8)) (buf : List UInt8) :
    Except CborError ((Value × Value) × List UInt8) := do
  let (k, buf) ← item buf
  let (v, buf) ← item buf
  return ((k, v), buf)

/-- What follows a head, by its major type; `first` is the byte the head began with. -/
def body (item : List UInt8 → Except CborError (Value × List UInt8)) (first : UInt8) (major : UInt8)
    (n : Nat) (buf : List UInt8) : Except CborError (Value × List UInt8) :=
  if major = 0 then
    .ok (.uint (UInt64.ofNat n), buf)
  else if major = 2 then do
    let (b, buf) ← take n buf
    return (.bytes b, buf)
  else if major = 3 then do
    let (b, buf) ← take n buf
    match fromUtf8 b with
    | some s => return (.text s, buf)
    | none => throw .utf8
  else if major = 4 then
    -- a count larger than the remaining input cannot be honest
    if n > buf.length then .error .truncated
    else do
      let (vs, buf) ← items item n buf
      return (.array vs, buf)
  else if major = 5 then
    if n > buf.length / 2 then .error .truncated
    else do
      let (es, buf) ← items (entry item) n buf
      return (.map es, buf)
  else .error (.unsupported first)

/-- One item, with `room` levels left to nest in. The booleans are read before `head`, since the
arguments of major type 7 are not lengths. -/
def item : (room : Nat) → List UInt8 → Except CborError (Value × List UInt8)
  | 0, _ => .error .tooDeep
  | room + 1, buf =>
    match buf with
    | [] => .error .truncated
    | first :: rest =>
      if first = 0xf4 then .ok (.bool false, rest)
      else if first = 0xf5 then .ok (.bool true, rest)
      else do
        let ((major, n), buf) ← head (first :: rest)
        body (item room) first major n buf

end Reader

/-! ## Equality of values -/

/-- Structural equality, as the source derives it. -/
def Value.beq : Value → Value → Bool
  | .uint m, .uint n => m == n
  | .bytes a, .bytes b => a == b
  | .text s, .text t => s == t
  | .array a, .array b => beqItems a b
  | .map a, .map b => beqEntries a b
  | .bool a, .bool b => a == b
  | _, _ => false
where
  beqItems : List Value → List Value → Bool
    | [], [] => true
    | v :: vs, w :: ws => Value.beq v w && beqItems vs ws
    | _, _ => false
  beqEntries : List (Value × Value) → List (Value × Value) → Bool
    | [], [] => true
    | (k, v) :: es, (l, w) :: fs => Value.beq k l && Value.beq v w && beqEntries es fs
    | _, _ => false

/-- Induction on a value, its members all at once. -/
@[elab_as_elim, induction_eliminator]
theorem Value.induction {P : Value → Prop} (uint : ∀ n, P (.uint n)) (bytes : ∀ b, P (.bytes b))
    (text : ∀ s, P (.text s)) (array : ∀ items, (∀ v ∈ items, P v) → P (.array items))
    (map : ∀ entries, (∀ e ∈ entries, P e.1 ∧ P e.2) → P (.map entries))
    (bool : ∀ b, P (.bool b)) (v : Value) : P v :=
  @Value.rec P (fun items => ∀ v ∈ items, P v) (fun entries => ∀ e ∈ entries, P e.1 ∧ P e.2)
    (fun e => P e.1 ∧ P e.2)
    uint bytes text array map bool (by simp) (fun _ _ hv hvs => by simpa using ⟨hv, hvs⟩)
    (by simp) (fun _ _ he hes => List.forall_mem_cons.mpr ⟨he, hes⟩) (fun _ _ hk hv => ⟨hk, hv⟩) v

theorem Value.beq_iff (v w : Value) : v.beq w = true ↔ v = w := by
  induction v generalizing w with
  | uint n => cases w <;> simp [Value.beq]
  | bytes b => cases w <;> simp [Value.beq]
  | text s => cases w <;> simp [Value.beq]
  | bool b => cases w <;> simp [Value.beq]
  | array vs ih =>
    cases w with
    | array ws =>
      simp only [Value.beq, Value.array.injEq]
      induction vs generalizing ws with
      | nil => cases ws <;> simp [Value.beq.beqItems]
      | cons v vs ihl =>
        rw [List.forall_mem_cons] at ih
        cases ws <;> simp [Value.beq.beqItems, ih.1, ihl ih.2]
    | _ => simp [Value.beq]
  | map es ih =>
    cases w with
    | map fs =>
      simp only [Value.beq, Value.map.injEq]
      induction es generalizing fs with
      | nil => cases fs <;> simp [Value.beq.beqEntries]
      | cons e es ihl =>
        rw [List.forall_mem_cons] at ih
        obtain ⟨k, v⟩ := e
        cases fs <;> simp [Value.beq.beqEntries, ih.1, ihl ih.2, Prod.ext_iff]
    | _ => simp [Value.beq]

instance : DecidableEq Value := fun v w => decidable_of_iff _ (Value.beq_iff v w)

/-! ## The canonical decoder -/

/-- Adjacent keys of a map equal, at any level. -/
def hasDuplicateKeys : Value → Bool
  | .map entries =>
    (entries.zip entries.tail).any (fun w => w.1.1 == w.2.1) || inEntries entries
  | .array items => inItems items
  | _ => false
where
  inItems : List Value → Bool
    | [] => false
    | v :: vs => hasDuplicateKeys v || inItems vs
  inEntries : List (Value × Value) → Bool
    | [] => false
    | (k, v) :: es => hasDuplicateKeys k || hasDuplicateKeys v || inEntries es

/-- Decode one item, requiring the input to be exactly its deterministic encoding. -/
def decodeCanonical (bytes : List UInt8) : Except CborError Value := do
  let (v, rest) ← Reader.item (maxDepth + 1) bytes
  if rest ≠ [] then throw .trailing
  else if encode v ≠ bytes then throw .notCanonical
  else if hasDuplicateKeys v then throw .notCanonical
  else return v

/-- The length of the one item at the start of `bytes`, whatever follows it. -/
def itemLen (bytes : List UInt8) : Except CborError Nat := do
  let (_, rest) ← Reader.item (maxDepth + 1) bytes
  return bytes.length - rest.length

/-! ## Maps of text keys -/

/-- Look up a text key in a map. -/
def Value.get (key : String) : Value → Option Value
  | .map entries => (entries.find? fun e => e.1 = .text key).map Prod.snd
  | _ => none

/-- The same map with one text key removed. -/
def Value.without (key : String) : Value → Value
  | .map entries => .map (entries.filter fun e => e.1 ≠ .text key)
  | v => v

/-- Build a map from text keys, leaving out the absent ones. -/
def map (entries : List (String × Option Value)) : Value :=
  .map (entries.filterMap fun e => e.2.map fun v => (.text e.1, v))

end HxdNg.Identity.Cbor
