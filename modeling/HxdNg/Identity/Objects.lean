import HxdNg.Identity.Forms
import HxdNg.Identity.Vectors

/-!
# The three objects are lawful

The size of a map from the sizes of its fields, the worst case of each object within its bound, and
the laws the wire forms rest on for private messages, chat lines and articles.
-/

namespace HxdNg.Identity

open Cbor

/-! ## Sizes -/

theorem length_putHead_le (m : UInt8) (n : Nat) : (putHead m n).length ≤ 9 := by
  unfold putHead
  split_ifs <;> simp

theorem length_putHead_of_lt {m : UInt8} {n : Nat} (h : n < 24) : (putHead m n).length = 1 := by
  simp [putHead, h]

theorem length_putHead_of_le_byte {m : UInt8} {n : Nat} (h : n ≤ 0xff) :
    (putHead m n).length ≤ 2 := by
  unfold putHead
  split_ifs <;> simp

theorem length_putHead_of_le_word {m : UInt8} {n : Nat} (h : n ≤ 0xffff) :
    (putHead m n).length ≤ 3 := by
  unfold putHead
  split_ifs <;> simp

theorem length_encode_uint_le (n : UInt64) : (encode (.uint n)).length ≤ 9 := by
  rw [encode]
  exact length_putHead_le 0 n.toNat

theorem length_encode_bytes_le {b : List UInt8} {n : Nat} (hb : b.length ≤ n) (hn : n ≤ 0xffff) :
    (encode (.bytes b)).length ≤ 3 + n := by
  rw [encode, List.length_append]
  have := length_putHead_of_le_word (m := 2) (hb.trans hn)
  omega

theorem length_encode_array {n : Nat} (b : Bytes n) (hn : n ≤ 0xff) :
    (encode (.bytes b.val)).length ≤ 2 + n := by
  rw [encode, List.length_append, b.property]
  have := length_putHead_of_le_byte (m := 2) hn
  omega

theorem length_encode_text_le {s : String} {n : Nat} (hs : s.utf8ByteSize ≤ n) (hn : n ≤ 0xffff) :
    (encode (.text s)).length ≤ 3 + n := by
  rw [encode, List.length_append, length_utf8]
  have := length_putHead_of_le_word (m := 3) (hs.trans hn)
  omega

/-- The encoded size of one field, nothing if it is absent. -/
def fieldLen (e : String × Option Value) : Nat :=
  e.2.elim 0 fun v => (encode (.text e.1)).length + (encode v).length

theorem length_encode_fields {es : List (String × Option Value)} (h : es.length < 24) :
    (encode (map es)).length = 1 + (es.map fieldLen).sum := by
  have hcount : (es.filterMap fun e => e.2.map fun v => (Value.text e.1, v)).length < 24 :=
    (List.length_filterMap_le _ _).trans_lt h
  have hsum : ∀ fs : List (String × Option Value),
      ((fs.filterMap fun e => e.2.map fun v => (Value.text e.1, v)).map
        fun e => (encodeEntry e).length).sum = (fs.map fieldLen).sum := fun fs => by
    induction fs with
    | nil => rfl
    | cons e fs ih =>
      obtain ⟨k, o⟩ := e
      cases o with
      | none => simpa [fieldLen] using ih
      | some v => simpa [fieldLen, encodeEntry] using ih
  rw [map, encode_map, List.length_append, length_putHead_of_lt hcount,
    ((perm_sortBy _ _).flatMap_right _).length_eq, List.length_flatMap, hsum]

theorem length_encode_sig {es : List (String × Option Value)} (h : es.length < 23) (sig : Signature) :
    (encode (pushEntry "sig" (.bytes sig.val) (map es))).length = (encode (map es)).length + 70 := by
  rw [pushEntry_fields, length_encode_fields (by simp; omega), length_encode_fields (by omega),
    List.map_append, List.sum_append]
  have hsig : fieldLen ("sig", some (.bytes sig.val)) = 70 := by
    simp only [fieldLen, Option.elim_some]
    rw [encode, encode, List.length_append, List.length_append, sig.property]
    rfl
  simp only [List.map_cons, List.map_nil, List.sum_cons, List.sum_nil, hsig]
  omega

theorem fieldLen_le {key : String} {o : Option Value} {k n : Nat}
    (hk : (encode (.text key)).length = k) (h : ∀ v ∈ o, (encode v).length ≤ n) :
    fieldLen (key, o) ≤ k + n := by
  cases o with
  | none => exact Nat.zero_le _
  | some v =>
    have := h v rfl
    simp only [fieldLen, Option.elim_some]
    omega

theorem fieldLen_some_le (key : String) {v : Value} {k n : Nat}
    (hk : (encode (.text key)).length = k) (h : (encode v).length ≤ n) :
    fieldLen (key, some v) ≤ k + n :=
  fieldLen_le hk fun _ hv => (Option.mem_some.mp hv) ▸ h

theorem fieldLen_flag_le (key : String) {b : Bool} {k : Nat}
    (hk : (encode (.text key)).length = k) : fieldLen (key, flag b) ≤ k + 1 := by
  refine fieldLen_le hk fun v hv => ?_
  cases b with
  | false => cases hv
  | true =>
    obtain rfl : Value.bool true = v := by simpa [flag] using hv
    exact le_rfl

theorem checkText_eq_ok {s key : String} {min max : Nat} {u : Unit} :
    checkText s key min max = .ok u ↔
      isCanonical s = true ∧ min ≤ s.utf8ByteSize ∧ s.utf8ByteSize ≤ max := by
  simp only [checkText, ite_error_eq_ok, not_or, not_not, gt_iff_lt, Nat.not_lt]
  exact ⟨And.left, fun h => ⟨h, trivial⟩⟩

@[simp] theorem flag_inj {a b : Bool} : flag a = flag b ↔ a = b := by
  cases a <;> cases b <;> simp [flag]

theorem flag_sortKeys (b : Bool) : (flag b).map sortKeys = flag b := by cases b <;> rfl

theorem map_text_sortKeys (o : Option String) : (o.map Value.text).map sortKeys = o.map .text := by
  cases o <;> rfl

theorem map_canonicalValue (o : Option String) :
    o.map canonicalValue = (o.map canonicalize).map .text := by
  cases o <;> rfl

theorem map_text_inj {o o' : Option String} : o.map Value.text = o'.map .text ↔ o = o' := by
  cases o <;> cases o' <;> simp

theorem Common.get {v w : Value} {id : Bytes 16} {sent : UInt64} {cert : List UInt8}
    (h : Common v id sent cert) (hw : ∀ key, key ≠ "sig" → w.get key = v.get key) :
    Common w id sent cert :=
  ⟨(hw _ (by decide)).trans h.cert_sha256, (hw _ (by decide)).trans h.id,
    (hw _ (by decide)).trans h.sent, (hw _ (by decide)).trans h.cert⟩

theorem Common.sortKeys {v : Value} {id : Bytes 16} {sent : UInt64} {cert : List UInt8}
    (h : Common v id sent cert) (hv : DistinctKeys v) : Common (sortKeys v) id sent cert :=
  ⟨by rw [get_sortKeys hv, h.cert_sha256]; rfl, by rw [get_sortKeys hv, h.id]; rfl,
    by rw [get_sortKeys hv, h.sent]; rfl, by rw [get_sortKeys hv, h.cert]; rfl⟩

/-! ## Private messages -/

namespace PrivateMessage

def canonical (m : PrivateMessage) : PrivateMessage :=
  { m with text := canonicalize m.text, quote := m.quote.map canonicalize }

def texts (m : PrivateMessage) : object.Texts := ⟨[m.text], rfl⟩

theorem fields_get {v w : Value} {d : Bool} {m : PrivateMessage} (h : Fields v d m)
    (hw : ∀ key, key ≠ "sig" → w.get key = v.get key) : Fields w d m where
  toCommon := h.toCommon.get hw
  scope := (hw _ (by decide)).trans h.scope
  quote := (hw _ (by decide)).trans h.quote
  quote_ok := h.quote_ok
  text := (hw _ (by decide)).trans h.text
  text_ok := h.text_ok
  recipient := (hw _ (by decide)).trans h.recipient
  auto := (hw _ (by decide)).trans h.auto

theorem fields_sortKeys {v : Value} {d : Bool} {m : PrivateMessage} (hv : DistinctKeys v)
    (h : Fields v d m) : Fields (sortKeys v) d m where
  toCommon := h.toCommon.sortKeys hv
  scope := by rw [get_sortKeys hv, h.scope]; rfl
  quote := by rw [get_sortKeys hv, h.quote, map_text_sortKeys]
  quote_ok := h.quote_ok
  text := by rw [get_sortKeys hv, h.text]; rfl
  text_ok := h.text_ok
  recipient := by rw [get_sortKeys hv, h.recipient]; rfl
  auto := by rw [get_sortKeys hv, h.auto, flag_sortKeys]

theorem get_quote_unsigned (m : PrivateMessage) :
    (unsigned m).get "quote" = (m.quote.map canonicalize).map .text := by
  simp [unsigned, get_map_cons, map_canonicalValue]

theorem fields_unsigned {m m' : PrivateMessage} {d : Bool} (h : Fields (unsigned m) d m') :
    m' = canonical m := by
  obtain ⟨⟨-, hid, hsent, hcert⟩, -, hquote, -, htext, -, hto, hauto⟩ := h
  rw [get_quote_unsigned, map_text_inj] at hquote
  simp only [unsigned, get_map_cons] at hid hsent hcert htext hto hauto
  cases m
  cases m'
  simp [canonicalValue, canonical, Subtype.ext_iff] at *
  exact ⟨hid.symm, hsent.symm, hto.symm, hcert.symm, htext.symm, hquote.symm, hauto.symm⟩

theorem fields_whole {v : Value} {m : PrivateMessage} (h : Fields v true m) : Fields v false m where
  toCommon := h.toCommon
  scope := h.scope
  quote := h.quote
  quote_ok := by
    have hq := h.quote_ok
    cases hm : m.quote with
    | none => rfl
    | some q =>
      rw [hm] at hq
      cases hq
  text := h.text
  text_ok := by
    obtain ⟨hc, hmin, hmax⟩ := checkText_eq_ok.mp h.text_ok
    exact checkText_eq_ok.mpr ⟨hc, hmin, hmax.trans (by decide)⟩
  recipient := h.recipient
  auto := h.auto

theorem distinctKeys_unsigned (m : PrivateMessage) : DistinctKeys (unsigned m) := by
  refine distinctKeys_fields (by simp only [List.map]; decide) ?_
  cases hq : m.quote <;> cases ha : m.auto <;> simp [flag, canonicalValue, DistinctKeys]

theorem depth_unsigned (m : PrivateMessage) : depth (unsigned m) ≤ maxDepth := by
  refine depth_fields_le (by decide) ?_
  cases hq : m.quote <;> cases ha : m.auto <;> simp [flag, canonicalValue, depth, maxDepth]

theorem quote_le_of_fields {v : Value} {m : PrivateMessage} (h : Fields v false m) :
    ∀ q ∈ m.quote, q.utf8ByteSize ≤ 8192 := by
  intro q hq
  have hok := h.quote_ok
  rw [Option.mem_def.mp hq] at hok
  exact (checkText_eq_ok.mp hok).2.2

theorem length_fields_le {m m' : PrivateMessage} (h : Fields (unsigned m) false m')
    (hcert : m.cert.length ≤ certMaxBytes) :
    (encode (unsigned m)).length ≤ 17011 := by
  obtain rfl := fields_unsigned h
  have htext : (canonicalize m.text).utf8ByteSize ≤ 8192 := (checkText_eq_ok.mp h.text_ok).2.2
  have hquote := quote_le_of_fields h
  have h1 := fieldLen_some_le "v" (k := 2) rfl (length_encode_uint_le version)
  have h2 := fieldLen_some_le "id" (k := 3) rfl (length_encode_array m.id (by decide))
  have h3 := fieldLen_some_le "sent" (k := 5) rfl (length_encode_uint_le m.sent)
  have h4 := fieldLen_some_le "to" (k := 3) rfl (length_encode_array m.toFp (by decide))
  have h5 := fieldLen_some_le "cert" (k := 5) rfl (length_encode_bytes_le hcert (by decide))
  have h6 := fieldLen_some_le "text" (k := 5) rfl
    (length_encode_text_le (s := canonicalize m.text) htext (by decide))
  have h7 : fieldLen ("quote", m.quote.map canonicalValue) ≤ 6 + (3 + 8192) := by
    refine fieldLen_le rfl fun v hv => ?_
    obtain ⟨q, hq, rfl⟩ := Option.map_eq_some_iff.mp hv
    refine length_encode_text_le (hquote _ ?_) (by decide)
    simp [canonical, hq]
  have h8 := fieldLen_flag_le "auto" (k := 5) (b := m.auto) rfl
  rw [unsigned, length_encode_fields (by simp)]
  simp only [List.map_cons, List.map_nil, List.sum_cons, List.sum_nil, canonicalValue] at h7 ⊢
  unfold certMaxBytes at h5
  omega

theorem lawful : object.Lawful canonical texts where
  nodup := by decide
  apart := by decide
  cert_canonical _ := rfl
  sent_canonical _ := rfl
  texts_canonical _ := rfl
  fromValue_get h hw := fromValue_eq_ok.mpr (fields_get (fromValue_eq_ok.mp h) hw)
  fromValue_sortKeys hv h := fromValue_eq_ok.mpr (fields_sortKeys hv (fromValue_eq_ok.mp h))
  fromValue_unsigned h := fields_unsigned (fromValue_eq_ok.mp h)
  fromValue_whole h := fromValue_eq_ok.mpr (fields_whole (fromValue_eq_ok.mp h))
  get_cert h := ⟨(fromValue_eq_ok.mp h).cert, (fromValue_eq_ok.mp h).cert_sha256⟩
  get_text h := by simpa [object, texts] using (fromValue_eq_ok.mp h).text
  isMap_unsigned _ := rfl
  distinct_unsigned := distinctKeys_unsigned
  depth_unsigned := depth_unsigned
  version_unsigned m := by simp [object, unsigned, get_map_cons]
  unsigned_sig m := by simp [object, unsigned, get_map_cons]
  length_whole sig h hcert := by
    have hlen := length_fields_le (fromValue_eq_ok.mp h) hcert
    refine (length_encode_sig (by simp) sig).trans_le ?_
    exact (Nat.add_le_add_right hlen 70).trans (by decide)
  wholeMaxBytes_lt := by decide

end PrivateMessage

/-! ## Chat lines -/

theorem sortKeys_scope {v scope : Value} {key : String} (hv : DistinctKeys v) {allowed : List String}
    (h : v.get key = some scope) (hk : onlyKeys allowed scope = true) :
    DistinctKeys scope ∧ (sortKeys v).get key = some (sortKeys scope) ∧
      onlyKeys allowed (sortKeys scope) = true := by
  refine ⟨distinctKeys_get hv h, ?_, (onlyKeys_sortKeys _ _).trans hk⟩
  rw [get_sortKeys hv, h]
  rfl

namespace ChatLine

def canonical (m : ChatLine) : ChatLine := { m with text := canonicalize m.text }

def texts (m : ChatLine) : object.Texts := ⟨[m.text], rfl⟩

theorem fields_get {v w : Value} {m : ChatLine} (h : Fields v m)
    (hw : ∀ key, key ≠ "sig" → w.get key = v.get key) : Fields w m where
  toCommon := h.toCommon.get hw
  recipient := (hw _ (by decide)).trans h.recipient
  scope := by rw [hw _ (by decide)]; exact h.scope
  text := (hw _ (by decide)).trans h.text
  text_ok := h.text_ok
  act := (hw _ (by decide)).trans h.act

theorem fields_sortKeys {v : Value} {m : ChatLine} (hv : DistinctKeys v) (h : Fields v m) :
    Fields (sortKeys v) m where
  toCommon := h.toCommon.sortKeys hv
  recipient := by rw [get_sortKeys hv, h.recipient]; rfl
  scope := by
    obtain ⟨scope, hscope, hk, hserver, hroom⟩ := h.scope
    obtain ⟨hd, hget, hkeys⟩ := sortKeys_scope hv hscope hk
    exact ⟨sortKeys scope, hget, hkeys, by rw [get_sortKeys hd, hserver]; rfl,
      by rw [get_sortKeys hd, hroom]; rfl⟩
  text := by rw [get_sortKeys hv, h.text]; rfl
  text_ok := h.text_ok
  act := by rw [get_sortKeys hv, h.act, flag_sortKeys]

theorem fields_unsigned {m m' : ChatLine} (h : Fields (unsigned m) m') : m' = canonical m := by
  obtain ⟨⟨-, hid, hsent, hcert⟩, -, ⟨scope, hscope, -, hserver, hroom⟩, htext, -, hact⟩ := h
  simp [unsigned, get_map_cons, canonicalValue] at hid hsent hcert hscope htext hact
  subst hscope
  simp [get_map_cons] at hserver hroom
  cases m
  cases m'
  simp [canonical, Subtype.ext_iff] at *
  exact ⟨hid.symm, hsent.symm, hserver.symm, hroom.symm, hcert.symm, htext.symm, hact.symm⟩

def scopeValue (m : ChatLine) : Value :=
  map [("server", some (.bytes m.server.val)), ("room", some (.uint m.room))]

theorem distinctKeys_unsigned (m : ChatLine) : DistinctKeys (unsigned m) := by
  have hscope : DistinctKeys (scopeValue m) :=
    distinctKeys_fields (by simp only [List.map]; decide) (by simp [DistinctKeys])
  rw [scopeValue] at hscope
  refine distinctKeys_fields (by simp only [List.map]; decide) ?_
  cases ha : m.act <;> simp [flag, canonicalValue, hscope] <;> simp [DistinctKeys]

theorem depth_unsigned (m : ChatLine) : depth (unsigned m) ≤ maxDepth := by
  have hscope : depth (scopeValue m) ≤ 1 := depth_fields_le (by decide) (by simp [depth])
  rw [scopeValue] at hscope
  refine depth_fields_le (by decide) ?_
  cases ha : m.act <;> simp [flag, canonicalValue, depth, maxDepth] <;> omega

theorem length_fields_le {m m' : ChatLine} (h : Fields (unsigned m) m')
    (hcert : m.cert.length ≤ certMaxBytes) :
    (encode (unsigned m)).length ≤ 800 + 4096 := by
  obtain rfl := fields_unsigned h
  have htext : (canonicalize m.text).utf8ByteSize ≤ 4096 := (checkText_eq_ok.mp h.text_ok).2.2
  have h1 := fieldLen_some_le "v" (k := 2) rfl (length_encode_uint_le version)
  have h2 := fieldLen_some_le "id" (k := 3) rfl (length_encode_array m.id (by decide))
  have h3 := fieldLen_some_le "sent" (k := 5) rfl (length_encode_uint_le m.sent)
  have h4 : (encode (scopeValue m)).length ≤ 60 := by
    have hs := fieldLen_some_le "server" (k := 7) rfl
      (length_encode_array m.server (by decide))
    have hr := fieldLen_some_le "room" (k := 5) rfl (length_encode_uint_le m.room)
    rw [scopeValue, length_encode_fields (by simp)]
    simp only [List.map_cons, List.map_nil, List.sum_cons, List.sum_nil]
    omega
  have h5 := fieldLen_some_le "in" (k := 3) rfl h4
  have h6 := fieldLen_some_le "cert" (k := 5) rfl (length_encode_bytes_le hcert (by decide))
  have h7 := fieldLen_some_le "text" (k := 5) rfl
    (length_encode_text_le (s := canonicalize m.text) htext (by decide))
  have h8 := fieldLen_flag_le "act" (k := 4) (b := m.act) rfl
  rw [unsigned, length_encode_fields (by simp)]
  simp only [List.map_cons, List.map_nil, List.sum_cons, List.sum_nil, canonicalValue]
  unfold scopeValue at h5
  unfold certMaxBytes at h6
  omega

theorem object_fromValue {v : Value} {d : Bool} {m : ChatLine} :
    object.fromValue v d = .ok m ↔ Fields v m :=
  @fromValue_eq_ok v d m

theorem lawful : object.Lawful canonical texts where
  nodup := by decide
  apart := by decide
  cert_canonical _ := rfl
  sent_canonical _ := rfl
  texts_canonical _ := rfl
  fromValue_get h hw := object_fromValue.mpr (fields_get (object_fromValue.mp h) hw)
  fromValue_sortKeys hv h := object_fromValue.mpr (fields_sortKeys hv (object_fromValue.mp h))
  fromValue_unsigned h := fields_unsigned (object_fromValue.mp h)
  fromValue_whole h := h
  get_cert h := ⟨(object_fromValue.mp h).cert, (object_fromValue.mp h).cert_sha256⟩
  get_text h := by simpa [object, texts] using (object_fromValue.mp h).text
  isMap_unsigned _ := rfl
  distinct_unsigned := distinctKeys_unsigned
  depth_unsigned := depth_unsigned
  version_unsigned m := by simp [object, unsigned, get_map_cons]
  unsigned_sig m := by simp [object, unsigned, get_map_cons]
  length_whole sig h hcert := by
    have hlen := length_fields_le (object_fromValue.mp h) hcert
    refine (length_encode_sig (by simp) sig).trans_le ?_
    exact (Nat.add_le_add_right hlen 70).trans (by decide)
  wholeMaxBytes_lt := by decide

end ChatLine

/-! ## Articles -/

namespace Article

def canonical (m : Article) : Article :=
  { m with subject := canonicalize m.subject, body := canonicalize m.body }

def texts (m : Article) : object.Texts := ⟨[m.subject, m.body], rfl⟩

theorem parentFields_get {v w : Value} {p : Option Parent} (h : ParentFields v p)
    (hw : w.get "parent" = v.get "parent") : ParentFields w p := by
  cases p <;> simpa only [ParentFields, hw] using h

theorem map_bytes_sortKeys {α : Type} (o : Option α) (f : α → List UInt8) :
    (o.map fun a => Value.bytes (f a)).map sortKeys = o.map fun a => .bytes (f a) := by
  cases o <;> rfl

theorem parentFields_sortKeys {v : Value} {p : Option Parent} (hv : DistinctKeys v)
    (h : ParentFields v p) : ParentFields (sortKeys v) p := by
  cases p with
  | none =>
    simp only [ParentFields] at h ⊢
    rw [get_sortKeys hv, h]
    rfl
  | some p =>
    obtain ⟨x, hx, hk, harticle, hid, hsigner⟩ := h
    obtain ⟨hd, hget, hkeys⟩ := sortKeys_scope hv hx hk
    exact ⟨sortKeys x, hget, hkeys, by rw [get_sortKeys hd, harticle]; rfl,
      by rw [get_sortKeys hd, hid, map_bytes_sortKeys], by rw [get_sortKeys hd, hsigner, map_bytes_sortKeys]⟩

theorem fields_get {v w : Value} {m : Article} (h : Fields v m)
    (hw : ∀ key, key ≠ "sig" → w.get key = v.get key) : Fields w m where
  toCommon := h.toCommon.get hw
  recipient := (hw _ (by decide)).trans h.recipient
  scope := by rw [hw _ (by decide)]; exact h.scope
  parent := parentFields_get h.parent (hw _ (by decide))
  subject := (hw _ (by decide)).trans h.subject
  subject_ok := h.subject_ok
  body := (hw _ (by decide)).trans h.body
  body_ok := h.body_ok
  mime := (hw _ (by decide)).trans h.mime
  mime_ok := h.mime_ok

theorem fields_sortKeys {v : Value} {m : Article} (hv : DistinctKeys v) (h : Fields v m) :
    Fields (sortKeys v) m where
  toCommon := h.toCommon.sortKeys hv
  recipient := by rw [get_sortKeys hv, h.recipient]; rfl
  scope := by
    obtain ⟨scope, hscope, hk, hserver, hcategory⟩ := h.scope
    obtain ⟨hd, hget, hkeys⟩ := sortKeys_scope hv hscope hk
    exact ⟨sortKeys scope, hget, hkeys, by rw [get_sortKeys hd, hserver]; rfl,
      by rw [get_sortKeys hd, hcategory]; rfl⟩
  parent := parentFields_sortKeys hv h.parent
  subject := by rw [get_sortKeys hv, h.subject]; rfl
  subject_ok := h.subject_ok
  body := by rw [get_sortKeys hv, h.body]; rfl
  body_ok := h.body_ok
  mime := by rw [get_sortKeys hv, h.mime]; rfl
  mime_ok := h.mime_ok

theorem get_parent_unsigned (m : Article) : (unsigned m).get "parent" = m.parent.map parentValue := by
  simp [unsigned, get_map_cons]

theorem signed_eq {o o' : Option (Bytes 16 × Fingerprint)}
    (hid : (o.map fun s => Value.bytes s.1.val) = o'.map fun s => .bytes s.1.val)
    (hsigner : (o.map fun s => Value.bytes s.2.val) = o'.map fun s => .bytes s.2.val) : o = o' := by
  rcases o with _ | ⟨a, b⟩ <;> rcases o' with _ | ⟨c, d⟩ <;> simp_all [Subtype.ext_iff]

/-- The parent a map was written with is the one read from it. -/
theorem parent_unsigned {m : Article} {p : Option Parent} (h : ParentFields (unsigned m) p) :
    p = m.parent := by
  cases p with
  | none =>
    rw [ParentFields, get_parent_unsigned, Option.map_eq_none_iff] at h
    exact h.symm
  | some p =>
    obtain ⟨x, hx, -, harticle, hid, hsigner⟩ := h
    rw [get_parent_unsigned, Option.map_eq_some_iff] at hx
    obtain ⟨q, hq, rfl⟩ := hx
    have hsigned : q.signed = p.signed :=
      signed_eq (by simpa [parentValue, get_map_cons] using hid)
        (by simpa [parentValue, get_map_cons] using hsigner)
    have hart : q.article = p.article := by simpa [parentValue, get_map_cons] using harticle
    rw [hq]
    cases p
    cases q
    simp_all

theorem fields_unsigned {m m' : Article} (h : Fields (unsigned m) m') : m' = canonical m := by
  obtain ⟨⟨-, hid, hsent, hcert⟩, -, ⟨scope, hscope, -, hserver, hcategory⟩, hparent, hsubject, -,
    hbody, -, hmime, -⟩ := h
  have hparent := parent_unsigned hparent
  simp [unsigned, get_map_cons, canonicalValue] at hid hsent hcert hscope hsubject hbody hmime
  subst hscope
  simp [get_map_cons] at hserver hcategory
  cases m
  cases m'
  simp [canonical, Subtype.ext_iff] at *
  exact ⟨hid.symm, hsent.symm, hserver.symm, hcategory.symm, hparent, hcert.symm, hsubject.symm,
    hbody.symm, hmime.symm⟩

def scopeValue (m : Article) : Value :=
  map [("server", some (.bytes m.server.val)), ("category", some (.bytes m.category.val))]

theorem distinctKeys_parentValue (p : Parent) : DistinctKeys (parentValue p) := by
  refine distinctKeys_fields (by simp only [List.map]; decide) ?_
  cases p.signed <;> simp [DistinctKeys]

theorem depth_parentValue (p : Parent) : depth (parentValue p) ≤ 1 := by
  refine depth_fields_le (by decide) ?_
  cases p.signed <;> simp [depth]

theorem distinctKeys_unsigned (m : Article) : DistinctKeys (unsigned m) := by
  have hscope : DistinctKeys (scopeValue m) :=
    distinctKeys_fields (by simp only [List.map]; decide) (by simp [DistinctKeys])
  rw [scopeValue] at hscope
  refine distinctKeys_fields (by simp only [List.map]; decide) ?_
  cases hp : m.parent <;> simp [canonicalValue, hscope, distinctKeys_parentValue] <;>
    simp [DistinctKeys]

theorem depth_unsigned (m : Article) : depth (unsigned m) ≤ maxDepth := by
  have hscope : depth (scopeValue m) ≤ 1 := depth_fields_le (by decide) (by simp [depth])
  rw [scopeValue] at hscope
  refine depth_fields_le (by decide) ?_
  cases hp : m.parent with
  | none => simp [canonicalValue, depth, maxDepth]; omega
  | some p =>
    have := depth_parentValue p
    simp [canonicalValue, depth, maxDepth]
    omega

theorem length_parentValue_le (p : Parent) : (encode (parentValue p)).length ≤ 76 := by
  have h1 := fieldLen_some_le "article" (k := 8) rfl (length_encode_uint_le p.article)
  have h2 : fieldLen ("id", p.signed.map fun s => .bytes s.1.val) ≤ 3 + 18 :=
    fieldLen_le rfl fun v hv => by
      obtain ⟨x, _, rfl⟩ := Option.map_eq_some_iff.mp hv
      exact length_encode_array x.1 (by decide)
  have h3 : fieldLen ("by", p.signed.map fun s => .bytes s.2.val) ≤ 3 + 34 :=
    fieldLen_le rfl fun v hv => by
      obtain ⟨x, _, rfl⟩ := Option.map_eq_some_iff.mp hv
      exact length_encode_array x.2 (by decide)
  rw [parentValue, length_encode_fields (by simp)]
  simp only [List.map_cons, List.map_nil, List.sum_cons, List.sum_nil]
  omega

theorem length_fields_le {m m' : Article} (h : Fields (unsigned m) m')
    (hcert : m.cert.length ≤ certMaxBytes) :
    (encode (unsigned m)).length ≤ 800 + 255 + 65535 := by
  obtain rfl := fields_unsigned h
  have hsubject : (canonicalize m.subject).utf8ByteSize ≤ 255 := by
    have hok := h.subject_ok
    rw [checkSubject, bind_eq_ok] at hok
    obtain ⟨_, hok, -⟩ := hok
    exact (checkText_eq_ok.mp hok).2.2
  have hbody : (canonicalize m.body).utf8ByteSize ≤ 65535 := (checkText_eq_ok.mp h.body_ok).2.2
  have hmime : m.mime.utf8ByteSize ≤ 13 := by
    have hok : checkMime m.mime = .ok () := h.mime_ok
    rw [checkMime, ite_error_eq_ok] at hok
    by_cases hplain : m.mime = "text/plain"
    · rw [hplain]; decide
    · rw [not_not.mp fun hmd => hok.1 ⟨hplain, hmd⟩]; decide
  have h1 := fieldLen_some_le "v" (k := 2) rfl (length_encode_uint_le version)
  have h2 := fieldLen_some_le "id" (k := 3) rfl (length_encode_array m.id (by decide))
  have h3 := fieldLen_some_le "sent" (k := 5) rfl (length_encode_uint_le m.sent)
  have h4 : (encode (scopeValue m)).length ≤ 72 := by
    have hs := fieldLen_some_le "server" (k := 7) rfl (length_encode_array m.server (by decide))
    have hc := fieldLen_some_le "category" (k := 9) rfl (length_encode_array m.category (by decide))
    rw [scopeValue, length_encode_fields (by simp)]
    simp only [List.map_cons, List.map_nil, List.sum_cons, List.sum_nil]
    omega
  have h5 := fieldLen_some_le "in" (k := 3) rfl h4
  have h6 : fieldLen ("parent", m.parent.map parentValue) ≤ 7 + 76 :=
    fieldLen_le rfl fun v hv => by
      obtain ⟨p, _, rfl⟩ := Option.map_eq_some_iff.mp hv
      exact length_parentValue_le p
  have h7 := fieldLen_some_le "cert" (k := 5) rfl (length_encode_bytes_le hcert (by decide))
  have h8 := fieldLen_some_le "subject" (k := 8) rfl
    (length_encode_text_le (s := canonicalize m.subject) hsubject (by decide))
  have h9 := fieldLen_some_le "body" (k := 5) rfl
    (length_encode_text_le (s := canonicalize m.body) hbody (by decide))
  have h10 := fieldLen_some_le "mime" (k := 5) rfl (length_encode_text_le hmime (by decide))
  rw [unsigned, length_encode_fields (by simp)]
  simp only [List.map_cons, List.map_nil, List.sum_cons, List.sum_nil, canonicalValue]
  unfold scopeValue at h5
  unfold certMaxBytes at h7
  omega

theorem object_fromValue {v : Value} {d : Bool} {m : Article} :
    object.fromValue v d = .ok m ↔ Fields v m :=
  @fromValue_eq_ok v d m

theorem lawful : object.Lawful canonical texts where
  nodup := by decide
  apart := by decide
  cert_canonical _ := rfl
  sent_canonical _ := rfl
  texts_canonical _ := rfl
  fromValue_get h hw := object_fromValue.mpr (fields_get (object_fromValue.mp h) hw)
  fromValue_sortKeys hv h := object_fromValue.mpr (fields_sortKeys hv (object_fromValue.mp h))
  fromValue_unsigned h := fields_unsigned (object_fromValue.mp h)
  fromValue_whole h := h
  get_cert h := ⟨(object_fromValue.mp h).cert, (object_fromValue.mp h).cert_sha256⟩
  get_text h := by
    simpa [object, texts] using ⟨(object_fromValue.mp h).subject, (object_fromValue.mp h).body⟩
  isMap_unsigned _ := rfl
  distinct_unsigned := distinctKeys_unsigned
  depth_unsigned := depth_unsigned
  version_unsigned m := by simp [object, unsigned, get_map_cons]
  unsigned_sig m := by simp [object, unsigned, get_map_cons]
  length_whole sig h hcert := by
    have hlen := length_fields_le (object_fromValue.mp h) hcert
    refine (length_encode_sig (by simp) sig).trans_le ?_
    exact (Nat.add_le_add_right hlen 70).trans (by decide)
  wholeMaxBytes_lt := by decide

end Article

/-! ## Their forms -/

/-- The whole, detached and link forms of each of the three objects agree. -/
theorem signed_forms_agree (P : Primitives) (hP : P.Correct) :
    PrivateMessage.object.FormsAgree P PrivateMessage.canonical PrivateMessage.texts ∧
    ChatLine.object.FormsAgree P ChatLine.canonical ChatLine.texts ∧
    Article.object.FormsAgree P Article.canonical Article.texts :=
  ⟨PrivateMessage.lawful.formsAgree hP, ChatLine.lawful.formsAgree hP, Article.lawful.formsAgree hP⟩

/-- The published private message, its link form among the others. -/
theorem signed_forms_agree_published :
    ∃ s, Signed.parse vectors.primitives PrivateMessage.object
        (encode (pushEntry "sig" (.bytes Vectors.privateMessageSig.val) Vectors.privateMessage.unsigned))
        Vectors.received = .ok s ∧
      s.message = Vectors.privateMessage ∧
      ∀ l, s.link vectors.primitives PrivateMessage.object = .ok l →
        ∃ s', Signed.parseLink vectors.primitives PrivateMessage.object l
            (PrivateMessage.texts Vectors.privateMessage) Vectors.messageCertBytes Vectors.received =
            .ok s' ∧ s'.wholeBytes = s.wholeBytes := by
  obtain ⟨s, hs, hm, hw, hforms⟩ := (signed_forms_agree vectors.primitives vectors.correct).1
    Vectors.privateMessage Vectors.device
    (encode (pushEntry "sig" (.bytes Vectors.privateMessageSig.val) Vectors.privateMessage.unsigned))
    Vectors.received (by decide +kernel) (by
      intro cert hcert
      have hpub : DeviceCert.parse vectors.primitives Vectors.messageCertBytes =
        .ok Vectors.messageCert := by decide +kernel
      obtain rfl : Vectors.messageCert = cert := Except.ok.inj (hpub.symm.trans hcert)
      decide +kernel)
  refine ⟨s, hs, hm.trans (by decide +kernel), fun l hl => ?_⟩
  have htext : Rewritten Vectors.privateMessage.text.toList Vectors.privateMessage.text.toList := by
    rw [show Vectors.privateMessage.text.toList =
      ['A', ' ', 'p', 'r', 'i', 'v', 'a', 't', 'e', ' ', 'w', 'o', 'r', 'd', '.'] by decide +kernel]
    repeat refine .char (by decide) (by decide) ?_
    exact .nil
  obtain ⟨s', hs', -, hw', -⟩ := (hforms (PrivateMessage.texts Vectors.privateMessage)
    (.cons htext .nil)).2 l hl
  exact ⟨s', hs', hw'.trans hw.symm⟩

end HxdNg.Identity
