import HxdNg.Lib.Results
import HxdNg.Identity.Maps
import HxdNg.Identity.Message

/-!
# What a reader of fields accepts

Each accessor's success as a statement about one lookup, and from them, for each of the three signed
objects, `fromValue` as a structure of lookups and checks (`Fields`, `fromValue_eq_ok`). A proof
about a map that was accepted, or that must be, uses these and never opens a reader.
-/

namespace HxdNg.Identity

open Cbor

/-! ## Accessors -/

section Accessors
variable {v : Value} {key : String}

theorem required_eq_ok {α : Type} {read : Value → Option α} {write : α → Value}
    (h : ∀ x a, read x = some a ↔ x = write a) {a : α} :
    required read v key = .ok a ↔ v.get key = some (write a) := by
  unfold required
  cases hv : v.get key with
  | none => simp
  | some x =>
    rw [Option.some.injEq, ← h]
    cases hr : read x <;> simp [hr]

theorem optional_eq_ok {α : Type} {read : Value → Option α} {write : α → Value}
    (h : ∀ x a, read x = some a ↔ x = write a) {o : Option α} :
    optional read v key = .ok o ↔ v.get key = o.map write := by
  unfold optional
  cases hv : v.get key with
  | none => cases o <;> simp
  | some x =>
    cases o with
    | none => cases hr : read x <;> simp [hr]
    | some a =>
      rw [Option.map_some, Option.some.injEq, ← h]
      cases hr : read x <;> simp [hr]

theorem asUint_eq_some (x : Value) (n : UInt64) : asUint x = some n ↔ x = .uint n := by
  cases x <;> simp [asUint]

theorem asBytes_eq_some (x : Value) (b : List UInt8) : asBytes x = some b ↔ x = .bytes b := by
  cases x <;> simp [asBytes]

theorem asArray_eq_some (n : Nat) (x : Value) (b : Bytes n) :
    asArray n x = some b ↔ x = .bytes b.val := by
  cases x <;> simp [asArray, Bytes.ofList_eq_some]

theorem asText_eq_some (x : Value) (s : String) : asText x = some s ↔ x = .text s := by
  cases x <;> simp [asText]

theorem asBool_eq_some (x : Value) (b : Bool) : asBool x = some b ↔ x = .bool b := by
  cases x <;> simp [asBool]

theorem uint_eq_ok {n : UInt64} : uint v key = .ok n ↔ v.get key = some (.uint n) :=
  required_eq_ok asUint_eq_some

theorem optUint_eq_ok {o : Option UInt64} : optUint v key = .ok o ↔ v.get key = o.map .uint :=
  optional_eq_ok asUint_eq_some

theorem bytes_eq_ok {b : List UInt8} : bytes v key = .ok b ↔ v.get key = some (.bytes b) :=
  required_eq_ok asBytes_eq_some

theorem bytes32_eq_ok {b : Bytes 32} : bytes32 v key = .ok b ↔ v.get key = some (.bytes b.val) :=
  required_eq_ok (asArray_eq_some 32)

theorem bytes32x2_eq_ok {b : Bytes 64} :
    bytes32x2 v key = .ok b ↔ v.get key = some (.bytes b.val) :=
  required_eq_ok (asArray_eq_some 64)

theorem optBytes32_eq_ok {o : Option (Bytes 32)} :
    optBytes32 v key = .ok o ↔ v.get key = o.map fun b => .bytes b.val :=
  optional_eq_ok (asArray_eq_some 32)

theorem optBytes16_eq_ok {o : Option (Bytes 16)} :
    optBytes16 v key = .ok o ↔ v.get key = o.map fun b => .bytes b.val :=
  optional_eq_ok (asArray_eq_some 16)

theorem bytes16_eq_ok {b : Bytes 16} : bytes16 v key = .ok b ↔ v.get key = some (.bytes b.val) := by
  simp only [bytes16, bind_eq_ok, optBytes16_eq_ok]
  constructor
  · rintro ⟨o, ho, h⟩
    cases o with
    | none => simp at h
    | some c =>
      obtain rfl : c = b := by simpa using h
      exact ho
  · exact fun h => ⟨some b, h, rfl⟩

theorem text_eq_ok {s : String} : text v key = .ok s ↔ v.get key = some (.text s) :=
  required_eq_ok asText_eq_some

theorem optText_eq_ok {o : Option String} : optText v key = .ok o ↔ v.get key = o.map .text :=
  optional_eq_ok asText_eq_some

theorem optBool_eq_ok {o : Option Bool} : optBool v key = .ok o ↔ v.get key = o.map .bool :=
  optional_eq_ok asBool_eq_some

theorem refuse_eq_ok {u : Unit} : refuse v key = .ok u ↔ v.get key = none := by
  unfold refuse
  cases v.get key <;> simp

theorem onlyTrue_eq_ok {b : Bool} : onlyTrue v key = .ok b ↔ v.get key = flag b := by
  simp only [onlyTrue, bind_eq_ok, optBool_eq_ok]
  constructor
  · rintro ⟨o, ho, h⟩
    rcases o with _ | _ | _
    · obtain rfl : false = b := by simpa using h
      exact ho
    · simp at h
    · obtain rfl : true = b := by simpa using h
      exact ho
  · intro h
    cases b with
    | false => exact ⟨none, h, rfl⟩
    | true => exact ⟨some true, h, rfl⟩

theorem exactly_eq_ok {allowed : List String} {x : Value} :
    exactly v key allowed = .ok x ↔ v.get key = some x ∧ onlyKeys allowed x = true := by
  unfold exactly
  cases v.get key with
  | none => simp
  | some inner =>
    simp only [Option.some.injEq]
    by_cases h : onlyKeys allowed inner = true
    · rw [if_pos h, Except.ok.injEq]
      exact ⟨fun e => ⟨e, e ▸ h⟩, And.left⟩
    · rw [if_neg h]
      exact ⟨nofun, fun e => absurd (e.1 ▸ e.2) h⟩

end Accessors

theorem orBad_eq_ok {α : Type} {key : String} {x : Except Error α} {a : α} :
    orBad key x = .ok a ↔ x = .ok a := by
  cases x <;> simp [orBad]

theorem onlyKeys_sortKeys (allowed : List String) (v : Value) :
    onlyKeys allowed (sortKeys v) = onlyKeys allowed v := by
  cases v with
  | map es =>
    rw [sortKeys_map, onlyKeys, onlyKeys, (perm_sortBy entryKey _).all_eq, List.all_map]
    congr 1
    funext e
    simp [sortEntry, sortKeys_eq_text]
  | _ => simp [sortKeys, onlyKeys]

theorem distinctKeys_get {v x : Value} {key : String} (h : DistinctKeys v) (hx : v.get key = some x) :
    DistinctKeys x := by
  cases v with
  | map es =>
    rw [distinctKeys_map] at h
    exact (h.2 _ ((get_eq_some h.1).mp hx)).2
  | _ => cases hx

theorem depth_get {v x : Value} {key : String} {n : Nat} (h : depth v ≤ n) (hx : v.get key = some x) :
    depth x < n := by
  cases v with
  | map es =>
    obtain ⟨e, he, rfl⟩ := Option.map_eq_some_iff.mp hx
    exact (depth_map_le.mp h e (List.mem_of_find?_eq_some he)).2
  | _ => cases hx

/-! ## The three objects -/

/-- The lookups all three share. -/
structure Common (v : Value) (id : Bytes 16) (sent : UInt64) (cert : List UInt8) : Prop where
  cert_sha256 : v.get "cert_sha256" = none
  id : v.get "id" = some (.bytes id.val)
  sent : v.get "sent" = some (.uint sent)
  cert : v.get "cert" = some (.bytes cert)

theorem common_eq_ok {v : Value} {id : Bytes 16} {sent : UInt64} {cert : List UInt8} :
    common v = .ok (id, sent, cert) ↔ Common v id sent cert := by
  simp only [common, bind_eq_ok, refuse_eq_ok, bytes16_eq_ok, uint_eq_ok, bytes_eq_ok, pure_eq_ok]
  constructor
  · rintro ⟨_, h, i, hi, t, ht, c, hc, he⟩
    obtain ⟨rfl, rfl, rfl⟩ : i = id ∧ t = sent ∧ c = cert := by simpa using he
    exact ⟨h, hi, ht, hc⟩
  · exact fun h => ⟨(), h.cert_sha256, id, h.id, sent, h.sent, cert, h.cert, rfl⟩

/-- What `PrivateMessage.fromValue` accepts. -/
structure PrivateMessage.Fields (v : Value) (detached : Bool) (m : PrivateMessage) : Prop
    extends Common v m.id m.sent m.cert where
  scope : v.get "in" = none
  quote : v.get "quote" = m.quote.map .text
  quote_ok : PrivateMessage.checkQuote m.quote detached = .ok ()
  text : v.get "text" = some (.text m.text)
  text_ok : checkText m.text "text" 1 (if detached then 4096 else 8192) = .ok ()
  recipient : v.get "to" = some (.bytes m.toFp.val)
  auto : v.get "auto" = flag m.auto

theorem PrivateMessage.fromValue_eq_ok {v : Value} {detached : Bool} {m : PrivateMessage} :
    PrivateMessage.fromValue v detached = .ok m ↔ PrivateMessage.Fields v detached m := by
  simp only [PrivateMessage.fromValue, bind_eq_ok, refuse_eq_ok, optText_eq_ok, text_eq_ok,
    bytes32_eq_ok, onlyTrue_eq_ok, pure_eq_ok]
  constructor
  · rintro ⟨_, hin, ⟨id, sent, cert⟩, hc, q, hq, _, hqo, t, ht, _, hto, f, hf, a, ha, rfl⟩
    exact ⟨common_eq_ok.mp hc, hin, hq, hqo, ht, hto, hf, ha⟩
  · intro h
    exact ⟨(), h.scope, _, common_eq_ok.mpr h.toCommon, _, h.quote, (), h.quote_ok, _, h.text, (),
      h.text_ok, _, h.recipient, _, h.auto, rfl⟩

/-- What `ChatLine.fromValue` accepts. -/
structure ChatLine.Fields (v : Value) (m : ChatLine) : Prop
    extends Common v m.id m.sent m.cert where
  recipient : v.get "to" = none
  scope : ∃ scope, v.get "in" = some scope ∧ onlyKeys ["server", "room"] scope = true ∧
    scope.get "server" = some (.bytes m.server.val) ∧ scope.get "room" = some (.uint m.room)
  text : v.get "text" = some (.text m.text)
  text_ok : checkText m.text "text" 1 4096 = .ok ()
  act : v.get "act" = flag m.act

theorem ChatLine.fromValue_eq_ok {v : Value} {detached : Bool} {m : ChatLine} :
    ChatLine.fromValue v detached = .ok m ↔ ChatLine.Fields v m := by
  simp only [ChatLine.fromValue, bind_eq_ok, refuse_eq_ok, text_eq_ok, exactly_eq_ok, orBad_eq_ok,
    bytes32_eq_ok, uint_eq_ok, onlyTrue_eq_ok, pure_eq_ok]
  constructor
  · rintro ⟨_, hto, ⟨id, sent, cert⟩, hc, scope, ⟨hs, hk⟩, t, ht, _, hok, srv, hsrv, r, hr, a, ha, rfl⟩
    exact ⟨common_eq_ok.mp hc, hto, ⟨scope, hs, hk, hsrv, hr⟩, ht, hok, ha⟩
  · intro h
    obtain ⟨scope, hs, hk, hsrv, hr⟩ := h.scope
    exact ⟨(), h.recipient, _, common_eq_ok.mpr h.toCommon, scope, ⟨hs, hk⟩, _, h.text, (), h.text_ok,
      _, hsrv, _, hr, _, h.act, rfl⟩

/-- What `Article.readParent` accepts. -/
def Article.ParentFields (v : Value) : Option Parent → Prop
  | none => v.get "parent" = none
  | some p => ∃ x, v.get "parent" = some x ∧ onlyKeys ["article", "id", "by"] x = true ∧
      x.get "article" = some (.uint p.article) ∧
      x.get "id" = p.signed.map (fun s => .bytes s.1.val) ∧
      x.get "by" = p.signed.map (fun s => .bytes s.2.val)

theorem Article.parentSigned_eq_ok {x : Value} {signed : Option (Bytes 16 × Fingerprint)} :
    Article.parentSigned x = .ok signed ↔
      x.get "id" = signed.map (fun s => .bytes s.1.val) ∧
        x.get "by" = signed.map fun s => .bytes s.2.val := by
  simp only [Article.parentSigned, bind_eq_ok, orBad_eq_ok, optBytes16_eq_ok, optBytes32_eq_ok]
  constructor
  · rintro ⟨id, hid, signer, hsigner, h⟩
    rcases id with _ | id <;> rcases signer with _ | signer
    · obtain rfl : none = signed := by simpa using h
      exact ⟨hid, hsigner⟩
    · simp at h
    · simp at h
    · obtain rfl : some (id, signer) = signed := by simpa using h
      exact ⟨hid, hsigner⟩
  · rintro ⟨hid, hsigner⟩
    cases signed with
    | none => exact ⟨none, hid, none, hsigner, rfl⟩
    | some s => exact ⟨some s.1, hid, some s.2, hsigner, rfl⟩

theorem Article.readParent_eq_ok {v : Value} {parent : Option Parent} :
    Article.readParent v = .ok parent ↔ Article.ParentFields v parent := by
  unfold Article.readParent Article.ParentFields
  cases hv : v.get "parent" with
  | none => cases parent <;> simp
  | some x =>
    simp only [bind_eq_ok, exactly_eq_ok, hv, Article.parentSigned_eq_ok, orBad_eq_ok, uint_eq_ok,
      pure_eq_ok, Option.some.injEq]
    constructor
    · rintro ⟨_, ⟨rfl, hk⟩, signed, ⟨hid, hsigner⟩, article, ha, rfl⟩
      exact ⟨x, rfl, hk, ha, hid, hsigner⟩
    · cases parent with
      | none =>
        intro h
        cases h
      | some p =>
        rintro ⟨_, rfl, hk, ha, hid, hsigner⟩
        exact ⟨x, ⟨rfl, hk⟩, p.signed, ⟨hid, hsigner⟩, p.article, ha, rfl⟩

/-- What `Article.fromValue` accepts. -/
structure Article.Fields (v : Value) (m : Article) : Prop
    extends Common v m.id m.sent m.cert where
  recipient : v.get "to" = none
  scope : ∃ scope, v.get "in" = some scope ∧ onlyKeys ["server", "category"] scope = true ∧
    scope.get "server" = some (.bytes m.server.val) ∧
    scope.get "category" = some (.bytes m.category.val)
  parent : Article.ParentFields v m.parent
  subject : v.get "subject" = some (.text m.subject)
  subject_ok : Article.checkSubject m.subject = .ok ()
  body : v.get "body" = some (.text m.body)
  body_ok : checkText m.body "body" 0 65535 = .ok ()
  mime : v.get "mime" = some (.text m.mime)
  mime_ok : Article.checkMime m.mime = .ok ()

theorem Article.fromValue_eq_ok {v : Value} {detached : Bool} {m : Article} :
    Article.fromValue v detached = .ok m ↔ Article.Fields v m := by
  simp only [Article.fromValue, bind_eq_ok, refuse_eq_ok, text_eq_ok, exactly_eq_ok, orBad_eq_ok,
    bytes32_eq_ok, bytes16_eq_ok, Article.readParent_eq_ok, pure_eq_ok]
  constructor
  · rintro ⟨_, hto, ⟨id, sent, cert⟩, hc, scope, ⟨hs, hk⟩, p, hp, subj, hsubj, _, hsok, b, hb, _, hbok,
      mime, hm, _, hmok, srv, hsrv, cat, hcat, rfl⟩
    exact ⟨common_eq_ok.mp hc, hto, ⟨scope, hs, hk, hsrv, hcat⟩, hp, hsubj, hsok, hb, hbok, hm, hmok⟩
  · intro h
    obtain ⟨scope, hs, hk, hsrv, hcat⟩ := h.scope
    exact ⟨(), h.recipient, _, common_eq_ok.mpr h.toCommon, scope, ⟨hs, hk⟩, _, h.parent, _, h.subject,
      (), h.subject_ok, _, h.body, (), h.body_ok, _, h.mime, (), h.mime_ok, _, hsrv, _, hcat, rfl⟩

end HxdNg.Identity
