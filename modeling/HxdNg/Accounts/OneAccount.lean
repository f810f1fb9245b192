import HxdNg.Accounts.Links

/-!
# One account per identity

* `Resolves`, `Unique` : the account an identity resolves to, and that it is one at most;
* `Plain` : every fingerprint text that reads as one is in its display form, but for case;
* `Cached`, `Honest` : what lookups leave in the cache, and what a settled stamp says of a file;
* `loginFor_spec`, `step_spec` : a lookup answers what the files state, and what each call writes;
* `one_account_per_identity` : in every run whose directories are plain.
-/

namespace HxdNg.Accounts

open Assoc
open Identity (Fingerprint)

/-! ## Texts -/

theorem toText_digits {fp : Fingerprint} {c : Char} (hc : c ∈ fp.toText.toList) :
    c.toLower = c ∧ ∀ d : Char, d.toLower = c → Identity.foldDigit d = c := by
  rw [Fingerprint.toText, String.toList_ofList, List.mem_map] at hc
  obtain ⟨n, hn, rfl⟩ := hc
  have hn : n < 32 := (Fingerprint.digits_spec fp).2.1 n hn
  have hdigit : ∀ n < 32, (Fingerprint.digitChar n).toLower = Fingerprint.digitChar n ∧
      Fingerprint.digitChar n ≠ 'o' ∧ Fingerprint.digitChar n ≠ 'i' ∧
      Fingerprint.digitChar n ≠ 'l' := by decide
  obtain ⟨hlower, ho, hi, hl⟩ := hdigit n hn
  refine ⟨hlower, fun d hd => ?_⟩
  unfold Identity.foldDigit
  rw [hd, if_neg ho, if_neg (not_or.2 ⟨hi, hl⟩)]

@[simp] theorem toLower_toText (fp : Fingerprint) : fp.toText.toLower = fp.toText := by
  refine String.toList_inj.1 ?_
  unfold String.toLower
  rw [String.toList_map]
  exact (List.map_congr_left fun c hc => (toText_digits hc).1).trans (List.map_id _)

theorem parse_of_toLower {text : String} {fp : Fingerprint} (h : text.toLower = fp.toText) :
    Fingerprint.parse text = some fp := by
  rw [Fingerprint.parse_eq_some_iff]
  have hlist : text.toList.map Char.toLower = fp.toText.toList := by
    rw [← h, String.toLower, String.toList_map]
  rw [← hlist]
  refine List.map_congr_left fun c hc => (@toText_digits fp _ ?_).2 c rfl
  rw [← hlist]
  exact List.mem_map_of_mem hc

/-! ## Directories -/

namespace FileAuth

/-- The fingerprint text an account's file states. -/
def text (a : FileAuth) (k : String) : Option String :=
  match a.load k with
  | .ok file => file.identity.fingerprint
  | .error _ => none

/-- Every account file's name is lowercase. -/
def Lower (a : FileAuth) : Prop :=
  ∀ k content, a.files.get k = some content → validLogin k = true → k.toLower = k

/-- The account file of `k` resolves to an identity: it is not the reserved one, and its text reads
so. -/
def Resolves (a : FileAuth) (k : String) (fp : Fingerprint) : Prop :=
  Canonical k ∧ (a.text k).bind Fingerprint.parse = some fp

/-- No two accounts resolve to the same identity. -/
def Unique (a : FileAuth) : Prop := ∀ k k' fp, a.Resolves k fp → a.Resolves k' fp → k = k'

/-- Each account's fingerprint text that reads as one is its display form, but for case. -/
def Plain (a : FileAuth) : Prop :=
  ∀ k text fp, Canonical k → a.text k = some text → Fingerprint.parse text = some fp →
    text.toLower = fp.toText

/-- The account file of `k` states an identity, as a lookup compares it. -/
def States (a : FileAuth) (k : String) (fp : Fingerprint) : Prop :=
  Canonical k ∧ ∃ text, a.text k = some text ∧ text.toLower = fp.toText

variable {a a' : FileAuth} {k : String} {fp : Fingerprint}

theorem States.resolves (h : a.States k fp) : a.Resolves k fp := by
  obtain ⟨hk, text, htext, hlower⟩ := h
  exact ⟨hk, by rw [htext]; exact parse_of_toLower hlower⟩

theorem Plain.states (ha : a.Plain) (h : a.Resolves k fp) : a.States k fp := by
  obtain ⟨hk, h⟩ := h
  obtain ⟨text, htext, hparse⟩ := Option.bind_eq_some_iff.1 h
  exact ⟨hk, text, htext, ha k text fp hk htext hparse⟩

theorem load_of_text {text : String} (h : a.text k = some text) :
    ∃ file, a.load k = .ok file ∧ file.identity.fingerprint = some text := by
  unfold FileAuth.text at h
  cases hload : a.load k with
  | error e =>
    rw [hload] at h
    cases h
  | ok file =>
    rw [hload] at h
    exact ⟨file, rfl, h⟩

theorem canonical_of_lower (ha : a.Lower) {content : Option AccountFile}
    (hk : a.files.get k = some content) (hv : validLogin k = true) : Canonical k := by
  unfold Canonical adminLogin
  simp only [ha k content hk hv, hv, if_true]

theorem mem_entries : k ∈ a.entries ↔ (∃ content, a.files.get k = some content) ∧ validLogin k = true := by
  rw [entries, mem_sortBy, List.mem_filter]
  refine and_congr_left fun _ => ⟨fun hk => ?_, fun ⟨content, hk⟩ => Map.mem_keys hk⟩
  cases hget : a.files.get k with
  | none => exact absurd hk (lookup_eq_none.1 hget)
  | some content => exact ⟨content, rfl⟩

theorem lookup_of_load (hk : Canonical k) {file : AccountFile} (h : a.load k = .ok file) :
    a.lookup k = .ok (file.intoAccount k a.roles) := by
  have hv := hk.valid
  have hne : k ≠ "" := fun h => by
    rw [h] at hv
    revert hv
    decide
  have hlower : k.toLower = k := hk.lower
  unfold FileAuth.lookup
  simp only [if_neg hne, hlower, hv, h, Bool.not_true, Bool.false_eq_true, if_false]

end FileAuth

/-! ## The cache -/

/-- A settled stamp determines what a file reads as: `reads` is what. -/
def Honest (reads : String → FileStamp → Option AccountFile) (b : Backend) (t : Nat) : Prop :=
  ∀ k content, b.auth.files.get k = some content → settled (b.stamps k) t = true →
    content = reads k (b.stamps k)

/-- The texts remembered are those the settled stamps determine. -/
def Seen.Sound (reads : String → FileStamp → Option AccountFile) (reserved : Option String)
    (files : Seen) : Prop :=
  ∀ k stamp text, files.get k = some (stamp, text) →
    reserved ≠ some k ∧ text = (reads k stamp).bind (·.identity.fingerprint)

structure Cached (reads : String → FileStamp → Option AccountFile) (reserved : Option String)
    (index : Index) : Prop where
  files : index.files.Sound reads reserved
  byFp : ∀ want login, index.byFp.get want = some login → validLogin login = true

section Lookups
variable {reads : String → FileStamp → Option AccountFile} {b : Backend} {files : Seen}
variable {login want : String} {t : Nat} {content : Option AccountFile}

theorem remembered_text (hfiles : files.Sound reads b.auth.reserved) (hb : Honest reads b t)
    (hget : b.auth.files.get login = some content) {text : Option String}
    (h : files.remembered login (b.stamps login) t = some text) : text = b.auth.text login := by
  unfold Seen.remembered at h
  split at h
  case h_2 => cases h
  case h_1 stamp text' hseen =>
    split at h
    case isFalse => cases h
    case isTrue hs =>
      obtain rfl := Option.some.inj h
      obtain ⟨hsettled, rfl⟩ := hs
      obtain ⟨hfree, htext⟩ := hfiles login _ _ hseen
      have hreads := hb login content hget hsettled
      have hres : b.auth.isReserved login = false := decide_eq_false hfree
      rw [htext, ← hreads, FileAuth.text, FileAuth.load, hres, hget]
      cases content <;> rfl

theorem remember_sound (hfiles : files.Sound reads b.auth.reserved) (hb : Honest reads b t)
    (hget : b.auth.files.get login = some content) (hfree : b.auth.isReserved login = false) :
    (files.remember login (b.stamps login) t (content.bind (·.identity.fingerprint))).Sound reads
      b.auth.reserved := by
  unfold Seen.remember
  split
  case isFalse => exact hfiles
  case isTrue hs =>
    intro k stamp text h
    rw [Map.get_set] at h
    split at h
    case isTrue hk =>
      subst hk
      obtain ⟨rfl, rfl⟩ := Prod.mk.inj (Option.some.inj h)
      rw [hb k content hget hs]
      exact ⟨of_decide_eq_false hfree, rfl⟩
    case isFalse => exact hfiles k stamp text h

theorem load_text {file : AccountFile} (h : b.auth.load login = .ok file) :
    b.auth.text login = file.identity.fingerprint := by
  unfold FileAuth.text
  rw [h]

theorem carries_spec (login want : String) (hfiles : files.Sound reads b.auth.reserved) (hb : Honest reads b t) :
    (b.carries t files login want).1 = states want (b.auth.text login) ∧
      (b.carries t files login want).2.Sound reads b.auth.reserved := by
  unfold Backend.carries
  split
  case isTrue hnone =>
    refine ⟨?_, hfiles⟩
    have : b.auth.text login = none := by
      unfold FileAuth.text FileAuth.load
      rw [hnone]
      cases b.auth.isReserved login <;> rfl
    rw [this]
    rfl
  case isFalse hsome =>
    obtain ⟨content, hget⟩ := Option.ne_none_iff_exists'.1 hsome
    split
    case h_1 text h => exact ⟨by rw [remembered_text hfiles hb hget h], hfiles⟩
    case h_2 =>
      split
      case h_1 e hload =>
        refine ⟨?_, hfiles⟩
        unfold FileAuth.text
        rw [hload]
        rfl
      case h_2 file hload =>
        obtain ⟨hres, hfile⟩ := FileAuth.load_eq_ok.1 hload
        refine ⟨by rw [load_text hload], ?_⟩
        exact remember_sound hfiles hb hfile hres

/-- One file of a scan: the first found that states what is wanted stays found. -/
theorem scanOne_spec (want : String) (hfiles : files.Sound reads b.auth.reserved) (hb : Honest reads b t)
    (hget : b.auth.files.get login = some content) (found : Option String) :
    (b.scanOne t want (files, found) login).2 =
        found.or (if states want (b.auth.text login) then some login else none) ∧
      (b.scanOne t want (files, found) login).1.Sound reads b.auth.reserved := by
  unfold Backend.scanOne
  dsimp only
  split
  case h_1 text h => exact ⟨by rw [remembered_text hfiles hb hget h], hfiles⟩
  case h_2 =>
    split
    case h_1 hload =>
      refine ⟨?_, hfiles⟩
      unfold FileAuth.text
      rw [hload]
      exact (Option.or_none).symm
    case h_2 e hne hload =>
      have hbad : b.auth.isReserved login = false ∧ content = none := by
        unfold FileAuth.load at hload
        cases hres : b.auth.isReserved login with
        | true =>
          rw [hres] at hload
          exact absurd (Except.error.inj hload).symm hne
        | false =>
          rw [hres, hget] at hload
          cases content with
          | none => exact ⟨rfl, rfl⟩
          | some file => exact absurd hload nofun
      refine ⟨?_, ?_⟩
      · unfold FileAuth.text
        rw [hload]
      · have := remember_sound hfiles hb hget hbad.1
        rwa [hbad.2] at this
    case h_3 file hload =>
      obtain ⟨hres, hfile⟩ := FileAuth.load_eq_ok.1 hload
      exact ⟨by rw [load_text hload], remember_sound hfiles hb hfile hres⟩

theorem scan_fold (want : String) (hb : Honest reads b t) (logins : List String)
    (hget : ∀ k ∈ logins, ∃ content, b.auth.files.get k = some content)
    (hfiles : files.Sound reads b.auth.reserved) (found : Option String) :
    (logins.foldl (b.scanOne t want) (files, found)).2 =
        found.or (logins.find? fun k => states want (b.auth.text k)) ∧
      (logins.foldl (b.scanOne t want) (files, found)).1.Sound reads b.auth.reserved := by
  induction logins generalizing files found with
  | nil => exact ⟨Option.or_none.symm, hfiles⟩
  | cons k logins ih =>
    obtain ⟨content, hk⟩ := hget k List.mem_cons_self
    obtain ⟨hfound, hsound⟩ := scanOne_spec want hfiles hb hk found
    rw [List.foldl_cons]
    revert hfound hsound
    generalize b.scanOne t want (files, found) k = acc
    obtain ⟨files', found'⟩ := acc
    intro hfound hsound
    obtain ⟨hrest, hsound'⟩ := ih (fun k hk => hget k (List.mem_cons_of_mem _ hk)) hsound found'
    refine ⟨hrest.trans ?_, hsound'⟩
    rw [show found' = _ from hfound, Option.or_assoc, List.find?_cons]
    cases states want (b.auth.text k) <;> rfl

/-- What a lookup answers: an account stating what is wanted, if any does. -/
structure Finds (reads : String → FileStamp → Option AccountFile) (b : Backend) (want : String)
    (out : Option String × Index) : Prop where
  some_ : ∀ k, out.1 = some k → validLogin k = true ∧ states want (b.auth.text k) = true
  none_ : out.1 = none → ∀ k ∈ b.auth.entries, states want (b.auth.text k) = false
  cached : Cached reads b.auth.reserved out.2

theorem scan_spec {index : Index} (hindex : Cached reads b.auth.reserved index) (hb : Honest reads b t) :
    Finds reads b want (b.scan t want index) := by
  have hpruned : Seen.Sound reads b.auth.reserved
      (index.files.filter fun e => b.auth.entries.contains e.1) := fun k stamp text h => by
    rw [Map.get_filter, Option.filter_eq_some_iff] at h
    exact hindex.files k stamp text h.1
  obtain ⟨hfound, hsound⟩ := scan_fold want hb b.auth.entries
    (fun k hk => (FileAuth.mem_entries.1 hk).1) hpruned none
  rw [Option.none_or] at hfound
  have hout : (b.scan t want index).1 = b.auth.entries.find? fun k => states want (b.auth.text k) :=
    hfound
  refine ⟨fun k hk => ?_, fun hk k hmem => ?_, hsound, fun w l hl => ?_⟩
  · rw [hout] at hk
    exact ⟨(FileAuth.mem_entries.1 (List.mem_of_find?_eq_some hk)).2, List.find?_some (p := fun k => states want (b.auth.text k)) hk⟩
  · rw [hout, List.find?_eq_none] at hk
    exact Bool.eq_false_iff.2 (hk k hmem)
  · replace hl : ((b.scan t want index).1.elim index.byFp (index.byFp.set want)).get w = some l := hl
    rw [hout] at hl
    cases hf : b.auth.entries.find? fun k => states want (b.auth.text k) with
    | none =>
      rw [hf] at hl
      exact hindex.byFp w l hl
    | some k =>
      rw [hf] at hl
      replace hl : (index.byFp.set want k).get w = some l := hl
      rw [Map.get_set] at hl
      split at hl
      case isTrue =>
        obtain rfl := Option.some.inj hl
        exact (FileAuth.mem_entries.1 (List.mem_of_find?_eq_some hf)).2
      case isFalse => exact hindex.byFp w l hl

theorem loginFor_finds (fp : Fingerprint) {seen now : Nat}
    (hindex : Cached reads b.auth.reserved b.index) (hseen : Honest reads b seen)
    (hnow : Honest reads b now) : Finds reads b fp.toText (b.loginFor fp seen now) := by
  unfold Backend.loginFor
  rw [toLower_toText]
  dsimp only
  split
  case h_2 => exact scan_spec hindex hnow
  case h_1 login hlogin =>
    obtain ⟨hstill, hfiles⟩ := carries_spec login fp.toText hindex.files hseen
    split
    case isTrue h =>
      refine ⟨fun k hk => ?_, nofun, hfiles, hindex.byFp⟩
      obtain rfl := Option.some.inj hk
      exact ⟨hindex.byFp _ _ hlogin, hstill.symm.trans h⟩
    case isFalse =>
      refine scan_spec ⟨hfiles, fun w l hl => ?_⟩ hnow
      rw [Map.get_drop] at hl
      split at hl
      case isTrue => cases hl
      case isFalse => exact hindex.byFp w l hl

theorem states_toText {k : String} {fp : Fingerprint} (hk : Canonical k) :
    states fp.toText (b.auth.text k) = true ↔ b.auth.States k fp := by
  unfold states eqIgnoreAsciiCase FileAuth.States
  cases b.auth.text k with
  | none => exact ⟨fun h => absurd h Bool.false_ne_true, fun ⟨_, _, h, _⟩ => absurd h nofun⟩
  | some text =>
    rw [Option.any_some, decide_eq_true_eq, toLower_toText]
    refine ⟨fun h => ⟨hk, text, rfl, h⟩, ?_⟩
    rintro ⟨-, _, ⟨⟩, h⟩
    exact h

/-- What a lookup by fingerprint answers: the account stating it, if any does. -/
theorem loginFor_spec (fp : Fingerprint) {seen now : Nat} (hlower : b.auth.Lower)
    (hindex : Cached reads b.auth.reserved b.index) (hseen : Honest reads b seen)
    (hnow : Honest reads b now) :
    ((∃ k, (b.loginFor fp seen now).1 = some k ∧ b.auth.States k fp) ∨
      (b.loginFor fp seen now).1 = none ∧ ∀ k, ¬b.auth.States k fp) ∧
      Cached reads b.auth.reserved (b.loginFor fp seen now).2 := by
  have h := loginFor_finds fp hindex hseen hnow
  refine ⟨?_, h.cached⟩
  cases hout : (b.loginFor fp seen now).1 with
  | some k =>
    obtain ⟨hv, hk⟩ := h.some_ k hout
    have hcanon : Canonical k := by
      cases htext : b.auth.text k with
      | none =>
        rw [htext] at hk
        cases hk
      | some text =>
        obtain ⟨file, hload, -⟩ := FileAuth.load_of_text htext
        exact FileAuth.canonical_of_lower hlower (FileAuth.load_eq_ok.1 hload).2 hv
    exact .inl ⟨k, rfl, (states_toText hcanon).1 hk⟩
  | none =>
    refine .inr ⟨rfl, fun k hk => ?_⟩
    obtain ⟨hcanon, text, htext, -⟩ := id hk
    obtain ⟨file, hload, -⟩ := FileAuth.load_of_text htext
    have hmem : k ∈ b.auth.entries :=
      FileAuth.mem_entries.2 ⟨⟨_, (FileAuth.load_eq_ok.1 hload).2⟩, hcanon.valid⟩
    have hno := h.none_ hout k hmem
    rw [(states_toText hcanon).2 hk] at hno
    cases hno

/-- What `findByFingerprint` answers: it reads, and what it leaves is the cache. -/
theorem findByFingerprint_spec (fp : Fingerprint) {seen now : Nat} (hlower : b.auth.Lower)
    (hindex : Cached reads b.auth.reserved b.index) (hseen : Honest reads b seen)
    (hnow : Honest reads b now) :
    ∃ index, Cached reads b.auth.reserved index ∧
      ((∃ k file, b.auth.States k fp ∧ b.auth.load k = .ok file ∧ b.findByFingerprint fp seen now =
          (.ok (some (file.intoAccount k b.auth.roles)), { b with index := index })) ∨
        (∀ k, ¬b.auth.States k fp) ∧
          b.findByFingerprint fp seen now = (.ok none, { b with index := index })) := by
  obtain ⟨hfound, hcached⟩ := loginFor_spec fp hlower hindex hseen hnow
  refine ⟨_, hcached, ?_⟩
  unfold Backend.findByFingerprint
  revert hfound
  generalize b.loginFor fp seen now = out
  obtain ⟨found, index⟩ := out
  rintro (⟨k, hk, hstates⟩ | ⟨hnone, hno⟩)
  · obtain rfl : found = some k := hk
    obtain ⟨hcanon, text, htext, -⟩ := id hstates
    obtain ⟨file, hload, -⟩ := FileAuth.load_of_text htext
    refine .inl ⟨k, file, hstates, hload, ?_⟩
    dsimp only
    rw [FileAuth.lookup_of_load hcanon hload]
  · obtain rfl : found = none := hnone
    exact .inr ⟨hno, rfl⟩

end Lookups

/-! ## Writes -/

/-- One account's file was written: it states no identity now, or one no account stated. -/
def Relinked (a a' : FileAuth) : Prop :=
  ∃ k file, Canonical k ∧ a' = { a with files := a.files.set k (some file) } ∧
    (file.identity.fingerprint = none ∨
      ∃ fp : Fingerprint, file.identity.fingerprint = some fp.toText ∧ ∀ k', ¬a.States k' fp)

namespace FileAuth

variable {a : FileAuth} {k k' : String} {file : AccountFile}

theorem text_set_self (hfree : a.isReserved k = false) :
    ({ a with files := a.files.set k (some file) } : FileAuth).text k = file.identity.fingerprint := by
  have hload : ({ a with files := a.files.set k (some file) } : FileAuth).load k = .ok file :=
    load_eq_ok.2 ⟨hfree, (Map.get_set ..).trans (if_pos rfl)⟩
  rw [FileAuth.text, hload]

theorem text_set_ne (hk : k' ≠ k) :
    ({ a with files := a.files.set k (some file) } : FileAuth).text k' = a.text k' := by
  unfold FileAuth.text FileAuth.load
  rw [show ({ a with files := a.files.set k (some file) } : FileAuth).files.get k' = a.files.get k' from
    (Map.get_set ..).trans (if_neg hk)]
  rfl

theorem text_reserved (h : a.isReserved k = true) : a.text k = none := by
  unfold FileAuth.text FileAuth.load
  rw [h]
  rfl

theorem lower_set (ha : a.Lower) (hk : Canonical k) :
    ({ a with files := a.files.set k (some file) } : FileAuth).Lower := by
  intro k' content hget hv
  by_cases heq : k' = k
  · exact heq ▸ hk.lower
  · exact ha k' content ((Map.get_set ..).symm.trans hget |> fun h => by rwa [if_neg heq] at h) hv

end FileAuth

section Relinked
variable {a a' : FileAuth}

/-- A text after a write is the one the write put there, or the one before. -/
theorem Relinked.text (h : Relinked a a') : ∃ k, ∀ k' text, a'.text k' = some text →
    a.text k' = some text ∧ k' ≠ k ∨
      k' = k ∧ ∃ fp : Fingerprint, text = fp.toText ∧ ∀ k', ¬a.States k' fp := by
  obtain ⟨k, file, -, rfl, hfp⟩ := h
  refine ⟨k, fun k' text htext => ?_⟩
  by_cases hk : k' = k
  · subst hk
    refine .inr ⟨rfl, ?_⟩
    cases hres : a.isReserved k' with
    | true =>
      have hnone : ({ a with files := a.files.set k' (some file) } : FileAuth).text k' = none :=
        FileAuth.text_reserved hres
      rw [hnone] at htext
      cases htext
    | false =>
      rw [FileAuth.text_set_self hres] at htext
      rcases hfp with hnone | ⟨fp, hfp, hno⟩
      · rw [hnone] at htext
        cases htext
      · exact ⟨fp, Option.some.inj (htext.symm.trans hfp), hno⟩
  · rw [FileAuth.text_set_ne hk] at htext
    exact .inl ⟨htext, hk⟩

theorem Relinked.lower (h : Relinked a a') (ha : a.Lower) : a'.Lower := by
  obtain ⟨k, file, hk, rfl, -⟩ := h
  exact FileAuth.lower_set ha hk

theorem parse_toText (fp : Fingerprint) : Fingerprint.parse fp.toText = some fp :=
  parse_of_toLower (toLower_toText fp)

theorem Relinked.plain (h : Relinked a a') (ha : a.Plain) : a'.Plain := by
  obtain ⟨k, h⟩ := h.text
  intro k' text fp hk' htext hparse
  rcases h k' text htext with ⟨htext, -⟩ | ⟨-, fp', rfl, -⟩
  · exact ha k' text fp hk' htext hparse
  · obtain rfl := Option.some.inj ((parse_toText fp').symm.trans hparse)
    exact toLower_toText fp'

theorem Relinked.unique (h : Relinked a a') (hplain : a.Plain) (ha : a.Unique) : a'.Unique := by
  obtain ⟨k, h⟩ := h.text
  have hcases : ∀ k' fp, a'.Resolves k' fp →
      a.Resolves k' fp ∧ k' ≠ k ∨ k' = k ∧ ∀ k', ¬a.Resolves k' fp := by
    rintro k' fp ⟨hk', hres⟩
    obtain ⟨text, htext, hparse⟩ := Option.bind_eq_some_iff.1 hres
    rcases h k' text htext with ⟨htext, hne⟩ | ⟨heq, fp', rfl, hno⟩
    · exact .inl ⟨⟨hk', by rw [htext]; exact hparse⟩, hne⟩
    · obtain rfl := Option.some.inj ((parse_toText fp').symm.trans hparse)
      exact .inr ⟨heq, fun k' hr => hno k' (hplain.states hr)⟩
  intro k₁ k₂ fp h₁ h₂
  rcases hcases k₁ fp h₁ with ⟨h₁, -⟩ | ⟨rfl, hno₁⟩ <;>
    rcases hcases k₂ fp h₂ with ⟨h₂, -⟩ | ⟨rfl, hno₂⟩
  · exact ha k₁ k₂ fp h₁ h₂
  · exact absurd h₁ (hno₂ k₁)
  · exact absurd h₂ (hno₁ k₂)
  · rfl

end Relinked

section Steps
variable {reads : String → FileStamp → Option AccountFile} {b b' : Backend} {login : String}
variable {fp : Option Fingerprint} {stamp : FileStamp} {ok : Bool}

theorem writeLink_error {e : AuthError} (h : b.writeLink login fp stamp ok = (.error e, b')) : b' = b := by
  unfold Backend.writeLink at h
  dsimp only at h
  split at h
  case isTrue => exact (congrArg Prod.snd h).symm
  case isFalse =>
    split at h
    case h_1 => exact (congrArg Prod.snd h).symm
    case h_2 => exact (congrArg Prod.snd h).symm
    case h_3 =>
      split at h
      case isTrue => exact (congrArg Prod.snd h).symm
      case isFalse => cases (congrArg Prod.fst h)

theorem writeLink_ok (hk : Canonical login) (hindex : Cached reads b.auth.reserved b.index)
    (h : b.writeLink login fp stamp ok = (.ok (), b')) :
    Cached reads b'.auth.reserved b'.index ∧ ∃ file : AccountFile,
      file.identity.fingerprint = fp.map (·.toText) ∧
      b'.auth = { b.auth with files := b.auth.files.set login (some file) } := by
  unfold Backend.writeLink at h
  dsimp only at h
  rw [hk.lower, hk.valid] at h
  split at h
  case isTrue h' => cases h'
  case isFalse =>
    split at h
    case h_1 => cases (congrArg Prod.fst h)
    case h_2 => cases (congrArg Prod.fst h)
    case h_3 file hget =>
      split at h
      case isTrue => cases (congrArg Prod.fst h)
      case isFalse =>
        obtain rfl := congrArg Prod.snd h
        have hkept : ∀ want l, (b.index.byFp.filter fun e => decide (e.2 ≠ login)).get want = some l →
            validLogin l = true := fun want l hl => by
          rw [Map.get_filter, Option.filter_eq_some_iff] at hl
          exact hindex.byFp want l hl.1
        refine ⟨⟨hindex.files, fun want l hl => ?_⟩, _, rfl, rfl⟩
        cases fp with
        | none => exact hkept want l hl
        | some fp =>
          replace hl : ((b.index.byFp.filter fun e => decide (e.2 ≠ login)).set fp.toText.toLower
            login).get want = some l := hl
          rw [Map.get_set] at hl
          split at hl
          case isTrue => exact Option.some.inj hl ▸ hk.valid
          case isFalse => exact hkept want l hl

/-- What a call leaves: the directory as it was, or with one account written, as its answer says. -/
structure Leaves (reads : String → FileStamp → Option AccountFile) (b b' : Backend) (wrote : Bool) :
    Prop where
  cached : Cached reads b'.auth.reserved b'.index
  auth : wrote = false → b'.auth = b.auth
  relinked : wrote = true → Relinked b.auth b'.auth

/-- A call that wrote nothing leaves the directory, and the cache. -/
theorem Leaves.still {index : Index} (hindex : Cached reads b.auth.reserved index) :
    Leaves reads b { b with index := index } false :=
  ⟨hindex, fun _ => rfl, nofun⟩

theorem lookup_ok {a : FileAuth} {account : Account} (h : a.lookup login = .ok account) :
    ∃ k file, Canonical k ∧ a.load k = .ok file ∧ account = file.intoAccount k a.roles := by
  unfold FileAuth.lookup at h
  dsimp only at h
  generalize (if login = "" then "guest" else login) = l at h
  split at h
  case isTrue => cases h
  case isFalse hv =>
    rw [Bool.not_eq_true', Bool.not_eq_false] at hv
    split at h
    case h_1 => cases h
    case h_2 file hload =>
      refine ⟨l.toLower, file, ?_, hload, (Except.ok.inj h).symm⟩
      unfold Canonical adminLogin
      simp only [toLower_toLower, hv, if_true]

/-- A link written where the account is read: it reads again, and the write is one no account stood in
the way of. -/
theorem writeLink_spec {file : AccountFile} (hk : Canonical login) (hload : b.auth.load login = .ok file)
    (hindex : Cached reads b.auth.reserved b.index)
    (hfp : ∀ f, fp = some f → ∀ k', ¬b.auth.States k' f) :
    (∃ e, b.writeLink login fp stamp ok = (.error e, b)) ∨ ∃ b' file',
      b.writeLink login fp stamp ok = (.ok (), b') ∧ Leaves reads b b' true ∧
        b'.auth.load login = .ok file' := by
  cases hw : b.writeLink login fp stamp ok with
  | mk r b' =>
    cases r with
    | error e =>
      rw [writeLink_error hw]
      exact .inl ⟨e, rfl⟩
    | ok u =>
      obtain ⟨hcached, file', htext, hauth⟩ := writeLink_ok hk hindex hw
      refine .inr ⟨b', file', rfl, ⟨hcached, nofun, fun _ => ⟨login, file', hk, hauth, ?_⟩⟩, ?_⟩
      · rw [htext]
        cases fp with
        | none => exact .inl rfl
        | some f => exact .inr ⟨f, rfl, hfp f rfl⟩
      · rw [hauth]
        exact FileAuth.load_eq_ok.2
          ⟨(FileAuth.load_eq_ok.1 hload).1, (Map.get_set ..).trans (if_pos rfl)⟩

theorem Leaves.of_index {index : Index} {wrote : Bool}
    (h : Leaves reads { b with index := index } b' wrote) : Leaves reads b b' wrote :=
  ⟨h.cached, h.auth, h.relinked⟩

/-- The instants a call reads the directory at are honest. -/
def Moment.Honest (reads : String → FileStamp → Option AccountFile) (b : Backend) (m : Moment) : Prop :=
  ∀ t ∈ [m.seen, m.now, m.seen', m.now'], Accounts.Honest reads b t

variable {m : Moment}

theorem linkIdentity_leaves {fp : Fingerprint} (hlower : b.auth.Lower)
    (hindex : Cached reads b.auth.reserved b.index) (hm : m.Honest reads b) :
    Leaves reads b (b.step m (.link login fp)).2 (b.step m (.link login fp)).1.wrote := by
  unfold Backend.step Backend.linkIdentity
  dsimp only
  cases hlook : b.auth.lookup login with
  | error e => exact .still hindex
  | ok account =>
    obtain ⟨k, file, hk, hload, rfl⟩ := lookup_ok hlook
    dsimp only
    split
    case isTrue => exact .still hindex
    split
    case isTrue => exact .still hindex
    obtain ⟨index, hcached, ⟨k', file', -, -, hfind⟩ | ⟨hno, hfind⟩⟩ :=
      findByFingerprint_spec fp hlower hindex (hm m.seen (by simp)) (hm m.now (by simp))
    · rw [hfind]
      exact .still hcached
    · rw [hfind]
      dsimp only
      rcases @writeLink_spec reads { b with index := index } k (some fp) m.stamp m.ok _ hk hload hcached (fun f hf => Option.some.inj hf ▸ hno) with
        ⟨e, hw⟩ | ⟨b', file', hw, hleaves, hload'⟩
      · rw [show (file.intoAccount k b.auth.roles).login = k from rfl, hw]
        exact .still hcached
      · rw [show (file.intoAccount k b.auth.roles).login = k from rfl, hw]
        dsimp only
        rw [FileAuth.lookup_of_load hk hload']
        exact hleaves.of_index

theorem rotateLink_leaves {from_ to_ : Fingerprint} (hlower : b.auth.Lower)
    (hindex : Cached reads b.auth.reserved b.index) (hm : m.Honest reads b) :
    Leaves reads b (b.step m (.rotate from_ to_)).2 (b.step m (.rotate from_ to_)).1.wrote := by
  unfold Backend.step Backend.rotateLink
  dsimp only
  obtain ⟨hfound, hcached⟩ :=
    loginFor_spec from_ hlower hindex (hm m.seen (by simp)) (hm m.now (by simp))
  revert hfound hcached
  generalize b.loginFor from_ m.seen m.now = out
  obtain ⟨found, index⟩ := out
  rintro (⟨k, hk, hstates⟩ | ⟨hnone, -⟩) hcached
  · obtain rfl : found = some k := hk
    obtain ⟨hcanon, text, htext, -⟩ := hstates
    obtain ⟨file, hload, -⟩ := FileAuth.load_of_text htext
    dsimp only
    obtain ⟨hfound', hcached'⟩ := @loginFor_spec reads { b with index := index } to_ _ _ hlower
      hcached (hm m.seen' (by simp)) (hm m.now' (by simp))
    revert hfound' hcached'
    generalize ({ b with index := index } : Backend).loginFor to_ m.seen' m.now' = out
    obtain ⟨found', index'⟩ := out
    rintro (⟨k', hk', -⟩ | ⟨hnone', hno⟩) hcached'
    · obtain rfl : found' = some k' := hk'
      exact .still hcached'
    · obtain rfl : found' = none := hnone'
      dsimp only
      rcases @writeLink_spec reads { b with index := index' } k (some to_) m.stamp m.ok _ hcanon hload hcached' (fun f hf => Option.some.inj hf ▸ hno) with
        ⟨e, hw⟩ | ⟨b', file', hw, hleaves, hload'⟩
      · rw [hw]
        exact .still hcached'
      · rw [hw]
        dsimp only
        rw [FileAuth.lookup_of_load hcanon hload']
        exact hleaves.of_index
  · obtain rfl : found = none := hnone
    exact .still hcached

theorem unlinkIdentity_leaves {fp : Fingerprint} (hlower : b.auth.Lower)
    (hindex : Cached reads b.auth.reserved b.index) (hm : m.Honest reads b) :
    Leaves reads b (b.step m (.unlink fp)).2 (b.step m (.unlink fp)).1.wrote := by
  unfold Backend.step Backend.unlinkIdentity
  dsimp only
  obtain ⟨index, hcached, ⟨k, file, hstates, hload, hfind⟩ | ⟨-, hfind⟩⟩ :=
    findByFingerprint_spec fp hlower hindex (hm m.seen (by simp)) (hm m.now (by simp))
  · rw [hfind]
    dsimp only
    split
    case isTrue => exact .still hcached
    case isFalse =>
      rcases @writeLink_spec reads { b with index := index } k none m.stamp m.ok _ hstates.1 hload hcached (fun f hf => absurd hf nofun) with
        ⟨e, hw⟩ | ⟨b', file', hw, hleaves, -⟩
      · rw [show (file.intoAccount k b.auth.roles).login = k from rfl, hw]
        exact .still hcached
      · rw [show (file.intoAccount k b.auth.roles).login = k from rfl, hw]
        exact hleaves.of_index
  · rw [hfind]
    exact .still hcached

theorem lower_candidate {proposed : String} {fp : Fingerprint}
    (h : login ∈ Backend.candidates (Backend.baseLogin proposed fp)) : login.toLower = login := by
  have hchars : ∀ s : String, (∀ c ∈ s.toList, c.toLower = c) → s.toLower = s := fun s hs => by
    refine String.toList_inj.1 ?_
    rw [String.toLower, String.toList_map]
    exact (List.map_congr_left hs).trans (List.map_id _)
  have hproposed : ∀ c ∈ proposed.toLower.toList, c.toLower = c := fun c hc => by
    rw [String.toLower, String.toList_map] at hc
    obtain ⟨d, -, rfl⟩ := List.mem_map.1 hc
    exact char_toLower_toLower d
  have hbase : ∀ c ∈ (Backend.baseLogin proposed fp).toList, c.toLower = c := fun c hc => by
    unfold Backend.baseLogin at hc
    dsimp only at hc
    split at hc
    case isTrue =>
      rw [String.toList_append, List.mem_append] at hc
      rcases hc with hc | hc
      · have hid : ("id-".toList.all fun c => decide (c.toLower = c)) = true := by decide +kernel
        exact of_decide_eq_true (List.all_eq_true.1 hid c hc)
      · rw [String.toList_ofList] at hc
        exact (toText_digits (List.mem_of_mem_take hc)).1
    case isFalse =>
      rw [String.toList_ofList] at hc
      have := List.mem_of_mem_take (List.dropWhile_subset _ hc)
      exact hproposed c (List.mem_of_mem_filter this)
  rw [Backend.candidates, List.mem_cons, List.mem_map] at h
  rcases h with rfl | ⟨n, -, rfl⟩
  · exact hchars _ hbase
  · refine hchars _ fun c hc => ?_
    rw [String.toList_append, String.toList_append, List.mem_append, List.mem_append] at hc
    rcases hc with (hc | hc) | hc
    · exact hbase c hc
    · obtain rfl := List.mem_singleton.1 hc
      rfl
    · have hdigit : c.isDigit = true := by
        rw [show (toString (n + 2)).toList = Nat.toDigits 10 (n + 2) from String.toList_ofList] at hc
        exact Nat.isDigit_of_mem_toDigits (by decide) (by decide) hc
      have hle : c.val ≤ 57 := (of_decide_eq_true (Bool.and_eq_true_iff.1 hdigit).2)
      exact dif_neg fun h => absurd (UInt32.le_trans h.1 hle) (by decide)

theorem create_leaves {proposed name : String} {fp : Fingerprint} {access : AccessBits}
    (hlower : b.auth.Lower) (hindex : Cached reads b.auth.reserved b.index) (hm : m.Honest reads b) :
    Leaves reads b (b.step m (.create proposed name fp access)).2
        (b.step m (.create proposed name fp access)).1.wrote ∧
      (∀ account, (b.step m (.create proposed name fp access)).1 = .created account true →
        ∀ k, ¬b.auth.States k fp) := by
  unfold Backend.step Backend.findOrCreateLinked
  dsimp only
  obtain ⟨index, hcached, ⟨k, file, -, -, hfind⟩ | ⟨hno, hfind⟩⟩ :=
    findByFingerprint_spec fp hlower hindex (hm m.seen (by simp)) (hm m.now (by simp))
  · rw [hfind]
    refine ⟨.still hcached, fun account h => ?_⟩
    injection h with _ h
    cases h
  · rw [hfind]
    refine ⟨?_, fun _ _ => hno⟩
    dsimp only
    split
    case h_1 => exact .still hcached
    case h_2 login hlogin =>
    split
    case isTrue => exact .still hcached
    case isFalse =>
    obtain ⟨hname, -⟩ := Bool.and_eq_true_iff.1 (List.find?_some (p := fun login =>
        Backend.nameable b.auth login && decide (b.auth.files.get login = none)) hlogin)
    unfold Backend.nameable at hname
    rw [Bool.and_eq_true, Bool.and_eq_true, Bool.not_eq_true'] at hname
    obtain ⟨⟨hv, -⟩, hfree⟩ := hname
    have hk : Canonical login := by
      unfold Canonical adminLogin
      simp only [lower_candidate (List.mem_of_find?_eq_some hlogin), hv, if_true]
    generalize hfile : ({ name := some name, access := _, identity := _ } : AccountFile) = file
    have hload : ({ b.auth with files := b.auth.files.set login (some file) } : FileAuth).load login =
        .ok file :=
      FileAuth.load_eq_ok.2 ⟨hfree, (Map.get_set ..).trans (if_pos rfl)⟩
    rw [FileAuth.lookup_of_load hk hload]
    refine ⟨⟨hcached.files, hcached.byFp⟩, nofun, fun _ => ⟨login, file, hk, rfl, .inr ⟨fp, ?_, hno⟩⟩⟩
    rw [← hfile]

/-- What each call leaves, an operator's edit apart. -/
theorem step_leaves (hlower : b.auth.Lower) (hindex : Cached reads b.auth.reserved b.index)
    (hm : m.Honest reads b) (op : Op) (hop : ∀ files stamps roles, op ≠ .edit files stamps roles) :
    Leaves reads b (b.step m op).2 (b.step m op).1.wrote := by
  cases op with
  | find fp =>
    unfold Backend.step
    dsimp only
    obtain ⟨index, hcached, ⟨k, file, -, -, hfind⟩ | ⟨-, hfind⟩⟩ :=
      findByFingerprint_spec fp hlower hindex (hm m.seen (by simp)) (hm m.now (by simp))
    · rw [hfind]
      exact .still hcached
    · rw [hfind]
      exact .still hcached
  | link login fp => exact linkIdentity_leaves hlower hindex hm
  | rotate from_ to_ => exact rotateLink_leaves hlower hindex hm
  | unlink fp => exact unlinkIdentity_leaves hlower hindex hm
  | create proposed name fp access => exact (create_leaves hlower hindex hm).1
  | edit files stamps roles => exact absurd rfl (hop files stamps roles)

end Steps

/-! ## Runs -/

/-- The states a run reaches: begun with nothing remembered, in a directory `Keeps` holds of, each call
made where a settled stamp determines what its file reads as, and each edit leaving another directory
`Keeps` holds of. -/
inductive Reached (reads : String → FileStamp → Option AccountFile) (Keeps : FileAuth → Prop) :
    Backend → Prop where
  | start (auth : FileAuth) (stamps : String → FileStamp) :
    Keeps auth → Reached reads Keeps { auth := auth, stamps := stamps }
  | step {b : Backend} (m : Moment) (op : Op) :
    Reached reads Keeps b → m.Honest reads b →
      (∀ files stamps roles, op = .edit files stamps roles → Keeps (b.step m op).2.auth) →
      Reached reads Keeps (b.step m op).2

/-- The property kept of directories: by an operator's edits, and by what the calls write. -/
theorem Reached.invariant {reads : String → FileStamp → Option AccountFile} {Keeps : FileAuth → Prop}
    (hlower : ∀ a, Keeps a → a.Lower) (hrelinked : ∀ {a a'}, Relinked a a' → Keeps a → Keeps a')
    {b : Backend} (h : Reached reads Keeps b) :
    Keeps b.auth ∧ Cached reads b.auth.reserved b.index := by
  induction h with
  | start auth stamps hauth => exact ⟨hauth, nofun, nofun⟩
  | @step b m op _ hm hedit ih =>
    by_cases hop : ∀ files stamps roles, op ≠ .edit files stamps roles
    · have hleaves := step_leaves (hlower _ ih.1) ih.2 hm op hop
      refine ⟨?_, hleaves.cached⟩
      cases hw : (b.step m op).1.wrote with
      | true => exact hrelinked (hleaves.relinked hw) ih.1
      | false => exact (hleaves.auth hw) ▸ ih.1
    · push Not at hop
      obtain ⟨files, stamps, roles, rfl⟩ := hop
      exact ⟨hedit files stamps roles rfl, ih.2⟩

/-- Does `findByFingerprint` answer an account exactly for the identities accounts resolve to? -/
def FindsAll (reads : String → FileStamp → Option AccountFile) (b : Backend) : Prop :=
  ∀ fp seen now, Honest reads b seen → Honest reads b now →
    ((∃ account, (b.findByFingerprint fp seen now).1 = .ok (some account)) ↔
      ∃ k, b.auth.Resolves k fp)

section Main
variable {reads : String → FileStamp → Option AccountFile} {b : Backend}

theorem found_iff_states (hlower : b.auth.Lower) (hindex : Cached reads b.auth.reserved b.index)
    {fp : Fingerprint} {seen now : Nat} (hseen : Honest reads b seen) (hnow : Honest reads b now) :
    (∃ account, (b.findByFingerprint fp seen now).1 = .ok (some account)) ↔
      ∃ k, b.auth.States k fp := by
  obtain ⟨index, -, ⟨k, file, hstates, -, hfind⟩ | ⟨hno, hfind⟩⟩ :=
    findByFingerprint_spec fp hlower hindex hseen hnow
  · rw [hfind]
    exact ⟨fun _ => ⟨k, hstates⟩, fun _ => ⟨_, rfl⟩⟩
  · rw [hfind]
    exact ⟨fun ⟨_, h⟩ => absurd h nofun, fun ⟨k, h⟩ => absurd h (hno k)⟩

theorem findsAll_of_plain (hlower : b.auth.Lower) (hindex : Cached reads b.auth.reserved b.index)
    (hplain : b.auth.Plain) : FindsAll reads b := fun _ _ _ hseen hnow =>
  (found_iff_states hlower hindex hseen hnow).trans
    ⟨fun ⟨k, h⟩ => ⟨k, h.resolves⟩, fun ⟨k, h⟩ => ⟨k, hplain.states h⟩⟩

theorem plain_of_findsAll (hlower : b.auth.Lower) (hindex : Cached reads b.auth.reserved b.index)
    (hunique : b.auth.Unique) (h : FindsAll reads b) : b.auth.Plain := by
  -- At the first instant no stamp has settled.
  have hnever : Honest reads b 0 := fun k content _ hs => by
    unfold settled at hs
    cases hm : (b.stamps k).modified with
    | none =>
      rw [hm] at hs
      cases hs
    | some t =>
      rw [hm, Option.any_some, decide_eq_true_eq] at hs
      unfold SECOND at hs
      omega
  intro k text fp hk htext hparse
  have hres : b.auth.Resolves k fp := ⟨hk, by rw [htext]; exact hparse⟩
  obtain ⟨k', hstates⟩ := (found_iff_states hlower hindex hnever hnever).1
    ((h fp 0 0 hnever hnever).2 ⟨k, hres⟩)
  obtain rfl := hunique k k' fp hres hstates.resolves
  obtain ⟨-, text', htext', hlow⟩ := hstates
  obtain rfl := Option.some.inj (htext.symm.trans htext')
  exact hlow

/-- In every run whose directories, as an operator leaves them, are plain and hold one account an
identity, a lookup answers an account exactly where one resolves to the identity, no two ever resolve to
one, none is made where one does, and a call that answers an error or a refusal writes nothing. In any
run, where no two accounts resolve to one identity, the lookup is right for every identity exactly when
the directory is plain. -/
theorem one_account_per_identity (reads : String → FileStamp → Option AccountFile) :
    (∀ b, Reached reads (fun a => a.Lower ∧ a.Unique ∧ a.Plain) b →
      b.auth.Unique ∧ FindsAll reads b ∧ ∀ m, m.Honest reads b →
        (∀ proposed name fp access account,
          (b.step m (.create proposed name fp access)).1 = .created account true →
            ∀ k, ¬b.auth.Resolves k fp) ∧
        ∀ op, (b.step m op).1.wrote = false → (b.step m op).2.auth = b.auth) ∧
    ∀ b, Reached reads FileAuth.Lower b → b.auth.Unique → (FindsAll reads b ↔ b.auth.Plain) := by
  refine ⟨fun b hb => ?_, fun b hb hunique => ?_⟩
  · obtain ⟨⟨hlower, hunique, hplain⟩, hindex⟩ := hb.invariant (fun _ h => h.1)
      fun h ⟨hl, hu, hp⟩ => ⟨h.lower hl, h.unique hp hu, h.plain hp⟩
    refine ⟨hunique, findsAll_of_plain hlower hindex hplain, fun m hm =>
      ⟨fun proposed name fp access account h k hk => ?_, fun op hop => ?_⟩⟩
    · exact (create_leaves hlower hindex hm).2 account h k (hplain.states hk)
    · refine (step_leaves hlower hindex hm op fun files stamps roles heq => ?_).auth hop
      subst heq
      cases hop
  · obtain ⟨hlower, hindex⟩ := hb.invariant (fun _ => id) fun h hl => h.lower hl
    exact ⟨plain_of_findsAll hlower hindex hunique, findsAll_of_plain hlower hindex⟩

end Main

/-- The identity whose display form is 52 zeros. -/
def zeros : Fingerprint := Bytes.replicate 32 0

/-- One account, linked by hand: `O` for the zero it starts with. -/
def handLinked : Backend where
  auth :=
    { files := .set .empty "alice" (some { identity :=
        { fingerprint := some "O000000000000000000000000000000000000000000000000000" } })
      reserved := none
      rolesFile := false
      roles := .empty }
  stamps := fun _ => ⟨0, none⟩

def firstMoment : Moment := ⟨0, 0, 0, 0, ⟨0, none⟩, true⟩

/-- A link written by hand with a letter taken for a digit: the account resolves to the identity, the
lookup misses it, and a second account is made for it. -/
theorem hand_linked_twice :
    Reached (fun _ _ => none) (fun a => a.Lower ∧ a.Unique) handLinked ∧
      handLinked.auth.Resolves "alice" zeros ∧
      (handLinked.findByFingerprint zeros 0 0).1 = .ok none ∧
      (∃ account, (handLinked.step firstMoment (.create "bob" "Bob" zeros 0)).1 =
        .created account true) ∧
      ¬(handLinked.step firstMoment (.create "bob" "Bob" zeros 0)).2.auth.Unique := by
  have honly : ∀ k content, handLinked.auth.files.get k = some content → k = "alice" :=
    fun k content h => by_contra fun hk => by
      rw [show handLinked.auth.files.get k = none from (Map.get_set ..).trans (if_neg hk)] at h
      cases h
  have hresolves : ∀ k fp, handLinked.auth.Resolves k fp → k = "alice" := fun k fp h => by
    obtain ⟨text, htext, -⟩ := Option.bind_eq_some_iff.1 h.2
    obtain ⟨file, hload, -⟩ := FileAuth.load_of_text htext
    exact honly k _ (FileAuth.load_eq_ok.1 hload).2
  refine ⟨.start _ _ ⟨fun k content hk _ => ?_, fun k k' fp hk hk' => ?_⟩, ⟨?_, ?_⟩, ?_, ?_, ?_⟩
  · rw [honly k content hk]
    decide +kernel
  · rw [hresolves k fp hk, hresolves k' fp hk']
  · show adminLogin "alice" = .ok "alice"
    decide +kernel
  · decide +kernel
  · decide +kernel
  · have h : (match (handLinked.step firstMoment (.create "bob" "Bob" zeros 0)).1 with
      | .created _ isNew => isNew
      | _ => false) = true := by decide +kernel
    revert h
    cases (handLinked.step firstMoment (.create "bob" "Bob" zeros 0)).1 with
    | created account isNew =>
      intro h
      obtain rfl : isNew = true := h
      exact ⟨account, rfl⟩
    | _ => exact nofun
  · intro h
    refine absurd (h "alice" "bob" zeros ⟨?_, ?_⟩ ⟨?_, ?_⟩) (by decide)
    · show adminLogin "alice" = .ok "alice"
      decide +kernel
    · decide +kernel
    · show adminLogin "bob" = .ok "bob"
      decide +kernel
    · decide +kernel

end HxdNg.Accounts
