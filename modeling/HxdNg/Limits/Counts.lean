import HxdNg.Limits.ConnGate

/-!
# The counts are exact

* `Counted` : what is counted; `Table.live`, `Gate.holding` : its count, and the permits that hold a
  place there;
* `Gate.Exact` : the two are the same; `Gate.Within` : no count passes its limit;
* `counts_exact` : both hold after any run, no subtraction meets 0, and a refusal changes nothing.
-/

namespace HxdNg.Limits

open Assoc

/-- What connections are counted by. -/
inductive Counted where
  | addr (key : IpAddr)
  | wide (net : IpAddr)
  | account (login : String)
  deriving DecidableEq

def Place.takes : Place → Counted → Bool
  | .addr key _, .addr k => key = k
  | .addr _ wide, .wide net => wide = some net
  | .account login, .account l => login = l
  | _, _ => false

namespace Table
variable {t : Table}

def live (t : Table) : Counted → Nat
  | .addr key => (lookup t.map key).getD 0
  | .wide net => (lookup t.by48 net).getD 0
  | .account login => (lookup t.accounts login).getD 0

@[simp] theorem live_addr {key : IpAddr} : t.live (.addr key) = (lookup t.map key).getD 0 := rfl

@[simp] theorem live_wide {net : IpAddr} : t.live (.wide net) = (lookup t.by48 net).getD 0 := rfl

@[simp] theorem live_account {login : String} :
    t.live (.account login) = (lookup t.accounts login).getD 0 := rfl

/-- Each table has one entry for a key, and a /48 is in its own only while it holds a connection. -/
structure Valid (t : Table) : Prop where
  map : Assoc.Valid t.map
  accounts : Assoc.Valid t.accounts
  by48 : Assoc.Valid t.by48
  noZeros : ∀ net, lookup t.by48 net ≠ some 0

theorem getD_filter_pos (o : Option Nat) (full : Bool) :
    (o.filter fun n => decide (0 < n) || !full).getD 0 = o.getD 0 := by
  cases o with
  | none => rfl
  | some n => cases n <;> cases full <;> simp [Option.filter]

theorem filter_pos {o : Option Nat} (h : 0 < o.getD 0) (full : Bool) :
    (o.filter fun n => decide (0 < n) || !full) = o := by
  cases o with
  | none => rfl
  | some n =>
    have hn : 0 < n := h
    simp [Option.filter, hn]

theorem valid_pruneAddrs (h : t.Valid) (full : IpAddr → Bool) : (t.pruneAddrs full).Valid := by
  unfold pruneAddrs
  split
  · exact ⟨valid_filter h.map _, h.accounts, h.by48, h.noZeros⟩
  · exact h

theorem valid_pruneAccounts (h : t.Valid) (full : String → Bool) :
    (t.pruneAccounts full).Valid := by
  unfold pruneAccounts
  split
  · exact ⟨h.map, valid_filter h.accounts _, h.by48, h.noZeros⟩
  · exact h

/-- Pruning forgets only what holds nothing. -/
theorem lookup_pruneAddrs (h : t.Valid) (full : IpAddr → Bool) {key : IpAddr}
    (hlive : 0 < t.live (.addr key)) : lookup (t.pruneAddrs full).map key = lookup t.map key := by
  unfold pruneAddrs
  split
  · show lookup (t.map.filter _) key = _
    rw [lookup_filter h.map]
    exact filter_pos hlive (full key)
  · rfl

theorem lookup_pruneAccounts (h : t.Valid) (full : String → Bool) {login : String}
    (hlive : 0 < t.live (.account login)) :
    lookup (t.pruneAccounts full).accounts login = lookup t.accounts login := by
  unfold pruneAccounts
  split
  · show lookup (t.accounts.filter _) login = _
    rw [lookup_filter h.accounts]
    exact filter_pos hlive (full login)
  · rfl

theorem live_pruneAddrs (h : t.Valid) (full : IpAddr → Bool) (c : Counted) :
    (t.pruneAddrs full).live c = t.live c := by
  unfold pruneAddrs
  split
  · cases c with
    | addr key =>
      show (lookup (t.map.filter _) key).getD 0 = _
      rw [lookup_filter h.map]
      exact getD_filter_pos _ (full key)
    | wide net => rfl
    | account login => rfl
  · rfl

theorem live_pruneAccounts (h : t.Valid) (full : String → Bool) (c : Counted) :
    (t.pruneAccounts full).live c = t.live c := by
  unfold pruneAccounts
  split
  · cases c with
    | addr key => rfl
    | wide net => rfl
    | account login =>
      show (lookup (t.accounts.filter _) login).getD 0 = _
      rw [lookup_filter h.accounts]
      exact getD_filter_pos _ (full login)
  · rfl

/-- What a place gives back is one in each of its counts. -/
theorem live_release (h : t.Valid) (place : Place) (c : Counted) :
    (t.release place).live c = t.live c - (if place.takes c then 1 else 0) := by
  cases place with
  | addr key wide =>
    cases c with
    | addr k =>
      show (lookup (alter key _ t.map) k).getD 0 = _
      rw [lookup_alter h.map]
      by_cases hk : k = key
      · subst hk
        rw [if_pos rfl, if_pos (by simp [Place.takes]), live_addr]
        cases lookup t.map k <;> rfl
      · rw [if_neg hk, if_neg (by simpa [Place.takes] using Ne.symm hk)]
        rfl
    | wide net =>
      cases wide with
      | none => rfl
      | some w =>
        show (lookup (alter w _ t.by48) net).getD 0 = _
        rw [lookup_alter h.by48]
        by_cases hk : net = w
        · subst hk
          rw [if_pos rfl, if_pos (by simp [Place.takes]), live_wide]
          cases lookup t.by48 net with
          | none => rfl
          | some n =>
            by_cases hn : n - 1 = 0
            · simp [hn]
            · simp [hn]
        · rw [if_neg hk, if_neg (by simpa [Place.takes] using Ne.symm hk)]
          rfl
    | account login => rfl
  | account login =>
    cases c with
    | addr k => rfl
    | wide net => rfl
    | account l =>
      show (lookup (alter login _ t.accounts) l).getD 0 = _
      rw [lookup_alter h.accounts]
      by_cases hk : l = login
      · subst hk
        rw [if_pos rfl, if_pos (by simp [Place.takes]), live_account]
        cases lookup t.accounts l <;> rfl
      · rw [if_neg hk, if_neg (by simpa [Place.takes] using Ne.symm hk)]
        rfl

theorem valid_release (h : t.Valid) (place : Place) : (t.release place).Valid := by
  cases place with
  | addr key wide =>
    refine ⟨valid_alter h.map _ _, h.accounts, ?_, fun net => ?_⟩
    · cases wide with
      | none => exact h.by48
      | some w => exact valid_alter h.by48 _ _
    · cases wide with
      | none => exact h.noZeros net
      | some w =>
        show lookup (alter w _ t.by48) net ≠ some 0
        rw [lookup_alter h.by48]
        split
        · cases lookup t.by48 w with
          | none => simp
          | some n =>
            by_cases hn : n - 1 = 0
            · simp [hn]
            · simp [hn]
        · exact h.noZeros net
  | account login => exact ⟨h.map, valid_alter h.accounts _ _, h.by48, h.noZeros⟩

/-- Looking a key up makes it an entry, and changes no count. -/
theorem live_entry_addr (h : t.Valid) (key : IpAddr) (c : Counted) :
    live { t with map := alter key (fun s => some (s.getD 0)) t.map } c = t.live c := by
  cases c with
  | addr k =>
    show (lookup (alter key _ t.map) k).getD 0 = _
    rw [lookup_alter h.map]
    by_cases hk : k = key
    · rw [if_pos hk, live_addr, hk]
      rfl
    · rw [if_neg hk]
      rfl
  | wide net => rfl
  | account login => rfl

theorem live_entry_account (h : t.Valid) (login : String) (c : Counted) :
    live { t with accounts := alter login (fun s => some (s.getD 0)) t.accounts } c = t.live c := by
  cases c with
  | addr k => rfl
  | wide net => rfl
  | account l =>
    show (lookup (alter login _ t.accounts) l).getD 0 = _
    rw [lookup_alter h.accounts]
    by_cases hk : l = login
    · rw [if_pos hk, live_account, hk]
      rfl
    · rw [if_neg hk]
      rfl

end Table

/-! ## Permits -/

namespace Gate
variable {g : Gate}

def holding (g : Gate) (c : Counted) : Nat :=
  g.permits.countP fun e => e.2.place.any fun place => place.takes c

def share (p : Option ConnPermit) (c : Counted) : Nat :=
  if p.any fun p => p.place.any fun place => place.takes c then 1 else 0

/-- The counts are those of the permits that are not dropped. -/
structure Exact (g : Gate) : Prop where
  table : g.table.Valid
  permits : Assoc.Valid g.permits
  fresh : ∀ id, g.next ≤ id → lookup g.permits id = none
  counts : ∀ c, g.table.live c = g.holding c

theorem holding_alter (id : PermitId) (f : Option ConnPermit → Option ConnPermit) (c : Counted) :
    holding { g with permits := alter id f g.permits } c + share (lookup g.permits id) c =
      g.holding c + share (f (lookup g.permits id)) c := countP_alter _ id f g.permits

theorem share_none (c : Counted) : share none c = 0 := rfl

theorem share_place (place : Option Place) (carried : Option PermitId) (c : Counted) :
    share (some ⟨place, carried⟩) c = if place.any fun place => place.takes c then 1 else 0 := rfl

/-- A permit that is not dropped is in each count its place is of. -/
theorem share_le_holding (g : Gate) (id : PermitId) (c : Counted) :
    share (lookup g.permits id) c ≤ g.holding c := by
  have h := holding_alter (g := g) id (fun _ => none) c
  rw [share_none] at h
  omega

theorem Exact.new (limits : ConnLimits) : Exact { limits } where
  table := ⟨List.nodup_nil, List.nodup_nil, List.nodup_nil, fun _ => by simp⟩
  permits := List.nodup_nil
  fresh _ _ := rfl
  counts c := by cases c <;> rfl

/-- A permit is given for a place that the table counts. -/
theorem Exact.give (h : Exact g) {t : Table} (ht : t.Valid) (place : Option Place)
    (hlive : ∀ c, t.live c = g.table.live c + share (some ⟨place, none⟩) c) :
    Exact (g.give t place).2 := by
  refine ⟨ht, valid_alter h.permits _ _, fun id hid => ?_, fun c => ?_⟩
  · show lookup (alter g.next _ g.permits) id = none
    have hid : g.next + 1 ≤ id := hid
    rw [lookup_alter h.permits, if_neg (Nat.ne_of_gt hid)]
    exact h.fresh id (Nat.le_of_succ_le hid)
  · have hcount := holding_alter (g := g) g.next (fun _ => some ⟨place, none⟩) c
    rw [h.fresh g.next le_rfl, share_none] at hcount
    show t.live c = holding { g with permits := alter g.next _ g.permits } c
    rw [hlive, h.counts]
    omega

theorem Exact.refused (h : Exact g) {t : Table} (ht : t.Valid)
    (hlive : ∀ c, t.live c = g.table.live c) : Exact { g with table := t } :=
  ⟨ht, h.permits, h.fresh, fun c => (hlive c).trans (h.counts c)⟩

theorem Exact.release (h : Exact g) (id : PermitId) : Exact (g.release id) := by
  unfold Gate.release
  cases hp : lookup g.permits id with
  | none => exact h
  | some p =>
    have hcount (c) := holding_alter (g := g) id (fun _ => none) c
    simp only [hp, share_none] at hcount
    refine ⟨?_, valid_alter h.permits _ _, fun i hi => ?_, fun c => ?_⟩
    · dsimp only
      split
      · exact Table.valid_release h.table _
      · exact h.table
    · show lookup (alter id _ g.permits) i = none
      rw [lookup_alter h.permits]
      split
      · rfl
      · exact h.fresh i hi
    · show Table.live _ c = holding { g with permits := alter id _ g.permits } c
      have hc := hcount c
      obtain ⟨place, carried⟩ := p
      rw [share_place] at hc
      cases place with
      | none =>
        dsimp only
        rw [h.counts]
        simpa using hc.symm
      | some place =>
        dsimp only
        rw [Table.live_release h.table, h.counts]
        simp only [Option.any_some] at hc
        omega

theorem Exact.carry (h : Exact g) (id other : PermitId) : Exact (g.carry id other) := by
  refine ⟨h.table, valid_alter h.permits _ _, fun i hi => ?_, fun c => ?_⟩
  · show lookup (alter id _ g.permits) i = none
    rw [lookup_alter h.permits]
    split
    · next heq => rw [← heq, h.fresh i hi]; rfl
    · exact h.fresh i hi
  · have hc := holding_alter (g := g) id
      (fun p => p.map fun p => { p with carried := some other }) c
    have hshare : share ((lookup g.permits id).map fun p => { p with carried := some other }) c =
        share (lookup g.permits id) c := by
      cases lookup g.permits id <;> rfl
    rw [hshare] at hc
    show g.table.live c = holding { g with permits := alter id _ g.permits } c
    rw [h.counts]
    omega

/-- What is counted for a connection admitted. -/
def counted (t : Table) (key : IpAddr) (wide : Option IpAddr) : Table :=
  let by48 := match wide with
    | some wide => alter wide (fun n => some (n.getD 0 + 1)) t.by48
    | none => t.by48
  { t with by48, map := alter key (fun s => s.map fun live => live + 1) t.map }

theorem valid_counted {t : Table} (h : t.Valid) (key : IpAddr) (wide : Option IpAddr) :
    (counted t key wide).Valid := by
  refine ⟨valid_alter h.map _ _, h.accounts, ?_, fun net => ?_⟩
  · cases wide with
    | none => exact h.by48
    | some w => exact valid_alter h.by48 _ _
  · cases wide with
    | none => exact h.noZeros net
    | some w =>
      show lookup (alter w _ t.by48) net ≠ some 0
      rw [lookup_alter h.by48]
      split
      · simp
      · exact h.noZeros net

theorem live_counted {t : Table} (h : t.Valid) {key : IpAddr} (wide : Option IpAddr)
    (hentry : (lookup t.map key).isSome) (c : Counted) :
    (counted t key wide).live c = t.live c + if (Place.addr key wide).takes c then 1 else 0 := by
  cases c with
  | addr k =>
    show (lookup (alter key _ t.map) k).getD 0 = _
    rw [lookup_alter h.map]
    by_cases hk : k = key
    · obtain ⟨n, hn⟩ := Option.isSome_iff_exists.mp hentry
      rw [if_pos hk, if_pos (by simp [Place.takes, hk]), Table.live_addr, hk, hn]
      rfl
    · rw [if_neg hk, if_neg (by simpa [Place.takes] using Ne.symm hk)]
      rfl
  | wide net =>
    cases wide with
    | none => rfl
    | some w =>
      show (lookup (alter w _ t.by48) net).getD 0 = _
      rw [lookup_alter h.by48]
      by_cases hk : net = w
      · rw [if_pos hk, if_pos (by simp [Place.takes, hk]), Table.live_wide, hk]
        rfl
      · rw [if_neg hk, if_neg (by simpa [Place.takes] using Ne.symm hk)]
        rfl
  | account login => rfl

/-- The table `admitIp` looks the address up in. -/
def looked (g : Gate) (ip : IpAddr) (full : IpAddr → Bool) : Table :=
  { g.table.pruneAddrs full with
    map := alter (limitKey ip) (fun s => some (s.getD 0)) (g.table.pruneAddrs full).map }

theorem looked_spec (h : Exact g) (ip : IpAddr) (full : IpAddr → Bool) :
    (g.looked ip full).Valid ∧ (∀ c, (g.looked ip full).live c = g.table.live c) ∧
      (lookup (g.looked ip full).map (limitKey ip)).isSome := by
  have hv := Table.valid_pruneAddrs h.table full
  refine ⟨⟨valid_alter hv.map _ _, hv.accounts, hv.by48, hv.noZeros⟩, fun c => ?_, ?_⟩
  · exact (Table.live_entry_addr hv _ c).trans (Table.live_pruneAddrs h.table full c)
  · show (lookup (alter _ _ _) _).isSome
    rw [lookup_alter hv.map, if_pos rfl]
    rfl

/-- The /48 an address's connections are counted by. -/
def wideOf (l : ConnLimits) (ip : IpAddr) : Option IpAddr := if l.perV648 = 0 then none else v648 ip

/-- `admitIp` counts the address nothing, refuses it, or counts it one more. -/
theorem admit_cases (g : Gate) (ip : IpAddr) (full : IpAddr → Bool) (spent : Bool) :
    g.admitIp ip full spent = (.ok g.next, (g.give g.table none).2) ∨
      (∃ refused, g.admitIp ip full spent = (.error refused, { g with table := g.looked ip full })) ∨
      (g.refusal (g.looked ip full) (limitKey ip) (wideOf g.limits ip) spent = none ∧
        g.admitIp ip full spent = (.ok g.next, (g.give
          (counted (g.looked ip full) (limitKey ip) (wideOf g.limits ip))
          (some (.addr (limitKey ip) (wideOf g.limits ip)))).2)) := by
  unfold admitIp
  dsimp only
  split
  · exact .inl rfl
  · split
    · next refused _ => exact .inr (.inl ⟨refused, rfl⟩)
    · next hnone => exact .inr (.inr ⟨hnone, rfl⟩)

theorem Exact.admitIp (h : Exact g) (ip : IpAddr) (full : IpAddr → Bool) (spent : Bool) :
    Exact (g.admitIp ip full spent).2 := by
  obtain ⟨hv, hlive, hentry⟩ := looked_spec h ip full
  rcases admit_cases g ip full spent with heq | ⟨refused, heq⟩ | ⟨-, heq⟩
  · rw [heq]
    exact h.give h.table none fun c => rfl
  · rw [heq]
    exact h.refused hv hlive
  · rw [heq]
    refine h.give (valid_counted hv _ _) _ fun c => ?_
    rw [live_counted hv _ hentry, hlive, share_place, Option.any_some]

/-- The table `admitAccount` looks the account up in. -/
def lookedAccount (g : Gate) (login : String) (full : String → Bool) : Table :=
  { g.table.pruneAccounts full with
    accounts := alter login (fun s => some (s.getD 0)) (g.table.pruneAccounts full).accounts }

theorem lookedAccount_spec (h : Exact g) (login : String) (full : String → Bool) :
    (g.lookedAccount login full).Valid ∧
      (∀ c, (g.lookedAccount login full).live c = g.table.live c) ∧
      (lookup (g.lookedAccount login full).accounts login).isSome := by
  have hv := Table.valid_pruneAccounts h.table full
  refine ⟨⟨hv.map, valid_alter hv.accounts _ _, hv.by48, hv.noZeros⟩, fun c => ?_, ?_⟩
  · exact (Table.live_entry_account hv _ c).trans (Table.live_pruneAccounts h.table full c)
  · show (lookup (alter _ _ _) _).isSome
    rw [lookup_alter hv.accounts, if_pos rfl]
    rfl

def countedAccount (t : Table) (login : String) : Table :=
  { t with accounts := alter login (fun s => s.map fun live => live + 1) t.accounts }

theorem live_countedAccount {t : Table} (h : t.Valid) {login : String}
    (hentry : (lookup t.accounts login).isSome) (c : Counted) :
    (countedAccount t login).live c = t.live c + if (Place.account login).takes c then 1 else 0 := by
  cases c with
  | addr k => rfl
  | wide net => rfl
  | account l =>
    show (lookup (alter login _ t.accounts) l).getD 0 = _
    rw [lookup_alter h.accounts]
    by_cases hk : l = login
    · obtain ⟨n, hn⟩ := Option.isSome_iff_exists.mp hentry
      rw [if_pos hk, if_pos (by simp [Place.takes, hk]), Table.live_account, hk, hn]
      rfl
    · rw [if_neg hk, if_neg (by simpa [Place.takes] using Ne.symm hk)]
      rfl

/-- Give back the place a permit leaves for an account's count. -/
def leftAddr (t : Table) : Option Place → Table
  | some (.addr key wide) => t.releaseAddr key wide
  | _ => t

/-- `admitAccount` leaves the permit where it is, or moves it to the account's count. -/
theorem admitAccount_cases (g : Gate) (id : PermitId) (login : String) (slack : Nat)
    (full : String → Bool) (spent : Bool) :
    g.admitAccount id login slack full spent = (.ok none, g) ∨
      (∃ refused, g.admitAccount id login slack full spent =
        (.error refused, { g with table := g.lookedAccount login full })) ∨
      ∃ p, lookup g.permits id = some p ∧ p.isAccount = false ∧
        g.accountRefusal (g.lookedAccount login full) login slack spent = none ∧
        g.admitAccount id login slack full spent = (.ok p.carried, { g with
          table := leftAddr (countedAccount (g.lookedAccount login full) login) p.place
          permits := insert id ⟨some (.account login), none⟩ g.permits }) := by
  unfold admitAccount
  split
  · exact .inl rfl
  · next p hp =>
    by_cases hacct : p.isAccount = true
    · rw [if_pos hacct]
      exact .inl rfl
    · rw [if_neg hacct]
      dsimp only
      split
      · next refused _ => exact .inr (.inl ⟨refused, rfl⟩)
      · next hnone =>
        refine .inr (.inr ⟨p, hp, by simpa using hacct, hnone, ?_⟩)
        obtain ⟨place, carried⟩ := p
        cases place with
        | none => rfl
        | some place => cases place <;> rfl

theorem Exact.admitAccount (h : Exact g) (id : PermitId) (login : String) (slack : Nat)
    (full : String → Bool) (spent : Bool) :
    Exact (g.admitAccount id login slack full spent).2 := by
  obtain ⟨hv, hlive, hentry⟩ := lookedAccount_spec h login full
  rcases admitAccount_cases g id login slack full spent with heq | ⟨refused, heq⟩ | ⟨p, hp, hacct, -, heq⟩
  · rw [heq]
    exact h
  · rw [heq]
    exact h.refused hv hlive
  · rw [heq]
    have hv' : (countedAccount (g.lookedAccount login full) login).Valid :=
      ⟨hv.map, valid_alter hv.accounts _ _, hv.by48, hv.noZeros⟩
    refine ⟨?_, valid_alter h.permits _ _, fun i hi => ?_, fun c => ?_⟩
    · show (leftAddr _ p.place).Valid
      unfold leftAddr
      split
      · exact Table.valid_release hv' (.addr _ _)
      · exact hv'
    · show lookup (alter id _ g.permits) i = none
      rw [lookup_alter h.permits, if_neg]
      · exact h.fresh i hi
      · rintro rfl
        rw [h.fresh i hi] at hp
        cases hp
    · have hc := holding_alter (g := g) id (fun _ => some ⟨some (.account login), none⟩) c
      rw [hp, share_place (some (.account login)), Option.any_some] at hc
      have hle := share_le_holding g id c
      rw [hp] at hle
      show (leftAddr _ p.place).live c = holding { g with permits := alter id _ g.permits } c
      obtain ⟨place, carried⟩ := p
      rw [share_place] at hc hle
      have hcounted := live_countedAccount hv hentry c
      rw [hlive, h.counts] at hcounted
      cases place with
      | none =>
        show (countedAccount _ login).live c = _
        simp only [Option.any_none, Bool.false_eq_true, if_false] at hc
        omega
      | some place =>
        cases place with
        | addr key wide =>
          show ((countedAccount _ login).release (.addr key wide)).live c = _
          rw [Table.live_release hv', hcounted]
          simp only [Option.any_some] at hc hle
          omega
        | account l => cases hacct

theorem Exact.step (h : Exact g) (op : Op) : Exact (g.step op).2 := by
  cases op with
  | admitIp ip full spent => exact h.admitIp ip full spent
  | admitAccount id login slack full spent => exact h.admitAccount id login slack full spent
  | carry id other => exact h.carry id other
  | release id => exact h.release id

/-! ## Limits -/

def ceiling (l : ConnLimits) (slack : String → Nat) : Counted → Option Nat
  | .addr _ => if l.perAddr = 0 then none else some l.perAddr
  | .wide _ => if l.perV648 = 0 then none else some l.perV648
  | .account login => if l.perAccount = 0 then none else some (l.perAccount + slack login)

def Within (g : Gate) (slack : String → Nat) : Prop :=
  ∀ c n, ceiling g.limits slack c = some n → g.table.live c ≤ n

theorem room_of_refusal {t : Table} {ip : IpAddr} {spent : Bool}
    (h : g.refusal t (limitKey ip) (wideOf g.limits ip) spent = none) {slack : String → Nat}
    {c : Counted} (hc : (Place.addr (limitKey ip) (wideOf g.limits ip)).takes c = true) {n : Nat}
    (hn : ceiling g.limits slack c = some n) : t.live c < n := by
  unfold refusal at h
  split at h
  · cases h
  · next haddr =>
    split at h
    · cases h
    · next hwide =>
      cases c with
      | addr key =>
        obtain rfl : limitKey ip = key := by simpa [Place.takes] using hc
        unfold ceiling at hn
        by_cases hz : g.limits.perAddr = 0
        · simp [hz] at hn
        · obtain rfl : g.limits.perAddr = n := by simpa [hz] using hn
          rw [Table.live_addr]
          exact Nat.lt_of_not_le fun hle => haddr ⟨hz, hle⟩
      | wide net =>
        have hnet : wideOf g.limits ip = some net := by simpa [Place.takes] using hc
        unfold ceiling at hn
        by_cases hz : g.limits.perV648 = 0
        · simp [hz] at hn
        · obtain rfl : g.limits.perV648 = n := by simpa [hz] using hn
          rw [Table.live_wide]
          exact Nat.lt_of_not_le fun hle => hwide (by simpa [hnet] using hle)
      | account login => cases hc

theorem room_of_accountRefusal {t : Table} {login : String} {s : Nat} {spent : Bool}
    (h : g.accountRefusal t login s spent = none) {slack : String → Nat} (hs : s ≤ slack login)
    {c : Counted} (hc : (Place.account login).takes c = true) {n : Nat}
    (hn : ceiling g.limits slack c = some n) : t.live c < n := by
  unfold accountRefusal at h
  split at h
  · cases h
  · next hfull =>
    cases c with
    | addr key => cases hc
    | wide net => cases hc
    | account l =>
      obtain rfl : login = l := by simpa [Place.takes] using hc
      unfold ceiling at hn
      by_cases hz : g.limits.perAccount = 0
      · simp [hz] at hn
      · obtain rfl : g.limits.perAccount + slack login = n := by simpa [hz] using hn
        rw [Table.live_account]
        by_contra hge
        exact hfull ⟨hz, by omega⟩

/-- The slack an operation asks for `login`. -/
def slackOf (login : String) : Op → Nat
  | .admitAccount _ l slack _ _ => if l = login then slack else 0
  | _ => 0

theorem step_limits (g : Gate) (op : Op) : (g.step op).2.limits = g.limits := by
  cases op with
  | admitIp ip full spent =>
    show (g.admitIp ip full spent).2.limits = g.limits
    rcases admit_cases g ip full spent with heq | ⟨refused, heq⟩ | ⟨-, heq⟩ <;> rw [heq] <;> rfl
  | admitAccount id login slack full spent =>
    show (g.admitAccount id login slack full spent).2.limits = g.limits
    rcases admitAccount_cases g id login slack full spent with
      heq | ⟨refused, heq⟩ | ⟨p, -, -, -, heq⟩ <;> rw [heq]
  | carry id other => rfl
  | release id =>
    show (g.release id).limits = g.limits
    unfold Gate.release
    split <;> rfl

theorem Within.step {slack : String → Nat} (h : Within g slack) (he : Exact g) {op : Op}
    (hop : ∀ login, slackOf login op ≤ slack login) : Within (g.step op).2 slack := by
  intro c n hn
  rw [step_limits] at hn
  have hold := h c n hn
  cases op with
  | admitIp ip full spent =>
    show (g.admitIp ip full spent).2.table.live c ≤ n
    obtain ⟨hv, hlive, hentry⟩ := looked_spec he ip full
    rcases admit_cases g ip full spent with heq | ⟨refused, heq⟩ | ⟨hnone, heq⟩
    · rw [heq]
      exact hold
    · rw [heq]
      exact (hlive c).trans_le hold
    · rw [heq]
      show (counted _ _ _).live c ≤ n
      rw [live_counted hv _ hentry, hlive]
      split
      · next hc =>
        have := room_of_refusal hnone hc hn
        rw [hlive] at this
        omega
      · exact hold
  | admitAccount id login s full spent =>
    show (g.admitAccount id login s full spent).2.table.live c ≤ n
    obtain ⟨hv, hlive, hentry⟩ := lookedAccount_spec he login full
    rcases admitAccount_cases g id login s full spent with
      heq | ⟨refused, heq⟩ | ⟨p, -, -, hnone, heq⟩
    · rw [heq]
      exact hold
    · rw [heq]
      exact (hlive c).trans_le hold
    · rw [heq]
      have hs : s ≤ slack login := by simpa [slackOf] using hop login
      have hv' : (countedAccount (g.lookedAccount login full) login).Valid :=
        ⟨hv.map, valid_alter hv.accounts _ _, hv.by48, hv.noZeros⟩
      have hcounted : (countedAccount (g.lookedAccount login full) login).live c ≤ n := by
        rw [live_countedAccount hv hentry, hlive]
        split
        · next hc =>
          have := room_of_accountRefusal hnone hs hc hn
          rw [hlive] at this
          omega
        · exact hold
      show (leftAddr _ p.place).live c ≤ n
      unfold leftAddr
      split
      · next key wide _ =>
        have := Table.live_release hv' (.addr key wide) c
        exact (this.trans_le (Nat.sub_le _ _)).trans hcounted
      · exact hcounted
  | carry id other => exact hold
  | release id =>
    show (g.release id).table.live c ≤ n
    unfold Gate.release
    split
    · exact hold
    · dsimp only
      split
      · rw [Table.live_release he.table]
        omega
      · exact hold

/-- A refusal changes no count and no permit. -/
theorem refused_spec (he : Exact g) {op : Op} (h : (g.step op).1 = true) :
    (∀ c, (g.step op).2.table.live c = g.table.live c) ∧ (g.step op).2.permits = g.permits := by
  cases op with
  | admitIp ip full spent =>
    have hrefused : (!(g.admitIp ip full spent).1.isOk) = true := h
    show (∀ c, (g.admitIp ip full spent).2.table.live c = g.table.live c) ∧
      (g.admitIp ip full spent).2.permits = g.permits
    rcases admit_cases g ip full spent with heq | ⟨refused, heq⟩ | ⟨-, heq⟩
    · rw [heq] at hrefused
      cases hrefused
    · rw [heq]
      exact ⟨(looked_spec he ip full).2.1, rfl⟩
    · rw [heq] at hrefused
      cases hrefused
  | admitAccount id login slack full spent =>
    have hrefused : (!(g.admitAccount id login slack full spent).1.isOk) = true := h
    show (∀ c, (g.admitAccount id login slack full spent).2.table.live c = g.table.live c) ∧
      (g.admitAccount id login slack full spent).2.permits = g.permits
    rcases admitAccount_cases g id login slack full spent with
      heq | ⟨refused, heq⟩ | ⟨p, -, -, -, heq⟩
    · rw [heq] at hrefused
      cases hrefused
    · rw [heq]
      exact ⟨(lookedAccount_spec he login full).2.1, rfl⟩
    · rw [heq] at hrefused
      cases hrefused
  | carry id other => cases h
  | release id => cases h

end Gate

/-! ## Whole runs -/

def slackUsed (ops : List Op) (login : String) : Nat :=
  (ops.map (Gate.slackOf login)).foldr max 0

theorem slackOf_le_slackUsed {ops : List Op} {op : Op} (h : op ∈ ops) (login : String) :
    Gate.slackOf login op ≤ slackUsed ops login := by
  unfold slackUsed
  induction ops with
  | nil => cases h
  | cons op' ops ih =>
    rw [List.map_cons, List.foldr_cons]
    rcases List.mem_cons.mp h with rfl | h
    · exact Nat.le_max_left _ _
    · exact (ih h).trans (Nat.le_max_right _ _)

theorem run_spec {g : Gate} {slack : String → Nat} (he : g.Exact) (hw : g.Within slack)
    {ops : List Op} (hops : ∀ op ∈ ops, ∀ login, Gate.slackOf login op ≤ slack login) :
    (runs Gate.step g ops).2.Exact ∧ (runs Gate.step g ops).2.Within slack ∧
      (runs Gate.step g ops).2.limits = g.limits := by
  induction ops generalizing g with
  | nil => exact ⟨he, hw, rfl⟩
  | cons op ops ih =>
    obtain ⟨he', hw', hl⟩ := ih (he.step op) (hw.step he (hops op List.mem_cons_self))
      fun op' h => hops op' (List.mem_cons_of_mem _ h)
    exact ⟨he', hw', hl.trans (Gate.step_limits g op)⟩

/-- After any run of a gate: each count is that of the permits holding a place there, and a /48 with
none is forgotten; a permit that is dropped or moves to an account leaves counts that are not 0; no
count passes its limit, an account's by more than the largest slack; a refusal changes no count and
no permit; and pruning forgets no address or account that a permit holds a place of. -/
theorem counts_exact (limits : ConnLimits) (ops : List Op) :
    let g := (runs Gate.step { limits } ops).2
    (∀ c, g.table.live c = g.holding c) ∧
      (∀ net, lookup g.table.by48 net ≠ some 0) ∧
      (∀ id p place, lookup g.permits id = some p → p.place = some place →
        ∀ c, place.takes c = true → 0 < g.table.live c) ∧
      (∀ c n, Gate.ceiling limits (slackUsed ops) c = some n → g.table.live c ≤ n) ∧
      (∀ op, (g.step op).1 = true →
        (∀ c, (g.step op).2.table.live c = g.table.live c) ∧ (g.step op).2.permits = g.permits) ∧
      (∀ key full, 0 < g.holding (.addr key) →
        lookup (g.table.pruneAddrs full).map key = lookup g.table.map key) ∧
      ∀ login full, 0 < g.holding (.account login) →
        lookup (g.table.pruneAccounts full).accounts login = lookup g.table.accounts login := by
  intro g
  have hstart : Gate.Within { limits } (slackUsed ops) := by
    intro c n _
    cases c <;> exact Nat.zero_le n
  obtain ⟨he, hw, hl⟩ := run_spec (Gate.Exact.new limits) hstart
    fun op h login => slackOf_le_slackUsed h login
  refine ⟨he.counts, he.table.noZeros, ?_, ?_, fun op h => Gate.refused_spec he h, ?_, ?_⟩
  · intro id p place hp hplace c hc
    have hle := Gate.share_le_holding g id c
    rw [hp] at hle
    obtain ⟨place', carried⟩ := p
    obtain rfl : place' = some place := hplace
    rw [Gate.share_place, Option.any_some, if_pos hc] at hle
    rw [he.counts]
    exact hle
  · intro c n hn
    exact hw c n (hl ▸ hn)
  · intro key full h
    exact Table.lookup_pruneAddrs he.table full (he.counts _ ▸ h)
  · intro login full h
    exact Table.lookup_pruneAccounts he.table full (he.counts _ ▸ h)

end HxdNg.Limits
