import SilverNetwork.Foundations.HashMap

/-! Tables of outstanding requests under a deadline. A sweep reissues each expired
request until it has been retried `limit` times, then abandons it. The sweep first
collects the expired keys in the table's enumeration order and then treats them one
by one, but its outcome for each key does not depend on that order. -/

namespace SilverNetwork

/-- Requests that know when they were sent and how often they were retried. -/
class Reissuable (ρ : Type) where
  requestedAt : ρ → ℕ
  retries : ρ → ℕ
  /-- The same request sent once more at the given time. -/
  reissue : ρ → ℕ → ρ
  requestedAt_reissue : ∀ r t, requestedAt (reissue r t) = t
  retries_reissue : ∀ r t, retries (reissue r t) = retries r + 1

namespace RetryTable

open Reissuable

variable {κ ρ : Type} [DecidableEq κ] [Reissuable ρ]

/-- More than `timeout` has passed since the request was sent. Elapsed time
saturates at zero, so a request sent after `now` has not expired. -/
def Expired (timeout now : ℕ) (r : ρ) : Prop := timeout < now - requestedAt r

instance (timeout now : ℕ) (r : ρ) : Decidable (Expired timeout now r) :=
  inferInstanceAs (Decidable (timeout < now - requestedAt r))

/-- A table in the middle of a sweep, with what the sweep has done so far. -/
structure Sweep (κ ρ : Type) where
  table : HashMap κ ρ
  retried : List (κ × ρ)
  abandoned : List (κ × ρ)

def timedOut (timeout now : ℕ) (order : Enumeration (Sigma fun _ : κ => ρ))
    (table : HashMap κ ρ) : List κ :=
  ((order.arrange table.entries).filter (fun e => decide (Expired timeout now e.2))).map Sigma.fst

def sweepKey (limit : ℕ) (reissuedAt : κ → ℕ) (acc : Sweep κ ρ) (key : κ) : Sweep κ ρ :=
  match acc.table.lookup key with
  | none => acc
  | some r =>
      if retries r < limit then
        let again := reissue r (reissuedAt key)
        { acc with
          table := (acc.table.erase key).insert key again
          retried := acc.retried ++ [(key, again)] }
      else
        { acc with
          table := acc.table.erase key
          abandoned := acc.abandoned ++ [(key, r)] }

def sweep (limit timeout now : ℕ) (reissuedAt : κ → ℕ)
    (order : Enumeration (Sigma fun _ : κ => ρ)) (table : HashMap κ ρ) : Sweep κ ρ :=
  (timedOut timeout now order table).foldl (sweepKey limit reissuedAt) ⟨table, [], []⟩

/-! ## The expired keys -/

omit [DecidableEq κ] in
theorem timedOut_nodup (timeout now : ℕ) (order : Enumeration (Sigma fun _ : κ => ρ))
    (table : HashMap κ ρ) : (timedOut timeout now order table).Nodup := by
  have hkeys : ((order.arrange table.entries).map Sigma.fst).Nodup :=
    ((order.perm table.entries).map Sigma.fst).nodup_iff.mpr table.keys_nodup
  exact hkeys.sublist (List.filter_sublist.map Sigma.fst)

theorem mem_timedOut {timeout now : ℕ} {order : Enumeration (Sigma fun _ : κ => ρ)}
    {table : HashMap κ ρ} {key : κ} :
    key ∈ timedOut timeout now order table ↔
      ∃ r, table.lookup key = some r ∧ Expired timeout now r := by
  simp only [timedOut, List.mem_map, List.mem_filter, Enumeration.mem_arrange,
    decide_eq_true_eq, Sigma.exists, ← Option.mem_def, AList.mem_lookup_iff]
  constructor
  · rintro ⟨_, r, ⟨hmem, hexp⟩, rfl⟩
    exact ⟨r, hmem, hexp⟩
  · rintro ⟨r, hmem, hexp⟩
    exact ⟨key, r, ⟨hmem, hexp⟩, rfl⟩

/-! ## One key at a time -/

/-- What a sweep leaves of a request that it treats. -/
def treat (limit sentAt : ℕ) (r : ρ) : Option ρ :=
  if retries r < limit then some (reissue r sentAt) else none

theorem sweepKey_lookup (limit : ℕ) (reissuedAt : κ → ℕ) (acc : Sweep κ ρ) (key k : κ) :
    (sweepKey limit reissuedAt acc key).table.lookup k =
      if k = key then (acc.table.lookup k).bind (treat limit (reissuedAt k))
      else acc.table.lookup k := by
  by_cases hk : k = key
  · subst hk
    rw [if_pos rfl]
    unfold sweepKey treat
    cases hl : acc.table.lookup k with
    | none => simp [hl]
    | some r =>
        by_cases hr : retries r < limit
        · simp [hr]
        · simp [hr]
  · rw [if_neg hk]
    unfold sweepKey
    cases acc.table.lookup key with
    | none => rfl
    | some r =>
        by_cases hr : retries r < limit
        · simp [hr, AList.lookup_insert_ne hk, AList.lookup_erase_ne hk]
        · simp [hr, AList.lookup_erase_ne hk]

theorem foldl_sweepKey_lookup (limit : ℕ) (reissuedAt : κ → ℕ) {keys : List κ}
    (hkeys : keys.Nodup) (acc : Sweep κ ρ) (k : κ) :
    (keys.foldl (sweepKey limit reissuedAt) acc).table.lookup k =
      if k ∈ keys then (acc.table.lookup k).bind (treat limit (reissuedAt k))
      else acc.table.lookup k := by
  induction keys generalizing acc with
  | nil => simp
  | cons key keys ih =>
      obtain ⟨hkey, hrest⟩ := List.nodup_cons.mp hkeys
      rw [List.foldl_cons, ih hrest, sweepKey_lookup]
      by_cases hk : k = key
      · subst hk
        simp [hkey]
      · simp [hk]

theorem mem_sweepKey_abandoned (limit : ℕ) (reissuedAt : κ → ℕ) (acc : Sweep κ ρ) (key k : κ)
    (r : ρ) :
    (k, r) ∈ (sweepKey limit reissuedAt acc key).abandoned ↔
      (k, r) ∈ acc.abandoned ∨
        k = key ∧ acc.table.lookup key = some r ∧ limit ≤ retries r := by
  unfold sweepKey
  cases hl : acc.table.lookup key with
  | none => simp
  | some r' =>
      by_cases hr : retries r' < limit
      · simp only [hr, if_true, Option.some.injEq]
        refine ⟨Or.inl, ?_⟩
        intro h
        rcases h with h | ⟨_, rfl, hle⟩
        · exact h
        · omega
      · simp only [hr, if_false, List.mem_append, List.mem_singleton, Prod.mk.injEq,
          Option.some.injEq]
        apply or_congr_right
        constructor
        · rintro ⟨rfl, rfl⟩
          exact ⟨rfl, rfl, Nat.le_of_not_lt hr⟩
        · rintro ⟨rfl, rfl, _⟩
          exact ⟨rfl, rfl⟩

theorem mem_foldl_sweepKey_abandoned (limit : ℕ) (reissuedAt : κ → ℕ) {keys : List κ}
    (hkeys : keys.Nodup) (acc : Sweep κ ρ) (k : κ) (r : ρ) :
    (k, r) ∈ (keys.foldl (sweepKey limit reissuedAt) acc).abandoned ↔
      (k, r) ∈ acc.abandoned ∨
        k ∈ keys ∧ acc.table.lookup k = some r ∧ limit ≤ retries r := by
  induction keys generalizing acc with
  | nil => simp
  | cons key keys ih =>
      obtain ⟨hkey, hrest⟩ := List.nodup_cons.mp hkeys
      rw [List.foldl_cons, ih hrest, mem_sweepKey_abandoned, sweepKey_lookup]
      by_cases hk : k = key
      · subst hk
        simp [hkey]
      · simp [hk]

/-- The entry that a sweep reports as retried under the given key. -/
def reissued (limit : ℕ) (reissuedAt : κ → ℕ) (table : HashMap κ ρ) (key : κ) : Option (κ × ρ) :=
  ((table.lookup key).bind (treat limit (reissuedAt key))).map (Prod.mk key)

theorem sweepKey_retried (limit : ℕ) (reissuedAt : κ → ℕ) (acc : Sweep κ ρ) (key : κ) :
    (sweepKey limit reissuedAt acc key).retried =
      acc.retried ++ (reissued limit reissuedAt acc.table key).toList := by
  unfold sweepKey reissued treat
  cases acc.table.lookup key with
  | none => simp
  | some r =>
      by_cases hr : retries r < limit
      · simp [hr]
      · simp [hr]

theorem foldl_sweepKey_retried (limit : ℕ) (reissuedAt : κ → ℕ) {keys : List κ}
    (hkeys : keys.Nodup) (acc : Sweep κ ρ) :
    (keys.foldl (sweepKey limit reissuedAt) acc).retried =
      acc.retried ++ keys.filterMap (reissued limit reissuedAt acc.table) := by
  induction keys generalizing acc with
  | nil => simp
  | cons key keys ih =>
      obtain ⟨hkey, hrest⟩ := List.nodup_cons.mp hkeys
      have hsame : keys.filterMap
            (reissued limit reissuedAt (sweepKey limit reissuedAt acc key).table) =
          keys.filterMap (reissued limit reissuedAt acc.table) := by
        apply List.filterMap_congr
        intro k hk
        have hne : k ≠ key := fun heq => hkey (heq ▸ hk)
        rw [reissued, sweepKey_lookup, if_neg hne, reissued]
      rw [List.foldl_cons, ih hrest, sweepKey_retried, hsame, List.append_assoc]
      cases hentry : reissued limit reissuedAt acc.table key with
      | none => simp [hentry]
      | some entry => simp [hentry]

theorem sweepKey_len_le (limit : ℕ) (reissuedAt : κ → ℕ) (acc : Sweep κ ρ) (key : κ) :
    (sweepKey limit reissuedAt acc key).table.len ≤ acc.table.len := by
  apply HashMap.len_le_of_subset
  intro k hk
  obtain ⟨r, hl⟩ := HashMap.mem_iff_exists_lookup.mp hk
  rw [sweepKey_lookup] at hl
  by_cases hkey : k = key
  · rw [if_pos hkey] at hl
    obtain ⟨r', hl', _⟩ := Option.bind_eq_some_iff.mp hl
    exact HashMap.mem_iff_exists_lookup.mpr ⟨r', hl'⟩
  · rw [if_neg hkey] at hl
    exact HashMap.mem_iff_exists_lookup.mpr ⟨r, hl⟩

/-! ## The whole sweep -/

section Sweep

variable (limit timeout now : ℕ) (reissuedAt : κ → ℕ)
  (order : Enumeration (Sigma fun _ : κ => ρ)) (table : HashMap κ ρ)

/-- A sweep leaves unexpired requests alone, reissues the expired ones that may be
retried, and drops the others. -/
theorem sweep_lookup (k : κ) :
    (sweep limit timeout now reissuedAt order table).table.lookup k =
      (table.lookup k).bind fun r =>
        if Expired timeout now r then treat limit (reissuedAt k) r else some r := by
  rw [sweep, foldl_sweepKey_lookup limit reissuedAt (timedOut_nodup timeout now order table)]
  simp only [mem_timedOut]
  cases hl : table.lookup k with
  | none => simp
  | some r =>
      simp only [Option.some.injEq, exists_eq_left', Option.bind_some]

theorem mem_sweep_abandoned (k : κ) (r : ρ) :
    (k, r) ∈ (sweep limit timeout now reissuedAt order table).abandoned ↔
      table.lookup k = some r ∧ Expired timeout now r ∧ limit ≤ retries r := by
  rw [sweep, mem_foldl_sweepKey_abandoned limit reissuedAt
    (timedOut_nodup timeout now order table), mem_timedOut]
  constructor
  · intro h
    rcases h with h | ⟨⟨r', hl', hexp⟩, hl, hlim⟩
    · simp at h
    · obtain rfl : r' = r := Option.some.inj (hl'.symm.trans hl)
      exact ⟨hl, hexp, hlim⟩
  · rintro ⟨hl, hexp, hlim⟩
    exact Or.inr ⟨⟨r, hl, hexp⟩, hl, hlim⟩

/-- The retried requests in the order of the sweep. -/
theorem sweep_retried :
    (sweep limit timeout now reissuedAt order table).retried =
      (timedOut timeout now order table).filterMap (reissued limit reissuedAt table) := by
  rw [sweep, foldl_sweepKey_retried limit reissuedAt (timedOut_nodup timeout now order table)]
  rfl

theorem mem_sweep_retried (k : κ) (r : ρ) :
    (k, r) ∈ (sweep limit timeout now reissuedAt order table).retried ↔
      ∃ r', table.lookup k = some r' ∧ Expired timeout now r' ∧ retries r' < limit ∧
        r = reissue r' (reissuedAt k) := by
  rw [sweep_retried, List.mem_filterMap]
  simp only [reissued, treat, Option.map_eq_some_iff, Option.bind_eq_some_iff,
    Option.ite_none_right_eq_some, Option.some.injEq, Prod.mk.injEq, mem_timedOut]
  constructor
  · rintro ⟨_, ⟨r', hl, hexp⟩, _, ⟨r'', hl', hlt, rfl⟩, rfl, rfl⟩
    obtain rfl : r' = r'' := Option.some.inj (hl.symm.trans hl')
    exact ⟨r', hl, hexp, hlt, rfl⟩
  · rintro ⟨r', hl, hexp, hlt, rfl⟩
    exact ⟨k, ⟨r', hl, hexp⟩, _, ⟨r', hl, hlt, rfl⟩, rfl, rfl⟩

theorem mem_sweep_retried_keys (k : κ) :
    k ∈ (sweep limit timeout now reissuedAt order table).retried.map Prod.fst ↔
      ∃ r, table.lookup k = some r ∧ Expired timeout now r ∧ retries r < limit := by
  simp only [List.mem_map, Prod.exists, exists_and_right, exists_eq_right, mem_sweep_retried]
  constructor
  · rintro ⟨_, r, hl, hexp, hlt, _⟩
    exact ⟨r, hl, hexp, hlt⟩
  · rintro ⟨r, hl, hexp, hlt⟩
    exact ⟨_, r, hl, hexp, hlt, rfl⟩

/-- No request is retried twice in one sweep. -/
theorem sweep_retried_nodup :
    ((sweep limit timeout now reissuedAt order table).retried.map Prod.fst).Nodup := by
  rw [sweep_retried, List.map_filterMap]
  apply (timedOut_nodup timeout now order table).filterMap
  intro k k' key hk hk'
  simp only [reissued, Option.map_map, Option.mem_def, Option.map_eq_some_iff,
    Function.comp_apply] at hk hk'
  obtain ⟨_, _, rfl⟩ := hk
  obtain ⟨_, _, rfl⟩ := hk'
  rfl

theorem sweep_len_le : (sweep limit timeout now reissuedAt order table).table.len ≤ table.len := by
  have hfold : ∀ (keys : List κ) (acc : Sweep κ ρ),
      (keys.foldl (sweepKey limit reissuedAt) acc).table.len ≤ acc.table.len := by
    intro keys
    induction keys with
    | nil => exact fun acc => le_rfl
    | cons key keys ih =>
        intro acc
        exact Nat.le_trans (ih _) (sweepKey_len_le limit reissuedAt acc key)
  exact hfold _ ⟨table, [], []⟩

theorem sweep_abandoned_eq_nil_iff :
    (sweep limit timeout now reissuedAt order table).abandoned = [] ↔
      ∀ k r, table.lookup k = some r → Expired timeout now r → retries r < limit := by
  rw [List.eq_nil_iff_forall_not_mem]
  simp only [Prod.forall, mem_sweep_abandoned, not_and, not_le]

/-- A sweep that abandons nothing keeps every request, reissued or as it was. -/
theorem sweep_lookup_of_abandoned_eq_nil {limit timeout now : ℕ} {reissuedAt : κ → ℕ}
    {order : Enumeration (Sigma fun _ : κ => ρ)} {table : HashMap κ ρ}
    (h : (sweep limit timeout now reissuedAt order table).abandoned = []) {k : κ} {r : ρ}
    (hl : table.lookup k = some r) :
    (sweep limit timeout now reissuedAt order table).table.lookup k = some r ∨
      (sweep limit timeout now reissuedAt order table).table.lookup k =
        some (reissue r (reissuedAt k)) := by
  rw [sweep_lookup, hl, Option.bind_some]
  by_cases hexp : Expired timeout now r
  · have hretry := (sweep_abandoned_eq_nil_iff limit timeout now reissuedAt order table).mp h
    have hlt := hretry k r hl hexp
    exact Or.inr (by rw [if_pos hexp, treat, if_pos hlt])
  · exact Or.inl (if_neg hexp)

end Sweep

/-! ## Sweeps of a renamed table -/

/-- A rewriting of requests that leaves alone when they were sent and how often retried. -/
structure Rewrites {ρ' : Type} [Reissuable ρ'] (g : ρ → ρ') : Prop where
  requestedAt : ∀ r, requestedAt (g r) = requestedAt r
  retries : ∀ r, retries (g r) = retries r
  reissue : ∀ r t, g (reissue r t) = reissue (g r) t

theorem rewrites_id : Rewrites (id : ρ → ρ) := ⟨fun _ => rfl, fun _ => rfl, fun _ _ => rfl⟩

namespace Rewrites

variable {ρ' : Type} [Reissuable ρ'] {g : ρ → ρ'}

theorem expired_iff (hg : Rewrites g) {timeout now : ℕ} {r : ρ} :
    Expired timeout now (g r) ↔ Expired timeout now r := by
  rw [Expired, Expired, hg.requestedAt]

theorem treat_eq (hg : Rewrites g) (limit sentAt : ℕ) (r : ρ) :
    treat limit sentAt (g r) = (treat limit sentAt r).map g := by
  unfold treat
  rw [hg.retries]
  split
  · rw [Option.map_some, hg.reissue]
  · rfl

end Rewrites

section Renamed

variable {κ' ρ' : Type} [DecidableEq κ'] [Reissuable ρ'] {f : κ ≃ κ'} {g : ρ → ρ'}
  {table : HashMap κ ρ} {table' : HashMap κ' ρ'} {reissuedAt : κ → ℕ} {reissuedAt' : κ' → ℕ}
  (hg : Rewrites g) (h : HashMap.RenamedEntries f g table table')
  (hreissuedAt : ∀ k, reissuedAt' (f k) = reissuedAt k) (limit timeout now : ℕ)
  (order : Enumeration (Sigma fun _ : κ => ρ)) (order' : Enumeration (Sigma fun _ : κ' => ρ'))

include hg h

theorem timedOut_renamed_perm :
    ((timedOut timeout now order table).map f).Perm (timedOut timeout now order' table') := by
  rw [List.perm_ext_iff_of_nodup ((timedOut_nodup _ _ _ _).map f.injective)
    (timedOut_nodup _ _ _ _)]
  intro k'
  obtain ⟨k, rfl⟩ := f.surjective k'
  rw [List.mem_map_of_injective f.injective, mem_timedOut, mem_timedOut, h k]
  cases table.lookup k with
  | none => simp
  | some r => simp [hg.expired_iff]

variable (reissuedAt reissuedAt') in
theorem sweep_abandoned_eq_nil_renamed :
    (sweep limit timeout now reissuedAt order table).abandoned = [] ↔
      (sweep limit timeout now reissuedAt' order' table').abandoned = [] := by
  rw [sweep_abandoned_eq_nil_iff, sweep_abandoned_eq_nil_iff, f.surjective.forall]
  refine forall_congr' fun k => ?_
  rw [h k]
  cases table.lookup k with
  | none => simp
  | some r => simp [hg.expired_iff, hg.retries]

include hreissuedAt

theorem sweep_table_renamed :
    HashMap.RenamedEntries f g (sweep limit timeout now reissuedAt order table).table
      (sweep limit timeout now reissuedAt' order' table').table := by
  intro k
  rw [sweep_lookup, sweep_lookup, h k, hreissuedAt]
  cases table.lookup k with
  | none => rfl
  | some r =>
      simp only [Option.map_some, Option.bind_some, hg.expired_iff, hg.treat_eq]
      split
      · rfl
      · rfl

theorem reissued_renamed (k : κ) :
    reissued limit reissuedAt' table' (f k) =
      (reissued limit reissuedAt table k).map (Prod.map f g) := by
  unfold reissued
  rw [h k, hreissuedAt]
  cases table.lookup k with
  | none => rfl
  | some r =>
      simp only [Option.map_some, Option.bind_some, hg.treat_eq, Option.map_map]
      rfl

theorem sweep_retried_renamed_perm :
    ((sweep limit timeout now reissuedAt order table).retried.map (Prod.map f g)).Perm
      (sweep limit timeout now reissuedAt' order' table').retried := by
  have hkeys := timedOut_renamed_perm hg h timeout now order order'
  have hentries := hkeys.filterMap (reissued limit reissuedAt' table')
  rw [List.filterMap_map] at hentries
  rw [sweep_retried, sweep_retried, List.map_filterMap]
  convert hentries using 2
  rename_i k _
  exact (reissued_renamed hg h hreissuedAt limit k).symm

end Renamed

/-! ## Sweeps in another order -/

section Order

variable {table table' : HashMap κ ρ} (h : HashMap.SameEntries table table')
  (limit timeout now : ℕ) (reissuedAt : κ → ℕ) (order order' : Enumeration (Sigma fun _ : κ => ρ))

include h

theorem sweep_table_sameEntries :
    HashMap.SameEntries (sweep limit timeout now reissuedAt order table).table
      (sweep limit timeout now reissuedAt order' table').table := by
  rw [← HashMap.renamedEntries_refl_iff] at h ⊢
  exact sweep_table_renamed rewrites_id h (fun _ => rfl) limit timeout now order order'

theorem sweep_retried_perm :
    (sweep limit timeout now reissuedAt order table).retried.Perm
      (sweep limit timeout now reissuedAt order' table').retried := by
  rw [← HashMap.renamedEntries_refl_iff] at h
  have hretried := sweep_retried_renamed_perm rewrites_id h
    (fun k => Eq.refl (reissuedAt k)) limit timeout now order order'
  simpa using hretried

theorem sweep_abandoned_eq_nil_congr :
    (sweep limit timeout now reissuedAt order table).abandoned = [] ↔
      (sweep limit timeout now reissuedAt order' table').abandoned = [] := by
  rw [← HashMap.renamedEntries_refl_iff] at h
  exact sweep_abandoned_eq_nil_renamed reissuedAt reissuedAt rewrites_id h limit timeout now order
    order'

end Order

/-! ## Retry counts -/

/-- No request has been retried more than `limit` times. -/
def Within (limit : ℕ) (table : HashMap κ ρ) : Prop :=
  ∀ k r, table.lookup k = some r → retries r ≤ limit

variable {limit : ℕ} {table : HashMap κ ρ}

theorem within_empty : Within limit (∅ : HashMap κ ρ) := by
  intro k r h
  simp at h

theorem Within.insert (h : Within limit table) {k : κ} {r : ρ} (hr : retries r ≤ limit) :
    Within limit (table.insert k r) := by
  intro k' r' hl
  rw [HashMap.lookup_insert_eq] at hl
  split at hl
  · exact Option.some.inj hl ▸ hr
  · exact h k' r' hl

theorem Within.erase (h : Within limit table) (k : κ) : Within limit (table.erase k) := by
  intro k' r' hl
  rw [HashMap.lookup_erase_eq] at hl
  split at hl
  · simp at hl
  · exact h k' r' hl

/-- A sweep reissues only requests below the limit, so none exceeds it afterwards. -/
theorem Within.sweep (h : Within limit table) (timeout now : ℕ) (reissuedAt : κ → ℕ)
    (order : Enumeration (Sigma fun _ : κ => ρ)) :
    Within limit (sweep limit timeout now reissuedAt order table).table := by
  intro k r' hl
  rw [sweep_lookup, Option.bind_eq_some_iff] at hl
  obtain ⟨r, hr, hl⟩ := hl
  split at hl
  · simp only [treat, Option.ite_none_right_eq_some, Option.some.injEq] at hl
    obtain ⟨hlt, rfl⟩ := hl
    rw [retries_reissue]
    exact hlt
  · exact Option.some.inj hl ▸ h k r hr

end RetryTable

end SilverNetwork
