import SilverNetwork.Verification.MiningPool.Locking

/-! What a clean-up of old work removes. It takes the creation of each package from the clock that
it reads itself, and that clock may have been set back since. -/

namespace SilverNetwork

open MiningPoolManager

variable {L : PoolLayout} {checks : OverflowChecks} {pool pool' : MiningPoolManager}
  {maxAgeSecs now : UInt64}

/-- Whether a clean-up keeps a package; without an answer it panics on it. -/
def keepsWork (checks : OverflowChecks) (maxAgeSecs now : UInt64) (work : WorkPackage) :
    Option Bool :=
  (checks.sub now work.createdAt).map fun age => decide (age < maxAgeSecs)

/-- The difference is the age, as a number. -/
def AgeExact (checks : OverflowChecks) (now : UInt64) (work : WorkPackage) : Prop :=
  ∃ age, checks.sub now work.createdAt = some age ∧
    (age.toNat : ℤ) = now.toNat - work.createdAt.toNat

theorem sub_of_le {a b : UInt64} (h : b ≤ a) : checks.sub a b = some (a - b) := by
  cases checks with
  | on => exact if_pos h
  | off => rfl

theorem ageExact_iff {work : WorkPackage} :
    AgeExact checks now work ↔ work.createdAt ≤ now := by
  rw [UInt64.le_iff_toNat_le]
  constructor
  · rintro ⟨age, -, hage⟩
    omega
  · intro hle
    refine ⟨now - work.createdAt, sub_of_le (UInt64.le_iff_toNat_le.mpr hle), ?_⟩
    rw [UInt64.toNat_sub_of_le _ _ (UInt64.le_iff_toNat_le.mpr hle)]
    omega

theorem keepsWork_of_le {work : WorkPackage} (h : work.createdAt ≤ now) :
    keepsWork checks maxAgeSecs now work =
      some (decide (now.toNat < work.createdAt.toNat + maxAgeSecs.toNat)) := by
  have hle := UInt64.le_iff_toNat_le.mp h
  rw [keepsWork, sub_of_le h, Option.map_some]
  congr 1
  rw [decide_eq_decide, UInt64.lt_iff_toNat_lt, UInt64.toNat_sub_of_le _ _ h]
  omega

/-- A clean-up of a pool that takes every age exactly, and removes the packages that are old enough
and no others; least of all one that is made at its own time, or later. -/
structure CleansExactly (L : PoolLayout) (checks : OverflowChecks) (maxAgeSecs now : UInt64)
    (pool : MiningPoolManager) : Prop where
  ages : ∀ k work, pool.workPackages.lookup k = some work → AgeExact checks now work
  removes : ∃ pool', (cleanupOldWork (L := L) checks maxAgeSecs now).unlocked pool =
    some ((), pool') ∧ ∀ k, pool'.workPackages.lookup k = (pool.workPackages.lookup k).filter
      fun work => now.toNat < work.createdAt.toNat + maxAgeSecs.toNat
  recent : ∀ pool' k work, (cleanupOldWork (L := L) checks maxAgeSecs now).unlocked pool =
    some ((), pool') → pool.workPackages.lookup k = some work → now ≤ work.createdAt →
    k ∈ pool'.workPackages

theorem cleanupOldWork_of_le (L : PoolLayout) (checks : OverflowChecks) (maxAgeSecs : UInt64)
    (h : ∀ k work, pool.workPackages.lookup k = some work → work.createdAt ≤ now) :
    ∃ pool', (cleanupOldWork (L := L) checks maxAgeSecs now).unlocked pool = some ((), pool') ∧
      ∀ k, pool'.workPackages.lookup k = (pool.workPackages.lookup k).filter
        fun work => now.toNat < work.createdAt.toNat + maxAgeSecs.toNat := by
  have hget : ∀ m s, (workMap L).get ((workMap L).set m s) = m := fun _ _ => rfl
  have hjudged : ∀ k work, ((workMap L).get pool).lookup k = some work →
      (keepsWork checks maxAgeSecs now work).isSome := by
    intro k work hlookup
    rw [keepsWork_of_le (h k work hlookup)]
    rfl
  obtain ⟨pool', hrun⟩ := DashMap.retain_returns hget hjudged
  refine ⟨pool', hrun, fun k => ?_⟩
  have hleft := (DashMap.retained_of_retain hget hrun).2 k
  change pool'.workPackages.lookup k = (pool.workPackages.lookup k).filter _ at hleft
  rw [hleft]
  cases hlookup : pool.workPackages.lookup k with
  | none => rfl
  | some work => simp [Option.filter, keepsWork_of_le (h k work hlookup)]

/-- A clean-up is exact exactly where the clock is not behind the creation of any package that is
still there: it cannot take the age of such a package. -/
theorem cleans_exactly_iff (h : 1 ≤ maxAgeSecs) :
    CleansExactly L checks maxAgeSecs now pool ↔
      ∀ k work, pool.workPackages.lookup k = some work → work.createdAt ≤ now := by
  constructor
  · intro hcleans k work hlookup
    exact ageExact_iff.mp (hcleans.ages k work hlookup)
  · intro hclock
    obtain ⟨pool', hrun, hleft⟩ := cleanupOldWork_of_le L checks maxAgeSecs hclock
    have hages : ∀ k work, pool.workPackages.lookup k = some work → AgeExact checks now work :=
      fun k work hlookup => ageExact_iff.mpr (hclock k work hlookup)
    refine ⟨hages, ⟨pool', hrun, hleft⟩, ?_⟩
    intro pool'' k work hrun' hlookup hrecent
    obtain ⟨-, rfl⟩ := Prod.mk.inj (Option.some.inj (hrun.symm.trans hrun'))
    rw [HashMap.mem_iff_exists_lookup, hleft, hlookup]
    have hpos := UInt64.le_iff_toNat_le.mp h
    have hnot := UInt64.le_iff_toNat_le.mp hrecent
    have hyoung : now.toNat < work.createdAt.toNat + maxAgeSecs.toNat := by
      change 1 ≤ maxAgeSecs.toNat at hpos
      omega
    exact ⟨work, by simp [Option.filter, hyoung]⟩

/-- Work of the times 100 and 200, cleaned up at 250. -/
theorem cleans_exactly_iff_plain :
    ∃ calls pool, (poolMachine .single .on).Run .new calls pool ∧ pool.workPackages.len = 2 ∧
      CleansExactly .single .on 60 250 pool := by
  have hrun := ((Machine.Run.start (M := poolMachine .single .on) (s := .new)).of_step
    (e := .distributeWork [1] 1000 0 100) rfl).of_step (e := .distributeWork [2] 1000 0 200) rfl
  obtain ⟨calls, pool, hrun, hentries⟩ : ∃ calls pool,
      (poolMachine .single .on).Run .new calls pool ∧
        pool.workPackages.entries = [⟨2, 2, [2], 1000, 0, 200⟩, ⟨1, 1, [1], 1000, 0, 100⟩] :=
    ⟨_, _, hrun, rfl⟩
  refine ⟨calls, pool, hrun, congrArg List.length hentries, ?_⟩
  refine (cleans_exactly_iff (by decide)).mpr fun k work hlookup => ?_
  have hentry := AList.mem_lookup_iff.mp hlookup
  rw [hentries] at hentry
  have hcreated : ∀ e ∈ [(⟨2, 2, [2], 1000, 0, 200⟩ : Sigma fun _ : UInt64 => WorkPackage),
      ⟨1, 1, [1], 1000, 0, 100⟩], e.2.createdAt ≤ 250 := by decide
  exact hcreated _ hentry

/-- The clock is set back by a second between the creation of a package and the clean-up, which
panics, or takes the package for very old. -/
theorem clock_set_back :
    ∃ calls pool, (poolMachine .single .on).Run .new calls pool ∧
      (cleanupOldWork (L := .single) .on 60 99).unlocked pool = none ∧
      (∃ pool', (cleanupOldWork (L := .single) .off 60 99).unlocked pool = some ((), pool') ∧
        (1 : UInt64) ∈ pool.workPackages ∧ (1 : UInt64) ∉ pool'.workPackages) ∧
      ∀ checks, ¬ CleansExactly .single checks 60 99 pool := by
  have hrun := (Machine.Run.start (M := poolMachine .single .on) (s := .new)).of_step
    (e := .distributeWork [1] 1000 0 100) rfl
  refine ⟨_, _, hrun, rfl, ⟨_, rfl, by decide, by decide⟩, ?_⟩
  intro checks hcleans
  have hage := hcleans.ages 1 _ rfl
  exact absurd (ageExact_iff.mp hage) (by decide)

end SilverNetwork
