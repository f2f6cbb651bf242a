import SilverNetwork.Verification.MiningPool.WorkIds

/-! Which shares the pool accepts. Without callers beside each other a share is accepted for exactly
the packages that have been handed out and outlived every clean-up since. -/

namespace SilverNetwork

open LockProgram MiningPoolManager

variable {L : PoolLayout} {checks : OverflowChecks} {pool pool' : MiningPoolManager}

/-! ## One call -/

/-- What a call does to the packages and to their counter. -/
inductive WorkChange (checks : OverflowChecks) (pool : MiningPoolManager) (c : PoolCall)
    (r : PoolResult) (pool' : MiningPoolManager) : Prop where
  | made (work : WorkPackage) (hcall : c.distributes = true) (hresult : r = .work work)
      (hid : work.workId = pool.nextWorkId) (hnext : pool'.nextWorkId = pool.nextWorkId + 1)
      (hlive : pool'.workPackages = pool.workPackages.insert work.workId work)
  | cleaned (maxAgeSecs now : UInt64) (hcall : c = .cleanupOldWork maxAgeSecs now)
      (hresult : NoWork r) (hnext : pool'.nextWorkId = pool.nextWorkId)
      (hlive : ∀ k, pool'.workPackages.lookup k = (pool.workPackages.lookup k).filter
        fun work => keepsWork checks maxAgeSecs now work == some true)
  | other (hdistributes : c.distributes = false) (hcleans : c.cleans = false)
      (hresult : NoWork r) (hsame : pool'.numbering = pool.numbering)

theorem distributeWork_change {header : Bytes} {target : UInt64} {chainId : UInt32}
    {createdAt : UInt64} {r : PoolResult}
    (h : (perform (L := L) checks (.distributeWork header target chainId createdAt)).unlocked pool =
      some (r, pool')) :
    WorkChange checks pool (.distributeWork header target chainId createdAt) r pool' := by
  let work : WorkPackage := ⟨pool.nextWorkId, header, target, chainId, createdAt⟩
  have hcount : (countWork (L := L) checks work).unlocked
      ⟨pool.workPackages.insert work.workId work, pool.miners, pool.stats, pool.nextWorkId + 1⟩ =
        some (r, pool') := h
  obtain ⟨hsame, hresult⟩ := (does_countWork work).unlocked (fun f hf => hf) hcount
  obtain ⟨hnext, hlive⟩ := Prod.mk.inj hsame
  exact .made work rfl hresult rfl hnext hlive

theorem cleanupOldWork_change {maxAgeSecs now : UInt64} {r : PoolResult}
    (h : (perform (L := L) checks (.cleanupOldWork maxAgeSecs now)).unlocked pool =
      some (r, pool')) :
    WorkChange checks pool (.cleanupOldWork maxAgeSecs now) r pool' := by
  have hmap : ((fun _ => PoolResult.cleaned) <$>
      cleanupOldWork (L := L) checks maxAgeSecs now).unlocked pool = some (r, pool') := h
  rw [unlocked_map, Option.map_eq_some_iff] at hmap
  obtain ⟨⟨_, pool''⟩, hrun, hdone⟩ := hmap
  obtain ⟨rfl, rfl⟩ := Prod.mk.inj hdone
  have hnext : Keeps nextWorkId (cleanupOldWork (L := L) checks maxAgeSecs now) :=
    DashMap.keeps_retain (fun _ _ => rfl) _
  have hget : ∀ m s, (workMap L).get ((workMap L).set m s) = m := fun _ _ => rfl
  exact .cleaned maxAgeSecs now rfl (fun work hwork => by cases hwork) (hnext _ _ _ hrun)
    (DashMap.retained_of_retain hget hrun).2

theorem poolMachine_workChange {c : PoolCall} {r : PoolResult}
    (h : (poolMachine L checks).step pool c = some (r, pool')) :
    WorkChange checks pool c r pool' := by
  have hrun : (perform (L := L) checks c).unlocked pool = some (r, pool') := h
  cases c with
  | distributeWork header target chainId createdAt => exact distributeWork_change hrun
  | cleanupOldWork maxAgeSecs now => exact cleanupOldWork_change hrun
  | submitShare | getMiner | getStats | activeMinerCount =>
      obtain ⟨hsame, hresult⟩ := (perform_spares rfl rfl).unlocked (fun f hf => hf) hrun
      exact .other rfl rfl hresult hsame

/-! ## Histories of calls -/

/-- How many packages have been made. -/
def made (calls : PoolHistory) : ℕ := calls.countP fun c => c.event.distributes

/-- The call does not clean up the package. -/
def Outlives (checks : OverflowChecks) (work : WorkPackage)
    (c : Call MiningPoolManager PoolCall PoolResult) : Prop :=
  ∀ maxAgeSecs now, c.event = .cleanupOldWork maxAgeSecs now →
    keepsWork checks maxAgeSecs now work = some true

/-- The package has been handed out, and no clean-up has removed it since. -/
def HandedOut (checks : OverflowChecks) (calls : PoolHistory) (work : WorkPackage) : Prop :=
  Since (fun c => c.result = .work work) (Outlives checks work) calls

/-- After `calls`, the packages in the map are those that have been handed out. -/
structure Issued (checks : OverflowChecks) (calls : PoolHistory) (pool : MiningPoolManager) :
    Prop where
  next : pool.nextWorkId = UInt64.ofNat (made calls + 1)
  ids : ∀ c ∈ calls, ∀ work, c.result = .work work → work.workId.toNat ≤ made calls
  live : ∀ k work, pool.workPackages.lookup k = some work ↔
    work.workId = k ∧ HandedOut checks calls work

theorem issued_new : Issued checks [] .new where
  next := rfl
  ids c hc := by cases hc
  live k work := by simp [MiningPoolManager.new, HandedOut]

variable {calls : PoolHistory} {c : Call MiningPoolManager PoolCall PoolResult}

theorem HandedOut.made {work : WorkPackage} (h : HandedOut checks calls work) :
    ∃ c ∈ calls, c.result = .work work := by
  obtain ⟨before, c, after, rfl, hresult, -⟩ := h
  exact ⟨c, List.mem_append_right _ List.mem_cons_self, hresult⟩

theorem handedOut_concat {work : WorkPackage} : HandedOut checks (calls ++ [c]) work ↔
    c.result = .work work ∨ HandedOut checks calls work ∧ Outlives checks work c :=
  Since.concat_iff

theorem made_concat :
    made (calls ++ [c]) = made calls + if c.event.distributes then 1 else 0 := by
  simp [SilverNetwork.made, List.countP_cons]

/-- A call that makes no package leaves those that it does not clean up. -/
theorem Issued.keep (h : Issued checks calls c.pre) (hcall : c.event.distributes = false)
    (hresult : NoWork c.result) (hnext : c.post.nextWorkId = c.pre.nextWorkId)
    (hlive : ∀ k work, c.post.workPackages.lookup k = some work ↔
      c.pre.workPackages.lookup k = some work ∧ Outlives checks work c) :
    Issued checks (calls ++ [c]) c.post := by
  have hmade : made (calls ++ [c]) = made calls := by simp [made_concat, hcall]
  constructor
  · rw [hnext, hmade, h.next]
  · rw [hmade]
    refine List.forall_mem_append.mpr ⟨h.ids, List.forall_mem_singleton.mpr ?_⟩
    exact fun work hwork => absurd hwork (hresult work)
  · intro k work
    rw [hlive, h.live, handedOut_concat, and_assoc]
    constructor
    · exact fun ⟨hk, hlog, hout⟩ => ⟨hk, .inr ⟨hlog, hout⟩⟩
    · rintro ⟨hk, hwork | hlog⟩
      · exact absurd hwork (hresult work)
      · exact ⟨hk, hlog⟩

/-- A new package takes a number that no other has had. -/
theorem Issued.make (h : Issued checks calls c.pre) (hfew : made calls + 1 < 2 ^ 64)
    {work : WorkPackage} (hcall : c.event.distributes = true) (hresult : c.result = .work work)
    (hid : work.workId = c.pre.nextWorkId) (hnext : c.post.nextWorkId = c.pre.nextWorkId + 1)
    (hlive : c.post.workPackages = c.pre.workPackages.insert work.workId work) :
    Issued checks (calls ++ [c]) c.post := by
  have hmade : made (calls ++ [c]) = made calls + 1 := by simp [made_concat, hcall]
  have hnumber : work.workId.toNat = made calls + 1 := by
    rw [hid, h.next]
    exact UInt64.toNat_ofNat_of_lt' hfew
  have hcleans : ∀ work', Outlives checks work' c := by
    intro work' maxAgeSecs now hevent
    rw [hevent] at hcall
    cases hcall
  have hold : ∀ work', HandedOut checks calls work' → work'.workId ≠ work.workId := by
    intro work' hout hsame
    obtain ⟨d, hd, hwork⟩ := hout.made
    have hle := h.ids d hd work' hwork
    rw [hsame, hnumber] at hle
    omega
  constructor
  · rw [hnext, hmade, h.next, ofNat_succ]
  · rw [hmade]
    refine List.forall_mem_append.mpr ⟨?_, List.forall_mem_singleton.mpr ?_⟩
    · exact fun d hd work' hwork => Nat.le_succ_of_le (h.ids d hd work' hwork)
    · intro work' hwork
      obtain rfl := PoolResult.work.inj (hresult.symm.trans hwork)
      exact hnumber.le
  · intro k work'
    rw [hlive, HashMap.lookup_insert_eq, handedOut_concat, hresult, PoolResult.work.injEq]
    split
    · rename_i hk
      subst hk
      rw [Option.some.injEq]
      constructor
      · rintro rfl
        exact ⟨rfl, .inl rfl⟩
      · rintro ⟨hk, hwork | ⟨hout, -⟩⟩
        · exact hwork
        · exact absurd hk (hold work' hout)
    · rename_i hk
      rw [h.live]
      constructor
      · exact fun ⟨hk', hout⟩ => ⟨hk', .inr ⟨hout, hcleans work'⟩⟩
      · rintro ⟨hk', rfl | ⟨hout, -⟩⟩
        · exact absurd hk'.symm hk
        · exact ⟨hk', hout⟩

theorem Issued.step (h : Issued checks calls c.pre) (hfew : made (calls ++ [c]) < 2 ^ 64)
    (hmakes : (poolMachine L checks).Makes c) : Issued checks (calls ++ [c]) c.post := by
  cases poolMachine_workChange hmakes with
  | made work hcall hresult hid hnext hlive =>
      rw [made_concat, hcall] at hfew
      exact h.make hfew hcall hresult hid hnext hlive
  | cleaned maxAgeSecs now hcall hresult hnext hlive =>
      refine h.keep (by rw [hcall]; rfl) hresult hnext fun k work => ?_
      rw [hlive, Option.filter_eq_some_iff, beq_iff_eq]
      refine and_congr_right fun _ => ⟨?_, fun hout => hout maxAgeSecs now hcall⟩
      intro hkeeps maxAgeSecs' now' hevent
      obtain ⟨rfl, rfl⟩ := PoolCall.cleanupOldWork.inj (hcall.symm.trans hevent)
      exact hkeeps
  | other hdistributes hcleans hresult hsame =>
      obtain ⟨hnext, hlive⟩ := Prod.mk.inj hsame
      have hlive' : c.post.workPackages = c.pre.workPackages := hlive
      refine h.keep hdistributes hresult hnext fun k work => ?_
      rw [hlive']
      refine (and_iff_left ?_).symm
      intro maxAgeSecs now hevent
      rw [hevent] at hcleans
      cases hcleans

theorem run_issued (h : (poolMachine L checks).Run .new calls pool)
    (hfew : made calls < 2 ^ 64) : Issued checks calls pool := by
  induction h with
  | start => exact issued_new
  | @call calls c _ hmakes ih =>
      have hbefore : made calls < 2 ^ 64 := by
        rw [made_concat] at hfew
        omega
      exact (ih hbefore).step hfew hmakes

/-- A share is accepted for the packages that have been handed out, and for no others. -/
theorem Issued.accepts (h : Issued checks calls pool) {share : MinerShare}
    {openedAt recordedAt : Instant} {valid : Bool}
    (hstep : (poolMachine L checks).step pool (.submitShare share openedAt recordedAt) =
      some (.accepted valid, pool')) :
    valid = true ↔ ∃ work, work.workId = share.workId ∧ HandedOut checks calls work := by
  have hmem : share.workId ∈ pool.workPackages ↔
      ∃ work, work.workId = share.workId ∧ HandedOut checks calls work := by
    rw [HashMap.mem_iff_exists_lookup]
    exact exists_congr fun work => h.live share.workId work
  rw [← hmem]
  have hmakes : (poolMachine L checks).Makes
      ⟨pool, .submitShare share openedAt recordedAt, .accepted valid, pool'⟩ := hstep
  cases poolMachine_change hmakes with
  | credited share' openedAt' hshare hlive hresult hcredits =>
      obtain rfl := Option.some.inj hshare
      obtain rfl := PoolResult.accepted.inj hresult
      exact iff_of_true rfl hlive
  | refused share' hshare hunknown hresult hsame =>
      obtain rfl := Option.some.inj hshare
      obtain rfl := PoolResult.accepted.inj hresult
      exact iff_of_false Bool.false_ne_true hunknown
  | other hshare hresult hsame => cases hshare

/-! ## Shares of live work -/

/-- What callers beside each other see of the numbers of packages. -/
structure NumbersKept {κ : Type} (calls : List (SharedCall κ)) (x : SharedState κ) : Prop where
  distinct : (returnedIds calls).Nodup
  ids : ∀ k work, x.shared.workPackages.lookup k = some work → work.workId = k
  below : asked calls + 1 < 2 ^ 64 → ∀ k ∈ x.shared.workPackages, k < x.shared.nextWorkId
  keepsLive : ∀ before c after, calls = before ++ c :: after → KeepsLive before c
  submits : ∀ c ∈ calls, ∀ caller readings thread, c.event = .act caller readings →
    c.pre.threads caller = some thread → thread.op.share.isSome →
    c.post.shared.workPackages = c.pre.shared.workPackages

theorem run_numbersKept {κ : Type} [DecidableEq κ] {calls : List (SharedCall κ)}
    {x : SharedState κ} (h : ((sharedPool L checks).machine κ).Run (.start .new) calls x)
    (hfew : asked calls < 2 ^ 64) : NumbersKept calls x := by
  obtain ⟨tickets, pending, hnumbered⟩ := run_numbered h hfew
  have hbudget := hnumbered.budget
  constructor
  · rw [hnumbered.returned]
    exact tickets.nodup_ofNat (by omega)
  · exact hnumbered.ids
  · intro hroom k hk
    have hlt := hnumbered.drawn k (hnumbered.live k hk)
    have hnext : tickets.next < 2 ^ 64 := by omega
    rwa [UInt64.lt_iff_toNat_lt, hnumbered.next, UInt64.toNat_ofNat_of_lt' hnext]
  · intro before c after hcut
    exact run_keepsLive h hfew hcut
  · intro c hc caller readings thread hevent hbusy hsubmits
    exact run_submit h hc hevent hbusy hsubmits

/-- However the steps of the callers interleave, no number is given twice and no package takes the
place of another; and calls made one after the other accept a share for a package that has been
handed out and not been cleaned up since. -/
theorem shares_accepted_for_live_work {κ : Type} [DecidableEq κ] {calls : List (SharedCall κ)}
    {x : SharedState κ} (h : ((sharedPool L checks).machine κ).Run (.start .new) calls x)
    (hfew : asked calls < 2 ^ 64) {history : PoolHistory}
    (hhistory : (poolMachine L checks).Run .new history pool) (hmade : made history < 2 ^ 64)
    {share : MinerShare} {openedAt recordedAt : Instant} {valid : Bool}
    (hsubmit : (poolMachine L checks).step pool (.submitShare share openedAt recordedAt) =
      some (.accepted valid, pool')) :
    NumbersKept calls x ∧
      (valid = true ↔ ∃ work, work.workId = share.workId ∧ HandedOut checks history work) :=
  ⟨run_numbersKept h hfew, (run_issued hhistory hmade).accepts hsubmit⟩

/-- Two callers draw their numbers, and the second is through with its package before the first. -/
theorem shares_accepted_for_live_work_plain :
    ∃ (calls : List (SharedCall Bool)) (x : SharedState Bool) (history : PoolHistory)
      (pool pool' : MiningPoolManager),
      ((sharedPool .single .on).machine Bool).Run (.start .new) calls x ∧
      returnedIds calls = [2, 1] ∧
      (poolMachine .single .on).step pool (.submitShare ⟨1, 7, [5], 0⟩ 0 0) =
        some (.accepted true, pool') ∧
      NumbersKept calls x ∧
      (true = true ↔ ∃ work, work.workId = 1 ∧ HandedOut .on history work) := by
  have hrun := ((((((((((Machine.Run.start (M := (sharedPool .single .on).machine Bool)
    (s := .start .new)).of_step
    (e := .call false (.distributeWork [1] 1000 0 100)) rfl).of_step
    (e := .call true (.distributeWork [2] 1000 0 100)) rfl).of_step
    (e := .act false ()) rfl).of_step (e := .act true ()) rfl).of_step
    (e := .act true ()) rfl).of_step (e := .act false ()) rfl).of_step
    (e := .act true ()) rfl).of_step (e := .act true ()) rfl).of_step
    (e := .act false ()) rfl).of_step (e := .act false ()) rfl
  obtain ⟨calls, x, hrun, hids, hfew⟩ : ∃ calls x,
      ((sharedPool .single .on).machine Bool).Run (.start .new) calls x ∧
        returnedIds calls = [2, 1] ∧ asked calls < 2 ^ 64 :=
    ⟨_, _, hrun, rfl, by decide⟩
  have hhistory := (Machine.Run.start (M := poolMachine .single .on) (s := .new)).of_step
    (e := .distributeWork [1] 1000 0 100) rfl
  obtain ⟨history, pool, hhistory, hmade, pool', hsubmit⟩ : ∃ history pool,
      (poolMachine .single .on).Run .new history pool ∧ made history < 2 ^ 64 ∧
        ∃ pool', (poolMachine .single .on).step pool (.submitShare ⟨1, 7, [5], 0⟩ 0 0) =
          some (.accepted true, pool') :=
    ⟨_, _, hhistory, by decide, _, rfl⟩
  exact ⟨calls, x, history, pool, pool', hrun, hids, hsubmit,
    shares_accepted_for_live_work hrun hfew hhistory hmade hsubmit⟩

/-- After any number of packages that one caller asks for, the first of them is live. -/
theorem run_distributions (L : PoolLayout) (n : ℕ) :
    ∃ calls pool, ((sharedPool L .off).machine Unit).Run (.start .new) calls (.start pool) ∧
      asked calls = n ∧ pool.nextWorkId = UInt64.ofNat (n + 1) ∧
      (0 < n → (1 : UInt64) ∈ pool.workPackages) := by
  induction n with
  | zero => exact ⟨[], .new, .start, rfl, rfl, fun h => absurd h (lt_irrefl 0)⟩
  | succ n ih =>
      obtain ⟨calls, pool, hrun, hasked, hnext, hfirst⟩ := ih
      let work : WorkPackage := ⟨pool.nextWorkId, [], 0, 0, 0⟩
      let pool' : MiningPoolManager :=
        { pool with
          workPackages := pool.workPackages.insert work.workId work
          nextWorkId := pool.nextWorkId + 1
          stats := { pool.stats with totalWorkPackages := pool.stats.totalWorkPackages + 1 } }
      have halone : (perform (L := L) .off (.distributeWork [] 0 0 0)).unlocked pool =
          some (.work work, pool') := rfl
      obtain ⟨readings, halone⟩ : ∃ readings, (sharedPool L .off).alone
          ((sharedPool L .off).program (.distributeWork [] 0 0 0)) readings pool =
            some (.work work, pool') := alone_of_unlocked halone
      have hidle : (Concurrent.start pool : SharedState Unit).threads () = none := rfl
      obtain ⟨more, hmore, hevents, -⟩ := SharedObject.run_call_alone () hidle halone
      refine ⟨calls ++ more, pool', hrun.append hmore, ?_, ?_, fun _ => ?_⟩
      · have hone : asked more = 1 := by
          have hcount : asked more = (more.map Call.event).countP asksForWork := by
            rw [List.countP_map]
            rfl
          rw [hcount, hevents]
          simp [List.countP_cons, List.countP_append, asksForWork, PoolCall.distributes]
        rw [asked, List.countP_append]
        exact congrArg₂ (· + ·) hasked hone
      · rw [← ofNat_succ, ← hnext]
      · refine (AList.mem_insert pool.workPackages).mpr ?_
        rcases Nat.eq_zero_or_pos n with rfl | hpos
        · exact .inl hnext.symm
        · exact .inr (hfirst hpos)

/-- The last number before the counter wraps leaves it at zero, below every package. -/
theorem counter_below_live_package :
    ∃ (calls : List (SharedCall Unit)) (x : SharedState Unit),
      ((sharedPool .single .off).machine Unit).Run (.start .new) calls x ∧
      asked calls < 2 ^ 64 ∧ ∃ k ∈ x.shared.workPackages, ¬ k < x.shared.nextWorkId := by
  obtain ⟨calls, pool, hrun, hasked, hnext, hfirst⟩ := run_distributions .single (2 ^ 64 - 1)
  refine ⟨calls, .start pool, hrun, by omega, 1, hfirst (by omega), ?_⟩
  change ¬ (1 : UInt64) < pool.nextWorkId
  rw [hnext]
  decide

end SilverNetwork
