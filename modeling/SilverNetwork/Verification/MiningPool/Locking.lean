import SilverNetwork.Model.MiningPool

/-! Which calls of the pool block on themselves. Counting the miners takes the lock of
every shard of the miner map, and a share of live work is counted under one of them. -/

namespace SilverNetwork

open LockProgram MiningPoolManager

variable {L : PoolLayout} {checks : OverflowChecks} {held : List (PoolLock L)}

/-! ## The locks of each operation -/

theorem distributeWork_clean (header : Bytes) (target : UInt64) (chainId : UInt32)
    (createdAt : UInt64) :
    Clean [] (distributeWork (L := L) checks header target chainId createdAt) := by
  have hfetch : Clean [] (fetchAddWorkId (L := L)) :=
    fun pool => Or.inr ⟨pool.nextWorkId, _, rfl⟩
  refine hfetch.bind fun workId => ?_
  refine (DashMap.Free.insert (fun i => by simp) workId _).bind fun _ => ?_
  exact .guarded (by simp) ((Clean.update _).bind fun _ => Clean.pure _)

theorem getMiner_clean (address : Bytes) : Clean [] (getMiner (L := L) address) :=
  DashMap.Free.find (fun i => by simp) address

theorem getStats_clean : Clean [] (getStats (L := L)) :=
  .guarded (by simp) (.gets _)

theorem cleanupOldWork_clean (maxAgeSecs now : UInt64) :
    Clean [] (cleanupOldWork (L := L) checks maxAgeSecs now) :=
  DashMap.Free.retain (fun i => by simp) _

theorem activeMinerCount_clean : Clean [] (activeMinerCount (L := L)) :=
  DashMap.Free.len fun i => by simp

/-! ## Submitted shares -/

theorem submitShare_unknown {pool : MiningPoolManager} {share : MinerShare}
    (h : share.workId ∉ pool.workPackages) (openedAt recordedAt : Instant) :
    (submitShare (L := L) checks share openedAt recordedAt).exec [] pool =
      .finished false pool [] := by
  rw [submitShare, exec_bind, DashMap.Free.exec_containsKey fun i => by simp]
  have hnot : share.workId ∉ (workMap L).get pool := h
  simp only [hnot, decide_false, Bool.false_eq_true, if_false]
  rfl

/-- Under the guard of a miner's entry the statistics are never brought up to date. -/
theorem recordShare_stuck (address : Bytes) (recordedAt : Instant) :
    Stuck [.miners (L.minerShard address)] (.miners (L.minerShard address))
      (recordShare checks address recordedAt) := by
  have hlen : Stuck [.stats, .miners (L.minerShard address)]
      (.miners (L.minerShard address)) (minerMap L).len := by
    apply DashMap.len_stuck (d := minerMap L) (List.mem_cons_of_mem _ List.mem_cons_self)
    intro j hj hmem
    rcases List.mem_cons.mp hmem with hstats | hother
    · cases hstats
    · exact hj (PoolLock.miners.inj (List.mem_singleton.mp hother))
  refine (Clean.update _).bind_stuck fun _ => ?_
  refine .guarded (by simp) ((Clean.update _).bind_stuck fun _ => ?_)
  exact (Clean.update _).bind_stuck fun _ => hlen.bind _

/-- A share of live work asks again for the shard of its miner. -/
theorem submitShare_live (checks : OverflowChecks) {pool : MiningPoolManager} {share : MinerShare}
    (h : share.workId ∈ pool.workPackages) (openedAt recordedAt : Instant) :
    (submitShare (L := L) checks share openedAt recordedAt).exec [] pool = .panicked ∨
      (submitShare (L := L) checks share openedAt recordedAt).exec [] pool =
        .blocked (.miners (L.minerShard share.minerAddress)) := by
  rw [submitShare, exec_bind, DashMap.Free.exec_containsKey fun i => by simp]
  have hmem : share.workId ∈ (workMap L).get pool := h
  simp only [hmem, decide_true, if_true]
  exact DashMap.Stuck.withEntry (d := minerMap L) (by simp) _
    (recordShare_stuck share.minerAddress recordedAt) pool

/-! ## Every call -/

/-- The call submits a share of a work package that is still live. -/
def SubmitsLive (pool : MiningPoolManager) : PoolCall → Prop
  | .submitShare share _ _ => share.workId ∈ pool.workPackages
  | _ => False

/-- The call asks for no lock that it holds, and a share of live work ends in `true`. -/
def RunsThrough (checks : OverflowChecks) (L : PoolLayout) (pool : MiningPoolManager)
    (c : PoolCall) : Prop :=
  (∀ lock : PoolLock L, (perform checks c).exec [] pool ≠ .blocked lock) ∧
    (SubmitsLive pool c →
      ∃ t, (perform (L := L) checks c).exec [] pool = .finished (.accepted true) t [])

theorem perform_not_blocked {pool : MiningPoolManager} {c : PoolCall} (h : ¬ SubmitsLive pool c)
    (lock : PoolLock L) : (perform checks c).exec [] pool ≠ .blocked lock := by
  cases c with
  | distributeWork header target chainId createdAt =>
      exact ((distributeWork_clean header target chainId createdAt).map _).not_blocked pool lock
  | submitShare share openedAt recordedAt =>
      rw [perform, exec_map, submitShare_unknown h]
      intro hblocked
      cases hblocked
  | getMiner address => exact ((getMiner_clean address).map _).not_blocked pool lock
  | getStats => exact (getStats_clean.map _).not_blocked pool lock
  | cleanupOldWork maxAgeSecs now =>
      exact ((cleanupOldWork_clean maxAgeSecs now).map _).not_blocked pool lock
  | activeMinerCount => exact (activeMinerCount_clean.map _).not_blocked pool lock

/-- A call of the pool runs through, whatever the state of the pool and however its maps
are sharded, exactly when it does not submit a share of live work. -/
theorem call_runs_through_iff (checks : OverflowChecks) (L : PoolLayout)
    (pool : MiningPoolManager) (c : PoolCall) :
    RunsThrough checks L pool c ↔ ¬ SubmitsLive pool c := by
  constructor
  · rintro ⟨_, hdone⟩ hlive
    obtain ⟨t, hdone⟩ := hdone hlive
    cases c with
    | submitShare share openedAt recordedAt =>
        rw [perform, exec_map] at hdone
        rcases submitShare_live (L := L) checks hlive openedAt recordedAt with hpanic | hstuck
        · rw [hpanic] at hdone
          cases hdone
        · rw [hstuck] at hdone
          cases hdone
    | _ => exact hlive
  · intro hnot
    exact ⟨perform_not_blocked hnot, fun hlive => (hnot hlive).elim⟩

/-- One shard for each map. -/
def PoolLayout.single : PoolLayout where
  workShards := 1
  minerShards := 1
  workShard _ := 0
  minerShard _ := 0

/-- The first share of the first work package blocks on the shard of its own miner. -/
theorem live_share_blocks :
    ∃ work pool, (distributeWork (L := .single) .on [1, 2, 3] 1000 0 0).exec [] .new =
        .finished work pool [] ∧
      (submitShare (L := .single) .on ⟨work.workId, 12345, [1, 2, 3], 0⟩ 0 0).exec [] pool =
        .blocked (.miners (PoolLayout.single.minerShard [1, 2, 3])) :=
  ⟨_, _, rfl, rfl⟩

end SilverNetwork
