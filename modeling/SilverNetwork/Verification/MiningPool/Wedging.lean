import SilverNetwork.Foundations.LockOrder
import SilverNetwork.Verification.MiningPool.Locking

/-! What becomes of the pool when a share of live work blocks on itself: it keeps the lock of the
statistics for good, and nobody who needs that lock ever returns. -/

namespace SilverNetwork

open LockProgram LockedObject MiningPoolManager

variable {L : PoolLayout} {checks : OverflowChecks} {Caller : Type} [DecidableEq Caller]
  {held : List (PoolLock L)} {pool : MiningPoolManager}

/-! ## Shares of live work -/

/-- Unless the caller waits for a lock of its own. -/
abbrev unlessSelfHeld (L : PoolLayout) : Ask (PoolLock L) := unlessKept fun held lock => lock ∈ held

theorem upward_unlessSelfHeld : Upward (unlessSelfHeld L) := upward_unlessKept _

/-- Nobody that holds a shard of the miners counts them. -/
theorem len_never {i : Fin L.minerShards} (h : PoolLock.miners i ∈ held) :
    (minerMap L).len.Along (unlessSelfHeld L) (fun _ _ => False) held := by
  refine Along.bind upward_unlessSelfHeld
    (Along.sequence_never upward_unlessSelfHeld (List.mem_finRange i) ?_ ?_)
    fun _ _ hnone => hnone.elim
  · exact fun hfree => absurd h hfree
  · exact fun j => AlongBalanced.guarded upward_unlessSelfHeld fun _ _ => rfl

theorem recordShare_never (address : Bytes) (recordedAt : Instant) :
    (recordShare checks address recordedAt).Along (unlessSelfHeld L) (fun _ _ => False)
      [.miners (L.minerShard address)] := by
  refine AlongBalanced.bind upward_unlessSelfHeld (fun _ => rfl) fun _ => ?_
  refine Along.guarded upward_unlessSelfHeld fun _ => ?_
  refine AlongBalanced.bind upward_unlessSelfHeld (fun _ => rfl) fun _ => ?_
  refine AlongBalanced.bind upward_unlessSelfHeld (fun _ => rfl) fun _ => ?_
  exact (len_never (List.mem_cons_of_mem _ List.mem_cons_self)).bind upward_unlessSelfHeld
    fun _ _ hnone => hnone.elim

theorem submitShare_rejects (share : MinerShare) (openedAt recordedAt : Instant) :
    (submitShare checks share openedAt recordedAt).Along (unlessSelfHeld L)
      (fun accepted _ => accepted = false) [] := by
  have hcheck : AlongBalanced (unlessSelfHeld L) ((workMap L).containsKey share.workId) [] :=
    .guarded upward_unlessSelfHeld fun _ _ => rfl
  refine hcheck.bind upward_unlessSelfHeld fun live => ?_
  cases live with
  | false => exact rfl
  | true =>
      refine Along.guarded upward_unlessSelfHeld fun _ => ?_
      refine AlongBalanced.bind upward_unlessSelfHeld (fun _ => rfl) fun _ => ?_
      exact (recordShare_never share.minerAddress recordedAt).mono upward_unlessSelfHeld
        fun _ _ hnone => hnone.elim

theorem perform_rejects (c : PoolCall) :
    (perform checks c).Along (unlessSelfHeld L) (fun result _ => result ≠ .accepted true) [] := by
  cases c with
  | submitShare share openedAt recordedAt =>
      refine Along.map upward_unlessSelfHeld ((submitShare_rejects share openedAt recordedAt).mono
        upward_unlessSelfHeld ?_)
      rintro accepted _ rfl
      simp
  | distributeWork | getMiner | getStats | cleanupOldWork | activeMinerCount =>
      exact Along.map upward_unlessSelfHeld (along_unlessKept _ _ fun _ _ => by simp)

/-! ## The lock of the statistics -/

theorem distributeWork_needs_stats (header : Bytes) (target : UInt64) (chainId : UInt32)
    (createdAt : UInt64) : Needs .stats
      (perform (L := L) checks (.distributeWork header target chainId createdAt)) := by
  have hask : Upward (unlessKept fun _ lock => lock = PoolLock.stats (L := L)) :=
    upward_unlessKept _
  refine Along.map hask (AlongBalanced.bind hask (fun _ => rfl) fun workId => ?_)
  refine AlongBalanced.bind hask (.guarded hask fun _ _ => rfl) fun _ => ?_
  exact Along.guarded hask fun hfree => absurd rfl hfree

theorem getStats_needs_stats : Needs .stats (perform (L := L) checks .getStats) := by
  have hask : Upward (unlessKept fun _ lock => lock = PoolLock.stats (L := L)) :=
    upward_unlessKept _
  exact Along.map hask (Along.guarded hask fun hfree => absurd rfl hfree)

/-- The calls that do not return without the statistics. -/
def PoolCall.needsStats : PoolCall → Bool
  | .distributeWork _ _ _ _ | .getStats => true
  | _ => false

theorem perform_needs_stats {c : PoolCall} (h : c.needsStats) :
    Needs .stats (perform (L := L) checks c) := by
  cases c with
  | distributeWork header target chainId createdAt =>
      exact distributeWork_needs_stats header target chainId createdAt
  | getStats => exact getStats_needs_stats
  | submitShare | getMiner | cleanupOldWork | activeMinerCount => cases h

/-! ## Runs -/

abbrev PoolStep (L : PoolLayout) (Caller : Type) : Type :=
  LockedObject.Step (PoolLock L) MiningPoolManager (UInt64 → Bool) Caller PoolCall PoolResult

/-- Between the calls, no guard belongs to a caller that has returned, and none of them will accept
a share. -/
theorem run_rejects {x : Contended (PoolLock L) MiningPoolManager Caller PoolResult}
    {calls : List (PoolStep L Caller)}
    (hrun : ((lockedPool L checks).machine Caller).Run (.start pool) calls x) :
    Owned x ∧ ∀ caller, Follows (unlessSelfHeld L) (fun result _ => result ≠ .accepted true)
      caller x := by
  refine hrun.invariant (I := fun x => Owned x ∧ ∀ caller, Follows (unlessSelfHeld L)
    (fun result _ => result ≠ .accepted true) caller x)
    ⟨owned_start pool, fun _ => follows_start pool⟩ ?_
  rintro c hmakes ⟨howned, hfollows⟩
  have hrule := rule_of_step hmakes
  refine ⟨hrule.owned howned, fun caller => hrule.follows howned
    (fun op _ => perform_rejects op) ?_ (hfollows caller)⟩
  intro lock p hgrants hasks
  refine hasks fun hheld => ?_
  exact not_grants_of_held hheld (decide_eq_true rfl) hgrants

/-- No share of live work is ever accepted; and once a call waits for a lock of its own while it
holds the statistics, every later call that needs them waits for good. -/
theorem pool_wedges {x : Contended (PoolLock L) MiningPoolManager Caller PoolResult}
    {calls : List (PoolStep L Caller)}
    (hrun : ((lockedPool L checks).machine Caller).Run (.start .new) calls x) :
    (∀ c ∈ calls, c.result ≠ .returned (.accepted true)) ∧
    ∀ holder, SelfBlocked (lockedPool L checks) holder x → .stats ∈ heldBy holder x.guards →
      ∀ before c after y caller op,
        ((lockedPool L checks).machine Caller).Run x (before ++ c :: after) y →
        c.event = .call caller op → op.needsStats →
        (∀ c' ∈ after, ∀ op', c'.event ≠ .call caller op') →
        ∀ d ∈ after, d.event = .act caller → ∀ result, d.result ≠ .returned result := by
  constructor
  · intro c hc hreturned
    obtain ⟨before, hbefore, _⟩ := hrun.before hc
    have hrule := rule_of_step (hrun.makes hc)
    cases hevent : c.event with
    | act caller =>
        rw [hevent, hreturned] at hrule
        exact hrule.returned ((run_rejects hbefore).2 caller) rfl
    | call caller op =>
        rw [hevent, hreturned] at hrule
        cases hrule
    | elapse duration =>
        rw [hevent, hreturned] at hrule
        cases hrule
  · intro holder hblocked hstats before c after y caller op hmore hcall hop hquiet d hd hact result
    have hhogged : Hogged (lockedPool L checks) holder .stats x :=
      ⟨(run_rejects hrun).1, hblocked, .stats, hstats, by simp [lockedPool]⟩
    exact hhogged.starves (perform_needs_stats hop) hmore hcall hquiet hd hact

/-- The share of the first work package that is distributed waits for the shard of its own miner,
and keeps the statistics from the next call. -/
theorem pool_wedges_plain :
    ∃ calls x y, ((lockedPool .single .on).machine ℕ).Run (.start .new) calls x ∧
      (∀ c ∈ calls, c.result ≠ .returned (.accepted true)) ∧
      SelfBlocked (lockedPool .single .on) 2 x ∧ .stats ∈ heldBy 2 x.guards ∧
      x.step (lockedPool .single .on) (.call 3 .getStats) = some (.running, y) ∧
      y.step (lockedPool .single .on) (.act 3) = none := by
  have hwork := Machine.Run.start.of_step (M := (lockedPool .single .on).machine ℕ)
    (s := .start .new) (e := .call 1 (.distributeWork [1] 1000 0 0)) rfl
    |>.of_step (e := .act 1) rfl |>.of_step (e := .act 1) rfl |>.of_step (e := .act 1) rfl
    |>.of_step (e := .act 1) rfl |>.of_step (e := .act 1) rfl |>.of_step (e := .act 1) rfl
    |>.of_step (e := .act 1) rfl |>.of_step (e := .act 1) rfl
  have hshare := hwork.of_step (e := .call 2 (.submitShare ⟨1, 5, [7], 0⟩ 0 0)) rfl
    |>.of_step (e := .act 2) rfl |>.of_step (e := .act 2) rfl |>.of_step (e := .act 2) rfl
    |>.of_step (e := .act 2) rfl |>.of_step (e := .act 2) rfl |>.of_step (e := .act 2) rfl
    |>.of_step (e := .act 2) rfl |>.of_step (e := .act 2) rfl |>.of_step (e := .act 2) rfl
  refine ⟨_, _, _, hshare, (pool_wedges hshare).1,
    ⟨_, _, rfl, .miners (PoolLayout.single.minerShard [7]), ?_, rfl⟩, ?_, rfl, rfl⟩
  · exact List.mem_cons_of_mem _ List.mem_cons_self
  · exact List.mem_cons_self

end SilverNetwork
