import SilverNetwork.Foundations.LateWindow
import SilverNetwork.Foundations.RelyGuarantee
import SilverNetwork.Model.ConcurrentLimiter
import SilverNetwork.Verification.Security.RateLimit

/-! The rate limiter under concurrent callers. A check may come to the queue long after it has read
the clock; the limit holds for the checks that read it and came to the queue within one window. -/

namespace SilverNetwork

namespace Security

open RateLimiter SlidingWindow

variable {PeerId Caller : Type} [DecidableEq PeerId] [ToString PeerId] [DecidableEq Caller]
  {L : LimiterLayout PeerId} {limit : UInt32} {window : Duration} {s t : SharedLimiter PeerId}
  {peer : PeerId}

/-! ## What the callers keep to -/

/-- The clock does not go back. -/
def ClockOnward (s t : SharedLimiter PeerId) : Prop := s.now ≤ t.now

instance : IsPreorder (SharedLimiter PeerId) ClockOnward where
  refl := fun s => le_refl s.now
  trans := fun _ _ _ h h' => le_trans (α := ℕ) h h'

/-- A check is decided by a reading that is not ahead of the clock. -/
def ReadBefore : LimiterAct L → SharedLimiter PeerId → Prop
  | .check _ now, s => now ≤ s.now
  | _, _ => True

theorem now_perform (action : LimiterAct L) (s : SharedLimiter PeerId) :
    (action.perform s).2.now = s.now := by
  cases action with
  | _ => rfl

theorem sound_checkRateLimit (peer : PeerId) (s : SharedLimiter PeerId) :
    (sharedLimiter L).Sound ClockOnward ReadBefore (LimiterProgram.checkRateLimit L peer) s := by
  refine .once_bind (fun _ _ => trivial) ?_
  rintro t readings now u _ hread
  obtain ⟨hanswer, rfl⟩ := Prod.mk.inj hread
  obtain rfl := Option.some.inj hanswer
  exact .once fun t' ht' => ht'

theorem sound_clearShards (shards : List (Fin L.shards)) (s : SharedLimiter PeerId) :
    (sharedLimiter L).Sound ClockOnward ReadBefore (LimiterProgram.clearShards shards) s := by
  induction shards generalizing s with
  | nil => trivial
  | cons shard rest ih => exact .once_bind (fun _ _ => trivial) fun _ _ _ u _ _ => ih u

theorem sound_lenShards (shards : List (Fin L.shards)) (total : ℕ) (s : SharedLimiter PeerId) :
    (sharedLimiter L).Sound ClockOnward ReadBefore (LimiterProgram.lenShards shards total) s := by
  induction shards generalizing total s with
  | nil => trivial
  | cons shard rest ih => exact .once_bind (fun _ _ => trivial) fun _ _ len u _ _ => ih _ u

theorem sound_limiterOp (op : LimiterOp PeerId) (s : SharedLimiter PeerId) :
    (sharedLimiter L).Sound ClockOnward ReadBefore (op.program L) s := by
  cases op with
  | checkRateLimit peer => exact (sound_checkRateLimit peer s).bind fun _ _ => trivial
  | getMessageCount | clearPeer => exact .bind (.once fun _ _ => trivial) fun _ _ => trivial
  | clearAll => exact (sound_clearShards _ s).bind fun _ _ => trivial
  | trackedPeersCount => exact (sound_lenShards _ 0 s).bind fun _ _ => trivial

theorem limiter_guarantee :
    (sharedLimiter L).Guarantee ClockOnward fun _ => ReadBefore where
  perform := fun _ action _ s _ => le_of_eq (now_perform action s).symm
  elapse := fun duration s => Nat.le_add_right s.now duration
  program := sound_limiterOp

/-! ## The checks let through -/

/-- The peer's accepted checks since it was last cleared, with what one action more makes of
them. -/
def admittedWith (peer : PeerId) (admitted : List Admission) (s : SharedLimiter PeerId) :
    LimiterAct L → List Admission
  | .check peer' now =>
      if peer = peer' ∧ (s.limiter.checkRateLimit peer' now).1 = .ok () then
        admitted ++ [⟨now, s.now⟩]
      else admitted
  | .remove peer' => if peer = peer' then [] else admitted
  | .clearShard shard => if L.shardOf peer = shard then [] else admitted
  | _ => admitted

/-- The peer's accepted checks since it was last cleared, with the clock reading of each and the
time when it was decided. -/
def admitted (peer : PeerId) (calls : List (ConcurrentLimiterCall L Caller)) : List Admission :=
  calls.foldl (fun admitted c =>
    (c.pre.due c.event).elim admitted (admittedWith peer admitted c.pre.shared)) []

/-- The check is about to find the peer's queue full. -/
def TurnsAway (peer : PeerId) (now : Instant) (c : ConcurrentLimiterCall L Caller) : Prop :=
  c.pre.due c.event = some (.check peer now) ∧
    (c.pre.shared.limiter.checkRateLimit peer now).1 ≠ .ok ()

variable {past : List Admission}

/-- The limiter has its configuration, and the peer's queue tracks the accepted checks. -/
structure LimitsLate (limit : UInt32) (window : Duration) (peer : PeerId) (past : List Admission)
    (s : SharedLimiter PeerId) : Prop where
  rateLimit : s.limiter.rateLimit = limit
  reach : s.limiter.window = window
  delayed : Delayed limit.toNat window s.now past (s.limiter.entry peer)

theorem checkRateLimit_of_room {l : RateLimiter PeerId} {now : Instant}
    (hroom : (expire l.window now (l.entry peer)).length < l.rateLimit.toNat) :
    l.checkRateLimit peer now = (.ok (),
      { l with
        peerMessages := l.peerMessages.insert peer (expire l.window now (l.entry peer) ++ [now]) }) :=
  if_neg (Nat.not_le.mpr hroom)

theorem checkRateLimit_of_full {l : RateLimiter PeerId} {now : Instant}
    (hfull : l.rateLimit.toNat ≤ (expire l.window now (l.entry peer)).length) :
    l.checkRateLimit peer now = (.error (.rateLimitExceeded (toString peer)),
      { l with peerMessages := l.peerMessages.insert peer (expire l.window now (l.entry peer)) }) :=
  if_pos hfull

theorem LimitsLate.check (h : LimitsLate limit window peer past s) (peer' : PeerId) {now : Instant}
    (hnow : now ≤ s.now) : LimitsLate limit window peer
      (admittedWith peer past s (.check peer' now : LimiterAct L))
      ((LimiterAct.check peer' now : LimiterAct L).perform s).2 := by
  obtain ⟨rfl, rfl, hdelayed⟩ := h
  by_cases hroom : (expire s.limiter.window now (s.limiter.entry peer')).length <
      s.limiter.rateLimit.toNat
  · simp only [admittedWith, LimiterAct.perform, checkRateLimit_of_room hroom, and_true]
    refine ⟨rfl, rfl, ?_⟩
    simp only [entry_insert]
    split
    · rename_i hpeer
      subst hpeer
      exact hdelayed.accept hnow hroom
    · exact hdelayed
  · have hfull := Nat.le_of_not_lt hroom
    simp only [admittedWith, LimiterAct.perform, checkRateLimit_of_full hfull, reduceCtorEq,
      and_false, if_false]
    refine ⟨rfl, rfl, ?_⟩
    simp only [entry_insert]
    split
    · rename_i hpeer
      subst hpeer
      exact hdelayed.reject hnow
    · exact hdelayed

omit [ToString PeerId] in
theorem entry_clearShard (l : RateLimiter PeerId) (shard : Fin L.shards) :
    entry peer
        { l with
          peerMessages := HashMap.retain l.peerMessages fun peer _ => L.shardOf peer ≠ shard } =
      if L.shardOf peer = shard then [] else l.entry peer := by
  unfold entry
  rw [HashMap.lookup_retain]
  split
  · rename_i hshard
    cases l.peerMessages.lookup peer with
    | none => rfl
    | some queue => simp [hshard]
  · rename_i hshard
    cases l.peerMessages.lookup peer with
    | none => rfl
    | some queue => simp [hshard, Option.filter]

theorem LimitsLate.perform (h : LimitsLate limit window peer past s) {action : LimiterAct L}
    (hallowed : ReadBefore action s) :
    LimitsLate limit window peer (admittedWith peer past s action) (action.perform s).2 := by
  cases action with
  | check peer' now => exact h.check peer' hallowed
  | remove peer' =>
      refine ⟨h.rateLimit, h.reach, ?_⟩
      simp only [admittedWith, LimiterAct.perform, entry_clearPeer]
      split
      · exact .none _ _ _
      · exact h.delayed
  | clearShard shard =>
      refine ⟨h.rateLimit, h.reach, ?_⟩
      simp only [admittedWith, LimiterAct.perform, entry_clearShard]
      split
      · exact .none _ _ _
      · exact h.delayed
  | readClock | count | lenShard => exact h

theorem LimitsLate.elapse (h : LimitsLate limit window peer past s) (duration : Duration) :
    LimitsLate limit window peer past ((sharedLimiter L).elapse duration s) :=
  ⟨h.rateLimit, h.reach, h.delayed.later (Nat.le_add_right s.now duration)⟩

/-! ## Runs -/

variable {x : ConcurrentLimiter L Caller} {calls : List (ConcurrentLimiterCall L Caller)}
  {now : Instant}

/-- Between two steps, every caller goes by a reading that is past. -/
structure LimiterInvariant (limit : UInt32) (window : Duration) (peer : PeerId)
    (past : List Admission) (x : ConcurrentLimiter L Caller) : Prop where
  sound : (sharedLimiter L).AllSound ClockOnward (fun _ => ReadBefore) x
  limits : LimitsLate limit window peer past x.shared

omit [DecidableEq Caller] in
theorem limiterInvariant_new : LimiterInvariant limit window peer []
    (ConcurrentLimiter.new L limit window now : ConcurrentLimiter L Caller) := by
  refine ⟨?_, rfl, rfl, .none _ _ _⟩
  intro caller thread hbusy
  cases hbusy

theorem LimiterInvariant.step {c : ConcurrentLimiterCall L Caller}
    (h : LimiterInvariant limit window peer past c.pre)
    (hmakes : ((sharedLimiter L).machine Caller).Makes c) :
    LimiterInvariant limit window peer
      ((c.pre.due c.event).elim past (admittedWith peer past c.pre.shared)) c.post := by
  have hrule := SharedObject.rule_of_step hmakes
  refine ⟨(limiter_guarantee.step h.sound hrule).2, ?_⟩
  rcases hrule.shared_due with ⟨hnone, hsame | ⟨duration, helapsed⟩⟩ |
    ⟨caller, readings, thread, action, next, hsome, hbusy, hdue, hperformed⟩
  · rw [hnone, hsame]
    exact h.limits
  · rw [hnone, helapsed]
    exact h.limits.elapse duration
  · obtain ⟨hallowed, _⟩ := h.sound.due hbusy hdue
    rw [hsome, hperformed]
    exact h.limits.perform hallowed

theorem run_limiterInvariant
    (hrun : ((sharedLimiter L).machine Caller).Run
      (ConcurrentLimiter.new L limit window now) calls x) (peer : PeerId) :
    LimiterInvariant limit window peer (admitted peer calls) x :=
  hrun.invariant_history limiterInvariant_new fun _ _ hmakes hpre => hpre.step hmakes

omit [DecidableEq Caller] in
/-- A check that finds the queue full finds the limit used up in the window up to its reading, or
since. -/
theorem LimiterInvariant.turnsAway {c : ConcurrentLimiterCall L Caller}
    (h : LimiterInvariant limit window peer past c.pre)
    (hfull : TurnsAway peer now c) :
    limit.toNat ≤ past.countP fun a => decide (now ≤ a.decidedAt + window) := by
  obtain ⟨hdue, hrejected⟩ := hfull
  obtain ⟨-, rfl, rfl, hdelayed⟩ := h
  apply hdelayed.full
  apply Nat.le_of_not_lt
  intro hroom
  exact hrejected (congrArg Prod.fst (checkRateLimit_of_room hroom))

/-- Whatever the callers do at once, of the checks of a peer since it was last cleared no more than
the limit are made and let through within one window, no queue is longer than the limit, and a
check is turned away only when the limit has been used up in the window before it, or since. -/
theorem concurrent_rate_limit {now : Instant}
    (hrun : ((sharedLimiter L).machine Caller).Run
      (ConcurrentLimiter.new L limit window now) calls x) :
    (∀ peer start, countWithin window start (admitted peer calls) ≤ limit.toNat) ∧
    (∀ peer, x.shared.limiter.getMessageCount peer ≤ limit.toNat) ∧
    ∀ before c after peer now, calls = before ++ c :: after → TurnsAway peer now c →
      limit.toNat ≤
        (admitted peer before).countP fun a => decide (now ≤ a.decidedAt + window) := by
  refine ⟨?_, ?_, ?_⟩
  · intro peer start
    exact (run_limiterInvariant hrun peer).limits.delayed.bounded start
  · intro peer
    rw [getMessageCount_eq]
    exact (run_limiterInvariant hrun peer).limits.delayed.length_le
  · intro before c after peer now hcut hfull
    exact (run_limiterInvariant (hrun.split hcut).1 peer).turnsAway hfull

/-- Two checks that come late to the queue do not count for the next two. -/
theorem concurrent_rate_limit_late :
    ∃ calls x, ((sharedLimiter ⟨1, fun _ => 0⟩).machine ℕ).Run
        (ConcurrentLimiter.new _ 2 10 0) calls x ∧
      admitted 7 calls = [⟨0, 20⟩, ⟨0, 20⟩, ⟨20, 20⟩, ⟨20, 20⟩] ∧
      ∀ start, countWithin 10 start (admitted 7 calls) ≤ 2 := by
  have hread := Machine.Run.start.of_step
    (M := (sharedLimiter ⟨1, fun _ => 0⟩).machine ℕ)
    (s := ConcurrentLimiter.new _ 2 10 0) (e := .call 1 (.checkRateLimit 7)) rfl
    |>.of_step (e := .act 1 ()) rfl |>.of_step (e := .call 2 (.checkRateLimit 7)) rfl
    |>.of_step (e := .act 2 ()) rfl |>.of_step (e := .elapse 20) rfl
  have hlate := hread.of_step (e := .act 1 ()) rfl |>.of_step (e := .act 2 ()) rfl
  have hrun := hlate.of_step (e := .call 3 (.checkRateLimit 7)) rfl
    |>.of_step (e := .act 3 ()) rfl |>.of_step (e := .act 3 ()) rfl
    |>.of_step (e := .call 4 (.checkRateLimit 7)) rfl
    |>.of_step (e := .act 4 ()) rfl |>.of_step (e := .act 4 ()) rfl
  exact ⟨_, _, hrun, rfl, (concurrent_rate_limit hrun).1 7⟩

end Security

end SilverNetwork
