import SilverNetwork.Foundations.Linearizable
import SilverNetwork.Foundations.LockOrder
import SilverNetwork.Model.ConcurrentRecovery
import SilverNetwork.Verification.ErrorRecovery.History

/-! The recovery manager under concurrent callers: each call takes effect at one moment. That of a
reset is when it resets the backoff, until when nobody can see that the count is gone. -/

namespace SilverNetwork

namespace ErrorRecovery

open LockedObject

variable {Caller : Type} [DecidableEq Caller] {limit : UInt32} {caller : Caller}
  {x y : Contended (Guard RecoveryLock) ErrorRecoveryManager Caller RecoveryAnswer}
  {a : Atomic ErrorRecoveryManager Caller RecoveryOp RecoveryAnswer}
  {held : List (Guard RecoveryLock)} {op : RecoveryOp} {answer : RecoveryAnswer} {peer : String}

/-! ## The stages of a call -/

/-- The manager with other error counts. -/
def ErrorRecoveryManager.withCounts (counts : HashMap String UInt32) (m : ErrorRecoveryManager) :
    ErrorRecoveryManager :=
  { m with errorCounts := counts }

/-- The caller has its answer, and changes nothing any more. -/
def Concludes (limit : UInt32) (answer : RecoveryAnswer) : RecoveryProgram RecoveryAnswer → Prop
  | .done result => result = answer
  | .acquire _ _ => False
  | .release _ next => Concludes limit answer next
  | .step update next => ∀ m, m.maxErrorsBeforeBan = limit →
      update m = some m ∧ Concludes limit answer (next m)

/-- The update is the operation at one moment. Either the caller keeps the others from the error
counts, or these do not matter to it. -/
inductive Takes (limit : UInt32) (op : RecoveryOp) (held : List (Guard RecoveryLock))
    (update : ErrorRecoveryManager → Option ErrorRecoveryManager)
    (next : ErrorRecoveryManager → RecoveryProgram RecoveryAnswer) : Prop where
  | holding (g : Guard RecoveryLock) (mem : g ∈ held) (lock : g.lock = .errorCounts)
      (takes : ∀ m answer t, m.maxErrorsBeforeBan = limit →
        recoveryOpStep m op = some (answer, t) →
        update m = some t ∧ Concludes limit answer (next m))
  | apart (takes : ∀ m counts answer t, m.maxErrorsBeforeBan = limit →
      recoveryOpStep (m.withCounts counts) op = some (answer, t) →
      ∃ m', update m = some m' ∧ m'.errorCounts = m.errorCounts ∧ t = m'.withCounts counts ∧
        Concludes limit answer (next m))

/-- The caller waits for its moment. -/
def Waits (limit : UInt32) (op : RecoveryOp) :
    RecoveryProgram RecoveryAnswer → List (Guard RecoveryLock) → Prop
  | .done result, _ => ∀ m, recoveryOpStep m op = some (result, m)
  | .acquire lock next, held => Waits limit op next (lock :: held)
  | .release _ _, _ => False
  | .step update next, held => Takes limit op held update next

/-- The last part of a reset. -/
def backoffReset (peer : String) : RecoveryProgram RecoveryAnswer :=
  .step (fun m => some { m with
      backoffStates := match m.backoffStates.lookup peer with
        | none => m.backoffStates
        | some backoff => m.backoffStates.insert peer backoff.reset })
    fun _ => .release (.write .backoffStates)
      (.release (.write .errorCounts) (.done (.event .done)))

/-- A reset that has not removed the count. -/
inductive Opens (peer : String) :
    RecoveryProgram RecoveryAnswer → List (Guard RecoveryLock) → Prop where
  | called : Opens peer (RecoveryOp.event (.resetErrorCount peer)).program []
  | entered : Opens peer
      (.step (fun m => some { m with errorCounts := m.errorCounts.erase peer })
        fun _ => .acquire (.write .backoffStates) (backoffReset peer))
      [.write .errorCounts]

/-- A reset that has removed the count, and has not reset the backoff. -/
inductive Emptied (peer : String) :
    RecoveryProgram RecoveryAnswer → List (Guard RecoveryLock) → Prop where
  | asks : Emptied peer (.acquire (.write .backoffStates) (backoffReset peer))
      [.write .errorCounts]
  | holds : Emptied peer (backoffReset peer) [.write .backoffStates, .write .errorCounts]

/-- What a caller's thread is to the call that it makes, and the peer whose count it has removed
before its moment. -/
inductive Stage (limit : UInt32) : Option String → Option (RecoveryProgram RecoveryAnswer) →
    List (Guard RecoveryLock) → Option (Slot RecoveryOp RecoveryAnswer) → Prop where
  | idle (held : List (Guard RecoveryLock)) : Stage limit none none held none
  | waits (op : RecoveryOp) (rest : RecoveryProgram RecoveryAnswer)
      (held : List (Guard RecoveryLock)) (waits : Waits limit op rest held) :
      Stage limit none (some rest) held (some (.pending op))
  | opens (peer : String) (rest : RecoveryProgram RecoveryAnswer)
      (held : List (Guard RecoveryLock)) (opens : Opens peer rest held) :
      Stage limit none (some rest) held (some (.pending (.event (.resetErrorCount peer))))
  | emptied (peer : String) (rest : RecoveryProgram RecoveryAnswer)
      (held : List (Guard RecoveryLock)) (emptied : Emptied peer rest held) :
      Stage limit (some peer) (some rest) held
        (some (.pending (.event (.resetErrorCount peer))))
  | concludes (answer : RecoveryAnswer) (rest : RecoveryProgram RecoveryAnswer)
      (held : List (Guard RecoveryLock)) (concludes : Concludes limit answer rest) :
      Stage limit none (some rest) held (some (.decided answer))

/-! ## The stage of a new call -/

theorem takes_apart {α : Type} {f : ErrorRecoveryManager → Option (α × ErrorRecoveryManager)}
    {g : α → RecoveryAnswer} {unreached : α} {lock : Guard RecoveryLock}
    (hstep : ∀ m, recoveryOpStep m op = (f m).map (Prod.map g id))
    (hcounts : ∀ m counts, f (m.withCounts counts) =
      (f m).map (Prod.map id (ErrorRecoveryManager.withCounts counts)))
    (hsame : ∀ m r, f m = some r → r.2.errorCounts = m.errorCounts) :
    Takes limit op held (fun m => (f m).map Prod.snd) fun m =>
      .release lock (.done (g (((f m).map Prod.fst).getD unreached))) := by
  refine .apart ?_
  intro m counts answer t _ htakes
  rw [hstep, hcounts] at htakes
  cases hf : f m with
  | none => simp [hf] at htakes
  | some r =>
      simp only [hf, Option.map_some, Option.some.injEq] at htakes
      obtain ⟨rfl, rfl⟩ := Prod.mk.inj htakes
      exact ⟨r.2, rfl, hsame m r hf, rfl, rfl⟩

theorem takes_holding {α : Type} {f : ErrorRecoveryManager → Option (α × ErrorRecoveryManager)}
    {g : α → RecoveryAnswer} {unreached : α} {lock : Guard RecoveryLock}
    (hstep : ∀ m, recoveryOpStep m op = (f m).map (Prod.map g id))
    (hlock : lock.lock = .errorCounts) :
    Takes limit op [lock] (fun m => (f m).map Prod.snd) fun m =>
      .release lock (.done (g (((f m).map Prod.fst).getD unreached))) := by
  refine .holding lock (List.mem_singleton_self lock) hlock ?_
  intro m answer t _ htakes
  rw [hstep] at htakes
  cases hf : f m with
  | none => simp [hf] at htakes
  | some r =>
      simp only [hf, Option.map_some, Option.some.injEq] at htakes
      obtain ⟨rfl, rfl⟩ := Prod.mk.inj htakes
      exact ⟨rfl, rfl⟩

theorem waits_handleError (peer : String) (error : NetworkError) (clocks : Clocks) :
    Waits limit (.event (.handleError peer error clocks))
      (RecoveryOp.event (.handleError peer error clocks)).program [] := by
  have hstep : ∀ m : ErrorRecoveryManager,
      recoveryOpStep m (.event (.handleError peer error clocks)) =
        (m.handleError peer error clocks).map
          (Prod.map (fun result => .event (.answer result)) id) := by
    intro m
    simp only [recoveryOpStep, recoveryStep, Option.map_map]
    rfl
  simp only [RecoveryOp.program, RecoveryProgram.handleError]
  simp only [ErrorRecoveryManager.handleError] at hstep
  cases hstrategy : error.recoveryStrategy with
  | exponentialBackoff =>
      simp only [hstrategy] at hstep
      refine takes_apart (f := fun m => m.handleExponentialBackoff peer clocks) hstep ?_ ?_
      · intro m counts
        simp only [ErrorRecoveryManager.handleExponentialBackoff, Option.map_map]
        rfl
      · intro m r hr
        obtain ⟨_, _, rfl⟩ := Option.map_eq_some_iff.mp hr
        rfl
  | throttle =>
      simp only [hstrategy] at hstep
      refine takes_apart (f := fun m => m.handleThrottle peer clocks) hstep ?_ ?_
      · intro m counts
        rfl
      · intro m r hr
        obtain rfl := Option.some.inj hr
        rfl
  | reconnect =>
      simp only [hstrategy] at hstep
      exact takes_holding (f := fun m => m.handleReconnect peer) hstep rfl
  | retry | waitAndRetry | alert | failStartup | log =>
      simp only [hstrategy] at hstep
      exact hstep

theorem waits_getErrorCount (peer : String) :
    Waits limit (.getErrorCount peer) (RecoveryOp.getErrorCount peer).program [] := by
  refine .holding (.read .errorCounts) (List.mem_singleton_self _) rfl ?_
  rintro m answer t _ ⟨⟩
  exact ⟨rfl, rfl⟩

theorem waits_shouldBanPeer (peer : String) :
    Waits limit (.shouldBanPeer peer) (RecoveryOp.shouldBanPeer peer).program [] := by
  refine .holding (.read .errorCounts) (List.mem_singleton_self _) rfl ?_
  rintro m answer t hlimit ⟨⟩
  refine ⟨rfl, ?_⟩
  intro m' hlimit'
  have hsame : RecoveryAnswer.banned (decide (m'.maxErrorsBeforeBan < m.getErrorCount peer)) =
      .banned (m.shouldBanPeer peer) := by
    rw [ErrorRecoveryManager.shouldBanPeer, hlimit, hlimit']
  exact ⟨rfl, hsame⟩

/-- A new call waits for its moment. -/
theorem stage_program (op : RecoveryOp) :
    Stage limit none (some op.program) [] (some (.pending op)) := by
  cases op with
  | event e =>
      cases e with
      | handleError peer error clocks =>
          exact .waits _ _ _ (waits_handleError peer error clocks)
      | resetErrorCount peer => exact .opens peer _ _ .called
  | getErrorCount peer => exact .waits _ _ _ (waits_getErrorCount peer)
  | shouldBanPeer peer => exact .waits _ _ _ (waits_shouldBanPeer peer)

/-! ## The moments -/

variable {removed : Caller → Option String} {m s : ErrorRecoveryManager}

/-- The manager is the atomic one, without the count that a reset has removed so far. -/
structure Agrees (removed : Caller → Option String) (m s : ErrorRecoveryManager) : Prop where
  apart : s = m.withCounts s.errorCounts
  emptied : ∀ caller peer, removed caller = some peer → s.errorCounts = m.errorCounts.erase peer
  settled : (∀ caller, removed caller = none) → s = m

/-- The atomic object goes along with the callers. -/
structure Related (limit : UInt32) (removed : Caller → Option String)
    (x : Contended (Guard RecoveryLock) ErrorRecoveryManager Caller RecoveryAnswer)
    (a : Atomic ErrorRecoveryManager Caller RecoveryOp RecoveryAnswer) : Prop where
  owned : Owned x
  exclusive : lockedRecovery.Exclusive x
  stage : ∀ caller, Stage limit (removed caller) (x.threads caller) (heldBy caller x.guards)
    (a.slots caller)
  reached : ∃ calls, recoveryMachine.Run (.new limit) calls a.state
  agrees : Agrees removed a.state x.shared

omit [DecidableEq Caller] in
theorem Agrees.limit_eq (h : Agrees removed m s) :
    s.maxErrorsBeforeBan = m.maxErrorsBeforeBan := by
  rw [h.apart]
  rfl

theorem Related.limit_eq (h : Related limit removed x a) :
    x.shared.maxErrorsBeforeBan = limit := by
  obtain ⟨calls, hrun⟩ := h.reached
  rw [h.agrees.limit_eq, (run_remembers hrun).limit]

/-- The manager answers every call that comes next. -/
theorem Related.completes (h : Related limit removed x a) (op : RecoveryOp) :
    ∃ answer t, recoveryOpStep a.state op = some (answer, t) ∧
      ∃ calls, recoveryMachine.Run (.new limit) calls t := by
  obtain ⟨calls, hrun⟩ := h.reached
  cases op with
  | getErrorCount | shouldBanPeer => exact ⟨_, _, rfl, calls, hrun⟩
  | event e =>
      obtain ⟨r, t, hstep⟩ := (run_remembers hrun).completes e
      refine ⟨.event r, t, ?_, _, hrun.of_step hstep⟩
      simp [recoveryOpStep, hstep]

/-- While a caller has a guard of the error counts, no other is in the middle of a reset. -/
theorem Related.removed_eq_none (h : Related limit removed x a) {g : Guard RecoveryLock}
    (hmem : g ∈ heldBy caller x.guards) (hlock : g.lock = .errorCounts) {caller' : Caller}
    (hne : caller' ≠ caller) : removed caller' = none := by
  have hstage := h.stage caller'
  cases hremoved : removed caller' with
  | none => rfl
  | some peer =>
      rw [hremoved] at hstage
      generalize x.threads caller' = rest, a.slots caller' = slot at hstage
      obtain ⟨held, hheld⟩ : ∃ held, heldBy caller' x.guards = held := ⟨_, rfl⟩
      rw [hheld] at hstage
      have hwrite : Guard.write RecoveryLock.errorCounts ∈ held := by
        cases hstage with
        | emptied _ _ _ hemptied =>
            cases hemptied with
            | asks => exact List.mem_singleton_self _
            | holds => exact List.mem_cons_of_mem _ (List.mem_singleton_self _)
      rw [← hheld] at hwrite
      refine absurd (h.exclusive.eq_of_excludes Guard.excludes_comm (mem_heldBy.mp hwrite)
        (mem_heldBy.mp hmem) ?_) hne
      exact Guard.excludes_write hlock

/-- A step of one caller, with what it is to the atomic object. -/
theorem Related.step (h : Related limit removed x a)
    {e : ContendedEvent Empty Caller RecoveryOp} {r : Progress RecoveryAnswer}
    (hrule : Rule lockedRecovery x e r y) (hcaller : e.caller = some caller)
    {peer : Option String} {slot : Option (Slot RecoveryOp RecoveryAnswer)}
    (hstage : Stage limit peer (y.threads caller) (heldBy caller y.guards) slot)
    (hreached : ∃ calls, recoveryMachine.Run (.new limit) calls m)
    (hagrees : Agrees (Function.update removed caller peer) m y.shared) :
    Related limit (Function.update removed caller peer) y (a.put caller m slot) where
  owned := hrule.owned h.owned
  exclusive := hrule.exclusive h.exclusive
  stage := by
    intro caller'
    by_cases hsame : caller' = caller
    · subst hsame
      simpa [Atomic.put] using hstage
    · have hother : e.caller ≠ some caller' := by
        rw [hcaller]
        exact fun hcaller => hsame (Option.some.inj hcaller).symm
      obtain ⟨hthread, hheld⟩ := hrule.frame hother
      rw [hthread, hheld]
      simp only [Atomic.put, Function.update_of_ne hsame]
      exact h.stage caller'
  reached := hreached
  agrees := hagrees

/-- A step that the atomic object does not take part in. -/
theorem Related.still (h : Related limit removed x a)
    {e : ContendedEvent Empty Caller RecoveryOp} {r : Progress RecoveryAnswer}
    (hrule : Rule lockedRecovery x e r y) (hcaller : e.caller = some caller)
    (hshared : y.shared = x.shared)
    (hstage : Stage limit (removed caller) (y.threads caller) (heldBy caller y.guards)
      (a.slots caller)) : Related limit removed y a := by
  have hstep := h.step hrule hcaller (m := a.state) hstage h.reached
  rw [Function.update_eq_self, hshared] at hstep
  have hput : a.put caller a.state (a.slots caller) = a := by
    rw [Atomic.put, Function.update_eq_self]
  exact hput ▸ hstep h.agrees

/-- A caller that waits and is at its moment. -/
theorem Related.takes (h : Related limit removed x a) {op : RecoveryOp}
    {update : ErrorRecoveryManager → Option ErrorRecoveryManager}
    {next : ErrorRecoveryManager → RecoveryProgram RecoveryAnswer}
    (hnone : removed caller = none)
    (htakes : Takes limit op (heldBy caller x.guards) update next) :
    ∃ answer t s, recoveryOpStep a.state op = some (answer, t) ∧
      (∃ calls, recoveryMachine.Run (.new limit) calls t) ∧ update x.shared = some s ∧
      Agrees removed t s ∧ Concludes limit answer (next x.shared) := by
  obtain ⟨answer, t, hstep, hreached⟩ := h.completes op
  cases htakes with
  | holding g mem lock takes =>
      have hall : ∀ caller', removed caller' = none := by
        intro caller'
        by_cases hsame : caller' = caller
        · exact hsame ▸ hnone
        · exact h.removed_eq_none mem lock hsame
      have hsettled := h.agrees.settled hall
      rw [hsettled]
      rw [← hsettled] at hstep
      obtain ⟨hupdate, hconcludes⟩ := takes _ answer t h.limit_eq hstep
      rw [hsettled] at hupdate hconcludes
      refine ⟨answer, t, t, hsettled ▸ hstep, hreached, hupdate, ⟨rfl, ?_, fun _ => rfl⟩,
        hconcludes⟩
      intro caller' peer hremoved
      rw [hall caller'] at hremoved
      cases hremoved
  | apart takes =>
      have hstate : a.state = x.shared.withCounts a.state.errorCounts := by
        conv_rhs => rw [h.agrees.apart]
        rfl
      rw [hstate] at hstep
      obtain ⟨s, hupdate, hcounts, rfl, hconcludes⟩ := takes _ _ answer t h.limit_eq hstep
      refine ⟨answer, _, s, hstate ▸ hstep, hreached, hupdate, ⟨rfl, ?_, ?_⟩, hconcludes⟩
      · intro caller' peer hremoved
        rw [hcounts]
        exact h.agrees.emptied caller' peer hremoved
      · intro hall
        rw [← h.agrees.settled hall, ← hcounts]
        rfl

theorem Agrees.remove (h : Agrees removed m s) (hall : ∀ caller, removed caller = none)
    (caller : Caller) (peer : String) : Agrees (Function.update removed caller (some peer)) m
      { s with errorCounts := s.errorCounts.erase peer } := by
  obtain rfl := h.settled hall
  refine ⟨rfl, ?_, ?_⟩
  · intro caller' peer' hremoved
    rw [Function.update_apply] at hremoved
    split at hremoved
    · rw [Option.some.inj hremoved]
    · rw [hall caller'] at hremoved
      cases hremoved
  · intro hnone
    have hcaller := hnone caller
    rw [Function.update_self] at hcaller
    cases hcaller

/-- With its backoff reset as well, the peer is reset. -/
theorem Agrees.reset (h : Agrees removed m s) (hremoved : removed caller = some peer)
    (hothers : ∀ caller', caller' ≠ caller → removed caller' = none) :
    Agrees (Function.update removed caller none) (m.resetErrorCount peer)
      { s with
        backoffStates := match s.backoffStates.lookup peer with
          | none => s.backoffStates
          | some backoff => s.backoffStates.insert peer backoff.reset } := by
  have hs : s = m.withCounts (m.errorCounts.erase peer) := by
    rw [← h.emptied caller peer hremoved]
    exact h.apart
  subst hs
  refine ⟨rfl, ?_, fun _ => rfl⟩
  intro caller' peer' hremoved'
  rw [Function.update_apply] at hremoved'
  split at hremoved'
  · cases hremoved'
  · rename_i hne
    rw [hothers caller' hne] at hremoved'
    cases hremoved'

/-! ## Steps -/

/-- Some steps of the atomic object look like one step of the manager. -/
def Matches (limit : UInt32) (a : Atomic ErrorRecoveryManager Caller RecoveryOp RecoveryAnswer)
    (seen : Option (Seen Caller RecoveryOp RecoveryAnswer))
    (y : Contended (Guard RecoveryLock) ErrorRecoveryManager Caller RecoveryAnswer) : Prop :=
  ∃ calls b, (recoveryOpMachine.atomic Caller).Run a calls b ∧
    calls.filterMap Atomic.seen = seen.toList ∧ ∃ removed, Related limit removed y b

theorem Related.matches_still (h : Related limit removed y a) : Matches limit a none y :=
  ⟨[], a, .start, rfl, removed, h⟩

variable {e : ContendedEvent Empty Caller RecoveryOp} {r : Progress RecoveryAnswer}

theorem Related.call (h : Related limit removed x a) (op : RecoveryOp)
    (idle : x.threads caller = none) :
    Matches limit a (some (.called caller op))
      (x.resume caller x.shared x.guards op.program) := by
  have hrule : Rule lockedRecovery x (.call caller op) .running
      (x.resume caller x.shared x.guards op.program) := .call caller op idle
  have hstage := h.stage caller
  rw [idle] at hstage
  generalize hremoved : removed caller = peer, hslot : a.slots caller = slot at hstage
  cases hstage with
  | idle =>
      have hheld := h.owned.heldBy_eq_nil idle
      refine ⟨_, _, Machine.Run.start.of_step (Atomic.makes_call hslot), rfl,
        Function.update removed caller none, h.step hrule rfl ?_ h.reached ?_⟩
      · simp only [Contended.resume, Function.update_self, hheld]
        exact stage_program op
      · rw [← hremoved, Function.update_eq_self]
        exact h.agrees

theorem Related.finish (h : Related limit removed x a)
    (due : x.threads caller = some (.done answer)) :
    Matches limit a (some (.returned caller answer)) (x.leave caller) := by
  have hrule : Rule lockedRecovery x (.act caller) (.returned answer) (x.leave caller) :=
    .finish caller answer due
  have hstage := h.stage caller
  rw [due] at hstage
  generalize hremoved : removed caller = peer, hslot : a.slots caller = slot at hstage
  have hidle : Stage limit none ((x.leave caller).threads caller)
      (heldBy caller (x.leave caller).guards) none := by
    simp only [Contended.leave, Function.update_self]
    exact .idle _
  have hleft (hnone : removed caller = none) :
      Related limit removed (x.leave caller) (a.put caller a.state none) := by
    have hsame : Function.update removed caller none = removed := by
      rw [← hnone, Function.update_eq_self]
    have hstep := h.step hrule rfl hidle h.reached (hsame.symm ▸ h.agrees)
    rwa [hsame] at hstep
  cases hstage with
  | concludes _ _ _ hconcludes =>
      obtain rfl : answer = _ := hconcludes
      exact ⟨_, _, Machine.Run.start.of_step (Atomic.makes_finish hslot), rfl, removed,
        hleft hremoved⟩
  | waits op _ _ hwaits =>
      -- nothing is left to be done at its moment, which is now
      have hcommit := Machine.Run.start.of_step
        (Atomic.makes_commit (M := recoveryOpMachine) hslot (hwaits a.state))
      have hdone := hcommit.of_step (Atomic.makes_finish (Atomic.put_slots _ _ _ _))
      refine ⟨_, _, hdone, rfl, removed, ?_⟩
      have hput : (a.put caller a.state (some (.decided answer))).put caller a.state none =
          a.put caller a.state none := by
        simp [Atomic.put]
      exact hput ▸ hleft hremoved
  | opens _ _ _ hopens => cases hopens
  | emptied _ _ _ hemptied => cases hemptied

/-- A step within a call that is neither its moment nor the removal of a count. -/
theorem Related.matches_resumed (h : Related limit removed x a)
    {guards : List (Caller × Guard RecoveryLock)} {rest : RecoveryProgram RecoveryAnswer}
    (hrule : Rule lockedRecovery x (.act caller) .running
      (x.resume caller x.shared guards rest))
    (hstage : Stage limit (removed caller) (some rest) (heldBy caller guards) (a.slots caller)) :
    Matches limit a none (x.resume caller x.shared guards rest) := by
  refine (h.still hrule rfl rfl ?_).matches_still
  simpa [Contended.resume] using hstage

theorem Related.acquire (h : Related limit removed x a) {lock : Guard RecoveryLock}
    {next : RecoveryProgram RecoveryAnswer}
    (due : x.threads caller = some (.acquire lock next))
    (grants : lockedRecovery.Grants x lock) : Matches limit a none
      (x.resume caller x.shared ((caller, lock) :: x.guards) next) := by
  refine h.matches_resumed (.acquire caller lock next due grants) ?_
  have hstage := h.stage caller
  rw [due] at hstage
  rw [heldBy_cons_self]
  generalize removed caller = peer, a.slots caller = slot at hstage ⊢
  generalize heldBy caller x.guards = held at hstage ⊢
  cases hstage with
  | waits op _ _ hwaits => exact .waits op _ _ hwaits
  | opens peer _ _ hopens =>
      cases hopens with
      | called => exact .opens peer _ _ .entered
  | emptied peer _ _ hemptied =>
      cases hemptied with
      | asks => exact .emptied peer _ _ .holds
  | concludes _ _ _ hconcludes => exact hconcludes.elim

theorem Related.release (h : Related limit removed x a) {lock : Guard RecoveryLock}
    {next : RecoveryProgram RecoveryAnswer}
    (due : x.threads caller = some (.release lock next)) : Matches limit a none
      (x.resume caller x.shared (x.guards.erase (caller, lock)) next) := by
  refine h.matches_resumed (.release caller lock next due) ?_
  have hstage := h.stage caller
  rw [due] at hstage
  generalize removed caller = peer, a.slots caller = slot at hstage ⊢
  cases hstage with
  | waits op _ _ hwaits => exact hwaits.elim
  | opens peer _ _ hopens => cases hopens
  | emptied peer _ _ hemptied => cases hemptied
  | concludes _ _ _ hconcludes => exact .concludes _ _ _ hconcludes

/-- An update never panics, and is the moment of the call, the removal of a count by a reset, or
none at all. -/
theorem Related.update (h : Related limit removed x a)
    {update : ErrorRecoveryManager → Option ErrorRecoveryManager}
    {next : ErrorRecoveryManager → RecoveryProgram RecoveryAnswer}
    (due : x.threads caller = some (.step update next)) :
    ∃ s, update x.shared = some s ∧
      Matches limit a none (x.resume caller s x.guards (next x.shared)) := by
  have hrule (s : ErrorRecoveryManager) (hs : update x.shared = some s) :
      Rule lockedRecovery x (.act caller) .running
        (x.resume caller s x.guards (next x.shared)) := .update caller update next s due hs
  have hstage := h.stage caller
  rw [due] at hstage
  generalize hremoved : removed caller = peer, hslot : a.slots caller = slot at hstage
  generalize hheld : heldBy caller x.guards = held at hstage
  cases hstage with
  | waits op _ _ hwaits =>
      obtain ⟨answer, t, s, hstep, hreached, hs, hagrees, hconcludes⟩ :=
        h.takes hremoved (hheld.symm ▸ hwaits)
      refine ⟨s, hs, _, _, Machine.Run.start.of_step
        (Atomic.makes_commit (M := recoveryOpMachine) hslot hstep), rfl,
        Function.update removed caller none, h.step (hrule s hs) rfl ?_ hreached ?_⟩
      · simp only [Contended.resume, Function.update_self]
        exact .concludes answer _ _ hconcludes
      · rw [← hremoved, Function.update_eq_self]
        exact hagrees
  | opens peer _ _ hopens =>
      generalize hrest : LockProgram.step update next = rest at hopens
      cases hopens with
      | called => cases hrest
      | entered =>
          obtain ⟨rfl, rfl⟩ := LockProgram.step.inj hrest
          have hall : ∀ caller', removed caller' = none := by
            intro caller'
            by_cases hsame : caller' = caller
            · exact hsame ▸ hremoved
            · exact h.removed_eq_none (hheld.symm ▸ List.mem_singleton_self _) rfl hsame
          have hput : a.put caller a.state (a.slots caller) = a := by
            rw [Atomic.put, Function.update_eq_self]
          refine ⟨_, rfl, [], a, .start, rfl, Function.update removed caller (some peer), ?_⟩
          rw [← hput]
          refine h.step (hrule _ rfl) rfl ?_ h.reached (h.agrees.remove hall caller peer)
          simp only [Contended.resume, Function.update_self, hheld, hslot]
          exact .emptied peer _ _ .asks
  | emptied peer _ _ hemptied =>
      generalize hrest : LockProgram.step update next = rest at hemptied
      cases hemptied with
      | asks => cases hrest
      | holds =>
          obtain ⟨rfl, rfl⟩ := LockProgram.step.inj hrest
          have hothers : ∀ caller', caller' ≠ caller → removed caller' = none := fun _ hne =>
            h.removed_eq_none (hheld.symm ▸ List.mem_cons_of_mem _ (List.mem_singleton_self _))
              rfl hne
          obtain ⟨calls, hrun⟩ := h.reached
          have hreached : recoveryMachine.Run (.new limit) _ (a.state.resetErrorCount peer) :=
            hrun.of_step (e := .resetErrorCount peer) rfl
          refine ⟨_, rfl, _, _, Machine.Run.start.of_step
            (Atomic.makes_commit (M := recoveryOpMachine) hslot rfl), rfl,
            Function.update removed caller none,
            h.step (hrule _ rfl) rfl ?_ ⟨_, hreached⟩ (h.agrees.reset hremoved hothers)⟩
          simp only [Contended.resume, Function.update_self]
          exact .concludes _ _ _ rfl
  | concludes answer _ _ hconcludes =>
      obtain ⟨hsame, hrest⟩ := hconcludes x.shared h.limit_eq
      refine ⟨x.shared, hsame, h.matches_resumed (hrule _ hsame) ?_⟩
      rw [hremoved, hslot]
      exact .concludes answer _ _ hrest

/-- Each step of the manager looks like steps of the atomic object. -/
theorem Related.simulates (h : Related limit removed x a) (hrule : Rule lockedRecovery x e r y) :
    Matches limit a (LockedObject.seen ⟨x, e, r, y⟩) y := by
  cases hrule with
  | call caller op idle => exact h.call op idle
  | finish caller answer due => exact h.finish due
  | acquire caller lock next due grants => exact h.acquire due grants
  | release caller lock next due => exact h.release due
  | update caller update next s due updates =>
      obtain ⟨s', hs', hmatches⟩ := h.update due
      obtain rfl := Option.some.inj (updates.symm.trans hs')
      exact hmatches
  | panic caller update next due panics =>
      obtain ⟨s, hs, _⟩ := h.update due
      rw [panics] at hs
      cases hs
  | elapse duration => exact duration.elim

/-! ## Runs -/

theorem related_start (limit : UInt32) :
    Related limit (fun _ : Caller => none) (.start (.new limit)) (.start (.new limit)) where
  owned := owned_start _
  exclusive := .nil
  stage := fun _ => .idle _
  reached := ⟨[], .start⟩
  agrees := ⟨rfl, fun _ _ h => (Option.some_ne_none _ h.symm).elim, fun _ => rfl⟩

theorem Related.idle (h : Related limit removed x a) (hidle : ∀ caller, x.threads caller = none) :
    a.state = x.shared := by
  refine (h.agrees.settled fun caller => ?_).symm
  have hstage := h.stage caller
  rw [hidle caller] at hstage
  generalize removed caller = peer, a.slots caller = slot at hstage ⊢
  cases hstage with
  | idle => rfl

/-- However the calls of the recovery manager interleave between their locks, each of them looks as
if it took effect at one moment between its call and its return, and none panics. -/
theorem recovery_linearizable (maxErrors : UInt32) :
    lockedRecovery.Linearizable Caller recoveryOpMachine (.new maxErrors) := by
  intro calls x hrun
  obtain ⟨calls', a, hrun', hseen, removed, hrelated⟩ := hrun.matched
    (R := fun x a => ∃ removed, Related maxErrors removed x a)
    ⟨_, related_start maxErrors⟩ fun c a hmakes hpre => by
      obtain ⟨removed, hpre⟩ := hpre
      exact hpre.simulates (rule_of_step hmakes)
  exact ⟨calls', a, hrun', hseen, hrelated.idle⟩

end ErrorRecovery

end SilverNetwork
