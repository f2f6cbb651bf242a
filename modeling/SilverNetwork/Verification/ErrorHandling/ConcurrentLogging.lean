import SilverNetwork.Foundations.Accounting
import SilverNetwork.Model.ConcurrentLogger
import SilverNetwork.Verification.ErrorHandling.LogHistory

/-! The error logger under concurrent callers. When all of them have returned, each error has been
counted and kept once; until then a summary is of no single moment, but each of its figures is. -/

namespace SilverNetwork

namespace ErrorLogging

open SharedObject

variable {Caller : Type} [DecidableEq Caller] {size : ℕ} {x : ConcurrentLogger Caller}
  {calls : List (ConcurrentLoggerCall Caller)} {l : ErrorLogger}

/-! ## The counters -/

theorem load_fetchAdd (counter counter' : ErrorCounter) (m : ErrorMetrics) :
    (m.fetchAdd counter').load counter =
      if counter' = counter then m.load counter + 1 else m.load counter := by
  cases counter <;> cases counter' <;> rfl

/-- How often an action adds to the counter. -/
def LoggerAct.adds (counter : ErrorCounter) : LoggerAct → ℕ
  | .fetchAdd counter' => if counter' = counter then 1 else 0
  | _ => 0

/-- How often a call adds to the counter: an error to the total and to that of its category, if
there is one, and to that of the recovered errors if it is told so. -/
def LoggerOp.adds (counter : ErrorCounter) : LoggerOp → ℕ
  | .logError error _ recovered _ =>
      match counter with
      | .total => 1
      | .recovered => if recovered then 1 else 0
      | counter => if (ErrorCategory.fromError error).ownCounter = some counter then 1 else 0
  | _ => 0

/-- The entry that a call is to log, without its timestamp. -/
def LoggerOp.report : LoggerOp → Option ErrorLogEntry
  | .logError error context recovered recoveryAction =>
      some {
        error := error.display
        context
        category := .fromError error
        timestamp := 0
        recovered
        recoveryAction }
  | _ => none

def ErrorLogEntry.report (entry : ErrorLogEntry) : ErrorLogEntry := { entry with timestamp := 0 }

/-- How often an action keeps such an entry. -/
def LoggerAct.keeps (report : ErrorLogEntry) : LoggerAct → ℕ
  | .push entry => if entry.report = report then 1 else 0
  | _ => 0

def LoggerOp.keeps (report : ErrorLogEntry) (op : LoggerOp) : ℕ :=
  if op.report = some report then 1 else 0

theorem neverPanics_sharedLogger : NeverPanics sharedLogger := by
  intro action now l
  simp [sharedLogger]

/-- What an error comes to, for a weight that does not go by the timestamp. -/
theorem owes_logError {w : LoggerAct → ℕ} {error : NetworkError} {context : ErrorContext}
    {recovered : Bool} {recoveryAction : Option String} {n : ℕ} (hclock : w .readClock = 0)
    (hpush : ∀ timestamp, w (.push ⟨error.display, context, .fromError error, timestamp, recovered,
      recoveryAction⟩) = n) :
    (LoggerProgram.logError error context recovered recoveryAction).Owes w
      (w (.fetchAdd .total) +
        ((ErrorCategory.fromError error).ownCounter.map fun c => w (.fetchAdd c)).getD 0 +
        ((if recovered then w (.fetchAdd .recovered) else 0) + n)) := by
  have hpushed : AtomicProgram.Owes w (do
      let timestamp ← LoggerProgram.act .readClock
      LoggerProgram.act (.push ⟨error.display, context, .fromError error, timestamp, recovered,
        recoveryAction⟩)) n := by
    refine ⟨n, by rw [hclock, Nat.zero_add], fun timestamp => ⟨0, ?_, fun _ => rfl⟩⟩
    rw [hpush timestamp, Nat.add_zero]
  have hcounted : (LoggerProgram.recordError (.fromError error)).Owes w (w (.fetchAdd .total) +
      ((ErrorCategory.fromError error).ownCounter.map fun c => w (.fetchAdd c)).getD 0) := by
    refine (AtomicProgram.Owes.once _).bind fun _ => ?_
    cases (ErrorCategory.fromError error).ownCounter with
    | none => exact .pure ()
    | some counter => exact .once _
  refine hcounted.bind fun _ => ?_
  cases recovered with
  | true => exact (AtomicProgram.Owes.once _).bind fun _ => hpushed
  | false => exact (AtomicProgram.Owes.pure ()).bind fun _ => hpushed

/-- A call that logs nothing does only actions that weigh nothing. -/
theorem owes_nothing {w : LoggerAct → ℕ} {op : LoggerOp} (hop : op.report = none)
    (hload : ∀ counter, w (.load counter) = 0) (hhistory : w .history = 0) (hclear : w .clear = 0) :
    op.program.Owes w 0 := by
  cases op with
  | logError => cases hop
  | clearHistory => exact ⟨0, by rw [hclear], fun _ => rfl⟩
  | getHistory | getRecentErrors | getErrorsByCategory =>
      exact ⟨0, by rw [hhistory], fun _ => rfl⟩
  | getSummary =>
      iterate 8 refine ⟨0, by rw [hload], fun _ => ?_⟩
      rfl

theorem owes_adds (counter : ErrorCounter) (op : LoggerOp) :
    op.program.Owes (LoggerAct.adds counter) (op.adds counter) := by
  cases op with
  | logError error context recovered recoveryAction =>
      have howes : (LoggerOp.logError error context recovered recoveryAction).program.Owes
          (LoggerAct.adds counter) _ :=
        (owes_logError rfl fun _ => rfl).bind fun _ => AtomicProgram.Owes.pure _
      refine howes.congr ?_
      simp only [LoggerAct.adds, LoggerOp.adds]
      cases ErrorCategory.fromError error <;> cases counter <;> cases recovered <;> rfl
  | clearHistory | getHistory | getRecentErrors | getErrorsByCategory | getSummary =>
      exact owes_nothing rfl (fun _ => rfl) rfl rfl

theorem owes_keeps (report : ErrorLogEntry) (op : LoggerOp) :
    op.program.Owes (LoggerAct.keeps report) (op.keeps report) := by
  cases op with
  | logError error context recovered recoveryAction =>
      have hpush : ∀ timestamp, LoggerAct.keeps report (.push ⟨error.display, context,
          .fromError error, timestamp, recovered, recoveryAction⟩) =
            (LoggerOp.logError error context recovered recoveryAction).keeps report := by
        intro timestamp
        exact if_congr Option.some_inj.symm rfl rfl
      have howes : (LoggerOp.logError error context recovered recoveryAction).program.Owes
          (LoggerAct.keeps report) _ :=
        (owes_logError rfl hpush).bind fun _ => AtomicProgram.Owes.pure _
      refine howes.congr ?_
      cases (ErrorCategory.fromError error).ownCounter <;> simp [LoggerAct.keeps]
  | clearHistory | getHistory | getRecentErrors | getErrorsByCategory | getSummary =>
      exact owes_nothing rfl (fun _ => rfl) rfl rfl

/-! ## What a run has counted and kept -/

/-- How often the calls that have been made add to the counter. -/
def reported (counter : ErrorCounter) (calls : List (ConcurrentLoggerCall Caller)) : ℕ :=
  (calls.map (charged (LoggerOp.adds counter))).sum

def calledReport (c : ConcurrentLoggerCall Caller) : Option ErrorLogEntry :=
  match c.event with
  | .call _ op => op.report
  | _ => none

/-- The entries of the calls that have been made, without their timestamps. -/
def reports (calls : List (ConcurrentLoggerCall Caller)) : List ErrorLogEntry :=
  calls.filterMap calledReport

def LoggerAct.pushes : LoggerAct → Option ErrorLogEntry
  | .push entry => some entry
  | _ => none

def pushedEntry (c : ConcurrentLoggerCall Caller) : Option ErrorLogEntry :=
  (c.pre.due c.event).bind LoggerAct.pushes

/-- The entries put into the history, oldest first. -/
def pushed (calls : List (ConcurrentLoggerCall Caller)) : List ErrorLogEntry :=
  calls.filterMap pushedEntry

/-- Those put into it since it was last cleared. -/
def kept (calls : List (ConcurrentLoggerCall Caller)) : List ErrorLogEntry :=
  pushed (calls.rtakeWhile fun c => c.pre.due c.event ≠ some .clear)

omit [DecidableEq Caller] in
theorem reported_concat (counter : ErrorCounter) (calls : List (ConcurrentLoggerCall Caller))
    (c : ConcurrentLoggerCall Caller) : reported counter (calls ++ [c]) =
      reported counter calls + charged (LoggerOp.adds counter) c := by
  simp [reported]

theorem sum_indicator {α β : Type} [DecidableEq β] (f : α → Option β) (b : β) (l : List α) :
    (l.map fun a => if f a = some b then 1 else 0).sum = (l.filterMap f).count b := by
  induction l with
  | nil => rfl
  | cons a l ih =>
      cases hf : f a with
      | none => simp [hf, ih]
      | some b' =>
          by_cases hb : b' = b
          · simp [hf, hb, ih, Nat.add_comm]
          · simp [hf, hb, ih]

theorem keeps_eq (report : ErrorLogEntry) (action : LoggerAct) : action.keeps report =
    if action.pushes.map ErrorLogEntry.report = some report then 1 else 0 := by
  cases action with
  | push entry => exact if_congr Option.some_inj.symm rfl rfl
  | fetchAdd | load | readClock | history | clear => rfl

omit [DecidableEq Caller] in
theorem paid_keeps (report : ErrorLogEntry) (c : ConcurrentLoggerCall Caller) :
    paid (LoggerAct.keeps report) c =
      if (pushedEntry c).map ErrorLogEntry.report = some report then 1 else 0 := by
  rw [paid, pushedEntry]
  cases c.pre.due c.event with
  | none => rfl
  | some action => exact keeps_eq report action

omit [DecidableEq Caller] in
theorem charged_keeps (report : ErrorLogEntry) (c : ConcurrentLoggerCall Caller) :
    charged (LoggerOp.keeps report) c = if calledReport c = some report then 1 else 0 := by
  cases hevent : c.event with
  | call caller op => simp [charged, calledReport, hevent, LoggerOp.keeps]
  | act caller now | elapse duration => simp [charged, calledReport, hevent]

omit [DecidableEq Caller] in
/-- How often an entry has been kept, whatever its timestamps. -/
theorem count_pushed (report : ErrorLogEntry) (calls : List (ConcurrentLoggerCall Caller)) :
    ((pushed calls).map ErrorLogEntry.report).count report =
      (calls.map (paid (LoggerAct.keeps report))).sum := by
  rw [pushed, List.map_filterMap, ← sum_indicator]
  exact congrArg List.sum (List.map_congr_left fun c _ => (paid_keeps report c).symm)

omit [DecidableEq Caller] in
theorem count_reports (report : ErrorLogEntry) (calls : List (ConcurrentLoggerCall Caller)) :
    (reports calls).count report = (calls.map (charged (LoggerOp.keeps report))).sum := by
  rw [reports, ← sum_indicator]
  exact congrArg List.sum (List.map_congr_left fun c _ => (charged_keeps report c).symm)

omit [DecidableEq Caller] in
theorem kept_concat (calls : List (ConcurrentLoggerCall Caller))
    (c : ConcurrentLoggerCall Caller) : kept (calls ++ [c]) =
      if c.pre.due c.event = some .clear then [] else kept calls ++ (pushedEntry c).toList := by
  by_cases hclear : c.pre.due c.event = some .clear
  · rw [if_pos hclear, kept, List.rtakeWhile_concat_neg _ _ _ (by simp [hclear]), pushed,
      List.filterMap_nil]
  · rw [if_neg hclear, kept, List.rtakeWhile_concat_pos _ _ _ (by simp [hclear]), pushed,
      List.filterMap_append, kept, pushed]
    cases hentry : pushedEntry c with
    | none => simp [hentry]
    | some entry => simp [hentry]

/-- The logger holds what the actions so far come to. -/
structure Tallied (size : ℕ) (calls : List (ConcurrentLoggerCall Caller)) (l : ErrorLogger) :
    Prop where
  size_eq : l.maxHistorySize = size
  counters : ∀ counter, l.metrics.load counter =
    UInt64.ofNat (calls.map (paid (LoggerAct.adds counter))).sum
  history : l.getHistory = (kept calls).rtake (max 1 size)

theorem Tallied.step {c : ConcurrentLoggerCall Caller} (h : Tallied size calls c.pre.shared)
    (hmakes : (sharedLogger.machine Caller).Makes c) :
    Tallied size (calls ++ [c]) c.post.shared := by
  obtain ⟨hsize, hcounters, hhistory⟩ := h
  obtain ⟨hnone, hsame⟩ | ⟨caller, now, thread, action, next, hdue, _, _, hpost⟩ :=
    (rule_of_step hmakes).shared_due
  · have hshared : c.post.shared = c.pre.shared := hsame.elim id fun h => by
      obtain ⟨duration, _⟩ := h
      cases duration
    rw [hshared]
    refine ⟨hsize, ?_, ?_⟩
    · intro counter
      simp [hcounters counter, paid, hnone]
    · rw [kept_concat, if_neg (by simp [hnone]), hhistory]
      simp [pushedEntry, hnone]
  · have hpaid : ∀ counter, (((calls ++ [c]).map (paid (LoggerAct.adds counter))).sum) =
        (calls.map (paid (LoggerAct.adds counter))).sum + action.adds counter := by
      intro counter
      simp [paid, hdue]
    simp only [hpost, sharedLogger]
    cases action with
    | fetchAdd counter' =>
        refine ⟨hsize, ?_, ?_⟩
        · intro counter
          rw [hpaid, UInt64.ofNat_add, ← hcounters counter]
          simp only [LoggerAct.perform, Prod.map, id, load_fetchAdd, LoggerAct.adds]
          split
          · rfl
          · simp
        · rw [kept_concat, if_neg (by simp [hdue])]
          simpa [pushedEntry, hdue, LoggerAct.pushes, LoggerAct.perform,
            ErrorLogger.getHistory] using hhistory
    | push entry =>
        refine ⟨hsize, ?_, ?_⟩
        · intro counter
          rw [hpaid]
          exact hcounters counter
        · rw [kept_concat, if_neg (by simp [hdue])]
          simp only [LoggerAct.perform, Prod.map, id, ErrorLogger.getHistory, pushedEntry, hdue,
            Option.bind_some, LoggerAct.pushes]
          rw [push_max_one, hsize, show c.pre.shared.history = _ from hhistory,
            BoundedHistory.push_rtake (le_max_left 1 size)]
          rfl
    | clear =>
        refine ⟨hsize, ?_, ?_⟩
        · intro counter
          rw [hpaid]
          exact hcounters counter
        · rw [kept_concat, if_pos hdue, List.rtake_nil]
          rfl
    | load counter' | readClock | history =>
        refine ⟨hsize, ?_, ?_⟩
        · intro counter
          rw [hpaid]
          exact hcounters counter
        · rw [kept_concat, if_neg (by simp [hdue])]
          simpa [pushedEntry, hdue, LoggerAct.pushes, LoggerAct.perform] using hhistory

theorem run_tallied
    (hrun : (sharedLogger.machine Caller).Run (.start (.new size)) calls x) :
    Tallied size calls x.shared := by
  induction hrun with
  | start =>
      refine ⟨rfl, ?_, ?_⟩
      · intro counter
        cases counter <;> rfl
      · rw [kept, List.rtakeWhile_nil, pushed, List.filterMap_nil, List.rtake_nil]
        rfl
  | call c _ hmakes ih => exact ih.step hmakes

/-- Each counter is the number of times that the calls add to it, and the entries put into the
history are those of the calls, in some order. The history is the end of these since it was last
cleared. -/
structure ExactLog (size : ℕ) (calls : List (ConcurrentLoggerCall Caller)) (l : ErrorLogger) :
    Prop where
  counters : ∀ counter, l.metrics.load counter = UInt64.ofNat (reported counter calls)
  entries : ((pushed calls).map ErrorLogEntry.report).Perm (reports calls)
  history : l.getHistory = (kept calls).rtake (max 1 size)

/-- Whatever the order of the callers' steps, no error is lost and none is counted twice. -/
theorem concurrent_log_exact
    (hrun : (sharedLogger.machine Caller).Run (.start (.new size)) calls x)
    (hidle : ∀ caller, x.threads caller = none) : ExactLog size calls x.shared := by
  have htallied := run_tallied hrun
  refine ⟨?_, ?_, htallied.history⟩
  · intro counter
    rw [htallied.counters counter, reported,
      paid_eq_charged neverPanics_sharedLogger (owes_adds counter) hrun hidle]
  · refine List.perm_iff_count.mpr fun report => ?_
    rw [count_pushed, count_reports,
      paid_eq_charged neverPanics_sharedLogger (owes_keeps report) hrun hidle]

/-- Two errors that are logged at once. -/
theorem concurrent_log_exact_interleaved :
    ∃ calls x, (sharedLogger.machine Bool).Run (.start (.new 2)) calls x ∧
      (pushed calls).map ErrorLogEntry.error = ["Critical error: a", "Connection reset: b"] ∧
      (reports calls).map ErrorLogEntry.error = ["Connection reset: b", "Critical error: a"] ∧
      ExactLog 2 calls x.shared := by
  have hcalled := Machine.Run.start.of_step (M := sharedLogger.machine Bool) (s := .start (.new 2))
    (e := .call true (.logError (.connectionReset "b") (.new "" 0) true none)) rfl
    |>.of_step (e := .call false (.logError (.criticalError "a") (.new "" 0) false none)) rfl
  have hcounted := hcalled.of_step (e := .act true 0) rfl |>.of_step (e := .act false 0) rfl
    |>.of_step (e := .act true 0) rfl |>.of_step (e := .act false 0) rfl
    |>.of_step (e := .act true 0) rfl
  have hrun := hcounted.of_step (e := .act true 5) rfl |>.of_step (e := .act false 7) rfl
    |>.of_step (e := .act false 0) rfl |>.of_step (e := .act true 0) rfl
    |>.of_step (e := .act true 0) rfl |>.of_step (e := .act false 0) rfl
  refine ⟨_, _, hrun, rfl, rfl, concurrent_log_exact hrun ?_⟩
  intro caller
  cases caller <;> rfl

/-! ## What a summary says -/

theorem LoggerOp.adds_le (counter : ErrorCounter) (op : LoggerOp) :
    op.adds counter ≤ op.report.toList.length := by
  cases op with
  | logError error context recovered recoveryAction =>
      simp only [LoggerOp.adds, LoggerOp.report, Option.toList_some, List.length_singleton]
      split
      · exact le_refl 1
      · split <;> decide
      · split <;> decide
  | clearHistory | getHistory | getRecentErrors | getErrorsByCategory | getSummary =>
      exact Nat.zero_le _

omit [DecidableEq Caller] in
theorem reported_le (counter : ErrorCounter) (calls : List (ConcurrentLoggerCall Caller)) :
    reported counter calls ≤ (reports calls).length := by
  induction calls using List.reverseRecOn with
  | nil => exact le_refl 0
  | append_singleton calls c ih =>
      have hc : charged (LoggerOp.adds counter) c ≤ (calledReport c).toList.length := by
        cases hevent : c.event with
        | call caller op =>
            simpa [charged, calledReport, hevent] using LoggerOp.adds_le counter op
        | act caller now | elapse duration => simp [charged, hevent]
      have hlength : (reports (calls ++ [c])).length =
          (reports calls).length + (calledReport c).toList.length := by
        cases hreport : calledReport c <;> simp [reports, hreport]
      rw [reported_concat, hlength]
      exact Nat.add_le_add ih hc

/-- No counter of the first logger is above that of the second. -/
def Grown (l l' : ErrorLogger) : Prop :=
  ∀ counter, l.metrics.load counter ≤ l'.metrics.load counter

instance : IsPreorder ErrorLogger Grown where
  refl _ _ := UInt64.le_refl _
  trans _ _ _ h h' counter := UInt64.le_trans (h counter) (h' counter)

theorem Grown.trans {l l' l'' : ErrorLogger} (h : Grown l l') (h' : Grown l' l'') : Grown l l'' :=
  IsTrans.trans _ _ _ h h'

theorem ofNat_le_ofNat {n m : ℕ} (h : n ≤ m) (hm : m < UInt64.size) :
    UInt64.ofNat n ≤ UInt64.ofNat m := by
  rw [UInt64.le_iff_toNat_le, UInt64.toNat_ofNat_of_lt' (h.trans_lt hm),
    UInt64.toNat_ofNat_of_lt' hm]
  exact h

/-- As long as no counter has wrapped, none goes back. -/
theorem run_grown (hrun : (sharedLogger.machine Caller).Run (.start (.new size)) calls x)
    (hfew : (reports calls).length < UInt64.size) {c : ConcurrentLoggerCall Caller}
    (hc : c ∈ calls) : Grown c.pre.shared c.post.shared := by
  obtain ⟨before, after, rfl⟩ := List.append_of_mem hc
  obtain ⟨hbefore, hmakes⟩ := hrun.split rfl
  have hthrough : (sharedLogger.machine Caller).Run (.start (.new size)) (before ++ [c]) c.post :=
    .call c hbefore hmakes
  intro counter
  rw [(run_tallied hbefore).counters counter, (run_tallied hthrough).counters counter]
  apply ofNat_le_ofNat
  · rw [List.map_append, List.sum_append]
    exact Nat.le_add_right _ _
  · have hpaid := paid_le_charged neverPanics_sharedLogger (owes_adds counter) hthrough
    have hreported : reported counter (before ++ [c]) ≤ _ := reported_le counter (before ++ [c])
    have hpart : (reports (before ++ [c])).length ≤ (reports (before ++ c :: after)).length := by
      simp [reports, List.filterMap_cons]
      cases calledReport c <;> simp
    exact (hpaid.trans (hreported.trans hpart)).trans_lt hfew

theorem returns_load {P : LoggerResult → ErrorLogger → Prop} {counter : ErrorCounter}
    {k : UInt64 → LoggerProgram LoggerResult}
    (h : ∀ l', Grown l l' → sharedLogger.Returns Grown P (k (l'.metrics.load counter)) l') :
    sharedLogger.Returns Grown P (LoggerProgram.act (.load counter) >>= k) l := by
  refine Returns.once_bind fun l' now answer l'' hgrown hperform => ?_
  obtain ⟨hanswer, rfl⟩ := Prod.mk.inj hperform
  obtain rfl := Option.some.inj hanswer
  exact h l' hgrown

/-- Each figure of a summary is between the counter when it was asked for and when it was given. -/
def SummaryBetween (op : LoggerOp) (l : ErrorLogger) (result : LoggerResult) (l' : ErrorLogger) :
    Prop :=
  op = .getSummary → ∃ summary, result = .summary summary ∧
    ∀ counter, l.metrics.load counter ≤ summary.load counter ∧
      summary.load counter ≤ l'.metrics.load counter

theorem returns_summaryBetween (op : LoggerOp) (l : ErrorLogger) :
    sharedLogger.Returns Grown (SummaryBetween op l) op.program l := by
  cases op with
  | logError | clearHistory | getHistory | getRecentErrors | getErrorsByCategory =>
      exact .of_forall fun _ _ hother => by cases hother
  | getSummary =>
      refine returns_load fun l₁ h₁ => returns_load fun l₂ h₂ => returns_load fun l₃ h₃ =>
        returns_load fun l₄ h₄ => returns_load fun l₅ h₅ => returns_load fun l₆ h₆ =>
        returns_load fun l₇ h₇ => returns_load fun l₈ h₈ => ?_
      intro l' h _
      refine ⟨_, rfl, ?_⟩
      have hto₂ := h₁.trans h₂
      have hto₃ := hto₂.trans h₃
      have hto₄ := hto₃.trans h₄
      have hto₅ := hto₄.trans h₅
      have hto₆ := hto₅.trans h₆
      have hto₇ := hto₆.trans h₇
      have hfrom₇ := h₈.trans h
      have hfrom₆ := h₇.trans hfrom₇
      have hfrom₅ := h₆.trans hfrom₆
      have hfrom₄ := h₅.trans hfrom₅
      have hfrom₃ := h₄.trans hfrom₄
      have hfrom₂ := h₃.trans hfrom₃
      intro counter
      cases counter with
      | total => exact ⟨h₁ .total, h₂.trans hfrom₂ .total⟩
      | connection => exact ⟨hto₂ .connection, hfrom₂ .connection⟩
      | message => exact ⟨hto₃ .message, hfrom₃ .message⟩
      | peer => exact ⟨hto₄ .peer, hfrom₄ .peer⟩
      | timeout => exact ⟨hto₅ .timeout, hfrom₅ .timeout⟩
      | rateLimit => exact ⟨hto₆ .rateLimit, hfrom₆ .rateLimit⟩
      | critical => exact ⟨hto₇ .critical, hfrom₇ .critical⟩
      | recovered => exact ⟨hto₇.trans h₈ .recovered, h .recovered⟩

/-- A summary made while others log. As long as fewer errors have been reported than a counter can
count, each of its figures is at least what it was at the call and at most what it is at the
return. -/
theorem concurrent_summary
    (hrun : (sharedLogger.machine Caller).Run (.start (.new size)) calls x)
    (hfew : (reports calls).length < UInt64.size) {c : ConcurrentLoggerCall Caller}
    (hc : c ∈ calls) {caller : Caller} {now : SystemTime}
    {thread : Thread ErrorLogger LoggerOp LoggerResult LoggerAct LoggerAct.Answer}
    {result : LoggerResult} (hevent : c.event = .act caller now)
    (hbusy : c.pre.threads caller = some thread) (hresult : c.result = .returned result) :
    SummaryBetween thread.op thread.calledIn result c.pre.shared :=
  run_returned returns_summaryBetween hrun (fun _ hc => run_grown hrun hfew hc) hc hevent hbusy
    hresult

/-- A summary may know of a connection error, and of its recovery, but of no error in all. -/
theorem concurrent_summary_torn :
    ∃ calls x, ∃ c ∈ calls, ∃ (l : ErrorLogger) (summary : ErrorMetrics),
      (sharedLogger.machine Bool).Run (.start (.new 2)) calls x ∧
      c.result = .returned (.summary summary) ∧ summary.totalErrors = 0 ∧
      summary.connectionErrors = 1 ∧ summary.recoveredErrors = 1 ∧
      SummaryBetween .getSummary l (.summary summary) c.pre.shared := by
  have htotal := Machine.Run.start.of_step (M := sharedLogger.machine Bool) (s := .start (.new 2))
    (e := .call true .getSummary) rfl
    |>.of_step (e := .act true 0) rfl
  have hlogged := htotal.of_step
    (e := .call false (.logError (.connectionReset "b") (.new "" 0) true none)) rfl
    |>.of_step (e := .act false 0) rfl |>.of_step (e := .act false 0) rfl
    |>.of_step (e := .act false 0) rfl
  have hrun := hlogged.of_step (e := .act true 0) rfl |>.of_step (e := .act true 0) rfl
    |>.of_step (e := .act true 0) rfl |>.of_step (e := .act true 0) rfl
    |>.of_step (e := .act true 0) rfl |>.of_step (e := .act true 0) rfl
    |>.of_step (e := .act true 0) rfl |>.of_step (e := .act true 0) rfl
  exact ⟨_, _, _, List.mem_concat_self, .new 2, ⟨0, 1, 0, 0, 0, 0, 0, 1⟩, hrun, rfl, rfl, rfl, rfl,
    concurrent_summary hrun (by decide) List.mem_concat_self rfl rfl rfl⟩

end ErrorLogging

end SilverNetwork
