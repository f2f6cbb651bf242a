import SilverNetwork.Verification.ErrorHandling.Counting

/-! The history of a logger against the log. It is the end of what has been logged since it was
last cleared, except that a logger that is to keep nothing keeps the last entry. -/

namespace SilverNetwork

namespace ErrorLogging

variable {size : ℕ} {calls : List LoggerCall} {l : ErrorLogger}

/-- The entry that a call is to log. -/
def LoggerEvent.entry : LoggerEvent → Option ErrorLogEntry
  | .logError error context recovered recoveryAction now =>
      some {
        error := error.display
        context
        category := .fromError error
        timestamp := now
        recovered
        recoveryAction }
  | _ => none

def LoggerEvent.clears : LoggerEvent → Bool
  | .clearHistory => true
  | _ => false

/-- The entries logged since the history was last cleared, oldest first. -/
def logged (calls : List LoggerCall) : List ErrorLogEntry :=
  (calls.rtakeWhile fun c => !c.event.clears).filterMap fun c => c.event.entry

theorem logged_cleared {c : LoggerCall} (h : c.event.clears = true) (calls : List LoggerCall) :
    logged (calls ++ [c]) = [] := by
  rw [logged, List.rtakeWhile_concat_neg _ _ _ (by simp [h]), List.filterMap_nil]

theorem logged_concat {c : LoggerCall} (h : c.event.clears = false) (calls : List LoggerCall) :
    logged (calls ++ [c]) = logged calls ++ c.event.entry.toList := by
  rw [logged, List.rtakeWhile_concat_pos _ _ _ (by simp [h]), List.filterMap_append, logged]
  cases hentry : c.event.entry with
  | none => simp [hentry]
  | some entry => simp [hentry]

/-- A full queue of no items is empty, so that its oldest item stays away and the new one stays. -/
theorem push_max_one {α : Type*} (size : ℕ) (queue : List α) (item : α) :
    BoundedHistory.push size queue item = BoundedHistory.push (max 1 size) queue item := by
  cases size with
  | zero =>
      cases queue with
      | nil => rfl
      | cons first rest => simp [BoundedHistory.push]
  | succ size => rw [max_eq_right (Nat.le_add_left 1 size)]

/-- What the history holds, whatever the capacity. -/
structure Remembered (size : ℕ) (calls : List LoggerCall) (l : ErrorLogger) : Prop where
  size_eq : l.maxHistorySize = size
  history : l.history = (logged calls).rtake (max 1 size)

theorem Remembered.step {c : LoggerCall} (h : Remembered size calls c.pre)
    (hmakes : loggerMachine.Makes c) : Remembered size (calls ++ [c]) c.post := by
  obtain ⟨pre, event, result, post⟩ := c
  have hpost : post = (loggerStep pre event).2 := congrArg Prod.snd (Option.some.inj hmakes).symm
  subst hpost
  cases event with
  | logError error context recovered recoveryAction now =>
      refine ⟨h.size_eq, ?_⟩
      rw [logged_concat rfl]
      simp only [loggerStep, ErrorLogger.logError]
      rw [push_max_one, h.size_eq, h.history,
        BoundedHistory.push_rtake (le_max_left 1 size)]
      rfl
  | clearHistory =>
      refine ⟨h.size_eq, ?_⟩
      rw [logged_cleared rfl, List.rtake_nil]
      rfl
  | getHistory | getRecentErrors | getErrorsByCategory | getSummary =>
      refine ⟨h.size_eq, ?_⟩
      rw [logged_concat rfl]
      simpa [LoggerEvent.entry, loggerStep] using h.history

theorem run_remembered (h : loggerMachine.Run (.new size) calls l) :
    Remembered size calls l := by
  induction h with
  | start => exact ⟨rfl, by simp [ErrorLogger.new, logged]⟩
  | call c _ hmakes ih => exact ih.step hmakes

/-- The two readings of a list from its end. -/
theorem getRecentErrors_eq (count : ℕ) (l : ErrorLogger) :
    l.getRecentErrors count = l.getHistory.rtake count :=
  (List.rtake_eq_reverse_take_reverse l.history count).symm

/-- The history is the end of the log, as long as the logger is to keep. -/
structure TailOfLog (size : ℕ) (calls : List LoggerCall) (l : ErrorLogger) : Prop where
  history : l.getHistory = (logged calls).rtake size
  length : l.getHistory.length = min size (logged calls).length
  bounded : l.getHistory.length ≤ size
  recent : ∀ count, l.getRecentErrors count <:+ l.getHistory ∧
    (l.getRecentErrors count).length = min count l.getHistory.length

/-- The history is the end of the log exactly for a logger that is to keep something, or where
nothing has been logged since the history was cleared. -/
theorem history_tail_iff (h : loggerMachine.Run (.new size) calls l) :
    TailOfLog size calls l ↔ 1 ≤ size ∨ logged calls = [] := by
  have hhistory := (run_remembered h).history
  constructor
  · intro htail
    by_contra hneither
    rw [not_or] at hneither
    obtain ⟨hsize, hsome⟩ := hneither
    have hlength := htail.bounded
    have hpos := List.length_pos_iff.mpr hsome
    rw [ErrorLogger.getHistory, hhistory, BoundedHistory.length_rtake] at hlength
    omega
  · intro hkeeps
    have htail : l.getHistory = (logged calls).rtake size := by
      rcases hkeeps with hsize | hnone
      · rw [ErrorLogger.getHistory, hhistory, max_eq_right hsize]
      · rw [ErrorLogger.getHistory, hhistory, hnone, List.rtake_nil, List.rtake_nil]
    have hlength : l.getHistory.length = min size (logged calls).length := by
      rw [htail, BoundedHistory.length_rtake]
    refine ⟨htail, hlength, hlength.le.trans (min_le_left _ _), ?_⟩
    intro count
    rw [getRecentErrors_eq]
    exact ⟨List.drop_suffix _ _, BoundedHistory.length_rtake count _⟩

/-- A logger that keeps two of the three errors that it is told of. -/
theorem history_tail_iff_plain :
    ∃ calls l, loggerMachine.Run (.new 2) calls l ∧ (logged calls).length = 3 ∧
      TailOfLog 2 calls l := by
  have hrun := Machine.Run.start.of_step (M := loggerMachine) (s := .new 2)
    (e := .logError (.criticalError "a") (.new "" 0) false none 0) rfl
      |>.of_step (e := .logError (.criticalError "b") (.new "" 0) false none 0) rfl
      |>.of_step (e := .logError (.criticalError "c") (.new "" 0) false none 0) rfl
  exact ⟨_, _, hrun, rfl, (history_tail_iff hrun).mpr (.inl (by decide))⟩

/-- A logger that is to keep nothing keeps an error. -/
theorem empty_history_keeps_one :
    ∃ calls l, loggerMachine.Run (.new 0) calls l ∧ l.getHistory.length = 1 ∧
      ¬ TailOfLog 0 calls l := by
  have hrun := Machine.Run.start.of_step (M := loggerMachine) (s := .new 0)
    (e := .logError (.criticalError "a") (.new "" 0) false none 0) rfl
  refine ⟨_, _, hrun, rfl, ?_⟩
  intro htail
  exact absurd htail.bounded (by decide)

end ErrorLogging

end SilverNetwork
