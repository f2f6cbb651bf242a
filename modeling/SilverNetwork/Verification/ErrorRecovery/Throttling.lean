import Mathlib.Data.Finset.Order
import SilverNetwork.Foundations.FixedWindow
import SilverNetwork.Model.ErrorRecovery

/-! The rate limiter of the error recovery counts in windows of a second, each of which begins
with the first message that finds the last one over. What it guarantees is so for a window,
and twice as much for a second that straddles two. -/

namespace SilverNetwork

namespace ErrorRecovery

open FixedWindow

variable {l l' : RateLimiter} {limit : UInt32} {start now : Instant}

/-- One call of the limiter. -/
inductive RateLimiterStep (l : RateLimiter) :
    RateLimiterEvent → RateLimiterResult → RateLimiter → Prop where
  | counted (now : Instant) (hwithin : now - l.lastReset < second) :
      RateLimiterStep l (.allowMessage now)
        (.allowed (decide (l.messageCount < l.maxMessagesPerSec)))
        { l with messageCount := l.messageCount + 1 }
  | restarted (now : Instant) (hover : second ≤ now - l.lastReset) :
      RateLimiterStep l (.allowMessage now) (.allowed (decide (0 < l.maxMessagesPerSec)))
        { l with messageCount := 1, lastReset := now }
  | resetDone (now : Instant) : RateLimiterStep l (.reset now) .done (l.reset now)

theorem RateLimiterStep.execution {e : RateLimiterEvent} {r : RateLimiterResult}
    (h : RateLimiterStep l e r l') : rateLimiterStep l e = some (r, l') := by
  cases h with
  | counted now hwithin =>
      simp [rateLimiterStep, RateLimiter.allowMessage, Nat.not_le.mpr hwithin]
  | restarted now hover => simp [rateLimiterStep, RateLimiter.allowMessage, hover]
  | resetDone now => rfl

theorem RateLimiterStep.progress (l : RateLimiter) (e : RateLimiterEvent) :
    ∃ r l', RateLimiterStep l e r l' := by
  cases e with
  | allowMessage now =>
      by_cases hwithin : now - l.lastReset < second
      · exact ⟨_, _, .counted now hwithin⟩
      · exact ⟨_, _, .restarted now (Nat.le_of_not_lt hwithin)⟩
  | reset now => exact ⟨_, _, .resetDone now⟩

theorem rateLimiterMachine_makes_iff {c : RateLimiterCall} :
    rateLimiterMachine.Makes c ↔ RateLimiterStep c.pre c.event c.result c.post :=
  ⟨Machine.rule_of_execution (fun _ _ => RateLimiterStep.execution)
    (RateLimiterStep.progress c.pre c.event),
    RateLimiterStep.execution⟩

/-! ## Counting windows -/

def RateLimiterEvent.times : RateLimiterEvent → List Instant
  | .allowMessage now => [now]
  | .reset now => [now]

/-- The call finds the window of the calls before it over. -/
def beginsWindow (c : RateLimiterCall) : Bool :=
  match c.event with
  | .allowMessage now => decide (second ≤ now - c.pre.lastReset)
  | .reset _ => true

/-- The calls of the window that the last call is in. -/
def currentWindow (calls : List RateLimiterCall) : List RateLimiterCall :=
  calls.foldl (fun window c => if beginsWindow c then [c] else window ++ [c]) []

/-- The time of the call, if its message was let through. -/
def passed (c : RateLimiterCall) : Option Instant :=
  match c.event, c.result with
  | .allowMessage now, .allowed true => some now
  | _, _ => none

theorem currentWindow_concat (calls : List RateLimiterCall) (c : RateLimiterCall) :
    currentWindow (calls ++ [c]) =
      if beginsWindow c then [c] else currentWindow calls ++ [c] := by
  rw [currentWindow, List.foldl_append]
  rfl

theorem length_currentWindow_le (calls : List RateLimiterCall) :
    (currentWindow calls).length ≤ calls.length := by
  induction calls using List.reverseRecOn with
  | nil => rfl
  | append_singleton calls c ih =>
      rw [currentWindow_concat, List.length_append]
      split
      · exact Nat.le_add_left _ _
      · rw [List.length_append]
        omega

/-- The limiter counts the calls of the window, and has let through no more in it than they
are, nor more than the limit. -/
structure Throttles (limit : UInt32) (now : Instant) (calls : List RateLimiterCall)
    (l : RateLimiter) : Prop where
  config : l.maxMessagesPerSec = limit
  past : l.lastReset ≤ now
  count : l.messageCount = UInt32.ofNat (currentWindow calls).length
  paced : ∃ old, Paced limit.toNat second old ((currentWindow calls).filterMap passed)
    l.lastReset ∧ calls.filterMap passed = old ++ (currentWindow calls).filterMap passed

theorem throttles_new (limit : UInt32) (start : Instant) :
    Throttles limit start [] (.new limit start) :=
  ⟨rfl, Nat.le_refl start, rfl, [], .begin start, rfl⟩

theorem Throttles.later {calls : List RateLimiterCall} (h : Throttles limit start calls l)
    (hnow : start ≤ now) : Throttles limit now calls l :=
  ⟨h.config, Nat.le_trans h.past hnow, h.count, h.paced⟩

theorem passed_of_lt {r : Bool} (hr : r = true) (now : Instant) :
    passed ⟨l, .allowMessage now, .allowed r, l'⟩ = some now := by
  rw [hr]
  rfl

theorem passed_of_not_lt {r : Bool} (hr : ¬ r = true) (now : Instant) :
    passed ⟨l, .allowMessage now, .allowed r, l'⟩ = none := by
  rw [Bool.not_eq_true] at hr
  rw [hr]
  rfl

/-- A message at the reading `now`, in a window of at most as many calls as can be counted. -/
theorem Throttles.step {calls : List RateLimiterCall} {r : RateLimiterResult}
    (h : Throttles limit now calls l) (hstep : RateLimiterStep l (.allowMessage now) r l')
    (hfew : (currentWindow (calls ++ [⟨l, .allowMessage now, r, l'⟩])).length ≤ 2 ^ 32) :
    Throttles limit now (calls ++ [⟨l, .allowMessage now, r, l'⟩]) l' := by
  obtain ⟨old, hpaced, hpassed⟩ := h.paced
  have hpast := h.past
  have hconfig := h.config
  cases hstep with
  | counted now hwithin =>
      have hgoes : ¬ beginsWindow ⟨l, .allowMessage now, .allowed (decide
          (l.messageCount < l.maxMessagesPerSec)), { l with messageCount := l.messageCount + 1 }⟩ :=
        fun hbegins => Nat.not_le.mpr hwithin (of_decide_eq_true hbegins)
      rw [currentWindow_concat, if_neg hgoes, List.length_append, List.length_singleton] at hfew
      have hcount : l.messageCount.toNat = (currentWindow calls).length := by
        rw [h.count]
        exact UInt32.toNat_ofNat_of_lt' (Nat.lt_of_succ_le hfew)
      refine ⟨hconfig, hpast, ?_, old, ?_, ?_⟩
      · rw [currentWindow_concat, if_neg hgoes, List.length_append, h.count, UInt32.ofNat_add]
        rfl
      · rw [currentWindow_concat, if_neg hgoes, List.filterMap_append]
        by_cases hroom : decide (l.messageCount < l.maxMessagesPerSec) = true
        · have hlt := UInt32.lt_iff_toNat_lt.mp (of_decide_eq_true hroom)
          have hlength := List.length_filterMap_le passed (currentWindow calls)
          rw [List.filterMap_cons_some (passed_of_lt hroom now), List.filterMap_nil]
          apply hpaced.accept now hpast
          · exact (Nat.sub_lt_iff_lt_add' hpast).mp hwithin
          · rw [← hconfig]
            omega
        · rw [List.filterMap_cons_none (passed_of_not_lt hroom now), List.filterMap_nil,
            List.append_nil]
          exact hpaced
      · rw [currentWindow_concat, if_neg hgoes, List.filterMap_append, List.filterMap_append,
          hpassed, List.append_assoc]
  | restarted now hover =>
      have hbegins : beginsWindow ⟨l, .allowMessage now, .allowed (decide
          (0 < l.maxMessagesPerSec)), { l with messageCount := 1, lastReset := now }⟩ :=
        decide_eq_true hover
      have hrestarted := hpaced.restart now (Nat.add_le_of_le_sub' hpast hover)
      refine ⟨hconfig, Nat.le_refl now, ?_, old ++ (currentWindow calls).filterMap passed, ?_, ?_⟩
      · rw [currentWindow_concat, if_pos hbegins]
        rfl
      · rw [currentWindow_concat, if_pos hbegins]
        by_cases hroom : decide (0 < l.maxMessagesPerSec) = true
        · have hlt := UInt32.lt_iff_toNat_lt.mp (of_decide_eq_true hroom)
          rw [List.filterMap_cons_some (passed_of_lt hroom now), List.filterMap_nil]
          apply hrestarted.accept now (Nat.le_refl now)
          · exact Nat.lt_add_of_pos_right (by decide)
          · rw [← hconfig]
            exact hlt
        · rw [List.filterMap_cons_none (passed_of_not_lt hroom now)]
          exact hrestarted
      · rw [currentWindow_concat, if_pos hbegins, List.filterMap_append, hpassed]

/-- After a run whose readings do not decrease, with no window of more calls than can be
counted, the limiter throttles at the last reading and from then on. -/
theorem run_throttles {calls : List RateLimiterCall}
    (h : rateLimiterMachine.Run (.new limit start) calls l)
    (hevents : ∀ c ∈ calls, ∃ now, c.event = .allowMessage now)
    (hclock : (start :: calls.flatMap fun c => c.event.times).Pairwise (· ≤ ·))
    (hfew : ∀ before after, calls = before ++ after → (currentWindow before).length ≤ 2 ^ 32)
    (hnow : ∀ t ∈ start :: calls.flatMap fun c => c.event.times, t ≤ now) :
    Throttles limit now calls l := by
  induction h generalizing now with
  | start => exact (throttles_new limit start).later (hnow start List.mem_cons_self)
  | @call calls c _ hmakes ih =>
      rw [List.flatMap_append, List.flatMap_singleton, ← List.cons_append] at hclock hnow
      obtain ⟨hbefore, _, hpast⟩ := List.pairwise_append.mp hclock
      obtain ⟨now', he⟩ := hevents c List.mem_concat_self
      have hstep := rateLimiterMachine_makes_iff.mp hmakes
      have hlast := hfew (calls ++ [c]) [] (List.append_nil _).symm
      obtain ⟨pre, e, r, post⟩ := c
      obtain rfl : e = .allowMessage now' := he
      have hpre := ih (fun c hc => hevents c (List.mem_append_left _ hc)) hbefore
        (fun before after hcalls => hfew before (after ++ [_]) (by rw [hcalls, List.append_assoc]))
        fun t ht => hpast t ht now' (List.mem_singleton.mpr rfl)
      have hpost := hpre.step hstep hlast
      exact hpost.later (hnow now' (List.mem_append_right _ (List.mem_singleton.mpr rfl)))

/-- Between two of its restarts the limiter lets no more than the limit through, and so in any
half-open interval of a second no more than twice the limit. -/
theorem fixed_windows_bound {calls : List RateLimiterCall}
    (h : rateLimiterMachine.Run (.new limit start) calls l)
    (hevents : ∀ c ∈ calls, ∃ now, c.event = .allowMessage now)
    (hclock : (start :: calls.flatMap fun c => c.event.times).Pairwise (· ≤ ·))
    (hfew : ∀ before after, calls = before ++ after → (currentWindow before).length ≤ 2 ^ 32) :
    ((currentWindow calls).filterMap passed).length ≤ limit.toNat ∧
      ∀ origin, (calls.filterMap passed).countP
        (fun t => decide (origin ≤ t ∧ t < origin + second)) ≤ 2 * limit.toNat := by
  obtain ⟨last, hlast⟩ := (start :: calls.flatMap fun c => c.event.times).toFinset.exists_le
  have hthrottles := run_throttles h hevents hclock hfew
    fun t ht => hlast t (List.mem_toFinset.mpr ht)
  obtain ⟨old, hpaced, hpassed⟩ := hthrottles.paced
  refine ⟨hpaced.length_le, ?_⟩
  intro origin
  rw [hpassed]
  exact hpaced.countFrom_le origin

/-- A limiter of one message a second rejects a second message in the same window. -/
theorem fixed_windows_bound_plain :
    ∃ calls l, rateLimiterMachine.Run (.new 1 0) calls l ∧
      calls.map Call.result = [.allowed true, .allowed false] ∧
      ∀ origin, (calls.filterMap passed).countP
        (fun t => decide (origin ≤ t ∧ t < origin + second)) ≤ 2 := by
  have hrun := ((Machine.Run.start (M := rateLimiterMachine)
    (s := .new 1 0)).of_step (e := .allowMessage 5) rfl).of_step (e := .allowMessage 6) rfl
  have hbound := fixed_windows_bound hrun ?_ (by decide) ?_
  · exact ⟨_, _, hrun, rfl, hbound.2⟩
  · intro c hc
    rcases List.mem_append.mp hc with hc | hc
    · obtain rfl := List.mem_singleton.mp hc
      exact ⟨5, rfl⟩
    · obtain rfl := List.mem_singleton.mp hc
      exact ⟨6, rfl⟩
  · intro before after hcalls
    have hlength := congrArg List.length hcalls
    have hwindow := length_currentWindow_le before
    simp only [List.length_append, List.length_cons, List.length_nil] at hlength
    omega

/-- Of two messages a tenth of a second apart, the later one begins a window, and a limiter of
one message a second lets both through. -/
theorem restart_admits_twice_the_limit :
    ∃ calls l, rateLimiterMachine.Run (.new 1 0) calls l ∧
      calls.map Call.event = [.allowMessage 900_000_000, .allowMessage 1_000_000_000] ∧
      calls.map Call.result = [.allowed true, .allowed true] ∧
      (calls.filterMap passed).countP
        (fun t => decide (900_000_000 ≤ t ∧ t < 900_000_000 + second)) = 2 := by
  have hrun := ((Machine.Run.start (M := rateLimiterMachine)
    (s := .new 1 0)).of_step (e := .allowMessage 900_000_000) rfl).of_step
      (e := .allowMessage 1_000_000_000) rfl
  exact ⟨_, _, hrun, rfl, rfl, by decide⟩

end ErrorRecovery

end SilverNetwork
