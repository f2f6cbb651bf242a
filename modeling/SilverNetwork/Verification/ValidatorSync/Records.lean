import Mathlib.Order.Lattice.Nat
import SilverNetwork.Model.ValidatorSync

/-! What is recorded on a peer, over any run of it: when the failures mark the peer, and where the
average of its latencies lies. -/

namespace SilverNetwork

namespace ValidatorSync

variable {Address : Type} {checks : OverflowChecks} {peer peer' : PeerInfo Address}
  {calls : List (RecordCall Address)} {event : RecordEvent}

/-! ## One event -/

/-- The kinds of records. A failure marks the peer as soon as more than five are counted. -/
inductive RecordRule (checks : OverflowChecks) (peer : PeerInfo Address) :
    RecordEvent → PeerInfo Address → Prop where
  | sent (bytes latencyMs messagesSent bytesSent average : UInt64) (now : Instant)
      (counts : checks.add peer.messagesSent 1 = some messagesSent)
      (sums : checks.add peer.bytesSent bytes = some bytesSent)
      (averages : PeerInfo.averageLatency checks peer.latencyMs latencyMs = some average) :
      RecordRule checks peer (.sent bytes latencyMs now)
        { peer with messagesSent, bytesSent, latencyMs := average, lastSeen := now }
  | received (bytes messagesReceived bytesReceived : UInt64) (now : Instant)
      (counts : checks.add peer.messagesReceived 1 = some messagesReceived)
      (sums : checks.add peer.bytesReceived bytes = some bytesReceived) :
      RecordRule checks peer (.received bytes now)
        { peer with
          messagesReceived
          bytesReceived
          lastSeen := now
          failedAttempts := 0
          lastError := none }
  | failure (error : String) (failedAttempts : UInt32)
      (counts : checks.add32 peer.failedAttempts 1 = some failedAttempts)
      (few : failedAttempts ≤ 5) :
      RecordRule checks peer (.failure error)
        { peer with failedAttempts, lastError := some error }
  | lastFailure (error : String) (failedAttempts : UInt32)
      (counts : checks.add32 peer.failedAttempts 1 = some failedAttempts)
      (many : 5 < failedAttempts) :
      RecordRule checks peer (.failure error)
        { peer with failedAttempts, lastError := some error, state := .failed }
  | resetFailures :
      RecordRule checks peer .resetFailures { peer with failedAttempts := 0, lastError := none }

theorem recordRule_of_record (h : peer.record checks event = some peer') :
    RecordRule checks peer event peer' := by
  cases event with
  | sent bytes latencyMs now =>
      simp only [PeerInfo.record, PeerInfo.recordSent, Option.bind_eq_bind,
        Option.bind_eq_some_iff] at h
      obtain ⟨messagesSent, hcounts, bytesSent, hsums, average, haverages, heq⟩ := h
      obtain rfl := Option.some.inj heq
      exact .sent bytes latencyMs messagesSent bytesSent average now hcounts hsums haverages
  | received bytes now =>
      simp only [PeerInfo.record, PeerInfo.recordReceived, Option.bind_eq_bind,
        Option.bind_eq_some_iff] at h
      obtain ⟨messagesReceived, hcounts, bytesReceived, hsums, heq⟩ := h
      obtain rfl := Option.some.inj heq
      exact .received bytes messagesReceived bytesReceived now hcounts hsums
  | failure error =>
      simp only [PeerInfo.record, PeerInfo.recordFailure, Option.bind_eq_bind,
        Option.bind_eq_some_iff] at h
      obtain ⟨failedAttempts, hcounts, heq⟩ := h
      by_cases hmany : 5 < failedAttempts
      · rw [if_pos hmany] at heq
        obtain rfl := Option.some.inj heq
        exact .lastFailure error failedAttempts hcounts hmany
      · rw [if_neg hmany] at heq
        obtain rfl := Option.some.inj heq
        exact .failure error failedAttempts hcounts (UInt32.not_lt.mp hmany)
  | resetFailures =>
      obtain rfl := Option.some.inj h
      exact .resetFailures

theorem recordRule_of_makes {c : RecordCall Address}
    (h : (recordMachine Address checks).Makes c) : RecordRule checks c.pre c.event c.post := by
  obtain ⟨peer, hrecord, hpost⟩ := Option.map_eq_some_iff.mp h
  obtain ⟨-, rfl⟩ := Prod.mk.inj hpost
  exact recordRule_of_record hrecord

/-! ## Failures -/

namespace RecordEvent

def fails : RecordEvent → Bool
  | failure _ => true
  | _ => false

/-- The peer has answered, or a message has reached it. -/
def delivers : RecordEvent → Bool
  | sent _ _ _ | received _ _ => true
  | _ => false

/-- The events that set the counter of the failures back. -/
def clears : RecordEvent → Bool
  | received _ _ | resetFailures => true
  | _ => false

variable {α : Type} [Zero α] [One α] [Add α]

/-- One event, for a count of failures that the events in `ends` begin again. -/
def tally (ends : RecordEvent → Bool) (failures : α) (event : RecordEvent) : α :=
  if ends event then 0 else if event.fails then failures + 1 else failures

end RecordEvent

open RecordEvent

/-- The failures since the counter was last set back, for a peer that had some to begin with. -/
def countedFailures (failures : UInt32) (events : List RecordEvent) : UInt32 :=
  events.foldl (tally clears) failures

/-- The failures in a row at the end, with nothing delivered between them. -/
def failuresInARow (events : List RecordEvent) : ℕ :=
  events.foldl (tally delivers) 0

/-- More than five failures have occurred in a row. -/
def Streak (events : List RecordEvent) : Prop :=
  ∃ upTo, upTo <+: events ∧ 5 < failuresInARow upTo

/-- The last event is a failure, with which more than five are counted. -/
def Exceeds (failures : UInt32) (events : List RecordEvent) : Prop :=
  ∃ before error, events = before ++ [.failure error] ∧ 5 < countedFailures failures events

instance (events : List RecordEvent) : Decidable (Streak events) :=
  decidable_of_iff (∃ upTo ∈ events.inits, 5 < failuresInARow upTo) (by simp [Streak])

theorem Streak.mono {events more : List RecordEvent} (h : Streak events)
    (hmore : events <+: more) : Streak more := by
  obtain ⟨upTo, hupTo, hstreak⟩ := h
  exact ⟨upTo, hupTo.trans hmore, hstreak⟩

@[simp] theorem countedFailures_concat (failures : UInt32) (events : List RecordEvent)
    (event : RecordEvent) : countedFailures failures (events ++ [event]) =
      tally clears (countedFailures failures events) event := by
  simp [countedFailures]

theorem RecordRule.counts (h : RecordRule checks peer event peer') :
    peer'.failedAttempts = tally clears peer.failedAttempts event := by
  cases h with
  | sent | received | resetFailures => rfl
  | failure error failedAttempts hcounts | lastFailure error failedAttempts hcounts =>
      exact OverflowChecks.add32_eq_some hcounts

/-- Only a failure moves the state, and only when the counter exceeds five with it. -/
theorem RecordRule.state (h : RecordRule checks peer event peer') :
    peer'.state = if event.fails ∧ 5 < peer'.failedAttempts then .failed else peer.state := by
  cases h with
  | sent | received | resetFailures => simp [RecordEvent.fails]
  | failure error failedAttempts hcounts hfew =>
      rw [if_neg fun hmany => UInt32.not_lt.mpr hfew hmany.2]
  | lastFailure error failedAttempts hcounts hmany => rw [if_pos ⟨rfl, hmany⟩]

/-- The counter counts, and a peer is failed once the counter has exceeded five. -/
structure Counted (failures : UInt32) (events : List RecordEvent) (peer : PeerInfo Address) :
    Prop where
  attempts : peer.failedAttempts = countedFailures failures events
  failed_iff : peer.state = .failed ↔ ∃ upTo, upTo <+: events ∧ Exceeds failures upTo

theorem Counted.record {failures : UInt32} {events : List RecordEvent}
    (h : Counted failures events peer) (hrule : RecordRule checks peer event peer') :
    Counted failures (events ++ [event]) peer' := by
  have hattempts : peer'.failedAttempts = countedFailures failures (events ++ [event]) := by
    rw [hrule.counts, h.attempts, countedFailures_concat]
  have hexceeds : Exceeds failures (events ++ [event]) ↔
      event.fails ∧ 5 < peer'.failedAttempts := by
    rw [hattempts]
    constructor
    · rintro ⟨before, error, hevents, hmany⟩
      obtain ⟨-, hlast⟩ := List.append_inj' hevents rfl
      obtain rfl : event = .failure error := by simpa using hlast
      exact ⟨rfl, hmany⟩
    · rintro ⟨hfails, hmany⟩
      cases event with
      | failure error => exact ⟨events, error, rfl, hmany⟩
      | sent | received | resetFailures => cases hfails
  refine ⟨hattempts, ?_⟩
  rw [hrule.state, ite_eq_left_iff, h.failed_iff, ← hexceeds]
  constructor
  · intro himplies
    by_cases hnow : Exceeds failures (events ++ [event])
    · exact ⟨_, List.prefix_rfl, hnow⟩
    · obtain ⟨upTo, hupTo, hbefore⟩ := himplies hnow
      exact ⟨upTo, hupTo.trans (List.prefix_append _ _), hbefore⟩
  · rintro ⟨upTo, hupTo, hbefore⟩ hnow
    rcases List.prefix_concat_iff.mp hupTo with rfl | hearlier
    · exact absurd hbefore hnow
    · exact ⟨upTo, hearlier, hbefore⟩

theorem run_counted {t : PeerInfo Address} (hconnected : peer.state = .connected)
    (h : (recordMachine Address checks).Run peer calls t) :
    Counted peer.failedAttempts (calls.map Call.event) t := by
  induction h with
  | start =>
      refine ⟨rfl, ?_⟩
      simp only [hconnected, List.map_nil, List.prefix_nil, exists_eq_left, reduceCtorEq,
        false_iff]
      rintro ⟨before, error, hevents, -⟩
      simp at hevents
  | call c _ hmakes ih =>
      rw [List.map_append]
      exact ih.record (recordRule_of_makes hmakes)

/-- A peer is marked as failed only where more than five failures have occurred in a row. -/
def MarkedByStreaks (calls : List (RecordCall Address)) : Prop :=
  ∀ before c after, calls = before ++ c :: after → c.post.state = .failed →
    Streak ((before ++ [c]).map Call.event)

/-- Failures mark a connected peer only by a streak exactly where each failure that is more than the
fifth since the counter was last set back comes after more than five in a row. -/
theorem marked_by_streaks_iff {t : PeerInfo Address} (hconnected : peer.state = .connected)
    (h : (recordMachine Address checks).Run peer calls t) :
    MarkedByStreaks calls ↔ ∀ upTo, upTo <+: calls.map Call.event →
      Exceeds peer.failedAttempts upTo → Streak upTo := by
  have hcounted : ∀ before c after, calls = before ++ c :: after →
      Counted peer.failedAttempts ((before ++ [c]).map Call.event) c.post := by
    intro before c after hcalls
    obtain ⟨hrun, hmakes⟩ := h.split hcalls
    exact run_counted hconnected (.call c hrun hmakes)
  constructor
  · rintro hmarked upTo ⟨rest, hrest⟩ hexceeds
    obtain ⟨before, c, after, hcalls, hupTo⟩ :
        ∃ before c after, calls = before ++ c :: after ∧
          upTo = (before ++ [c]).map Call.event := by
      obtain ⟨front, error, rfl, -⟩ := hexceeds
      rw [List.append_assoc, List.singleton_append] at hrest
      obtain ⟨before, others, hcalls, hbefore, hothers⟩ := List.map_eq_append_iff.mp hrest.symm
      obtain ⟨c, after, hafter, hc, -⟩ := List.map_eq_cons_iff.mp hothers
      exact ⟨before, c, after, by rw [hcalls, hafter], by simp [hbefore, hc]⟩
    rw [hupTo] at hexceeds ⊢
    exact hmarked before c after hcalls
      ((hcounted before c after hcalls).failed_iff.mpr ⟨_, List.prefix_rfl, hexceeds⟩)
  · intro hstreaks before c after hcalls hfailed
    obtain ⟨upTo, hupTo, hexceeds⟩ := (hcounted before c after hcalls).failed_iff.mp hfailed
    have hall : (before ++ [c]).map Call.event <+: calls.map Call.event :=
      ⟨after.map Call.event, by simp [hcalls]⟩
    exact (hstreaks upTo (hupTo.trans hall) hexceeds).mono hupTo

/-- A connected peer, of which nothing has been recorded. -/
def connectedPeer : PeerInfo ℕ := { PeerInfo.new 0 0 with state := .connected }

/-- Six failures in a row, of which the last marks the peer. -/
theorem marked_by_streaks_iff_plain :
    ∃ calls t, (recordMachine ℕ .on).Run connectedPeer calls t ∧ t.state = .failed ∧
      MarkedByStreaks calls := by
  have hrun := Machine.Run.start.of_step (M := recordMachine ℕ .on) (s := connectedPeer)
    (e := .failure "1") rfl |>.of_step (e := .failure "2") rfl |>.of_step (e := .failure "3") rfl
      |>.of_step (e := .failure "4") rfl |>.of_step (e := .failure "5") rfl
      |>.of_step (e := .failure "6") rfl
  have hstreaks : ∀ upTo ∈ List.inits [RecordEvent.failure "1", .failure "2", .failure "3",
      .failure "4", .failure "5", .failure "6"], 5 < countedFailures 0 upTo → Streak upTo := by
    decide
  refine ⟨_, _, hrun, rfl, (marked_by_streaks_iff rfl hrun).mpr ?_⟩
  rintro upTo hupTo ⟨-, -, -, hmany⟩
  exact hstreaks upTo ((List.mem_inits _ _).mpr hupTo) hmany

/-- Six failures of a connection over which every other message is sent. -/
theorem scattered_failures_mark :
    ∃ calls t, (recordMachine ℕ .on).Run connectedPeer calls t ∧ t.state = .failed ∧
      ¬ MarkedByStreaks calls := by
  have hrun := Machine.Run.start.of_step (M := recordMachine ℕ .on) (s := connectedPeer)
    (e := .failure "1") rfl |>.of_step (e := .sent 1 1 0) rfl
      |>.of_step (e := .failure "2") rfl |>.of_step (e := .sent 1 1 0) rfl
      |>.of_step (e := .failure "3") rfl |>.of_step (e := .sent 1 1 0) rfl
      |>.of_step (e := .failure "4") rfl |>.of_step (e := .sent 1 1 0) rfl
      |>.of_step (e := .failure "5") rfl |>.of_step (e := .sent 1 1 0) rfl
      |>.of_step (e := .failure "6") rfl
  refine ⟨_, _, hrun, rfl, ?_⟩
  intro hmarked
  have hstreak := hmarked _ _ [] rfl rfl
  revert hstreak
  decide

/-! ## Latencies -/

/-- The latencies up to which nothing overflows. -/
def latencyLimit : ℕ := (2 ^ 64 - 1) / 100

def RecordEvent.latency? : RecordEvent → Option ℕ
  | sent _ latencyMs _ => some latencyMs.toNat
  | _ => none

def latencies (events : List RecordEvent) : List ℕ := events.filterMap RecordEvent.latency?

@[simp] theorem latencies_concat (events : List RecordEvent) (event : RecordEvent) :
    latencies (events ++ [event]) = latencies events ++ event.latency?.toList := by
  cases hlatency : event.latency? with
  | none => simp [latencies, hlatency]
  | some latency => simp [latencies, hlatency]

/-- Between the smallest and the largest of the samples. -/
def WithinSamples (samples : List ℕ) (average : ℕ) : Prop :=
  ∃ smallest largest, samples.min? = some smallest ∧ samples.max? = some largest ∧
    smallest ≤ average ∧ average ≤ largest

theorem WithinSamples.of_between {samples : List ℕ} {average low high : ℕ} (hlow : low ∈ samples)
    (hhigh : high ∈ samples) (hle : low ≤ average) (hge : average ≤ high) :
    WithinSamples samples average := by
  obtain ⟨smallest, hsmallest⟩ := Option.isSome_iff_exists.mp (List.isSome_min?_of_mem hlow)
  obtain ⟨largest, hlargest⟩ := Option.isSome_iff_exists.mp (List.isSome_max?_of_mem hhigh)
  have hleast := (List.min?_eq_some_iff.mp hsmallest).2 low hlow
  have hgreatest := (List.max?_eq_some_iff.mp hlargest).2 high hhigh
  exact ⟨smallest, largest, hsmallest, hlargest, hleast.trans hle, hge.trans hgreatest⟩

theorem average_between {low high average sample : ℕ} (haverage : low ≤ average ∧ average ≤ high)
    (hsample : low ≤ sample ∧ sample ≤ high) :
    low ≤ (average * 70 + sample * 30) / 100 ∧ (average * 70 + sample * 30) / 100 ≤ high := by
  omega

/-- Up to the limit, no operation of the average leaves its range. -/
theorem averageLatency_eq (checks : OverflowChecks) {average sample : UInt64}
    (haverage : average.toNat ≤ latencyLimit)
    (hsample : sample.toNat ≤ latencyLimit) :
    ∃ next, PeerInfo.averageLatency checks average sample = some next ∧
      next.toNat = if average.toNat = 0 then sample.toNat
        else (average.toNat * 70 + sample.toNat * 30) / 100 := by
  unfold PeerInfo.averageLatency
  by_cases hzero : average = 0
  · rw [if_pos hzero, hzero]
    exact ⟨sample, rfl, rfl⟩
  · simp only [latencyLimit] at haverage hsample
    have hold : average.toNat * (70 : UInt64).toNat < 2 ^ 64 := by
      change average.toNat * 70 < 2 ^ 64
      omega
    have hnew : sample.toNat * (30 : UInt64).toNat < 2 ^ 64 := by
      change sample.toNat * 30 < 2 ^ 64
      omega
    have holdNat : (average * 70).toNat = average.toNat * 70 := by
      rw [UInt64.toNat_mul]
      exact Nat.mod_eq_of_lt hold
    have hnewNat : (sample * 30).toNat = sample.toNat * 30 := by
      rw [UInt64.toNat_mul]
      exact Nat.mod_eq_of_lt hnew
    have hsum : (average * 70).toNat + (sample * 30).toNat < 2 ^ 64 := by
      rw [holdNat, hnewNat]
      omega
    have hpos : average.toNat ≠ 0 := fun hnone => hzero (UInt64.toNat_inj.mp hnone)
    rw [if_neg hzero, if_neg hpos]
    refine ⟨(average * 70 + sample * 30) / 100, ?_, ?_⟩
    · simp only [Option.bind_eq_bind, OverflowChecks.mul_of_lt checks hold,
        OverflowChecks.mul_of_lt checks hnew, OverflowChecks.add_of_lt checks hsum,
        Option.bind_some]
    · rw [UInt64.toNat_div, UInt64.toNat_add, Nat.mod_eq_of_lt hsum, holdNat, hnewNat]
      rfl

/-- The average after some samples: none before the first, and then within them. -/
def Averages (samples : List ℕ) (average : ℕ) : Prop :=
  samples = [] ∧ average = 0 ∨
    ∃ low ∈ samples, ∃ high ∈ samples, low ≤ average ∧ average ≤ high

theorem Averages.sample {samples : List ℕ} {average : ℕ} (h : Averages samples average)
    (sample : ℕ) : Averages (samples ++ [sample])
      (if average = 0 then sample else (average * 70 + sample * 30) / 100) := by
  have hmem : sample ∈ samples ++ [sample] := by simp
  by_cases hzero : average = 0
  · rw [if_pos hzero]
    exact .inr ⟨sample, hmem, sample, hmem, le_rfl, le_rfl⟩
  · rw [if_neg hzero]
    rcases h with ⟨-, hnone⟩ | ⟨low, hlow, high, hhigh, haverage⟩
    · exact absurd hnone hzero
    · have hbefore : min low sample ≤ average ∧ average ≤ max high sample :=
        ⟨(min_le_left _ _).trans haverage.1, haverage.2.trans (le_max_left _ _)⟩
      have hbetween := average_between hbefore ⟨min_le_right low sample, le_max_right high sample⟩
      refine .inr ⟨min low sample, ?_, max high sample, ?_, hbetween⟩
      · rcases min_choice low sample with hmin | hmin
        · simp [hmin, hlow]
        · simp [hmin]
      · rcases max_choice high sample with hmax | hmax
        · simp [hmax, hhigh]
        · simp [hmax]

theorem Averages.le_limit {samples : List ℕ} {average limit : ℕ} (h : Averages samples average)
    (hlimit : ∀ sample ∈ samples, sample ≤ limit) : average ≤ limit := by
  rcases h with ⟨-, rfl⟩ | ⟨low, hlow, high, hhigh, -, hle⟩
  · exact Nat.zero_le limit
  · exact hle.trans (hlimit high hhigh)

theorem Averages.record {events : List RecordEvent}
    (h : Averages (latencies events) peer.latencyMs.toNat)
    (hrule : RecordRule checks peer event peer')
    (hlimit : ∀ sample ∈ latencies (events ++ [event]), sample ≤ latencyLimit) :
    Averages (latencies (events ++ [event])) peer'.latencyMs.toNat := by
  rw [latencies_concat] at hlimit ⊢
  cases hrule with
  | sent bytes latencyMs messagesSent bytesSent average now hcounts hsums haverages =>
      have hbefore := h.le_limit fun sample hsample =>
        hlimit sample (List.mem_append_left _ hsample)
      have hsample := hlimit latencyMs.toNat (List.mem_append_right _ List.mem_cons_self)
      obtain ⟨next, hnext, hvalue⟩ := averageLatency_eq checks hbefore hsample
      obtain rfl := Option.some.inj (haverages.symm.trans hnext)
      dsimp only
      rw [hvalue]
      exact h.sample latencyMs.toNat
  | received | failure | lastFailure | resetFailures =>
      simpa [RecordEvent.latency?] using h

/-- The average of a peer that nothing has been recorded of before. -/
theorem run_averages {address : Address} {now : Instant}
    (h : (recordMachine Address checks).Run (.new address now) calls peer)
    (hlimit : ∀ sample ∈ latencies (calls.map Call.event), sample ≤ latencyLimit) :
    Averages (latencies (calls.map Call.event)) peer.latencyMs.toNat := by
  induction h with
  | start => exact .inl ⟨rfl, rfl⟩
  | call c _ hmakes ih =>
      rw [List.map_append] at hlimit ⊢
      have hearlier := ih fun sample hsample => hlimit sample (by
        rw [List.map_singleton, latencies_concat]
        exact List.mem_append_left _ hsample)
      exact hearlier.record (recordRule_of_makes hmakes) hlimit

/-- As long as the latencies keep to the limit, the average lies within them once there is one, and
no operation of its next step overflows. -/
theorem latency_within_samples {address : Address} {now : Instant}
    (h : (recordMachine Address checks).Run (.new address now) calls peer)
    (hlimit : ∀ sample ∈ latencies (calls.map Call.event), sample ≤ latencyLimit) :
    (latencies (calls.map Call.event) ≠ [] →
      WithinSamples (latencies (calls.map Call.event)) peer.latencyMs.toNat) ∧
      ∀ sample : UInt64, sample.toNat ≤ latencyLimit →
        (PeerInfo.averageLatency .on peer.latencyMs sample).isSome := by
  have haverages := run_averages h hlimit
  constructor
  · intro hsome
    rcases haverages with ⟨hnone, -⟩ | ⟨low, hlow, high, hhigh, hle, hge⟩
    · exact absurd hnone hsome
    · exact .of_between hlow hhigh hle hge
  · intro sample hsample
    obtain ⟨next, hnext, -⟩ :=
      averageLatency_eq .on (haverages.le_limit hlimit) hsample
    rw [hnext]
    rfl

/-- An average that becomes zero, and begins again. -/
theorem latency_within_samples_plain :
    ∃ calls peer, (recordMachine ℕ .on).Run (.new 0 0) calls peer ∧
      latencies (calls.map Call.event) = [1, 0, 7] ∧ peer.latencyMs = 7 ∧
      WithinSamples (latencies (calls.map Call.event)) peer.latencyMs.toNat := by
  have hrun := Machine.Run.start.of_step (M := recordMachine ℕ .on) (s := .new 0 0)
    (e := .sent 5 1 0) rfl |>.of_step (e := .sent 5 0 0) rfl |>.of_step (e := .sent 5 7 0) rfl
  exact ⟨_, _, hrun, rfl, rfl, (latency_within_samples hrun (by decide)).1 (by decide)⟩

end ValidatorSync

end SilverNetwork
