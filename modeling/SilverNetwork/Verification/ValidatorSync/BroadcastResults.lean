import Mathlib.Algebra.Group.Action.Defs
import Mathlib.Algebra.Order.BigOperators.Group.List
import SilverNetwork.Model.ValidatorTasks

/-! The result of a broadcast against what has become of its sends. The loop over them starts its
minimum at the largest latency there is, and the result takes that value for none. -/

namespace SilverNetwork

namespace ValidatorSync

variable {Address : Type} {checks : OverflowChecks} {sends : List (SendTask Address)}
  {task : SendTask Address} {tally : BroadcastTally}

/-- The latency and the bytes of a send that has succeeded. -/
def SendTask.success? (task : SendTask Address) : Option (UInt64 × UInt64) :=
  match task.stage with
  | some (.sending (.finished (.ok sent))) => some sent
  | _ => none

def successes (sends : List (SendTask Address)) : List (UInt64 × UInt64) :=
  sends.filterMap SendTask.success?

def latencySum (sends : List (SendTask Address)) : ℕ :=
  ((successes sends).map fun sent => sent.1.toNat).sum

def byteSum (sends : List (SendTask Address)) : ℕ :=
  ((successes sends).map fun sent => sent.2.toNat).sum

@[simp] theorem successes_concat (sends : List (SendTask Address)) (task : SendTask Address) :
    successes (sends ++ [task]) = successes sends ++ task.success?.toList := by
  cases hsuccess : task.success? with
  | none => simp [successes, hsuccess]
  | some sent => simp [successes, hsuccess]

/-! ## The loop over the sends -/

/-- What the local variables hold after some of the sends. -/
structure Tallied (sends : List (SendTask Address)) (tally : BroadcastTally) : Prop where
  successful : tally.successful = (successes sends).length
  parts : tally.successful + tally.failed = sends.length
  latency : tally.totalLatency.toNat = latencySum sends
  bytes : tally.totalBytesSent.toNat = byteSum sends
  min_le : ∀ sent ∈ successes sends, tally.minLatency.toNat ≤ sent.1.toNat
  le_max : ∀ sent ∈ successes sends, sent.1.toNat ≤ tally.maxLatency.toNat
  min_eq : tally.minLatency = .ofNat (2 ^ 64 - 1) ∨
    ∃ sent ∈ successes sends, sent.1 = tally.minLatency
  max_eq : tally.maxLatency = 0 ∨ ∃ sent ∈ successes sends, sent.1 = tally.maxLatency

theorem tallied_zero : Tallied ([] : List (SendTask Address)) .zero := by
  constructor
  case min_eq => exact .inl rfl
  case max_eq => exact .inl rfl
  all_goals simp [successes, latencySum, byteSum, BroadcastTally.zero]

theorem SendTask.stage_of_success {sent : UInt64 × UInt64} (h : task.success? = some sent) :
    task.stage = some (.sending (.finished (.ok sent))) := by
  unfold SendTask.success? at h
  split at h
  · rename_i hstage
    rw [hstage, Option.some.inj h]
  · cases h

/-- A send that fails, or panics, is counted, and nothing else. -/
theorem collect_of_failure (h : task.success? = none) :
    tally.collect checks task = some { tally with failed := tally.failed + 1 } := by
  unfold BroadcastTally.collect
  split
  · rename_i hstage
    simp [SendTask.success?, hstage] at h
  · rfl

theorem Tallied.failure (h : Tallied sends tally) (hfailure : task.success? = none) :
    Tallied (sends ++ [task]) { tally with failed := tally.failed + 1 } := by
  have hsame : successes (sends ++ [task]) = successes sends := by simp [hfailure]
  constructor
  case parts =>
    have hparts := h.parts
    simp only [List.length_append, List.length_singleton]
    omega
  all_goals simp only [latencySum, byteSum, hsame]
  exacts [h.successful, h.latency, h.bytes, h.min_le, h.le_max, h.min_eq, h.max_eq]

theorem Tallied.success {sent : UInt64 × UInt64} (h : Tallied sends tally)
    (hsuccess : task.success? = some sent)
    (hlatency : tally.totalLatency.toNat + sent.1.toNat < 2 ^ 64)
    (hbytes : tally.totalBytesSent.toNat + sent.2.toNat < 2 ^ 64) :
    Tallied (sends ++ [task])
      { tally with
        successful := tally.successful + 1
        totalLatency := tally.totalLatency + sent.1
        minLatency := min tally.minLatency sent.1
        maxLatency := max tally.maxLatency sent.1
        totalBytesSent := tally.totalBytesSent + sent.2 } := by
  have hmore : successes (sends ++ [task]) = successes sends ++ [sent] := by simp [hsuccess]
  constructor
  case successful => simp [hmore, h.successful]
  case parts =>
    have hparts := h.parts
    simp only [List.length_append, List.length_singleton]
    omega
  case latency =>
    rw [UInt64.toNat_add, Nat.mod_eq_of_lt hlatency, h.latency]
    simp [latencySum, hmore]
  case bytes =>
    rw [UInt64.toNat_add, Nat.mod_eq_of_lt hbytes, h.bytes]
    simp [byteSum, hmore]
  case min_le =>
    intro other hother
    rw [UInt64.toNat_min]
    rw [hmore, List.mem_append, List.mem_singleton] at hother
    rcases hother with hother | rfl
    · exact (min_le_left _ _).trans (h.min_le other hother)
    · exact min_le_right _ _
  case le_max =>
    intro other hother
    rw [UInt64.toNat_max]
    rw [hmore, List.mem_append, List.mem_singleton] at hother
    rcases hother with hother | rfl
    · exact (h.le_max other hother).trans (le_max_left _ _)
    · exact le_max_right _ _
  case min_eq =>
    rw [hmore]
    rcases Std.min_eq_or (a := tally.minLatency) (b := sent.1) with hmin | hmin
    · rw [hmin]
      exact h.min_eq.imp_right fun ⟨other, hother, heq⟩ =>
        ⟨other, List.mem_append_left _ hother, heq⟩
    · exact .inr ⟨sent, List.mem_append_right _ List.mem_cons_self, hmin.symm⟩
  case max_eq =>
    rw [hmore]
    rcases max_choice tally.maxLatency.toNat sent.1.toNat with hmax | hmax
    all_goals rw [← UInt64.toNat_max, UInt64.toNat_inj] at hmax
    · rw [hmax]
      exact h.max_eq.imp_right fun ⟨other, hother, heq⟩ =>
        ⟨other, List.mem_append_left _ hother, heq⟩
    · exact .inr ⟨sent, List.mem_append_right _ List.mem_cons_self, hmax.symm⟩

theorem Tallied.collect (checks : OverflowChecks) (h : Tallied sends tally)
    (hlatency : latencySum (sends ++ [task]) < 2 ^ 64)
    (hbytes : byteSum (sends ++ [task]) < 2 ^ 64) :
    ∃ tally', tally.collect checks task = some tally' ∧ Tallied (sends ++ [task]) tally' := by
  cases hsuccess : task.success? with
  | none => exact ⟨_, collect_of_failure hsuccess, h.failure hsuccess⟩
  | some sent =>
      have hlatency' : tally.totalLatency.toNat + sent.1.toNat < 2 ^ 64 := by
        rw [h.latency]
        simpa [latencySum, hsuccess] using hlatency
      have hbytes' : tally.totalBytesSent.toNat + sent.2.toNat < 2 ^ 64 := by
        rw [h.bytes]
        simpa [byteSum, hsuccess] using hbytes
      refine ⟨_, ?_, h.success hsuccess hlatency' hbytes'⟩
      simp only [BroadcastTally.collect, SendTask.stage_of_success hsuccess,
        OverflowChecks.add_of_lt checks hlatency', OverflowChecks.add_of_lt checks hbytes',
        Option.bind_eq_bind, Option.bind_some]

theorem tallied_of_sends (checks : OverflowChecks) (hlatency : latencySum sends < 2 ^ 64)
    (hbytes : byteSum sends < 2 ^ 64) :
    ∃ tally, sends.foldlM (BroadcastTally.collect checks) .zero = some tally ∧
      Tallied sends tally := by
  induction sends using List.reverseRecOn with
  | nil => exact ⟨.zero, rfl, tallied_zero⟩
  | append_singleton sends task ih =>
      have hlatency' : latencySum sends < 2 ^ 64 := by
        refine lt_of_le_of_lt ?_ hlatency
        simp [latencySum]
      have hbytes' : byteSum sends < 2 ^ 64 := by
        refine lt_of_le_of_lt ?_ hbytes
        simp [byteSum]
      obtain ⟨tally, hfold, htally⟩ := ih hlatency' hbytes'
      obtain ⟨tally', hcollect, htally'⟩ := htally.collect checks hlatency hbytes
      refine ⟨tally', ?_, htally'⟩
      rw [List.foldlM_append, hfold]
      simp [hcollect]

/-! ## The result -/

/-- A mean lies between the bounds of what it is taken of. -/
theorem mean_between {xs : List ℕ} {low high : ℕ} (hsome : xs ≠ []) (hlow : ∀ x ∈ xs, low ≤ x)
    (hhigh : ∀ x ∈ xs, x ≤ high) : low ≤ xs.sum / xs.length ∧ xs.sum / xs.length ≤ high := by
  have hpos := List.length_pos_iff.mpr hsome
  have hleast := xs.card_nsmul_le_sum low hlow
  have hgreatest := xs.sum_le_card_nsmul high hhigh
  rw [smul_eq_mul] at hleast hgreatest
  constructor
  · rw [Nat.le_div_iff_mul_le hpos, mul_comm]
    exact hleast
  · exact Nat.div_le_of_le_mul hgreatest

/-- The latency that the minimum starts at. -/
def noLatency : UInt64 := .ofNat (2 ^ 64 - 1)

/-- What the result says of the sends. Where the only latencies are the one that stands for none,
the minimum is reported as zero. -/
structure ConsistentResult (sends : List (SendTask Address)) (result : BroadcastResult) : Prop where
  total : result.totalPeers = sends.length
  parts : result.successful + result.failed = result.totalPeers
  successful : result.successful = (successes sends).length
  bytes : result.totalBytesSent.toNat = byteSum sends
  min_le_avg : result.minLatencyMs ≤ result.avgLatencyMs
  avg_le_max : result.avgLatencyMs ≤ result.maxLatencyMs
  bounds : ∀ sent ∈ successes sends, result.minLatencyMs ≤ sent.1 ∧ sent.1 ≤ result.maxLatencyMs
  max_attained : successes sends ≠ [] → ∃ sent ∈ successes sends, sent.1 = result.maxLatencyMs
  min_attained : (∃ sent ∈ successes sends, sent.1 ≠ noLatency) →
    ∃ sent ∈ successes sends, sent.1 = result.minLatencyMs
  min_of_noLatency : (∀ sent ∈ successes sends, sent.1 = noLatency) → result.minLatencyMs = 0
  without_success : successes sends = [] →
    result.minLatencyMs = 0 ∧ result.avgLatencyMs = 0 ∧ result.maxLatencyMs = 0

/-- The reported minimum is at most the one of the loop. -/
theorem result_min_le (totalPeers : ℕ) (durationMs : UInt64) (tally : BroadcastTally) :
    (tally.result totalPeers durationMs).minLatencyMs ≤ tally.minLatency := by
  simp only [BroadcastTally.result]
  split
  · exact UInt64.le_iff_toNat_le.mpr (Nat.zero_le _)
  · exact UInt64.le_refl _

theorem Tallied.avg_eq (h : Tallied sends tally) (hlength : sends.length < 2 ^ 64)
    (hsome : successes sends ≠ []) (totalPeers : ℕ) (durationMs : UInt64) :
    (tally.result totalPeers durationMs).avgLatencyMs.toNat =
      latencySum sends / (successes sends).length := by
  have hpos := List.length_pos_iff.mpr hsome
  have hparts := h.parts
  simp only [BroadcastTally.result]
  rw [h.successful] at hparts ⊢
  have hsmall : (successes sends).length < 2 ^ 64 := by omega
  rw [if_pos hpos, UInt64.toNat_div, h.latency, UInt64.toNat_ofNat_of_lt' hsmall]

/-- The average lies between the minimum and the maximum of the loop. -/
theorem Tallied.avg_between (h : Tallied sends tally) (hlength : sends.length < 2 ^ 64)
    (hsome : successes sends ≠ []) (totalPeers : ℕ) (durationMs : UInt64) :
    tally.minLatency ≤ (tally.result totalPeers durationMs).avgLatencyMs ∧
      (tally.result totalPeers durationMs).avgLatencyMs ≤ tally.maxLatency := by
  rw [UInt64.le_iff_toNat_le, UInt64.le_iff_toNat_le, h.avg_eq hlength hsome]
  have hlatencies : (successes sends).map (fun sent => sent.1.toNat) ≠ [] := by simpa using hsome
  have hmean := mean_between hlatencies (List.forall_mem_map.mpr h.min_le)
    (List.forall_mem_map.mpr h.le_max)
  rwa [List.length_map] at hmean

theorem Tallied.none (h : Tallied sends tally) (hnone : successes sends = []) (totalPeers : ℕ)
    (durationMs : UInt64) : (tally.result totalPeers durationMs).minLatencyMs = 0 ∧
      (tally.result totalPeers durationMs).avgLatencyMs = 0 ∧
      (tally.result totalPeers durationMs).maxLatencyMs = 0 := by
  have hmin : tally.minLatency = .ofNat (2 ^ 64 - 1) := by
    rcases h.min_eq with hmin | ⟨sent, hsent, -⟩
    · exact hmin
    · simp [hnone] at hsent
  have hmax : tally.maxLatency = 0 := by
    rcases h.max_eq with hmax | ⟨sent, hsent, -⟩
    · exact hmax
    · simp [hnone] at hsent
  have hsuccessful := h.successful
  rw [hnone, List.length_nil] at hsuccessful
  simp only [BroadcastTally.result, hsuccessful, lt_irrefl]
  exact ⟨if_pos hmin, if_neg id, hmax⟩

theorem Tallied.min_of_noLatency (h : Tallied sends tally)
    (hall : ∀ sent ∈ successes sends, sent.1 = noLatency) (totalPeers : ℕ) (durationMs : UInt64) :
    (tally.result totalPeers durationMs).minLatencyMs = 0 := by
  refine if_pos ?_
  rcases h.min_eq with hmin | ⟨sent, hsent, hmin⟩
  · exact hmin
  · exact hmin.symm.trans (hall sent hsent)

theorem Tallied.min_attained (h : Tallied sends tally)
    (hother : ∃ sent ∈ successes sends, sent.1 ≠ noLatency) (totalPeers : ℕ)
    (durationMs : UInt64) : ∃ sent ∈ successes sends,
      sent.1 = (tally.result totalPeers durationMs).minLatencyMs := by
  obtain ⟨other, hmem, hne⟩ := hother
  have hmin : tally.minLatency ≠ noLatency := by
    intro hnone
    have hle := h.min_le other hmem
    have hlt := other.1.toNat_lt
    have htop : noLatency.toNat = 2 ^ 64 - 1 := rfl
    rw [hnone, htop] at hle
    exact hne (UInt64.toNat_inj.mp (by omega))
  obtain ⟨sent, hsent, heq⟩ := h.min_eq.resolve_left hmin
  exact ⟨sent, hsent, heq.trans (if_neg hmin).symm⟩

theorem Tallied.result (h : Tallied sends tally) (hlength : sends.length < 2 ^ 64)
    (durationMs : UInt64) : ConsistentResult sends (tally.result sends.length durationMs) := by
  have hmin := result_min_le sends.length durationMs tally
  constructor
  case total => rfl
  case parts => exact h.parts
  case successful => exact h.successful
  case bytes => exact h.bytes
  case min_le_avg =>
    by_cases hsome : successes sends = []
    · rw [(h.none hsome sends.length durationMs).1]
      exact UInt64.le_iff_toNat_le.mpr (Nat.zero_le _)
    · exact UInt64.le_trans hmin (h.avg_between hlength hsome sends.length durationMs).1
  case avg_le_max =>
    by_cases hsome : successes sends = []
    · rw [(h.none hsome sends.length durationMs).2.1]
      exact UInt64.le_iff_toNat_le.mpr (Nat.zero_le _)
    · exact (h.avg_between hlength hsome sends.length durationMs).2
  case bounds =>
    intro sent hsent
    exact ⟨UInt64.le_trans hmin (UInt64.le_iff_toNat_le.mpr (h.min_le sent hsent)),
      UInt64.le_iff_toNat_le.mpr (h.le_max sent hsent)⟩
  case max_attained =>
    intro hsome
    rcases h.max_eq with hzero | hattained
    · obtain ⟨sent, hsent⟩ := List.exists_mem_of_ne_nil _ hsome
      have hle := h.le_max sent hsent
      rw [hzero] at hle
      refine ⟨sent, hsent, ?_⟩
      exact (UInt64.toNat_inj.mp (Nat.le_zero.mp hle)).trans hzero.symm
    · exact hattained
  case min_attained => exact fun hother => h.min_attained hother sends.length durationMs
  case min_of_noLatency => exact fun hall => h.min_of_noLatency hall sends.length durationMs
  case without_success => exact fun hnone => h.none hnone sends.length durationMs

/-! ## The statistics -/

/-- The statistics with one broadcast more. -/
def BroadcastStats.grownBy (result : BroadcastResult) (stats : BroadcastStats) : BroadcastStats :=
  { stats with
    totalBroadcasts := stats.totalBroadcasts + 1
    successfulBroadcasts := stats.successfulBroadcasts + .ofNat result.successful
    failedBroadcasts := stats.failedBroadcasts + .ofNat result.failed
    avgBroadcastLatencyMs := result.avgLatencyMs
    totalBytesSent := stats.totalBytesSent + result.totalBytesSent }

/-- None of the counters leaves its range with the result. -/
structure BroadcastStats.HasRoom (result : BroadcastResult) (stats : BroadcastStats) : Prop where
  broadcasts : stats.totalBroadcasts.toNat + 1 < 2 ^ 64
  successful : stats.successfulBroadcasts.toNat + result.successful < 2 ^ 64
  failed : stats.failedBroadcasts.toNat + result.failed < 2 ^ 64
  bytes : stats.totalBytesSent.toNat + result.totalBytesSent.toNat < 2 ^ 64

theorem recordBroadcast_eq {result : BroadcastResult} {stats : BroadcastStats}
    (h : checks = .on → stats.HasRoom result) :
    stats.recordBroadcast checks result = .ok (stats.grownBy result) := by
  have hbroadcasts : checks.add stats.totalBroadcasts 1 = some (stats.totalBroadcasts + 1) :=
    OverflowChecks.add_of_room fun hon => (h hon).broadcasts
  have hsuccessful : checks.add stats.successfulBroadcasts (.ofNat result.successful) =
      some (stats.successfulBroadcasts + .ofNat result.successful) :=
    OverflowChecks.add_of_room fun hon => by
      have hroom := (h hon).successful
      rwa [UInt64.toNat_ofNat_of_lt' (show result.successful < 2 ^ 64 by omega)]
  have hfailed : checks.add stats.failedBroadcasts (.ofNat result.failed) =
      some (stats.failedBroadcasts + .ofNat result.failed) :=
    OverflowChecks.add_of_room fun hon => by
      have hroom := (h hon).failed
      rwa [UInt64.toNat_ofNat_of_lt' (show result.failed < 2 ^ 64 by omega)]
  have hbytes : checks.add stats.totalBytesSent result.totalBytesSent =
      some (stats.totalBytesSent + result.totalBytesSent) :=
    OverflowChecks.add_of_room fun hon => (h hon).bytes
  simp only [BroadcastStats.recordBroadcast, hbroadcasts, hsuccessful, hfailed, hbytes,
    Update.orPanic]
  rfl

/-! ## The end of a broadcast -/

variable [DecidableEq Address]

/-- A broadcast whose sends have all ended returns what has become of them, and adds it to the
statistics. -/
theorem broadcast_results_consistent (checks : OverflowChecks) (texts : Texts Address)
    (validatorId : Bytes) (maxRetries : ℕ) (message : NetworkMessage)
    (sends : List (SendTask Address)) (readings : LockReadings Address) (s : NetworkState Address)
    (hended : sends.all SendTask.ended)
    (hlength : sends.length < 2 ^ 64) (hlatency : latencySum sends < 2 ^ 64)
    (hbytes : byteSum sends < 2 ^ 64) :
    ∃ result, ConsistentResult sends result ∧
      ((checks = .on → s.stats.HasRoom result) →
        networkStep checks texts validatorId maxRetries (.broadcasting message sends)
          (.locked readings) s =
            some (.finished (.broadcast result) { s with stats := s.stats.grownBy result })) := by
  obtain ⟨tally, hfold, htally⟩ := tallied_of_sends checks hlatency hbytes
  refine ⟨_, htally.result hlength readings.durationMs, ?_⟩
  intro hroom
  simp only [networkStep, hended, if_true, concludeBroadcast, hfold, recordBroadcast_eq hroom]
  rfl

/-- Two sends that succeed, one that fails, and one that panics. -/
def endedSends : List (SendTask ℕ) :=
  [⟨1, some (.sending (.finished (.ok (30, 5))))⟩,
    ⟨2, some (.sending (.finished (.error (.invalidData ""))))⟩,
    ⟨3, some (.sending (.finished (.ok (10, 5))))⟩, ⟨4, none⟩]

theorem broadcast_results_consistent_plain :
    ∃ result, ConsistentResult endedSends result ∧
      networkStep .on .plain [] 1 (.broadcasting (.ping 1 2) endedSends)
        (.locked ⟨fun _ => 0, .stored _, 0⟩) ⟨∅, .zero⟩ =
          some (.finished (.broadcast result) ⟨∅, .grownBy result .zero⟩) := by
  obtain ⟨result, hresult, hstep⟩ := broadcast_results_consistent .on .plain [] 1 (.ping 1 2)
    endedSends ⟨fun _ => 0, .stored _, 0⟩ ⟨∅, .zero⟩ (by decide) (by decide) (by decide) (by decide)
  refine ⟨result, hresult, hstep fun _ => ?_⟩
  have hsuccessful : result.successful = 2 := hresult.successful
  have hparts : result.successful + result.failed = 4 := hresult.parts.trans hresult.total
  have hbytes : result.totalBytesSent.toNat = 10 := hresult.bytes
  constructor
  all_goals simp only [BroadcastStats.zero, UInt64.toNat_zero]
  all_goals omega

/-- The send that takes the longest that can be measured. -/
def longestSend : SendTask ℕ := ⟨1, some (.sending (.finished (.ok (.ofNat (2 ^ 64 - 1), 5))))⟩

/-- It is the one send that succeeds, and no time is reported. -/
theorem longest_latency_reported_as_zero :
    ∃ result s', networkStep .on .plain [] 1 (.broadcasting (.ping 1 2) [longestSend])
        (.locked ⟨fun _ => 0, .stored _, 0⟩) ⟨∅, .zero⟩ =
          some (.finished (.broadcast result) s') ∧
      result.successful = 1 ∧ result.minLatencyMs = 0 ∧
      ¬ ∃ sent ∈ successes [longestSend], sent.1 = result.minLatencyMs := by
  refine ⟨_, _, rfl, rfl, rfl, ?_⟩
  decide

end ValidatorSync

end SilverNetwork
