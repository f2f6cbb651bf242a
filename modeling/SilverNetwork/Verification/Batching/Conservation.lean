import Mathlib.Algebra.Order.BigOperators.Group.List
import Mathlib.Algebra.Order.Ring.Nat
import SilverNetwork.Verification.Batching.Format
import SilverNetwork.Verification.Batching.Semantics

/-! Conservation of batched messages. Reading back the batches of a run, in the order in
which they were returned, gives the messages added so far except for those still pending. -/

namespace SilverNetwork

open MessageBatcher

variable {checks : OverflowChecks}

def BatcherEvent.messages : BatcherEvent → List Bytes
  | .addMessage message => [message]
  | .flush => []

/-- The messages added in the given calls, in order. -/
def added (calls : List BatcherCall) : List Bytes := calls.flatMap (·.event.messages)

/-- The non-empty batches returned by the given calls, in order. -/
def batches (calls : List BatcherCall) : List Bytes :=
  (calls.flatMap (·.result.toList)).filter (· ≠ [])

/-- The most messages that are pending at any moment of the call. -/
def peakPending (checks : OverflowChecks) (c : BatcherCall) : ℕ :=
  match c.event with
  | .addMessage message =>
      if c.pre.exceeds checks (UInt64.ofNat message.length) = some true then c.pre.pendingCount
      else c.pre.pendingCount + 1
  | .flush => c.pre.pendingCount

/-- The messages of the call and the counts of pending messages fit into 32 bits. -/
structure FitsLengths (checks : OverflowChecks) (c : BatcherCall) : Prop where
  messages : ∀ m ∈ c.event.messages, m.length < 2 ^ 32
  pending : peakPending checks c < 2 ^ 32

/-! ## Batches read back -/

theorem lengthBytes_of_lt {n : ℕ} (h : n < 2 ^ 32) : lengthBytes n = littleEndian 4 n := by
  rw [lengthBytes, UInt32.toNat_ofNat_of_lt' h]

theorem unbatch_serialize {messages : List Bytes} (hcount : messages.length < 2 ^ 32)
    (hshort : ∀ m ∈ messages, m.length < 2 ^ 32) :
    unbatch (serialize messages) = some (.ok messages) := by
  have hbody : messages.flatMap (fun m => lengthBytes m.length ++ m) =
      messages.flatMap fun m => littleEndian 4 m.length ++ m := by
    apply List.flatMap_congr
    intro m hm
    rw [lengthBytes_of_lt (hshort m hm)]
  refine unbatch_eq_ok_iff.mpr ⟨hcount, hshort, ?_⟩
  rw [serialize, lengthBytes_of_lt hcount, hbody]

theorem serialize_ne_nil (messages : List Bytes) : serialize messages ≠ [] := by
  intro h
  have hlength := congrArg List.length h
  simp [serialize, lengthBytes] at hlength

/-! ## Sizes -/

/-- The bytes of fewer than `2^32` messages, each shorter than `2^32`, fit into 64 bits. -/
theorem sum_lengths_lt {messages : List Bytes} (hcount : messages.length < 2 ^ 32)
    (hshort : ∀ m ∈ messages, m.length < 2 ^ 32) :
    (messages.map List.length).sum < 2 ^ 64 := by
  have hsum : (messages.map List.length).sum ≤ messages.length * (2 ^ 32 - 1) := by
    have hbound := List.sum_le_card_nsmul (messages.map List.length) (2 ^ 32 - 1) ?_
    · simpa using hbound
    · intro n hn
      obtain ⟨m, hm, rfl⟩ := List.mem_map.mp hn
      have hlt := hshort m hm
      omega
  omega

theorem countBatch_messagesBatched {stats stats' : BatchStats} {n : ℕ}
    (h : stats.countBatch checks n = some stats') :
    stats'.messagesBatched = stats.messagesBatched + UInt64.ofNat n := by
  simp only [BatchStats.countBatch, Option.bind_eq_bind, Option.bind_eq_some_iff] at h
  obtain ⟨_, _, messagesBatched, hadd, heq⟩ := h
  obtain rfl := Option.some.inj heq
  exact OverflowChecks.add_eq_some hadd

/-! ## The invariant -/

/-- The messages sent in batches and those pending are the messages added, in order, and the
sizes and counts are those of these messages. -/
structure BatcherConserves (sent added : List Bytes) (b : MessageBatcher) : Prop where
  order : sent ++ b.pending = added
  short : ∀ m ∈ b.pending, m.length < 2 ^ 32
  size : b.currentSize.toNat = (b.pending.map List.length).sum
  count : b.stats.messagesBatched = UInt64.ofNat sent.length

theorem batcherConserves_new (maxBatchSize maxMessages : UInt64) :
    BatcherConserves [] [] (MessageBatcher.new maxBatchSize maxMessages) :=
  ⟨rfl, by simp [MessageBatcher.new], rfl, rfl⟩

/-- Storing one more message keeps the size, which does not overflow. -/
theorem BatcherConserves.store {sent past : List Bytes} {b : MessageBatcher}
    (h : BatcherConserves sent past b) {m : Bytes} {size : UInt64}
    (hm : m.length < 2 ^ 32) (hcount : b.pending.length + 1 < 2 ^ 32)
    (hsize : checks.add b.currentSize (UInt64.ofNat m.length) = some size) :
    BatcherConserves sent (past ++ [m])
      { b with pending := b.pending ++ [m], currentSize := size } := by
  have hshort : ∀ m' ∈ b.pending ++ [m], m'.length < 2 ^ 32 :=
    List.forall_mem_append.mpr ⟨h.short, List.forall_mem_singleton.mpr hm⟩
  have hboth : (b.pending ++ [m]).length < 2 ^ 32 := by simpa using hcount
  have htotal := sum_lengths_lt hboth hshort
  have hlength : (UInt64.ofNat m.length).toNat = m.length := by
    apply UInt64.toNat_ofNat_of_lt'
    exact Nat.lt_trans hm (by decide)
  refine ⟨?_, hshort, ?_, h.count⟩
  · rw [← List.append_assoc, h.order]
  · rw [List.map_append, List.sum_append, List.map_singleton, List.sum_singleton] at htotal ⊢
    rw [OverflowChecks.add_eq_some hsize, UInt64.toNat_add, h.size, hlength]
    exact Nat.mod_eq_of_lt htotal

/-- Sending what is pending moves it behind what was sent before. -/
theorem BatcherConserves.send {sent past : List Bytes} {b : MessageBatcher}
    (h : BatcherConserves sent past b) {stats : BatchStats}
    (hstats : b.stats.countBatch checks b.pending.length = some stats) :
    BatcherConserves (sent ++ b.pending) past
      { b with pending := [], currentSize := 0, stats } := by
  refine ⟨by simp [h.order], by simp, rfl, ?_⟩
  rw [countBatch_messagesBatched hstats, h.count, List.length_append, UInt64.ofNat_add]

/-- Each batch returned by a call reads back as the messages that the call moved. -/
theorem BatcherStep.conserves {sent past : List Bytes} {b b' : MessageBatcher}
    {e : BatcherEvent} {r : Option Bytes} (hstep : BatcherStep checks b e r b')
    (h : BatcherConserves sent past b) (hfits : FitsLengths checks ⟨b, e, r, b'⟩) :
    ∃ groups, List.Forall₂ (fun batch group => unbatch batch = some (.ok group))
        (r.toList.filter (· ≠ [])) groups ∧
      BatcherConserves (sent ++ groups.flatten) (past ++ e.messages) b' := by
  have hpeak := hfits.pending
  cases hstep with
  | held m size hfits' hsize hopen =>
      have hm : m.length < 2 ^ 32 := hfits.messages m (List.mem_singleton.mpr rfl)
      have hcount : b.pending.length + 1 < 2 ^ 32 := by
        simpa [peakPending, hfits', pendingCount] using hpeak
      refine ⟨[], by simp, ?_⟩
      rw [List.flatten_nil, List.append_nil]
      exact h.store hm hcount hsize
  | filled m size stats hfits' hsize hready hstats =>
      have hm : m.length < 2 ^ 32 := hfits.messages m (List.mem_singleton.mpr rfl)
      have hcount : b.pending.length + 1 < 2 ^ 32 := by
        simpa [peakPending, hfits', pendingCount] using hpeak
      have hstored := h.store hm hcount hsize
      have hboth : (b.pending ++ [m]).length < 2 ^ 32 := by simpa using hcount
      have hread := unbatch_serialize hboth hstored.short
      refine ⟨[b.pending ++ [m]], ?_, ?_⟩
      · simpa [serialize_ne_nil] using hread
      · rw [List.flatten_singleton]
        exact hstored.send hstats
  | displaced m stats hfull hstats =>
      have hm : m.length < 2 ^ 32 := hfits.messages m (List.mem_singleton.mpr rfl)
      have hcount : b.pending.length < 2 ^ 32 := by
        simpa [peakPending, hfull, pendingCount] using hpeak
      have hread := unbatch_serialize hcount h.short
      have hsent := h.send hstats
      refine ⟨[b.pending], ?_, ?_⟩
      · simpa [serialize_ne_nil] using hread
      · rw [List.flatten_singleton]
        refine ⟨?_, by simpa using hm, ?_, hsent.count⟩
        · rw [h.order]
          rfl
        · simp only [List.map_singleton, List.sum_singleton]
          apply UInt64.toNat_ofNat_of_lt'
          exact Nat.lt_trans hm (by decide)
  | flushed stats hpending hstats =>
      have hcount : b.pending.length < 2 ^ 32 := hpeak
      have hread := unbatch_serialize hcount h.short
      refine ⟨[b.pending], ?_, ?_⟩
      · simpa [serialize_ne_nil] using hread
      · rw [List.flatten_singleton, BatcherEvent.messages, List.append_nil]
        exact h.send hstats
  | nothingPending hpending =>
      refine ⟨[], by simp, ?_⟩
      rw [List.flatten_nil, List.append_nil, BatcherEvent.messages, List.append_nil]
      exact h

theorem run_conserves {maxBatchSize maxMessages : UInt64} {calls : List BatcherCall}
    {b : MessageBatcher}
    (h : (batcherMachine checks).Run (MessageBatcher.new maxBatchSize maxMessages) calls b)
    (hfits : ∀ c ∈ calls, FitsLengths checks c) :
    ∃ groups, List.Forall₂ (fun batch group => unbatch batch = some (.ok group))
        (batches calls) groups ∧ BatcherConserves groups.flatten (added calls) b := by
  induction h with
  | start => exact ⟨[], .nil, batcherConserves_new maxBatchSize maxMessages⟩
  | @call calls c _ hmakes ih =>
      obtain ⟨groups, hgroups, hconserves⟩ :=
        ih fun c' hc' => hfits c' (List.mem_append_left _ hc')
      obtain ⟨more, hmore, hconserves'⟩ :=
        (batcherMachine_makes_iff.mp hmakes).conserves hconserves (hfits c List.mem_concat_self)
      refine ⟨groups ++ more, ?_, ?_⟩
      · have hbatches : batches (calls ++ [c]) =
            batches calls ++ c.result.toList.filter (· ≠ []) := by
          simp [batches]
        rw [hbatches]
        exact List.rel_append hgroups hmore
      · have hadded : added (calls ++ [c]) = added calls ++ c.event.messages := by
          simp [added]
        rw [hadded, List.flatten_append]
        exact hconserves'

/-- Every batch returned can be read back, and the messages read, followed by those pending,
are the messages added; the current size and the statistics agree with them. -/
theorem batched_messages_conserved {maxBatchSize maxMessages : UInt64}
    {calls : List BatcherCall} {b : MessageBatcher}
    (h : (batcherMachine checks).Run (MessageBatcher.new maxBatchSize maxMessages) calls b)
    (hfits : ∀ c ∈ calls, FitsLengths checks c) :
    (∃ groups, List.Forall₂ (fun batch group => unbatch batch = some (.ok group))
        (batches calls) groups ∧ groups.flatten ++ b.pending = added calls) ∧
      b.currentSize.toNat = (b.pending.map List.length).sum ∧
      b.stats.messagesBatched + UInt64.ofNat b.pendingCount = UInt64.ofNat (added calls).length ∧
      ((added calls).length < 2 ^ 64 →
        b.stats.messagesBatched.toNat + b.pendingCount = (added calls).length) := by
  obtain ⟨groups, hgroups, hconserves⟩ := run_conserves h hfits
  have htotal : (added calls).length = groups.flatten.length + b.pending.length := by
    rw [← hconserves.order, List.length_append]
  refine ⟨⟨groups, hgroups, hconserves.order⟩, hconserves.size, ?_, ?_⟩
  · rw [hconserves.count, htotal, UInt64.ofNat_add]
    rfl
  · intro hlt
    have hsent : (UInt64.ofNat groups.flatten.length).toNat = groups.flatten.length := by
      apply UInt64.toNat_ofNat_of_lt'
      exact Nat.lt_of_le_of_lt (Nat.le.intro htotal.symm) hlt
    rw [hconserves.count, hsent, htotal]
    rfl

/-- Two messages of which the second does not fit into the batch of the first. -/
theorem batched_messages_conserved_plain :
    ∃ calls b, (batcherMachine .on).Run (MessageBatcher.new 3 10) calls b ∧
      added calls = [[1, 2], [7, 8]] ∧ b.pending = [[7, 8]] ∧
      ∃ groups, List.Forall₂ (fun batch group => unbatch batch = some (.ok group))
        (batches calls) groups ∧ groups.flatten ++ b.pending = added calls := by
  have hrun := ((Machine.Run.start (M := batcherMachine .on)
    (s := MessageBatcher.new 3 10)).of_step (e := .addMessage [1, 2]) rfl).of_step
      (e := .addMessage [7, 8]) rfl
  have hconserved := batched_messages_conserved hrun ?_
  · exact ⟨_, _, hrun, rfl, rfl, hconserved.1⟩
  · intro c hc
    rcases List.mem_append.mp hc with hc | hc
    · obtain rfl := List.mem_singleton.mp hc
      exact ⟨by decide, by decide⟩
    · obtain rfl := List.mem_singleton.mp hc
      exact ⟨by decide, by decide⟩

end SilverNetwork
