import SilverNetwork.Verification.Batching.Conservation

/-! The limits of the batcher. What is in a batch keeps to them; what waits stays below them
except after a message that displaces the pending batch and fills the next one at once. -/

namespace SilverNetwork

open MessageBatcher

variable {checks : OverflowChecks}

/-- Only `new` sets the limits. -/
theorem BatcherStep.limits_eq {b b' : MessageBatcher} {e : BatcherEvent} {r : Option Bytes}
    (h : BatcherStep checks b e r b') :
    b'.maxBatchSize = b.maxBatchSize ∧ b'.maxMessages = b.maxMessages := by
  cases h with
  | _ => exact ⟨rfl, rfl⟩

theorem run_limits_eq {b b' : MessageBatcher} {calls : List BatcherCall}
    (h : (batcherMachine checks).Run b calls b') :
    b'.maxBatchSize = b.maxBatchSize ∧ b'.maxMessages = b.maxMessages := by
  apply h.invariant ⟨rfl, rfl⟩
  intro c hmakes hpre
  obtain ⟨hsize, hmessages⟩ := (batcherMachine_makes_iff.mp hmakes).limits_eq
  exact ⟨hsize.trans hpre.1, hmessages.trans hpre.2⟩

/-! ## What waits -/

/-- The pending batch has reached neither limit. -/
structure MessageBatcher.BelowLimits (b : MessageBatcher) : Prop where
  size : b.currentSize < b.maxBatchSize
  count : b.pendingCount < b.maxMessages.toNat

/-- The call adds a message of the maximum batch size or more, which does not fit into the
batch that is pending. -/
def DisplacesByFull (checks : OverflowChecks) (c : BatcherCall) : Prop :=
  ∃ m, c.event = .addMessage m ∧ c.pre.exceeds checks (UInt64.ofNat m.length) = some true ∧
    c.pre.maxBatchSize ≤ UInt64.ofNat m.length

theorem isReady_eq_false_iff {b : MessageBatcher} : b.isReady = false ↔ b.BelowLimits := by
  simp only [isReady, Bool.or_eq_false_iff, decide_eq_false_iff_not, UInt64.not_le, not_le]
  exact ⟨fun h => ⟨h.1, h.2⟩, fun h => ⟨h.size, h.count⟩⟩

/-- A batcher with positive limits is below them when nothing is pending. -/
theorem MessageBatcher.BelowLimits.cleared {b : MessageBatcher} (h : b.BelowLimits)
    (stats : BatchStats) :
    BelowLimits { b with pending := [], currentSize := 0, stats } := by
  refine ⟨?_, Nat.lt_of_le_of_lt (Nat.zero_le _) h.count⟩
  exact UInt64.lt_iff_toNat_lt.mpr
    (Nat.lt_of_le_of_lt (Nat.zero_le _) (UInt64.lt_iff_toNat_lt.mp h.size))

theorem not_displacesByFull_of_fits {b b' : MessageBatcher} {m : Bytes} {r : Option Bytes}
    (hfits : b.exceeds checks (UInt64.ofNat m.length) = some false) :
    ¬ DisplacesByFull checks ⟨b, .addMessage m, r, b'⟩ := by
  rintro ⟨m', hm', hexceeds, -⟩
  obtain rfl := BatcherEvent.addMessage.inj hm'
  simp [hfits] at hexceeds

theorem not_displacesByFull_flush {b b' : MessageBatcher} {r : Option Bytes} :
    ¬ DisplacesByFull checks ⟨b, .flush, r, b'⟩ := by
  rintro ⟨m, hm, -⟩
  cases hm

/-- The readiness check is not made after a message has displaced the pending batch. -/
theorem BatcherStep.belowLimits_iff {b b' : MessageBatcher} {e : BatcherEvent} {r : Option Bytes}
    (hstep : BatcherStep checks b e r b') (h : b.BelowLimits) :
    b'.BelowLimits ↔ ¬ DisplacesByFull checks ⟨b, e, r, b'⟩ := by
  cases hstep with
  | held m size hfits hsize hopen =>
      exact iff_of_true (isReady_eq_false_iff.mp hopen) (not_displacesByFull_of_fits hfits)
  | filled m size stats hfits hsize hready hstats =>
      exact iff_of_true (h.cleared stats) (not_displacesByFull_of_fits hfits)
  | displaced m stats hfull hstats =>
      have hwaiting : 1 ≤ b.pending.length :=
        List.length_pos_iff.mpr (pending_ne_nil_of_exceeds hfull)
      constructor
      · rintro hbelow ⟨m', hm', -, hlarge⟩
        obtain rfl := BatcherEvent.addMessage.inj hm'
        exact absurd hbelow.size (UInt64.not_lt.mpr hlarge)
      · intro hsmall
        refine ⟨UInt64.not_le.mp fun hlarge => hsmall ⟨m, rfl, hfull, hlarge⟩, ?_⟩
        exact Nat.lt_of_le_of_lt hwaiting h.count
  | flushed stats hpending hstats => exact iff_of_true (h.cleared stats) not_displacesByFull_flush
  | nothingPending hpending => exact iff_of_true h not_displacesByFull_flush

/-- A message that fills a batch by itself leaves with the call that adds it, unless it
displaces a batch and that is what the call returns. -/
theorem BatcherStep.full_message {b b' : MessageBatcher} {m : Bytes} {r : Option Bytes}
    (hstep : BatcherStep checks b (.addMessage m) r b')
    (hfull : b.maxBatchSize ≤ UInt64.ofNat m.length)
    (hroom : b.currentSize.toNat + (UInt64.ofNat m.length).toNat < 2 ^ 64) :
    r = some (serialize (b.pending ++ [m])) ∧ b'.pending = [] ↔
      ¬ DisplacesByFull checks ⟨b, .addMessage m, r, b'⟩ := by
  cases hstep with
  | held _ size hfits hsize hopen =>
      have hle : (UInt64.ofNat m.length).toNat ≤ size.toNat := by
        rw [OverflowChecks.toNat_of_add hsize fun _ => hroom]
        exact Nat.le_add_left _ _
      have hbelow := UInt64.lt_iff_toNat_lt.mp (isReady_eq_false_iff.mp hopen).size
      have hlarge := UInt64.le_iff_toNat_le.mp hfull
      exact absurd (hlarge.trans hle) (Nat.not_le.mpr hbelow)
  | filled _ size stats hfits hsize hready hstats =>
      exact iff_of_true ⟨rfl, rfl⟩ (not_displacesByFull_of_fits hfits)
  | displaced _ stats hexceeds hstats =>
      refine iff_of_false ?_ ?_
      · rintro ⟨-, hnone⟩
        exact List.cons_ne_nil _ _ hnone
      · exact not_not_intro ⟨m, rfl, hexceeds, hfull⟩

/-- The pending batch stays below both limits over a whole run exactly when no message of the
maximum batch size or more displaces a pending batch. Exactly such a message is itself left
waiting by the call that adds it. -/
theorem below_limits_iff {maxBatchSize maxMessages : UInt64} (hsize : 1 ≤ maxBatchSize)
    (hmessages : 1 ≤ maxMessages) {calls : List BatcherCall} {b : MessageBatcher}
    (h : (batcherMachine checks).Run (MessageBatcher.new maxBatchSize maxMessages) calls b) :
    ((∀ c ∈ calls, c.post.BelowLimits) ↔ ∀ c ∈ calls, ¬ DisplacesByFull checks c) ∧
      ∀ c ∈ calls, ∀ m, c.event = .addMessage m → maxBatchSize ≤ UInt64.ofNat m.length →
        c.pre.currentSize.toNat + (UInt64.ofNat m.length).toNat < 2 ^ 64 →
        (c.result = some (serialize (c.pre.pending ++ [m])) ∧ c.post.pending = [] ↔
          ¬ DisplacesByFull checks c) := by
  refine ⟨?_, ?_⟩
  · apply h.forall_post_iff
    · exact ⟨UInt64.lt_iff_toNat_lt.mpr (UInt64.le_iff_toNat_le.mp hsize),
        UInt64.le_iff_toNat_le.mp hmessages⟩
    · intro c hmakes hpre
      exact (batcherMachine_makes_iff.mp hmakes).belowLimits_iff hpre
  · intro c hc m he hfull hroom
    obtain ⟨before, hrun, -⟩ := h.before hc
    have hstep := batcherMachine_makes_iff.mp (h.makes hc)
    have hlimit : c.pre.maxBatchSize = maxBatchSize := (run_limits_eq hrun).1
    obtain ⟨pre, e, r, post⟩ := c
    obtain rfl : e = .addMessage m := he
    exact hstep.full_message (hlimit ▸ hfull) hroom

/-- Messages that share a batch, and one that fills the empty batch by itself. -/
theorem below_limits_iff_plain :
    ∃ calls b, (batcherMachine .on).Run (MessageBatcher.new 3 10) calls b ∧
      calls.map (·.result) = [none, some (serialize [[1], [7, 8]]), some (serialize [[1, 2, 3]])] ∧
      ∀ c ∈ calls, c.post.BelowLimits := by
  have hrun := (((Machine.Run.start (M := batcherMachine .on)
    (s := MessageBatcher.new 3 10)).of_step (e := .addMessage [1]) rfl).of_step
      (e := .addMessage [7, 8]) rfl).of_step (e := .addMessage [1, 2, 3]) rfl
  refine ⟨_, _, hrun, rfl, (below_limits_iff (by decide) (by decide) hrun).1.mpr ?_⟩
  simp [DisplacesByFull, exceeds, new]

/-- A message of exactly the maximum size displaces a smaller one and is left waiting. -/
theorem full_batch_waits :
    ∃ calls b, (batcherMachine .on).Run (MessageBatcher.new 2 10) calls b ∧
      calls.map (·.event) = [.addMessage [1], .addMessage [7, 8]] ∧
      calls.map (·.result) = [none, some (serialize [[1]])] ∧
      b.pending = [[7, 8]] ∧ b.currentSize = 2 ∧ ¬ b.BelowLimits := by
  have hrun := ((Machine.Run.start (M := batcherMachine .on)
    (s := MessageBatcher.new 2 10)).of_step (e := .addMessage [1]) rfl).of_step
      (e := .addMessage [7, 8]) rfl
  refine ⟨_, _, hrun, rfl, rfl, rfl, rfl, ?_⟩
  intro hbelow
  exact absurd hbelow.size (by decide)

/-! ## What is sent -/

/-- The bytes of the messages, without their headers. -/
def payloadSize (messages : List Bytes) : ℕ := (messages.map List.length).sum

/-- The messages may share a batch under the given limits. -/
structure FitsLimits (maxBatchSize maxMessages : UInt64) (messages : List Bytes) : Prop where
  payload : messages.length ≤ 1 ∨ payloadSize messages ≤ maxBatchSize.toNat
  count : messages.length ≤ max 1 maxMessages.toNat

/-- What is pending may be sent, and its size is known. -/
structure BatcherFits (b : MessageBatcher) : Prop where
  size : b.currentSize.toNat = payloadSize b.pending
  limits : FitsLimits b.maxBatchSize b.maxMessages b.pending

theorem fitsLimits_of_short {maxBatchSize maxMessages : UInt64} {messages : List Bytes}
    (h : messages.length ≤ 1) : FitsLimits maxBatchSize maxMessages messages :=
  ⟨.inl h, h.trans (Nat.le_max_left _ _)⟩

theorem payloadSize_concat (messages : List Bytes) (m : Bytes) :
    payloadSize (messages ++ [m]) = payloadSize messages + m.length := by
  simp [payloadSize]

/-- Each message costs four bytes more than its own, and so does the batch. -/
theorem length_serialize (messages : List Bytes) :
    (serialize messages).length = 4 + (messages.map fun m => 4 + m.length).sum := by
  simp [serialize, lengthBytes, List.length_flatMap]

/-- A message that does not exceed the batch is stored with what is pending. -/
theorem BatcherFits.store {b : MessageBatcher} (h : BatcherFits b) {m : Bytes} {size : UInt64}
    (hfits : b.exceeds checks (UInt64.ofNat m.length) = some false)
    (hsize : checks.add b.currentSize (UInt64.ofNat m.length) = some size)
    (hroom : payloadSize (b.pending ++ [m]) < 2 ^ 64) :
    BatcherFits { b with pending := b.pending ++ [m], currentSize := size } := by
  rw [payloadSize_concat] at hroom
  have hlength : (UInt64.ofNat m.length).toNat = m.length := by
    apply UInt64.toNat_ofNat_of_lt'
    exact Nat.lt_of_le_of_lt (Nat.le_add_left _ _) hroom
  have hexact : size.toNat = payloadSize b.pending + m.length := by
    rw [OverflowChecks.add_eq_some hsize, UInt64.toNat_add, h.size, hlength]
    exact Nat.mod_eq_of_lt hroom
  refine ⟨hexact.trans (payloadSize_concat _ _).symm, ?_⟩
  by_cases hpending : b.pending = []
  · exact fitsLimits_of_short (by simp [hpending])
  · rw [exceeds, if_neg hpending, hsize, Option.map_some] at hfits
    simp only [Option.some.injEq, Bool.or_eq_false_iff, decide_eq_false_iff_not, not_le] at hfits
    obtain ⟨hsmall, hfew⟩ := hfits
    rw [UInt64.not_lt, UInt64.le_iff_toNat_le, hexact, ← payloadSize_concat] at hsmall
    refine ⟨.inr hsmall, ?_⟩
    rw [List.length_append, List.length_singleton]
    exact (Nat.succ_le_of_lt hfew).trans (Nat.le_max_right _ _)

theorem BatcherFits.cleared {b : MessageBatcher} (stats : BatchStats) :
    BatcherFits { b with pending := [], currentSize := 0, stats } :=
  ⟨rfl, fitsLimits_of_short (Nat.zero_le _)⟩

/-- What a call sends, and what it leaves pending, may each share a batch. -/
theorem BatcherStep.fits {b b' : MessageBatcher} {e : BatcherEvent} {r : Option Bytes}
    (hstep : BatcherStep checks b e r b') (h : BatcherFits b)
    (hroom : payloadSize (b.pending ++ e.messages) < 2 ^ 64) :
    BatcherFits b' ∧ ∀ batch, r = some batch → batch ≠ [] →
      ∃ messages, batch = serialize messages ∧ messages ≠ [] ∧
        b.pending ++ e.messages = messages ++ b'.pending ∧
        FitsLimits b.maxBatchSize b.maxMessages messages := by
  cases hstep with
  | held m size hfits hsize hopen => exact ⟨h.store hfits hsize hroom, nofun⟩
  | filled m size stats hfits hsize hready hstats =>
      refine ⟨.cleared stats, ?_⟩
      rintro _ ⟨⟩ -
      exact ⟨_, rfl, by simp, (List.append_nil _).symm,
        (h.store hfits hsize hroom).limits⟩
  | displaced m stats hfull hstats =>
      have hle : m.length ≤ payloadSize (b.pending ++ [m]) := by
        rw [payloadSize_concat]
        exact Nat.le_add_left _ _
      have hlength : (UInt64.ofNat m.length).toNat = m.length := by
        apply UInt64.toNat_ofNat_of_lt'
        exact Nat.lt_of_le_of_lt hle hroom
      refine ⟨⟨?_, fitsLimits_of_short le_rfl⟩, ?_⟩
      · simpa [payloadSize] using hlength
      · rintro _ ⟨⟩ -
        exact ⟨_, rfl, pending_ne_nil_of_exceeds hfull, rfl, h.limits⟩
  | flushed stats hpending hstats =>
      refine ⟨.cleared stats, ?_⟩
      rintro _ ⟨⟩ -
      exact ⟨_, rfl, hpending, rfl, h.limits⟩
  | nothingPending hpending =>
      refine ⟨h, ?_⟩
      rintro _ ⟨⟩ hne
      exact absurd rfl hne

/-- Only a flush with nothing pending returns the empty byte string. -/
theorem BatcherStep.empty_iff {b b' : MessageBatcher} {e : BatcherEvent} {r : Option Bytes}
    (hstep : BatcherStep checks b e r b') : r = some [] ↔ e = .flush ∧ b.pending = [] := by
  cases hstep with
  | held | filled | displaced => simp [serialize_ne_nil]
  | flushed stats hpending hstats => simp [serialize_ne_nil, hpending]
  | nothingPending hpending => simp [hpending]

/-- Every batch that is sent holds a single message, or messages of at most the maximum size
together, and never more than the maximum number; its length is that of its messages with four
bytes for each of them and for their number. -/
theorem batches_within_limits {maxBatchSize maxMessages : UInt64} {calls : List BatcherCall}
    {b : MessageBatcher}
    (h : (batcherMachine checks).Run (MessageBatcher.new maxBatchSize maxMessages) calls b)
    (hroom : ∀ c ∈ calls, payloadSize (c.pre.pending ++ c.event.messages) < 2 ^ 64) :
    ∀ c ∈ calls, ∀ batch, c.result = some batch →
      (batch = [] ↔ c.event = .flush ∧ c.pre.pending = []) ∧
      (batch ≠ [] → ∃ messages, batch = serialize messages ∧ messages ≠ [] ∧
        c.pre.pending ++ c.event.messages = messages ++ c.post.pending ∧
        (messages.length = 1 ∨ payloadSize messages ≤ maxBatchSize.toNat) ∧
        messages.length ≤ max 1 maxMessages.toNat ∧
        batch.length = 4 + (messages.map fun m => 4 + m.length).sum ∧
        (messages.length < 2 ^ 32 → (∀ m ∈ messages, m.length < 2 ^ 32) →
          unbatch batch = some (.ok messages))) := by
  intro c hc batch hresult
  obtain ⟨before, hrun, -⟩ := h.before hc
  obtain ⟨hsizeLimit, hcountLimit⟩ := run_limits_eq hrun
  have hstep := batcherMachine_makes_iff.mp (h.makes hc)
  have hfits : BatcherFits c.pre := by
    refine h.invariant_pre ⟨rfl, fitsLimits_of_short (Nat.zero_le _)⟩ ?_ hc
    intro c' hc' hmakes hpre
    exact ((batcherMachine_makes_iff.mp hmakes).fits hpre (hroom c' hc')).1
  refine ⟨?_, ?_⟩
  · rw [← hstep.empty_iff, hresult, Option.some.injEq]
  · intro hne
    obtain ⟨messages, hbatch, hnonempty, hmoved, hlimits⟩ :=
      (hstep.fits hfits (hroom c hc)).2 batch hresult hne
    rw [hsizeLimit, hcountLimit] at hlimits
    have hone := List.length_pos_iff.mpr hnonempty
    refine ⟨messages, hbatch, hnonempty, hmoved, ?_, hlimits.count, ?_, ?_⟩
    · exact hlimits.payload.imp (fun hle => Nat.le_antisymm hle hone) id
    · rw [hbatch, length_serialize]
    · intro hcount hshort
      rw [hbatch]
      exact unbatch_serialize hcount hshort

/-- An oversized message between two small ones leaves alone. -/
theorem batches_within_limits_plain :
    ∃ calls b, (batcherMachine .on).Run (MessageBatcher.new 2 10) calls b ∧
      calls.map (·.result) = [none, some (serialize [[1]]), some (serialize [[4, 5, 6]])] ∧
      ∀ c ∈ calls, ∀ batch, c.result = some batch → batch ≠ [] →
        ∃ messages, batch = serialize messages ∧
          (messages.length = 1 ∨ payloadSize messages ≤ 2) ∧ messages.length ≤ 10 := by
  have hrun := (((Machine.Run.start (M := batcherMachine .on)
    (s := MessageBatcher.new 2 10)).of_step (e := .addMessage [1]) rfl).of_step
      (e := .addMessage [4, 5, 6]) rfl).of_step (e := .addMessage [9]) rfl
  refine ⟨_, _, hrun, rfl, ?_⟩
  intro c hc batch hresult hne
  obtain ⟨messages, hbatch, -, -, hsize, hcount, -⟩ :=
    (batches_within_limits hrun (by simp [payloadSize, BatcherEvent.messages, new]) c hc batch
      hresult).2 hne
  exact ⟨messages, hbatch, hsize, hcount⟩

/-- A flush with nothing pending returns the empty byte string, which lacks the four bytes that
a batch without messages would have. -/
theorem empty_flush_short :
    ∃ calls b, (batcherMachine .on).Run (MessageBatcher.new 10 10) calls b ∧
      calls.map (·.event) = [.flush] ∧ calls.map (·.result) = [some []] ∧
      ∀ messages : List Bytes,
        ([] : Bytes).length ≠ 4 + (messages.map fun m => 4 + m.length).sum := by
  have hrun := (Machine.Run.start (M := batcherMachine .on)
    (s := MessageBatcher.new 10 10)).of_step (e := .flush) rfl
  refine ⟨_, _, hrun, rfl, rfl, ?_⟩
  intro messages
  rw [List.length_nil]
  omega

end SilverNetwork
