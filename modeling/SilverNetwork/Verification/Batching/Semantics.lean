import SilverNetwork.Model.Compression

/-! Local rules of the batcher, one for each way that a call can end, with the guards that
select it and the whole next state. -/

namespace SilverNetwork

open MessageBatcher

variable {checks : OverflowChecks}

/-- One completed call. A message is held back, fills the batch, or displaces it. -/
inductive BatcherStep (checks : OverflowChecks) :
    MessageBatcher → BatcherEvent → Option Bytes → MessageBatcher → Prop where
  | held (b : MessageBatcher) (m : Bytes) (size)
      (hfits : b.exceeds checks (UInt64.ofNat m.length) = some false)
      (hsize : checks.add b.currentSize (UInt64.ofNat m.length) = some size)
      (hopen : isReady { b with pending := b.pending ++ [m], currentSize := size } = false) :
      BatcherStep checks b (.addMessage m) none
        { b with pending := b.pending ++ [m], currentSize := size }
  | filled (b : MessageBatcher) (m : Bytes) (size stats)
      (hfits : b.exceeds checks (UInt64.ofNat m.length) = some false)
      (hsize : checks.add b.currentSize (UInt64.ofNat m.length) = some size)
      (hready : isReady { b with pending := b.pending ++ [m], currentSize := size } = true)
      (hstats : b.stats.countBatch checks (b.pending ++ [m]).length = some stats) :
      BatcherStep checks b (.addMessage m) (some (serialize (b.pending ++ [m])))
        { b with pending := [], currentSize := 0, stats }
  | displaced (b : MessageBatcher) (m : Bytes) (stats)
      (hfull : b.exceeds checks (UInt64.ofNat m.length) = some true)
      (hstats : b.stats.countBatch checks b.pending.length = some stats) :
      BatcherStep checks b (.addMessage m) (some (serialize b.pending))
        { b with pending := [m], currentSize := UInt64.ofNat m.length, stats }
  | flushed (b : MessageBatcher) (stats) (hpending : b.pending ≠ [])
      (hstats : b.stats.countBatch checks b.pending.length = some stats) :
      BatcherStep checks b .flush (some (serialize b.pending))
        { b with pending := [], currentSize := 0, stats }
  | nothingPending (b : MessageBatcher) (hpending : b.pending = []) :
      BatcherStep checks b .flush (some []) b

/-- A batch is exceeded only if it holds something. -/
theorem pending_ne_nil_of_exceeds {b : MessageBatcher} {size : UInt64}
    (h : b.exceeds checks size = some true) : b.pending ≠ [] := by
  intro hpending
  simp [exceeds, hpending] at h

theorem flush_eq_some_iff {b b' : MessageBatcher} {batch : Bytes} (hpending : b.pending ≠ []) :
    b.flush checks = some (batch, b') ↔
      ∃ stats, b.stats.countBatch checks b.pending.length = some stats ∧
        batch = serialize b.pending ∧ b' = { b with pending := [], currentSize := 0, stats } := by
  rw [flush, if_neg hpending, Option.map_eq_some_iff]
  simp only [Prod.mk.injEq, eq_comm]

theorem BatcherStep.execution {b b' : MessageBatcher} {e : BatcherEvent} {r : Option Bytes}
    (h : BatcherStep checks b e r b') : batcherStep checks b e = some (r, b') := by
  cases h with
  | held m size hfits hsize hopen => simp [batcherStep, addMessage, hfits, hsize, hopen]
  | filled m size stats hfits hsize hready hstats =>
      have hflush : flush checks { b with pending := b.pending ++ [m], currentSize := size } =
          some (serialize (b.pending ++ [m]), { b with pending := [], currentSize := 0, stats }) :=
        (flush_eq_some_iff (by simp)).mpr ⟨stats, hstats, rfl, rfl⟩
      simp [batcherStep, addMessage, hfits, hsize, hready, hflush]
  | displaced m stats hfull hstats =>
      have hflush := (flush_eq_some_iff (pending_ne_nil_of_exceeds hfull)).mpr
        ⟨stats, hstats, rfl, rfl⟩
      simp [batcherStep, addMessage, hfull, hflush]
  | flushed stats hpending hstats =>
      have hflush := (flush_eq_some_iff hpending).mpr ⟨stats, hstats, rfl, rfl⟩
      simp [batcherStep, hflush]
  | nothingPending hpending => simp [batcherStep, flush, hpending]

theorem batcherStep_rule {b b' : MessageBatcher} {e : BatcherEvent} {r : Option Bytes}
    (h : batcherStep checks b e = some (r, b')) : BatcherStep checks b e r b' := by
  cases e with
  | addMessage m =>
      simp only [batcherStep, addMessage, Option.bind_eq_bind, Option.bind_eq_some_iff] at h
      obtain ⟨full, hfull, h⟩ := h
      cases full with
      | true =>
          simp only [if_true, Option.bind_eq_some_iff] at h
          obtain ⟨⟨batch, b₁⟩, hflush, heq⟩ := h
          obtain ⟨stats, hstats, rfl, rfl⟩ :=
            (flush_eq_some_iff (pending_ne_nil_of_exceeds hfull)).mp hflush
          obtain ⟨rfl, rfl⟩ := Prod.mk.inj (Option.some.inj heq)
          exact .displaced b m stats hfull hstats
      | false =>
          simp only [Bool.false_eq_true, if_false, Option.bind_eq_some_iff] at h
          obtain ⟨size, hsize, h⟩ := h
          split at h
          · rename_i hready
            obtain ⟨⟨batch, b₁⟩, hflush, heq⟩ := Option.map_eq_some_iff.mp h
            obtain ⟨stats, hstats, rfl, rfl⟩ := (flush_eq_some_iff (by simp)).mp hflush
            obtain ⟨rfl, rfl⟩ := Prod.mk.inj heq
            exact .filled b m size stats hfull hsize hready hstats
          · rename_i hopen
            obtain ⟨rfl, rfl⟩ := Prod.mk.inj (Option.some.inj h)
            exact .held b m size hfull hsize (by simpa using hopen)
  | flush =>
      obtain ⟨⟨batch, b₁⟩, hflush, heq⟩ := Option.map_eq_some_iff.mp h
      obtain ⟨rfl, rfl⟩ := Prod.mk.inj heq
      by_cases hpending : b.pending = []
      · rw [flush, if_pos hpending] at hflush
        obtain ⟨rfl, rfl⟩ := Prod.mk.inj (Option.some.inj hflush)
        exact .nothingPending b hpending
      · obtain ⟨stats, hstats, rfl, rfl⟩ := (flush_eq_some_iff hpending).mp hflush
        exact .flushed b stats hpending hstats

/-- The calls that the batcher completes are exactly those that a rule allows. -/
theorem batcherMachine_makes_iff {c : BatcherCall} :
    (batcherMachine checks).Makes c ↔ BatcherStep checks c.pre c.event c.result c.post :=
  ⟨batcherStep_rule, BatcherStep.execution⟩

end SilverNetwork
