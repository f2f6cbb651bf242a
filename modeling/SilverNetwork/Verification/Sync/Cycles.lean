import SilverNetwork.Verification.Sync.Semantics

/-! How often a machine can download transactions. No operation of a complete cycle removes
the cycle's request, so each cycle takes one place under the request limit for good. -/

namespace SilverNetwork

open StateSync

variable {P : Platform} {checks : OverflowChecks}

/-- A download started, answered in full and applied. -/
inductive CompleteCycle (checks : OverflowChecks) : StateSync P → StateSync P → Prop where
  | mk {s started answered applied : StateSync P} (fromSequence toSequence peer t₁ t₂
      transactions answerer order emitted) (hrange : fromSequence ≤ toSequence)
      (hstart : syncStep checks s (.startTransactionDownload fromSequence toSequence peer t₁ t₂) =
        some (.unit (.ok ()), started))
      (hanswer : syncStep checks started (.handleTransactions transactions answerer order) =
        some (.action (.ok (.applyTransactions emitted)), answered))
      (happly : syncStep checks answered (.completeTransactionApplication toSequence) =
        some (.unit (.ok ()), applied)) :
      CompleteCycle checks s applied

/-- Complete cycles one after the other, with the state at the end of each. -/
inductive Cycles (checks : OverflowChecks) (s : StateSync P) :
    List (StateSync P) → StateSync P → Prop where
  | start : Cycles checks s [] s
  | cycle {ends t u} : Cycles checks s ends t → CompleteCycle checks t u →
      Cycles checks s (ends ++ [u]) u

/-- Starting a transaction download would succeed. -/
def StartsOk (checks : OverflowChecks) (s : StateSync P) (fromSequence toSequence : UInt64)
    (peer : P.PeerId) (t₁ t₂ : Instant) : Prop :=
  ∃ next, s.startTransactionDownload checks fromSequence toSequence peer t₁ t₂ =
    some (.ok (), next)

/-- One more transaction request fits under the limit, and an id is left for it. -/
def HasRoom (checks : OverflowChecks) (s : StateSync P) : Prop :=
  s.pendingTransactionRequests.len < s.maxConcurrentRequests.toNat ∧
    (checks.add s.nextRequestId 1).isSome = true

theorem startsOk_iff_hasRoom (s : StateSync P) (fromSequence toSequence : UInt64)
    (peer : P.PeerId) (t₁ t₂ : Instant) :
    StartsOk checks s fromSequence toSequence peer t₁ t₂ ↔ HasRoom checks s := by
  unfold StartsOk HasRoom startTransactionDownload requestTransactions
  by_cases hroom : s.pendingTransactionRequests.len < s.maxConcurrentRequests.toNat
  · have hnot : ¬ s.maxConcurrentRequests.toNat ≤ s.pendingTransactionRequests.len :=
      Nat.not_le.mpr hroom
    cases hadd : checks.add s.nextRequestId 1 with
    | none => simp [hnot, hadd]
    | some next => simp [hnot, hroom, hadd]
  · have hfull : s.maxConcurrentRequests.toNat ≤ s.pendingTransactionRequests.len :=
      Nat.le_of_not_lt hroom
    simp [hroom, hfull]

/-- Each of `n` finished cycles still has its request pending, under the ids below `n`. -/
structure Leaked (maximum : UInt64) (n : ℕ) (s : StateSync P) : Prop where
  limit : s.maxConcurrentRequests = maximum
  pending : s.pendingTransactionRequests.len = n
  nextId : s.nextRequestId.toNat = n
  older : ∀ id ∈ s.pendingTransactionRequests, id.toNat < n
  room : n ≤ maximum.toNat

theorem leaked_withConfig (timeout : Duration) (maximum : UInt64) :
    Leaked maximum 0 (withConfig (P := P) timeout maximum) where
  limit := rfl
  pending := rfl
  nextId := rfl
  older id h := (AList.notMem_empty id h).elim
  room := Nat.zero_le _

/-- A cycle leaves the pending requests as starting its download left them. -/
theorem CompleteCycle.requested {s u : StateSync P} (h : CompleteCycle checks s u) :
    s.pendingTransactionRequests.len < s.maxConcurrentRequests.toNat ∧
      u.maxConcurrentRequests = s.maxConcurrentRequests ∧
      checks.add s.nextRequestId 1 = some u.nextRequestId ∧
      ∃ request, u.pendingTransactionRequests =
        s.pendingTransactionRequests.insert s.nextRequestId request := by
  obtain ⟨_, _, _, _, _, _, _, _, _, _, hstart, hanswer, happly⟩ := h
  cases syncStep_rule hstart with
  | transactionsRequested _ _ _ _ _ next hroom hnext =>
      cases syncStep_rule hanswer with
      | transactionsComplete =>
          cases syncStep_rule happly with
          | transactionsApplied => exact ⟨hroom, rfl, hnext, _, rfl⟩

theorem CompleteCycle.pending_ne_empty {s u : StateSync P} (h : CompleteCycle checks s u) :
    u.pendingTransactionRequests ≠ ∅ := by
  obtain ⟨_, _, _, request, hpending⟩ := h.requested
  rw [hpending]
  exact HashMap.insert_ne_empty _ _ _

theorem Leaked.cycle {maximum : UInt64} {n : ℕ} {s u : StateSync P} (h : Leaked maximum n s)
    (hcycle : CompleteCycle checks s u) : Leaked maximum (n + 1) u := by
  obtain ⟨hroom, hmaximum, hnext, request, hpending⟩ := hcycle.requested
  have hlt : n < maximum.toNat := by
    rwa [h.pending, h.limit] at hroom
  have hnew : s.nextRequestId ∉ s.pendingTransactionRequests := by
    intro hmem
    have := h.older _ hmem
    have := h.nextId
    omega
  have hid : u.nextRequestId.toNat = n + 1 := by
    have hbound := maximum.toNat_lt
    rw [OverflowChecks.add_eq_some hnext, UInt64.toNat_add, h.nextId]
    exact Nat.mod_eq_of_lt (by simp only [UInt64.reduceToNat]; omega)
  refine ⟨hmaximum.trans h.limit, ?_, hid, ?_, hlt⟩
  · rw [hpending, HashMap.len_insert_of_notMem hnew, h.pending]
  · intro id hmem
    rw [hpending, AList.mem_insert] at hmem
    rcases hmem with rfl | hmem
    · have hid' := h.nextId
      omega
    · have hbelow := h.older id hmem
      omega

theorem Cycles.leaked {timeout : Duration} {maximum : UInt64} {ends : List (StateSync P)}
    {t : StateSync P} (h : Cycles checks (withConfig timeout maximum) ends t) :
    Leaked maximum ends.length t := by
  induction h with
  | start => exact leaked_withConfig timeout maximum
  | cycle _ hcycle ih =>
      rw [List.length_append, List.length_singleton]
      exact ih.cycle hcycle

theorem Cycles.eq_of_nil {s t : StateSync P} {ends : List (StateSync P)}
    (h : Cycles checks s ends t) (hends : ends = []) : t = s := by
  cases h with
  | start => rfl
  | cycle => simp at hends

theorem Cycles.pending_ne_empty {s t : StateSync P} {ends : List (StateSync P)}
    (h : Cycles checks s ends t) : ∀ u ∈ ends, u.pendingTransactionRequests ≠ ∅ := by
  induction h with
  | start => simp
  | cycle _ hcycle ih =>
      exact List.forall_mem_append.mpr
        ⟨ih, List.forall_mem_singleton.mpr hcycle.pending_ne_empty⟩

/-- With ids to spare, there is room exactly while the limit exceeds the cycles finished. -/
theorem Leaked.hasRoom_iff {maximum : UInt64} {n : ℕ} {s : StateSync P}
    (h : Leaked maximum n s) (checks : OverflowChecks) :
    HasRoom checks s ↔ n < maximum.toNat := by
  rw [HasRoom, h.limit, h.pending]
  apply and_iff_left_of_imp
  intro hlt
  have hbound := maximum.toNat_lt
  have hadd : checks.add s.nextRequestId 1 = some (s.nextRequestId + 1) := by
    apply checks.add_of_lt
    rw [h.nextId]
    simp only [UInt64.reduceToNat]
    omega
  rw [hadd]
  rfl

/-- Whatever machine the cycles start from, requests stop being pending and the next
download starts exactly when no cycle has been completed and the machine has room. A new
machine has room, and fills up after as many cycles as it may have requests. -/
theorem cycles_release_requests_iff {s t : StateSync P} {ends : List (StateSync P)}
    (h : Cycles checks s ends t) (fromSequence toSequence : UInt64) (peer : P.PeerId)
    (t₁ t₂ : Instant) :
    ((StartsOk checks t fromSequence toSequence peer t₁ t₂ ∧
        ∀ u ∈ ends, u.pendingTransactionRequests = ∅) ↔ ends = [] ∧ HasRoom checks s) ∧
      ∀ timeout maximum, s = withConfig timeout maximum → 1 ≤ maximum →
        HasRoom checks s ∧
          (StartsOk checks t fromSequence toSequence peer t₁ t₂ ↔
            ends.length < maximum.toNat) := by
  rw [startsOk_iff_hasRoom]
  refine ⟨?_, ?_⟩
  · constructor
    · rintro ⟨hroom, hempty⟩
      have hends : ends = [] := by
        apply List.eq_nil_iff_forall_not_mem.mpr
        intro u hu
        exact h.pending_ne_empty u hu (hempty u hu)
      rw [h.eq_of_nil hends] at hroom
      exact ⟨hends, hroom⟩
    · rintro ⟨rfl, hroom⟩
      rw [h.eq_of_nil rfl]
      exact ⟨hroom, by simp⟩
  · rintro timeout maximum rfl hmaximum
    have hpositive : 0 < maximum.toNat := UInt64.le_iff_toNat_le.mp hmaximum
    have hnew := (leaked_withConfig (P := P) timeout maximum).hasRoom_iff checks
    exact ⟨hnew.mpr hpositive, h.leaked.hasRoom_iff checks⟩

/-- A machine of the given request limit after one cycle over the range from 1 to 1. -/
def afterCycle (maximum : UInt64) : StateSync .plain :=
  { withConfig 30 maximum with
    state := .synced 1
    pendingTransactionRequests := (∅ : HashMap _ _).insert 0 ⟨0, 1, 1, 0, 0, 0⟩
    nextRequestId := 1 }

theorem cycles_afterCycle {maximum : UInt64} (h : 0 < maximum.toNat) :
    Cycles .on (withConfig (P := .plain) 30 maximum) [afterCycle maximum]
      (afterCycle maximum) := by
  have hstart := (SyncStep.transactionsRequested (withConfig (P := .plain) 30 maximum)
    1 1 0 0 0 1 h (OverflowChecks.zero_add_one .on)).execution
  exact .cycle .start
    (.mk 1 1 0 0 0 [7] 0 (.stored ℕ) [7] (by decide) hstart rfl rfl)

/-- After one cycle under a limit of two requests a second download still starts. -/
theorem cycles_release_requests_plain :
    (1 : UInt64) ≤ 2 ∧ StartsOk .on (afterCycle 2) 2 2 0 0 0 := by
  have hcycles := cycles_afterCycle (show 0 < (2 : UInt64).toNat by decide)
  obtain ⟨_, hnew⟩ := cycles_release_requests_iff hcycles 2 2 0 0 0
  obtain ⟨_, hstarts⟩ := hnew 30 2 rfl (by decide)
  exact ⟨by decide, hstarts.mpr (by decide)⟩

/-- After one cycle under a limit of one request, that request is still pending and the
next download does not start. -/
theorem answered_request_stays_pending :
    Cycles .on (withConfig 30 1) [afterCycle 1] (afterCycle 1) ∧
      (afterCycle 1).pendingTransactionRequests ≠ ∅ ∧
      ¬ StartsOk .on (afterCycle 1) 2 2 0 0 0 := by
  refine ⟨cycles_afterCycle (by decide), HashMap.insert_ne_empty _ _ _, ?_⟩
  rintro ⟨next, hnext⟩
  simp [startTransactionDownload, requestTransactions, afterCycle, withConfig, HashMap.len] at hnext

end SilverNetwork
