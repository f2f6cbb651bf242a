import SilverNetwork.Foundations.RoundingOrder
import SilverNetwork.Verification.Sync.Ranges

/-! What the machine reports of its progress while a phase lasts. A download keeps what it has
stored, and the share that it reports is rounded to a float twice, which keeps the order. -/

namespace SilverNetwork

open StateSync

variable {P : Platform} {checks : OverflowChecks} {s t x : StateSync P} {e : SyncEvent P}
  {r : SyncResult P} {more : List (SyncCall P)} {fromSequence toSequence : UInt64}
  {startedAt : Instant}

/-! ## The store of a download -/

theorem len_le_storeTransactions (transactions : List P.Transaction)
    (store : HashMap P.TransactionDigest P.Transaction) :
    store.len ≤ (storeTransactions transactions store).len := by
  apply HashMap.len_le_of_subset
  intro k hk
  exact (KeyedStore.mem_store P.digest).mpr (.inr hk)

namespace SyncEvent

/-- The event is an answer to a request for transactions. -/
def answers : SyncEvent P → Bool
  | .handleTransactions _ _ _ => true
  | _ => false

end SyncEvent

/-- While a download lasts, nothing is taken from the store. -/
theorem SyncStep.len_stored_le (hstep : SyncStep checks s e r t)
    (hstate : s.state = .downloadingTransactions fromSequence toSequence startedAt)
    (hsame : t.state = s.state) :
    s.downloadedTransactions.len ≤ t.downloadedTransactions.len := by
  cases hstep with
  | alreadySyncing | snapshotUnknown | snapshotIncomplete | transactionLimit
  | transactionsRequested | timeoutsHandled => exact Nat.le_refl _
  | transactionsPartial transactions => exact len_le_storeTransactions transactions _
  | transactionsUnsolicited _ _ _ hnone => exact absurd hstate (hnone _ _ _)
  | _ => cases hsame.trans hstate

/-- A download that takes an answer and goes on has less than it expects. -/
theorem SyncStep.len_stored_lt {expected : ℕ} (hstep : SyncStep checks s e r t)
    (hstate : s.state = .downloadingTransactions fromSequence toSequence startedAt)
    (hsame : t.state = s.state)
    (hexpected : expectedCount checks fromSequence toSequence = some expected)
    (h : e.answers = true ∨ s.downloadedTransactions.len < expected) :
    t.downloadedTransactions.len < expected := by
  cases hstep with
  | alreadySyncing | snapshotUnknown | snapshotIncomplete | transactionLimit
  | transactionsRequested | timeoutsHandled => exact h.resolve_left nofun
  | transactionsPartial _ _ _ _ _ _ expected' hstate' hexpected' hfew =>
      obtain ⟨rfl, rfl, -⟩ := SyncState.downloadingTransactions.inj (hstate.symm.trans hstate')
      rw [hexpected, Option.some.injEq] at hexpected'
      rw [hexpected']
      exact hfew
  | transactionsUnsolicited _ _ _ hnone => exact absurd hstate (hnone _ _ _)
  | _ => cases hsame.trans hstate

theorem run_len_stored_le (hmore : (syncMachine P checks).Run s more x)
    (hsame : ∀ c ∈ more, c.post.state = s.state)
    (hstate : s.state = .downloadingTransactions fromSequence toSequence startedAt) :
    x.state = s.state ∧ s.downloadedTransactions.len ≤ x.downloadedTransactions.len := by
  induction hmore with
  | start => exact ⟨rfl, Nat.le_refl _⟩
  | @call more c _ hmakes ih =>
      obtain ⟨hpre, hlen⟩ := ih fun d hd => hsame d (List.mem_append_left _ hd)
      have hpost := hsame c List.mem_concat_self
      have hstep := (syncMachine_makes_iff.mp hmakes).len_stored_le (hpre.trans hstate)
        (hpost.trans hpre.symm)
      exact ⟨hpost, Nat.le_trans hlen hstep⟩

theorem run_len_stored_lt {expected : ℕ} (hmore : (syncMachine P checks).Run s more x)
    (hsame : ∀ c ∈ more, c.post.state = s.state)
    (hstate : s.state = .downloadingTransactions fromSequence toSequence startedAt)
    (hexpected : expectedCount checks fromSequence toSequence = some expected)
    (hanswered : ∃ c ∈ more, c.event.answers = true) :
    x.downloadedTransactions.len < expected := by
  induction hmore with
  | start =>
      obtain ⟨c, hc, -⟩ := hanswered
      cases hc
  | @call more c hrun hmakes ih =>
      have hearlier : ∀ d ∈ more, d.post.state = s.state :=
        fun d hd => hsame d (List.mem_append_left _ hd)
      have hpre := (run_len_stored_le hrun hearlier hstate).1
      have hpost := hsame c List.mem_concat_self
      apply (syncMachine_makes_iff.mp hmakes).len_stored_lt (hpre.trans hstate)
        (hpost.trans hpre.symm) hexpected
      obtain ⟨d, hd, hanswers⟩ := hanswered
      cases List.mem_append.mp hd with
      | inl hd => exact .inr (ih hearlier ⟨d, hd, hanswers⟩)
      | inr hd =>
          rw [List.mem_singleton] at hd
          exact .inl (hd ▸ hanswers)

/-! ## The share that is reported -/

/-- Outside of a download the phase alone says what the progress is. -/
theorem progress_of_state (hsame : x.state = s.state)
    (hstate : ∀ f t at_, s.state ≠ .downloadingTransactions f t at_) {p p' : SyncProgress}
    (hs : s.getProgress checks = some p) (hx : x.getProgress checks = some p') :
    p'.progress = p.progress := by
  unfold getProgress at hs hx
  rw [hsame] at hx
  cases hphase : s.state with
  | downloadingTransactions f t at_ => exact absurd hphase (hstate f t at_)
  | _ =>
      simp only [hphase] at hs hx
      rw [← Option.some.inj hs, ← Option.some.inj hx]

theorem getProgress_download
    (hstate : s.state = .downloadingTransactions fromSequence toSequence startedAt)
    {p : SyncProgress} (hs : s.getProgress checks = some p) :
    ∃ expected, expectedCount checks fromSequence toSequence = some expected ∧
      p.progress = (Binary64.div (Binary64.round s.downloadedTransactions.len)
        (Binary64.round expected)).min 1 := by
  rw [getProgress, hstate] at hs
  obtain ⟨expected, hexpected, rfl⟩ := Option.map_eq_some_iff.mp hs
  exact ⟨expected, hexpected, rfl⟩

/-- As long as the machine stays in a phase, the progress that it reports does not fall. -/
theorem progress_never_falls {p p' : SyncProgress} (hmore : (syncMachine P checks).Run s more x)
    (hsame : ∀ c ∈ more, c.post.state = s.state) (hs : s.getProgress checks = some p)
    (hx : x.getProgress checks = some p') :
    ∃ value value', p.progress = .finite value ∧ p'.progress = .finite value' ∧
      0 ≤ value ∧ value ≤ value' ∧ value' ≤ 1 := by
  obtain ⟨value, hvalue, hnonneg, -⟩ := getProgress_mem s hs
  obtain ⟨value', hvalue', -, hone⟩ := getProgress_mem x hx
  refine ⟨value, value', hvalue, hvalue', hnonneg, ?_, hone⟩
  have hlasts : x.state = s.state :=
    hmore.invariant_of_mem (I := fun y => y.state = s.state) rfl fun c hc _ _ => hsame c hc
  by_cases hdownload : ∃ f t at_, s.state = .downloadingTransactions f t at_
  · obtain ⟨fromSequence, toSequence, startedAt, hstate⟩ := hdownload
    obtain ⟨expected, hexpected, hp⟩ := getProgress_download hstate hs
    obtain ⟨expected', hexpected', hp'⟩ := getProgress_download (hlasts.trans hstate) hx
    rw [hexpected, Option.some.injEq] at hexpected'
    have hlen := (run_len_stored_le hmore hsame hstate).2
    obtain ⟨low, high, hlow, hhigh, hle⟩ :=
      Binary64.div_min_mono (Binary64.round_mono hlen) (Binary64.round expected) 1
    rw [hp, hlow, Binary64.Value.finite.injEq] at hvalue
    rw [hp', ← hexpected', hhigh, Binary64.Value.finite.injEq] at hvalue'
    rw [← hvalue, ← hvalue']
    exact hle
  · have hequal := progress_of_state hlasts (by simpa using hdownload) hs hx
    rw [hvalue, hvalue', Binary64.Value.finite.injEq] at hequal
    exact hequal.ge

/-- The machine has asked for the transactions 5 to 7. -/
def StateSync.askingThree : StateSync .plain :=
  { withConfig 30 10 with
    state := .downloadingTransactions 5 7 0
    nextRequestId := 1
    pendingTransactionRequests := (∅ : HashMap _ _).insert 0 ⟨0, 5, 7, 0, 0, 0⟩ }

/-- One of the transactions comes in. -/
theorem askingThree_answered :
    ∃ (x : StateSync .plain) (more : List (SyncCall .plain)) (p p' : SyncProgress),
      (syncMachine .plain .on).Run .askingThree more x ∧
      (∀ c ∈ more, c.post.state = StateSync.askingThree.state) ∧
      (∃ c ∈ more, c.event.answers = true) ∧ StateSync.askingThree.getProgress .on = some p ∧
      x.getProgress .on = some p' := by
  have hmore := Machine.Run.start (M := syncMachine .plain .on) (s := .askingThree)
    |>.of_step (e := .handleTransactions [7] 0 (.stored ℕ)) rfl
  refine ⟨_, _, _, _, hmore, ?_, ⟨_, List.mem_singleton_self _, rfl⟩, rfl, rfl⟩
  intro c hc
  obtain rfl := List.mem_singleton.mp hc
  rfl

theorem progress_never_falls_third :
    ∃ (x : StateSync .plain) (p p' : SyncProgress) (value value' : ℚ),
      StateSync.askingThree.getProgress .on = some p ∧ x.getProgress .on = some p' ∧
      p.progress = .finite value ∧ p'.progress = .finite value' ∧
      0 ≤ value ∧ value ≤ value' ∧ value' ≤ 1 := by
  obtain ⟨x, more, p, p', hmore, hsame, -, hs, hx⟩ := askingThree_answered
  obtain ⟨value, value', hprogress⟩ := progress_never_falls hmore hsame hs hx
  exact ⟨x, p, p', value, value', hs, hx, hprogress⟩

/-! ## Full progress -/

/-- The download of a range of fewer than 2^53 transactions reports less than one exactly when it
has stored fewer transactions than it expects: no quotient is rounded up to one. -/
theorem progress_lt_one_iff (hrange : OrderedRange fromSequence toSequence)
    (hsmall : toSequence.toNat - fromSequence.toNat + 1 < 2 ^ 53)
    (hstate : s.state = .downloadingTransactions fromSequence toSequence startedAt)
    {p : SyncProgress} (hs : s.getProgress checks = some p) {value : ℚ}
    (hvalue : p.progress = .finite value) :
    value < 1 ↔ s.downloadedTransactions.len < toSequence.toNat - fromSequence.toNat + 1 := by
  obtain ⟨expected, hexpected, hp⟩ := getProgress_download hstate hs
  rw [expectedCount_of_ordered checks hrange, Option.some.injEq] at hexpected
  rw [hexpected] at hsmall ⊢
  have hpositive : 0 < expected := by omega
  rw [hp, Binary64.round_of_lt hsmall, Binary64.div, if_neg hpositive.ne', Binary64.Value.min,
    Binary64.Value.finite.injEq] at hvalue
  rw [← hvalue, min_lt_iff, or_iff_left (lt_irrefl _),
    Binary64.nearest_div_lt_one_iff hpositive hsmall]
  constructor
  · intro hlt
    by_contra hle
    have hround := Binary64.round_mono (Nat.le_of_not_lt hle)
    rw [Binary64.round_of_lt hsmall] at hround
    exact absurd hlt (Nat.not_lt.mpr hround)
  · intro hlt
    rw [Binary64.round_of_lt (hlt.trans hsmall)]
    exact hlt

/-- From the first answer that it takes until the last, a download reports less than one. -/
theorem answered_below_one (hrange : OrderedRange fromSequence toSequence)
    (hsmall : toSequence.toNat - fromSequence.toNat + 1 < 2 ^ 53)
    (hstate : s.state = .downloadingTransactions fromSequence toSequence startedAt)
    (hmore : (syncMachine P checks).Run s more x) (hsame : ∀ c ∈ more, c.post.state = s.state)
    (hanswered : ∃ c ∈ more, c.event.answers = true) {p : SyncProgress}
    (hx : x.getProgress checks = some p) :
    ∃ value, p.progress = .finite value ∧ 0 ≤ value ∧ value < 1 := by
  obtain ⟨value, hvalue, hnonneg, -⟩ := getProgress_mem x hx
  have hlasts := (run_len_stored_le hmore hsame hstate).1
  have hfew := run_len_stored_lt hmore hsame hstate (expectedCount_of_ordered checks hrange)
    hanswered
  exact ⟨value, hvalue, hnonneg,
    (progress_lt_one_iff hrange hsmall (hlasts.trans hstate) hx hvalue).mpr hfew⟩

theorem answered_below_one_third :
    ∃ (x : StateSync .plain) (p : SyncProgress) (value : ℚ),
      x.getProgress .on = some p ∧ p.progress = .finite value ∧ 0 ≤ value ∧ value < 1 := by
  obtain ⟨x, more, -, p, hmore, hsame, hanswered, -, hx⟩ := askingThree_answered
  have hstate : StateSync.askingThree.state = .downloadingTransactions 5 7 0 := rfl
  obtain ⟨value, hprogress⟩ := answered_below_one ⟨by decide, by decide⟩ (by decide) hstate hmore
    hsame hanswered hx
  exact ⟨x, p, value, hx, hprogress⟩

end SilverNetwork
