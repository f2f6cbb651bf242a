import SilverNetwork.Verification.MiningPool.Booking

/-! The counters of the pool against the shares submitted to it: what they account for, and what
a share that is submitted again does to them. -/

namespace SilverNetwork

open LockProgram MiningPoolManager

variable {L : PoolLayout} {checks : OverflowChecks} {pool : MiningPoolManager}
  {calls : PoolHistory}

/-! ## What the counters say -/

/-- The counters of the pool account for every share submitted, and agree with those of the
miners. -/
structure Accounted (calls : PoolHistory) (pool : MiningPoolManager) : Prop where
  total : pool.stats.totalShares.toNat = submitted calls
  valid : pool.stats.validShares.toNat = answered true calls
  invalid : pool.stats.invalidShares.toNat = answered false calls
  totalSum : pool.stats.totalShares.toNat =
    HashMap.total (fun account => account.totalShares.toNat) pool.miners
  validSum : pool.stats.validShares.toNat =
    HashMap.total (fun account => account.validShares.toNat) pool.miners
  invalidSum : pool.stats.invalidShares.toNat =
    HashMap.total (fun account => account.invalidShares.toNat) pool.miners
  account : ∀ address account, pool.miners.lookup address = some account →
    account.totalShares.toNat = account.validShares.toNat + account.invalidShares.toNat
  activeMiners : pool.stats.activeMiners = pool.miners.len

theorem submitted_eq (h : (poolMachine L checks).Run .new calls pool) :
    submitted calls = answered true calls + answered false calls := by
  induction h with
  | start => rfl
  | @call calls c _ hmakes ih =>
      have happend : ∀ p : Call MiningPoolManager PoolCall PoolResult → Bool,
          (calls ++ [c]).countP p = calls.countP p + if p c then 1 else 0 := by
        intro p
        simp [List.countP_append, List.countP_singleton]
      simp only [submitted, answered] at ih ⊢
      rw [happend, happend, happend, ih]
      cases poolMachine_change hmakes with
      | credited share openedAt hshare _ hresult hcredits =>
          simp [hshare, hresult]
          omega
      | refused share hshare _ hresult _ =>
          simp [hshare, hresult]
          omega
      | other hshare hresult _ => simp [hshare, hresult]

/-- Every share submitted is of work that the pool stores. -/
def SubmitsKnown (calls : PoolHistory) : Prop :=
  ∀ c ∈ calls, ∀ share, c.event.share = some share → share.workId ∈ c.pre.workPackages

theorem submitsKnown_iff (h : (poolMachine L checks).Run .new calls pool) :
    SubmitsKnown calls ↔ answered false calls = 0 := by
  rw [answered, List.countP_eq_zero]
  apply forall₂_congr
  intro c hc
  cases poolMachine_change (h.makes hc) with
  | credited share openedAt hshare hlive hresult _ =>
      simp [hshare, hresult, hlive]
  | refused share hshare hunknown hresult _ =>
      simp [hshare, hresult, hunknown]
  | other hshare hresult _ => simp [hshare, hresult]

/-- The counters account for every share exactly when each of them is of known work. -/
theorem shares_accounted_iff (h : (poolMachine L checks).Run .new calls pool)
    (hfew : submitted calls < 2 ^ 64) : Accounted calls pool ↔ SubmitsKnown calls := by
  have hbooked := run_booked h
  have hcount := submitted_eq h
  have hlt : answered true calls < 2 ^ 64 := by omega
  have htotal : pool.stats.totalShares.toNat = answered true calls := by
    rw [hbooked.totalShares, UInt64.toNat_ofNat_of_lt' hlt]
  have hvalid : pool.stats.validShares.toNat = answered true calls := by
    rw [hbooked.validShares, UInt64.toNat_ofNat_of_lt' hlt]
  rw [submitsKnown_iff h]
  constructor
  · intro haccounted
    rw [← haccounted.invalid, hbooked.invalidShares]
    rfl
  · intro hnone
    have hsum := hbooked.sum hlt
    refine ⟨?_, hvalid, ?_, ?_, ?_, ?_, ?_, hbooked.activeMiners⟩
    · omega
    · rw [hbooked.invalidShares, hnone]
      rfl
    · rw [htotal, ← hsum]
      apply HashMap.total_congr
      intro address account hlookup
      rw [(hbooked.account address account hlookup).1]
    · rw [hvalid, hsum]
    · rw [hbooked.invalidShares]
      symm
      apply HashMap.total_eq_zero
      intro address account hlookup
      rw [(hbooked.account address account hlookup).2]
      rfl
    · intro address account hlookup
      obtain ⟨hsame, hzero⟩ := hbooked.account address account hlookup
      rw [hsame, hzero]
      rfl

/-- Two miners submit a share each of the first work package. -/
theorem shares_accounted_iff_plain :
    ∃ calls pool, (poolMachine .single .on).Run .new calls pool ∧ Accounted calls pool ∧
      pool.stats = ⟨1, 2, 2, 0, 2⟩ := by
  have hrun := (((Machine.Run.start (M := poolMachine .single .on)
    (s := .new)).of_step (e := .distributeWork [1, 2, 3] 1000 0 0) rfl).of_step
      (e := .submitShare ⟨1, 12345, [7], 0⟩ 0 0) rfl).of_step
      (e := .submitShare ⟨1, 12345, [8], 0⟩ 0 0) rfl
  refine ⟨_, _, hrun, (shares_accounted_iff hrun (by decide)).mpr ?_, rfl⟩
  simp [SubmitsKnown, PoolCall.share]
  decide

/-- A share of unknown work is counted nowhere. -/
theorem refused_share_uncounted :
    ∃ calls pool, (poolMachine .single .on).Run .new calls pool ∧ submitted calls = 1 ∧
      answered false calls = 1 ∧ pool.stats = ⟨0, 0, 0, 0, 0⟩ := by
  have hrun := (Machine.Run.start (M := poolMachine .single .on)
    (s := .new)).of_step (e := .submitShare ⟨9, 12345, [7], 0⟩ 0 0) rfl
  exact ⟨_, _, hrun, rfl, rfl, rfl⟩

/-! ## Repeated shares -/

/-- The work and nonce of each share that the miner submits. -/
def submittedPairs (address : Bytes) (calls : PoolHistory) : List (UInt64 × UInt64) :=
  calls.filterMap fun c => (c.event.share.filter fun share => share.minerAddress = address).map
    fun share => (share.workId, share.nonce)

theorem acceptedPairs_subset (address : Bytes) (calls : PoolHistory) :
    acceptedPairs address calls ⊆ submittedPairs address calls := by
  intro pair hpair
  simp only [acceptedPairs, submittedPairs, List.mem_filterMap] at hpair ⊢
  obtain ⟨c, hc, haccepted⟩ := hpair
  refine ⟨c, hc, ?_⟩
  unfold acceptedPair at haccepted
  cases hshare : c.event.share with
  | none => simp [hshare] at haccepted
  | some share =>
      simp only [hshare, Option.ite_none_right_eq_some] at haccepted
      simp [haccepted.1.1, Option.some.inj haccepted.2]

/-- A share is credited once each time that it comes while its work is stored, also when it
was credited before; a miner has no more credit than different shares only while none of its
accepted shares comes again. -/
theorem shares_credited_each_time (h : (poolMachine L checks).Run .new calls pool) :
    (∀ c ∈ calls, ∀ share, c.event.share = some share →
      if share.workId ∈ c.pre.workPackages then
        c.result = .accepted true ∧
          c.post.creditOf share.minerAddress = c.pre.creditOf share.minerAddress + 1 ∧
          c.post.stats.validShares = c.pre.stats.validShares + 1
      else c.result = .accepted false ∧ c.post.books = c.pre.books) ∧
      (∀ address, pool.creditOf address = UInt64.ofNat (acceptedPairs address calls).length) ∧
      pool.stats.validShares = UInt64.ofNat (answered true calls) ∧
      ∀ address, (acceptedPairs address calls).Nodup →
        (pool.creditOf address).toNat ≤ (submittedPairs address calls).toFinset.card := by
  have hbooked := run_booked h
  refine ⟨?_, hbooked.credit, hbooked.validShares, ?_⟩
  · intro c hc share hshare
    cases poolMachine_change (h.makes hc) with
    | credited share' openedAt hshare' hlive hresult hcredits =>
        obtain rfl : share' = share := Option.some.inj (hshare'.symm.trans hshare)
        rw [if_pos hlive]
        refine ⟨hresult, ?_, hcredits.validShares⟩
        rw [hcredits.creditOf, if_pos rfl]
    | refused share' hshare' hunknown hresult hsame =>
        obtain rfl : share' = share := Option.some.inj (hshare'.symm.trans hshare)
        rw [if_neg hunknown]
        exact ⟨hresult, hsame⟩
    | other hnone _ _ => simp [hnone] at hshare
  · intro address hnodup
    calc (pool.creditOf address).toNat
      _ ≤ (acceptedPairs address calls).length := by
          rw [hbooked.credit, UInt64.toNat_ofNat']
          exact Nat.mod_le _ _
      _ = (acceptedPairs address calls).toFinset.card := (List.toFinset_card_of_nodup hnodup).symm
      _ ≤ (submittedPairs address calls).toFinset.card := by
          apply Finset.card_le_card
          intro pair hpair
          rw [List.mem_toFinset] at hpair ⊢
          exact acceptedPairs_subset address calls hpair

/-- A miner that submits two shares, of which one is of work that is gone. -/
theorem shares_credited_each_time_plain :
    ∃ calls pool, (poolMachine .single .on).Run .new calls pool ∧
      pool.creditOf [7] = UInt64.ofNat (acceptedPairs [7] calls).length ∧
      pool.creditOf [7] = 1 := by
  have hrun := ((((Machine.Run.start (M := poolMachine .single .on)
    (s := .new)).of_step (e := .distributeWork [1, 2, 3] 1000 0 0) rfl).of_step
      (e := .submitShare ⟨1, 12345, [7], 0⟩ 0 0) rfl).of_step
      (e := .cleanupOldWork 60 100) rfl).of_step (e := .submitShare ⟨1, 12345, [7], 0⟩ 0 0) rfl
  exact ⟨_, _, hrun, (shares_credited_each_time hrun).2.1 [7], rfl⟩

/-- The same share is credited twice. -/
theorem share_credited_twice :
    ∃ calls pool, (poolMachine .single .on).Run .new calls pool ∧
      (submittedPairs [7] calls).toFinset.card = 1 ∧ pool.creditOf [7] = 2 ∧
      pool.stats.validShares = 2 := by
  have hrun := (((Machine.Run.start (M := poolMachine .single .on)
    (s := .new)).of_step (e := .distributeWork [1, 2, 3] 1000 0 0) rfl).of_step
      (e := .submitShare ⟨1, 12345, [7], 0⟩ 0 0) rfl).of_step
      (e := .submitShare ⟨1, 12345, [7], 0⟩ 0 0) rfl
  exact ⟨_, _, hrun, by decide, rfl, rfl⟩

end SilverNetwork
