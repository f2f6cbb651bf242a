import SilverNetwork.Verification.MiningPool.Locking

/-! How the pool books the shares submitted to it. A share of live work is credited to its miner
and to the pool; any other leaves no trace. -/

namespace SilverNetwork

open LockProgram MiningPoolManager

variable {L : PoolLayout} {checks : OverflowChecks} {pool pool' : MiningPoolManager}

/-- What the pool records about shares. -/
def MiningPoolManager.books (pool : MiningPoolManager) : HashMap Bytes MinerAccount × PoolStats :=
  (pool.miners, { pool.stats with totalWorkPackages := 0 })

/-- The account of a miner, opened where there is none. -/
def MiningPoolManager.account (address : Bytes) (openedAt : Instant) (pool : MiningPoolManager) :
    MinerAccount :=
  (pool.miners.lookup address).getD (.new address openedAt)

/-- One share more of the miner with the given address is credited. -/
structure Credits (address : Bytes) (openedAt : Instant) (pool pool' : MiningPoolManager) :
    Prop where
  account : ∃ account, pool'.miners = pool.miners.insert address account ∧
    account.totalShares = (pool.account address openedAt).totalShares + 1 ∧
    account.validShares = (pool.account address openedAt).validShares + 1 ∧
    account.invalidShares = (pool.account address openedAt).invalidShares
  totalShares : pool'.stats.totalShares = pool.stats.totalShares + 1
  validShares : pool'.stats.validShares = pool.stats.validShares + 1
  invalidShares : pool'.stats.invalidShares = pool.stats.invalidShares
  activeMiners : pool'.stats.activeMiners = pool'.miners.len

theorem recordValidShare_eq_some {account account' : MinerAccount} {now : Instant}
    (h : account.recordValidShare checks now = some account') :
    account' = { account with
      totalShares := account.totalShares + 1
      validShares := account.validShares + 1
      lastActivity := now } := by
  simp only [MinerAccount.recordValidShare, Option.bind_eq_bind, Option.bind_eq_some_iff] at h
  obtain ⟨total, htotal, valid, hvalid, hdone⟩ := h
  rw [← Option.some.inj hdone, OverflowChecks.add_eq_some htotal, OverflowChecks.add_eq_some hvalid]

theorem unlocked_updateStats {α : Type} (f : PoolStats → Option PoolStats)
    (k : Unit → PoolProgram L α) (pool : MiningPoolManager) :
    (updateStats f >>= k).unlocked pool =
      (f pool.stats).bind fun stats => (k ()).unlocked { pool with stats } := by
  rw [unlocked_bind, updateStats, unlocked_update]
  cases f pool.stats with
  | none => rfl
  | some stats => rfl

theorem unlocked_minerCount {α : Type} (k : ℕ → PoolProgram L α) (pool : MiningPoolManager) :
    ((minerMap L).len >>= k).unlocked pool = (k pool.miners.len).unlocked pool := by
  rw [unlocked_bind, DashMap.unlocked_len]
  rfl

theorem submitShare_credits {share : MinerShare} {openedAt recordedAt : Instant} {valid : Bool}
    (hlive : share.workId ∈ pool.workPackages)
    (h : (submitShare (L := L) checks share openedAt recordedAt).unlocked pool =
      some (valid, pool')) : valid = true ∧ Credits share.minerAddress openedAt pool pool' := by
  have hmem : share.workId ∈ (workMap L).get pool := hlive
  simp only [submitShare, recordShare, unlocked_bind, DashMap.unlocked_containsKey, hmem,
    decide_true, Option.bind_some, if_true] at h
  rw [DashMap.unlocked_withEntry_modify (fun _ _ => rfl) (fun _ _ _ => rfl)] at h
  simp only [unlocked_guarded, unlocked_updateStats, unlocked_minerCount, unlocked_pure,
    Option.bind_some, Option.bind_eq_bind, Option.bind_eq_some_iff] at h
  obtain ⟨account, haccount, stats, ⟨total, htotal, hstats⟩, stats', ⟨valid', hvalid, hstats'⟩,
    hdone⟩ := h
  obtain rfl := Option.some.inj hstats
  obtain rfl := Option.some.inj hstats'
  obtain ⟨rfl, rfl⟩ := Prod.mk.inj (Option.some.inj hdone)
  obtain rfl := recordValidShare_eq_some haccount
  exact ⟨rfl, ⟨_, rfl, rfl, rfl, rfl⟩, OverflowChecks.add_eq_some htotal,
    OverflowChecks.add_eq_some hvalid, rfl, rfl⟩

theorem submitShare_refused {share : MinerShare} {openedAt recordedAt : Instant} {valid : Bool}
    (hunknown : share.workId ∉ pool.workPackages)
    (h : (submitShare (L := L) checks share openedAt recordedAt).unlocked pool =
      some (valid, pool')) : valid = false ∧ pool' = pool := by
  have hnot : share.workId ∉ (workMap L).get pool := hunknown
  simp only [submitShare, unlocked_bind, DashMap.unlocked_containsKey, hnot, decide_false,
    Option.bind_some, Bool.false_eq_true, if_false, unlocked_pure] at h
  obtain ⟨rfl, rfl⟩ := Prod.mk.inj (Option.some.inj h)
  exact ⟨rfl, rfl⟩

theorem distributeWork_keeps (header : Bytes) (target : UInt64) (chainId : UInt32)
    (createdAt : UInt64) :
    Keeps books (distributeWork (L := L) checks header target chainId createdAt) := by
  have hfetch : Keeps books (fetchAddWorkId (L := L)) := by
    intro pool workId pool' h
    rw [← (Prod.mk.inj (Option.some.inj h)).2]
    rfl
  refine hfetch.bind fun workId => Keeps.bind ?_ fun _ => Keeps.guarded ?_ _
  · intro pool _ pool' h
    rw [DashMap.unlocked_insert] at h
    rw [← (Prod.mk.inj (Option.some.inj h)).2]
    rfl
  · intro pool _ pool' h
    simp only [unlocked_updateStats, unlocked_pure, Option.bind_eq_bind, Option.bind_eq_some_iff]
      at h
    obtain ⟨stats, ⟨_, _, hstats⟩, hdone⟩ := h
    rw [← (Prod.mk.inj (Option.some.inj hdone)).2, ← Option.some.inj hstats]
    rfl

theorem cleanupOldWork_keeps (maxAgeSecs now : UInt64) :
    Keeps books (cleanupOldWork (L := L) checks maxAgeSecs now) :=
  DashMap.keeps_retain (fun _ _ => rfl) _

/-! ## One call -/

/-- The share that a call submits. -/
def PoolCall.share : PoolCall → Option MinerShare
  | .submitShare share _ _ => some share
  | _ => none

/-- What a call does to the books, and what it answers to a share. -/
inductive PoolChange (pool : MiningPoolManager) (c : PoolCall) (r : PoolResult)
    (pool' : MiningPoolManager) : Prop where
  | credited (share : MinerShare) (openedAt : Instant) (hshare : c.share = some share)
      (hlive : share.workId ∈ pool.workPackages) (hresult : r = .accepted true)
      (hcredits : Credits share.minerAddress openedAt pool pool')
  | refused (share : MinerShare) (hshare : c.share = some share)
      (hunknown : share.workId ∉ pool.workPackages) (hresult : r = .accepted false)
      (hsame : pool'.books = pool.books)
  | other (hshare : c.share = none) (hresult : ∀ valid, r ≠ .accepted valid)
      (hsame : pool'.books = pool.books)

theorem PoolChange.of_keeps {α : Type} {p : PoolProgram L α} (hkeeps : Keeps books p)
    {c : PoolCall} {r : PoolResult} {f : α → PoolResult} (hshare : c.share = none)
    (hresult : ∀ x valid, f x ≠ .accepted valid)
    (h : (f <$> p).unlocked pool = some (r, pool')) : PoolChange pool c r pool' := by
  rw [unlocked_map, Option.map_eq_some_iff] at h
  obtain ⟨⟨x, pool''⟩, hrun, hdone⟩ := h
  obtain ⟨rfl, rfl⟩ := Prod.mk.inj hdone
  exact .other hshare (hresult x) (hkeeps pool x pool'' hrun)

theorem keeps_of_clean {α : Type} {p : PoolProgram L α}
    (h : ∀ pool, ∃ x, p.unlocked pool = some (x, pool)) : Keeps books p := by
  intro pool x pool' hrun
  obtain ⟨y, hy⟩ := h pool
  rw [hy] at hrun
  rw [← (Prod.mk.inj (Option.some.inj hrun)).2]

theorem poolMachine_change {c : Call MiningPoolManager PoolCall PoolResult}
    (h : (poolMachine L checks).Makes c) : PoolChange c.pre c.event c.result c.post := by
  obtain ⟨pool, e, r, pool'⟩ := c
  cases e with
  | distributeWork header target chainId createdAt =>
      exact .of_keeps (distributeWork_keeps header target chainId createdAt) rfl (by simp) h
  | submitShare share openedAt recordedAt =>
      have hmap : ((PoolResult.accepted <$> submitShare (L := L) checks share openedAt
        recordedAt).unlocked pool) = some (r, pool') := h
      rw [unlocked_map, Option.map_eq_some_iff] at hmap
      obtain ⟨⟨valid, pool''⟩, hrun, hdone⟩ := hmap
      obtain ⟨rfl, rfl⟩ := Prod.mk.inj hdone
      by_cases hlive : share.workId ∈ pool.workPackages
      · obtain ⟨rfl, hcredits⟩ := submitShare_credits hlive hrun
        exact .credited share openedAt rfl hlive rfl hcredits
      · obtain ⟨rfl, rfl⟩ := submitShare_refused hlive hrun
        exact .refused share rfl hlive rfl rfl
  | getMiner address =>
      refine .of_keeps (keeps_of_clean ?_) rfl (by simp) h
      intro pool
      exact ⟨pool.miners.lookup address, by rw [getMiner, DashMap.find, unlocked_guarded]; rfl⟩
  | getStats =>
      refine .of_keeps (keeps_of_clean ?_) rfl (by simp) h
      intro pool
      exact ⟨pool.stats, by rw [getStats, unlocked_guarded]; rfl⟩
  | cleanupOldWork maxAgeSecs now =>
      exact .of_keeps (cleanupOldWork_keeps maxAgeSecs now) rfl (by simp) h
  | activeMinerCount =>
      refine .of_keeps (keeps_of_clean ?_) rfl (by simp) h
      intro pool
      exact ⟨pool.miners.len, DashMap.unlocked_len _ pool⟩

/-! ## Histories of calls -/

abbrev PoolHistory : Type := List (Call MiningPoolManager PoolCall PoolResult)

def submitted (calls : PoolHistory) : ℕ := calls.countP fun c => c.event.share.isSome

def answered (valid : Bool) (calls : PoolHistory) : ℕ :=
  calls.countP fun c => c.result = .accepted valid

/-- The work and nonce of a share of the miner that the call accepts. -/
def acceptedPair (address : Bytes) (c : Call MiningPoolManager PoolCall PoolResult) :
    Option (UInt64 × UInt64) :=
  match c.event.share with
  | none => none
  | some share =>
      if share.minerAddress = address ∧ c.result = .accepted true then
        some (share.workId, share.nonce)
      else none

/-- The work and nonce of each accepted share of the miner, once for each time it came. -/
def acceptedPairs (address : Bytes) (calls : PoolHistory) : List (UInt64 × UInt64) :=
  calls.filterMap (acceptedPair address)

/-- The shares that the pool has credited to the miner. -/
def MiningPoolManager.creditOf (address : Bytes) (pool : MiningPoolManager) : UInt64 :=
  ((pool.miners.lookup address).map MinerAccount.validShares).getD 0

/-- The books after `calls`: what was accepted is credited, and nothing else is counted. -/
structure Booked (calls : PoolHistory) (pool : MiningPoolManager) : Prop where
  totalShares : pool.stats.totalShares = UInt64.ofNat (answered true calls)
  validShares : pool.stats.validShares = UInt64.ofNat (answered true calls)
  invalidShares : pool.stats.invalidShares = 0
  activeMiners : pool.stats.activeMiners = pool.miners.len
  credit : ∀ address, pool.creditOf address = UInt64.ofNat (acceptedPairs address calls).length
  account : ∀ address account, pool.miners.lookup address = some account →
    account.totalShares = account.validShares ∧ account.invalidShares = 0
  sum : answered true calls < 2 ^ 64 →
    HashMap.total (fun account => account.validShares.toNat) pool.miners = answered true calls

theorem booked_new : Booked [] .new where
  totalShares := rfl
  validShares := rfl
  invalidShares := rfl
  activeMiners := rfl
  credit _ := rfl
  account _ _ h := by simp [MiningPoolManager.new] at h
  sum _ := rfl

variable {calls : PoolHistory} {c : Call MiningPoolManager PoolCall PoolResult}

/-- A call that keeps the books and accepts no share leaves nothing to book. -/
theorem Booked.keep (h : Booked calls pool) (hbooks : pool'.books = pool.books)
    (hresult : c.result ≠ .accepted true) : Booked (calls ++ [c]) pool' := by
  obtain ⟨hminers, hstats⟩ := Prod.mk.inj hbooks
  simp only [PoolStats.mk.injEq, true_and] at hstats
  obtain ⟨htotal, hvalid, hinvalid, hactive⟩ := hstats
  have hanswered : answered true (calls ++ [c]) = answered true calls := by
    simp [answered, hresult]
  have hpairs : ∀ address, acceptedPairs address (calls ++ [c]) = acceptedPairs address calls := by
    intro address
    have hnone : acceptedPair address c = none := by
      unfold acceptedPair
      split
      · rfl
      · simp [hresult]
    simp [acceptedPairs, hnone]
  refine ⟨?_, ?_, ?_, ?_, ?_, ?_, ?_⟩
  · rw [htotal, h.totalShares, hanswered]
  · rw [hvalid, h.validShares, hanswered]
  · rw [hinvalid, h.invalidShares]
  · rw [hactive, hminers, h.activeMiners]
  · intro address
    rw [creditOf, hminers, hpairs]
    exact h.credit address
  · rw [hminers]
    exact h.account
  · rw [hminers, hanswered]
    exact h.sum

theorem Credits.creditOf {address : Bytes} {openedAt : Instant}
    (h : Credits address openedAt pool pool') (address' : Bytes) : pool'.creditOf address' =
      if address' = address then pool.creditOf address' + 1 else pool.creditOf address' := by
  obtain ⟨account, hminers, -, hvalid, -⟩ := h.account
  rw [MiningPoolManager.creditOf, hminers, HashMap.lookup_insert_eq]
  split
  · rename_i haddress
    subst haddress
    rw [Option.map_some, Option.getD_some, hvalid, MiningPoolManager.account,
      MiningPoolManager.creditOf]
    cases pool.miners.lookup address' with
    | none => rfl
    | some old => rfl
  · rfl

theorem ofNat_succ (n : ℕ) : UInt64.ofNat n + 1 = UInt64.ofNat (n + 1) :=
  (UInt64.ofNat_add n 1).symm

theorem toNat_succ {x : UInt64} {n : ℕ} (hle : x.toNat ≤ n) (hlt : n + 1 < 2 ^ 64) :
    (x + 1).toNat = x.toNat + 1 := by
  rw [UInt64.toNat_add, UInt64.toNat_one]
  omega

/-- The sum of the credits grows by the share that is credited. -/
theorem Credits.total {address : Bytes} {openedAt : Instant} {n : ℕ}
    (h : Credits address openedAt pool pool') (hlt : n + 1 < 2 ^ 64)
    (hsum : HashMap.total (fun account => account.validShares.toNat) pool.miners = n) :
    HashMap.total (fun account => account.validShares.toNat) pool'.miners = n + 1 := by
  obtain ⟨account, hminers, -, hvalid, -⟩ := h.account
  have hinsert := HashMap.total_insert (fun account => account.validShares.toNat) pool.miners
    address account
  rw [hminers]
  cases hfound : pool.miners.lookup address with
  | none =>
      have hone : account.validShares = 1 := by
        rw [hvalid, MiningPoolManager.account, hfound]
        rfl
      simp only [hfound, hone, hsum, Option.map_none, Option.getD_none, UInt64.toNat_one] at hinsert
      omega
  | some old =>
      have hle := HashMap.le_total (fun account => account.validShares.toNat) hfound
      rw [hsum] at hle
      have hgrows : account.validShares.toNat = old.validShares.toNat + 1 := by
        rw [hvalid, MiningPoolManager.account, hfound]
        exact toNat_succ hle hlt
      simp only [hfound, hgrows, hsum, Option.map_some, Option.getD_some] at hinsert
      omega

/-- An accepted share is booked once. -/
theorem Booked.accept {share : MinerShare} {openedAt : Instant} (h : Booked calls c.pre)
    (hshare : c.event.share = some share) (hresult : c.result = .accepted true)
    (hcredits : Credits share.minerAddress openedAt c.pre c.post) :
    Booked (calls ++ [c]) c.post := by
  have hanswered : answered true (calls ++ [c]) = answered true calls + 1 := by
    simp [answered, hresult]
  have hpairs : ∀ address, (acceptedPairs address (calls ++ [c])).length =
      if address = share.minerAddress then (acceptedPairs address calls).length + 1
      else (acceptedPairs address calls).length := by
    intro address
    by_cases haddress : address = share.minerAddress
    · simp [acceptedPairs, acceptedPair, hshare, hresult, haddress]
    · simp [acceptedPairs, acceptedPair, hshare, haddress, Ne.symm haddress]
  refine ⟨?_, ?_, ?_, hcredits.activeMiners, ?_, ?_, ?_⟩
  · rw [hcredits.totalShares, h.totalShares, hanswered, ofNat_succ]
  · rw [hcredits.validShares, h.validShares, hanswered, ofNat_succ]
  · rw [hcredits.invalidShares, h.invalidShares]
  · intro address
    rw [hcredits.creditOf, hpairs, h.credit]
    split
    · exact ofNat_succ _
    · rfl
  · intro address account hlookup
    obtain ⟨account', hminers, htotal, hvalid, hinvalid⟩ := hcredits.account
    rw [hminers, HashMap.lookup_insert_eq] at hlookup
    split at hlookup
    · obtain rfl := Option.some.inj hlookup
      rw [htotal, hvalid, hinvalid, MiningPoolManager.account]
      cases hfound : c.pre.miners.lookup share.minerAddress with
      | none => exact ⟨rfl, rfl⟩
      | some old =>
          obtain ⟨hsame, hzero⟩ := h.account _ old hfound
          rw [Option.getD_some, hsame]
          exact ⟨rfl, hzero⟩
    · exact h.account address account hlookup
  · rw [hanswered]
    intro hlt
    exact hcredits.total hlt (h.sum (by omega))

theorem run_booked (h : (poolMachine L checks).Run .new calls pool) : Booked calls pool := by
  induction h with
  | start => exact booked_new
  | @call calls c _ hmakes ih =>
      cases poolMachine_change hmakes with
      | credited share openedAt hshare _ hresult hcredits =>
          exact ih.accept hshare hresult hcredits
      | refused share _ _ hresult hsame => exact ih.keep hsame (by simp [hresult])
      | other _ hresult hsame => exact ih.keep hsame (hresult true)

end SilverNetwork
