import SilverNetwork.Foundations.Tickets
import SilverNetwork.Verification.MiningPool.Booking
import SilverNetwork.Verification.MiningPool.Cleaning

/-! The numbers of work packages. Drawing a number, putting the package into the map and counting it
are separate steps, and callers may come between any two of them. -/

namespace SilverNetwork

open LockProgram MiningPoolManager

variable {L : PoolLayout} {checks : OverflowChecks} {pool pool' : MiningPoolManager}

/-! ## What the operations do to the packages -/

abbrev PoolUpdate : Type := MiningPoolManager → Option MiningPoolManager

/-- What is left of a call. -/
abbrev PoolRest : Type := AtomicProgram PoolUpdate (fun _ => MiningPoolManager) PoolResult

abbrev PoolThread : Type :=
  Thread MiningPoolManager PoolCall PoolResult PoolUpdate fun _ => MiningPoolManager

/-- The counter of packages, and the live ones. -/
def MiningPoolManager.numbering (pool : MiningPoolManager) :
    UInt64 × HashMap UInt64 WorkPackage :=
  (pool.nextWorkId, pool.workPackages)

/-- An update that neither numbers a package nor changes the live ones. -/
def Spares (f : PoolUpdate) : Prop :=
  ∀ pool pool', f pool = some pool' → pool'.numbering = pool.numbering

/-- Packages go at most, and none is numbered. -/
structure Shrinks (pool pool' : MiningPoolManager) : Prop where
  next : pool'.nextWorkId = pool.nextWorkId
  live : ∀ k work, pool'.workPackages.lookup k = some work →
    pool.workPackages.lookup k = some work

theorem Shrinks.refl (pool : MiningPoolManager) : Shrinks pool pool := ⟨rfl, fun _ _ h => h⟩

theorem Shrinks.of_numbering (h : pool'.numbering = pool.numbering) : Shrinks pool pool' := by
  obtain ⟨hnext, hlive⟩ := Prod.mk.inj h
  exact ⟨hnext, fun k work hlookup => by rwa [← hlive]⟩

def Removes (f : PoolUpdate) : Prop := ∀ pool pool', f pool = some pool' → Shrinks pool pool'

theorem Spares.removes {f : PoolUpdate} (h : Spares f) : Removes f :=
  fun pool pool' hf => .of_numbering (h pool pool' hf)

theorem spares_some : Spares some := by
  intro pool pool' h
  rw [← Option.some.inj h]

theorem does_updateStats (f : PoolStats → Option PoolStats) :
    (updateStats (L := L) f).Does Spares fun _ => True := by
  refine .update ?_
  intro pool pool' h
  obtain ⟨stats, -, rfl⟩ := Option.map_eq_some_iff.mp h
  rfl

theorem does_minerCount : ((minerMap L).len).Does Spares fun _ => True :=
  (Does.sequence (fun _ => .guarded (.gets _ spares_some) _) _).map fun _ _ => trivial

theorem does_recordShare (address : Bytes) (recordedAt : Instant) :
    (recordShare (L := L) checks address recordedAt).Does Spares fun _ => True := by
  have hmodify : ((minerMap L).modify address
      (MinerAccount.recordValidShare checks recordedAt)).Does Spares fun _ => True := by
    refine .update ?_
    intro pool pool' h
    dsimp only at h
    split at h
    · rw [← Option.some.inj h]
    · obtain ⟨account, -, rfl⟩ := Option.map_eq_some_iff.mp h
      rfl
  refine hmodify.bind fun _ _ => .guarded ?_ _
  refine (does_updateStats _).bind fun _ _ => ?_
  refine (does_updateStats _).bind fun _ _ => ?_
  refine does_minerCount.bind fun _ _ => ?_
  exact (does_updateStats _).bind fun _ _ => .pure trivial

theorem does_submitShare (share : MinerShare) (openedAt recordedAt : Instant) :
    (submitShare (L := L) checks share openedAt recordedAt).Does Spares fun _ => True := by
  have hopen : Spares fun pool => some ((minerMap L).set (DashMap.orInsert share.minerAddress
      (.new share.minerAddress openedAt) ((minerMap L).get pool)) pool) := by
    intro pool pool' h
    rw [← Option.some.inj h]
    rfl
  refine (Does.guarded (.gets _ spares_some) _).bind fun live _ => ?_
  cases live with
  | false => exact .pure trivial
  | true => exact .guarded ((Does.update hopen).bind fun _ _ => does_recordShare _ _) _

theorem does_cleanupOldWork (maxAgeSecs now : UInt64) :
    (cleanupOldWork (L := L) checks maxAgeSecs now).Does Removes fun _ => True := by
  refine (Does.sequence (fun i => .guarded (.update ?_) _) _).bind fun _ _ => .pure trivial
  intro pool pool' h
  obtain ⟨m, hm, rfl⟩ := Option.map_eq_some_iff.mp h
  refine ⟨rfl, fun k work hlookup => ?_⟩
  have hkept : m.lookup k = some work := hlookup
  rw [DashMap.lookup_retainShard hm] at hkept
  exact (Option.filter_eq_some_iff.mp hkept).1

/-! ## What is left of a call -/

def PoolCall.distributes : PoolCall → Bool
  | .distributeWork .. => true
  | _ => false

def PoolCall.cleans : PoolCall → Bool
  | .cleanupOldWork .. => true
  | _ => false

/-- The result hands out no package. -/
def NoWork (r : PoolResult) : Prop := ∀ work, r ≠ .work work

theorem perform_spares {c : PoolCall} (hd : c.distributes = false) (hc : c.cleans = false) :
    (perform (L := L) checks c).Does Spares NoWork := by
  cases c with
  | distributeWork header target chainId createdAt => cases hd
  | cleanupOldWork maxAgeSecs now => cases hc
  | submitShare share openedAt recordedAt =>
      exact (does_submitShare share openedAt recordedAt).map fun _ _ work h => by cases h
  | getMiner address =>
      exact (Does.guarded (.gets _ spares_some) _).map fun _ _ work h => by cases h
  | getStats =>
      exact (Does.guarded (.gets _ spares_some) _).map fun _ _ work h => by cases h
  | activeMinerCount => exact does_minerCount.map fun _ _ work h => by cases h

theorem perform_removes {c : PoolCall} (h : c.distributes = false) :
    (perform (L := L) checks c).Does Removes NoWork := by
  cases c with
  | distributeWork header target chainId createdAt => cases h
  | cleanupOldWork maxAgeSecs now =>
      exact (does_cleanupOldWork maxAgeSecs now).map fun _ _ work h => by cases h
  | submitShare | getMiner | getStats | activeMinerCount =>
      exact (perform_spares rfl rfl).mono (fun _ => Spares.removes) fun _ => id

/-- The step that draws a number. -/
def drawNumber : PoolUpdate := fun pool => some { pool with nextWorkId := pool.nextWorkId + 1 }

/-- The step that puts a package into the map. -/
def putWork (work : WorkPackage) : PoolUpdate := fun pool =>
  some { pool with workPackages := pool.workPackages.insert work.workId work }

/-- What `distribute_work` does once its package is in the map. -/
def countWork (checks : OverflowChecks) (work : WorkPackage) : PoolProgram L PoolResult :=
  .work <$> guarded .stats do
    updateStats fun stats => do
      let totalWorkPackages ← checks.add stats.totalWorkPackages 1
      pure { stats with totalWorkPackages }
    pure work

/-- What `distribute_work` does with its number. -/
def storeWork (L : PoolLayout) (checks : OverflowChecks) (work : WorkPackage) : PoolRest :=
  .act (putWork work) fun _ => (countWork (L := L) checks work).atomic

/-- The steps of `distribute_work`. -/
theorem program_distributeWork (header : Bytes) (target : UInt64) (chainId : UInt32)
    (createdAt : UInt64) :
    (sharedPool L checks).program (.distributeWork header target chainId createdAt) =
      .act drawNumber fun pool =>
        storeWork L checks ⟨pool.nextWorkId, header, target, chainId, createdAt⟩ := rfl

theorem does_countWork (work : WorkPackage) :
    (countWork (L := L) checks work).Does Spares (· = .work work) := by
  refine .map (R := (· = work)) (.guarded ?_ _) fun _ hwork => congrArg PoolResult.work hwork
  exact (does_updateStats _).bind fun _ _ => .pure rfl

/-! ## Numbers in a run -/

section Shared

variable {κ : Type}

abbrev SharedState (κ : Type) : Type :=
  Concurrent MiningPoolManager κ PoolCall PoolResult PoolUpdate fun _ => MiningPoolManager

abbrev SharedCall (κ : Type) : Type :=
  Call (SharedState κ) (ConcurrentEvent Unit (UInt64 → Bool) κ PoolCall) (Progress PoolResult)

def asksForWork : ConcurrentEvent Unit (UInt64 → Bool) κ PoolCall → Bool
  | .call _ op => op.distributes
  | _ => false

/-- How many packages have been asked for. -/
def asked (calls : List (SharedCall κ)) : ℕ := calls.countP fun c => asksForWork c.event

def returnedId : Progress PoolResult → Option UInt64
  | .returned (.work work) => some work.workId
  | _ => none

/-- The numbers of the packages that have been handed out. -/
def returnedIds (calls : List (SharedCall κ)) : List UInt64 :=
  calls.filterMap fun c => returnedId c.result

/-- A package with this number has been live after one of the calls. -/
def EverLive (calls : List (SharedCall κ)) (k : UInt64) : Prop :=
  ∃ c ∈ calls, k ∈ c.post.shared.workPackages

/-- How far a call has come, with the number that it has drawn. A number not yet used has never been
that of a live package. -/
inductive Stage (L : PoolLayout) (checks : OverflowChecks) (used : UInt64 → Prop)
    (awaited : Prop) : Option ℕ → PoolRest → Prop where
  | other {rest : PoolRest} (does : rest.Does Removes NoWork) :
      Stage L checks used awaited none rest
  | unnumbered (header : Bytes) (target : UInt64) (chainId : UInt32) (createdAt : UInt64)
      (hawaited : awaited) : Stage L checks used awaited none (.act drawNumber fun pool =>
        storeWork L checks ⟨pool.nextWorkId, header, target, chainId, createdAt⟩)
  | numbered (i : ℕ) (work : WorkPackage) (hid : work.workId = UInt64.ofNat i)
      (hnew : ¬ used work.workId) :
      Stage L checks used awaited (some i) (storeWork L checks work)
  | stored (i : ℕ) (work : WorkPackage) (hid : work.workId = UInt64.ofNat i) {rest : PoolRest}
      (does : rest.Does Spares (· = .work work)) : Stage L checks used awaited (some i) rest

/-- After `calls`, each number is held by the one call that has drawn it, or has been handed out. -/
structure Numbered (L : PoolLayout) (checks : OverflowChecks) (calls : List (SharedCall κ))
    (tickets : Tickets κ) (pending : Finset κ) (x : SharedState κ) : Prop where
  next : x.shared.nextWorkId = UInt64.ofNat tickets.next
  budget : tickets.next + pending.card ≤ asked calls + 1
  returned : returnedIds calls = tickets.spent.map UInt64.ofNat
  ids : ∀ k work, x.shared.workPackages.lookup k = some work → work.workId = k
  live : ∀ k ∈ x.shared.workPackages, EverLive calls k
  drawn : ∀ k, EverLive calls k → k.toNat < tickets.next
  stages : ∀ caller thread, x.threads caller = some thread →
    Stage L checks (EverLive calls) (caller ∈ pending) (tickets.held caller) thread.rest

theorem numbered_start : Numbered L checks [] (Tickets.start κ 1) ∅ (.start .new) where
  next := rfl
  budget := le_rfl
  returned := rfl
  ids k work h := by simp [Concurrent.start, MiningPoolManager.new] at h
  live k h := by simp [Concurrent.start, MiningPoolManager.new] at h
  drawn := by
    rintro k ⟨c, hc, -⟩
    cases hc
  stages caller thread h := by cases h

variable {calls : List (SharedCall κ)} {c : SharedCall κ} {tickets : Tickets κ}
  {pending : Finset κ}

theorem everLive_concat {k : UInt64} :
    EverLive (calls ++ [c]) k ↔ EverLive calls k ∨ k ∈ c.post.shared.workPackages := by
  constructor
  · rintro ⟨d, hd, hk⟩
    rcases List.mem_append.mp hd with hd | hd
    · exact .inl ⟨d, hd, hk⟩
    · obtain rfl := List.mem_singleton.mp hd
      exact .inr hk
  · rintro (⟨d, hd, hk⟩ | hk)
    · exact ⟨d, List.mem_append_left _ hd, hk⟩
    · exact ⟨c, List.mem_append_right _ (List.mem_singleton_self c), hk⟩

theorem Stage.mono {used used' : UInt64 → Prop} {awaited awaited' : Prop} {number : Option ℕ}
    {rest : PoolRest} (h : Stage L checks used awaited number rest)
    (hused : ∀ i, number = some i → used' (UInt64.ofNat i) → used (UInt64.ofNat i))
    (hawaited : awaited → awaited') : Stage L checks used' awaited' number rest := by
  cases h with
  | other does => exact .other does
  | unnumbered header target chainId createdAt ha =>
      exact .unnumbered header target chainId createdAt (hawaited ha)
  | numbered i work hid hnew =>
      refine .numbered i work hid fun h => hnew ?_
      rw [hid] at h ⊢
      exact hused i rfl h
  | stored i work hid does => exact .stored i work hid does

/-- What a step does to the live packages: none is put in the place of another, and none comes back
that has been removed. -/
structure KeepsLive (calls : List (SharedCall κ)) (c : SharedCall κ) : Prop where
  kept : ∀ k work, c.pre.shared.workPackages.lookup k = some work →
    c.post.shared.workPackages.lookup k = some work ∨ k ∉ c.post.shared.workPackages
  gone : ∀ k, EverLive calls k → k ∉ c.pre.shared.workPackages →
    k ∉ c.post.shared.workPackages

theorem KeepsLive.of_live (h : ∀ k work, c.post.shared.workPackages.lookup k = some work →
    c.pre.shared.workPackages.lookup k = some work) : KeepsLive calls c := by
  constructor
  · intro k work hlookup
    cases hpost : c.post.shared.workPackages.lookup k with
    | none => exact .inr (AList.lookup_eq_none.mp hpost)
    | some work' => exact .inl ((h k work' hpost).symm.trans hlookup)
  · exact fun k _ hnot hk => hnot (HashMap.mem_of_kept hk h)

/-- Where no package is put into the map, none has been live but those before. -/
theorem Numbered.everLive_old (h : Numbered L checks calls tickets pending c.pre)
    (hlive : ∀ k ∈ c.post.shared.workPackages, k ∈ c.pre.shared.workPackages) {k : UInt64}
    (hk : EverLive (calls ++ [c]) k) : EverLive calls k := by
  rcases everLive_concat.mp hk with hk | hk
  · exact hk
  · exact h.live k (hlive k hk)

/-- A step that numbers no package and puts none into the map. -/
theorem Numbered.of_shrinks (h : Numbered L checks calls tickets pending c.pre)
    (hshrinks : Shrinks c.pre.shared c.post.shared) {tickets' : Tickets κ}
    (hnext : tickets'.next = tickets.next) {pending' : Finset κ}
    (hbudget : pending'.card + asked calls ≤ pending.card + asked (calls ++ [c]))
    (hreturned : returnedIds (calls ++ [c]) = tickets'.spent.map UInt64.ofNat)
    (hstages : ∀ caller thread, c.post.threads caller = some thread →
      Stage L checks (EverLive calls) (caller ∈ pending') (tickets'.held caller) thread.rest) :
    Numbered L checks (calls ++ [c]) tickets' pending' c.post := by
  have hever : ∀ k, EverLive (calls ++ [c]) k → EverLive calls k :=
    fun k => h.everLive_old fun k hk => HashMap.mem_of_kept hk hshrinks.live
  constructor
  · rw [hshrinks.next, h.next, hnext]
  · have hbefore := h.budget
    omega
  · exact hreturned
  · intro k work hlookup
    exact h.ids k work (hshrinks.live k work hlookup)
  · exact fun k hk => everLive_concat.mpr (.inr hk)
  · intro k hk
    rw [hnext]
    exact h.drawn k (hever k hk)
  · intro caller thread hbusy
    exact (hstages caller thread hbusy).mono (fun i _ => hever _) id

theorem asked_concat :
    asked (calls ++ [c]) = asked calls + if asksForWork c.event then 1 else 0 := by
  simp [asked, List.countP_cons]

theorem returnedIds_concat :
    returnedIds (calls ++ [c]) = returnedIds calls ++ (returnedId c.result).toList := by
  rw [returnedIds, List.filterMap_append]
  cases h : returnedId c.result with
  | none => simp [returnedIds, h]
  | some id => simp [returnedIds, h]

/-- A step that nobody asks for work with, or gets any from. -/
theorem Numbered.of_quiet (h : Numbered L checks calls tickets pending c.pre)
    (hasks : asksForWork c.event = false) (hreturns : returnedId c.result = none)
    (hshrinks : Shrinks c.pre.shared c.post.shared)
    (hstages : ∀ caller thread, c.post.threads caller = some thread →
      Stage L checks (EverLive calls) (caller ∈ pending) (tickets.held caller) thread.rest) :
    Numbered L checks (calls ++ [c]) tickets pending c.post := by
  refine h.of_shrinks hshrinks rfl ?_ ?_ hstages
  · simp [asked_concat, hasks]
  · simpa [returnedIds_concat, hreturns] using h.returned

theorem elapse_shrinks (L : PoolLayout) (checks : OverflowChecks) (kept : UInt64 → Bool)
    (pool : MiningPoolManager) : Shrinks pool ((sharedPool L checks).elapse kept pool) := by
  refine ⟨rfl, fun k work hlookup => ?_⟩
  have hkept : (HashMap.retain pool.workPackages fun id _ => kept id).lookup k = some work :=
    hlookup
  rw [HashMap.lookup_retain] at hkept
  exact (Option.filter_eq_some_iff.mp hkept).1

variable [DecidableEq κ] {x : SharedState κ}

theorem Numbered.call (h : Numbered L checks calls tickets pending x) (caller : κ) (op : PoolCall) :
    ∃ tickets' pending', Numbered L checks
      (calls ++ [⟨x, .call caller op, .running,
        x.resume caller x.shared (some ⟨op, x.shared, (sharedPool L checks).program op⟩)⟩])
      tickets' pending'
      (x.resume caller x.shared (some ⟨op, x.shared, (sharedPool L checks).program op⟩)) := by
  have hothers : ∀ (pending' : Finset κ), pending ⊆ pending' → ∀ caller' thread,
      caller' ≠ caller → x.threads caller' = some thread →
      Stage L checks (EverLive calls) (caller' ∈ pending') ((tickets.drop caller).held caller')
        thread.rest := by
    intro pending' hsub caller' thread hne hbusy
    rw [Tickets.drop_held_of_ne hne]
    exact (h.stages caller' thread hbusy).mono (fun _ _ => id) fun hmem => hsub hmem
  have hnext : (tickets.drop caller).next = tickets.next := Tickets.drop_next
  cases hop : op.distributes with
  | false =>
      refine ⟨tickets.drop caller, pending, h.of_shrinks (.refl _) hnext ?_ ?_
        (Concurrent.forall_resume ?_ (hothers pending (Finset.Subset.refl _)))⟩
      · simp [asked_concat]
      · simpa [returnedIds_concat, returnedId] using h.returned
      · rintro thread ⟨⟩
        rw [Tickets.drop_held_self]
        exact .other (perform_removes hop).atomic
  | true =>
      refine ⟨tickets.drop caller, insert caller pending, h.of_shrinks (.refl _) hnext ?_ ?_
        (Concurrent.forall_resume ?_ (hothers _ (Finset.subset_insert _ _)))⟩
      · have hcard := Finset.card_insert_le caller pending
        rw [asked_concat]
        simp only [asksForWork, hop, if_true]
        omega
      · simpa [returnedIds_concat, returnedId] using h.returned
      · rintro thread ⟨⟩
        rw [Tickets.drop_held_self]
        cases op with
        | distributeWork header target chainId createdAt =>
            rw [program_distributeWork]
            exact .unnumbered header target chainId createdAt (Finset.mem_insert_self _ _)
        | submitShare | getMiner | getStats | cleanupOldWork | activeMinerCount => cases hop

theorem Numbered.finish (h : Numbered L checks calls tickets pending x) {caller : κ}
    {readings : Unit} {thread : PoolThread}
    {result : PoolResult} (hbusy : x.threads caller = some thread)
    (hdue : thread.rest = .ret result) :
    ∃ tickets' pending', Numbered L checks
      (calls ++ [⟨x, .act caller readings, .returned result, x.resume caller x.shared none⟩])
      tickets' pending' (x.resume caller x.shared none) := by
  have hspent : (returnedId (.returned result)).toList =
      (tickets.held caller).toList.map UInt64.ofNat := by
    have hstage := h.stages caller thread hbusy
    rw [hdue] at hstage
    generalize tickets.held caller = number at hstage ⊢
    cases hstage with
    | other does =>
        cases result with
        | work work => exact absurd rfl (does work)
        | accepted | miner | stats | cleaned | count => rfl
    | stored i work hid does =>
        obtain rfl : result = .work work := does
        exact congrArg (fun id => [id]) hid
  have hnext : (tickets.spend caller).next = tickets.next := Tickets.spend_next
  refine ⟨tickets.spend caller, pending, h.of_shrinks (.refl _) hnext ?_ ?_
    (Concurrent.forall_resume (fun _ hnone => by cases hnone) ?_)⟩
  · simp [asked_concat]
  · rw [returnedIds_concat, h.returned, hspent, Tickets.spend_spent, List.map_append]
  · intro caller' thread' hne hbusy'
    rw [Tickets.spend_held_of_ne hne]
    exact h.stages caller' thread' hbusy'

/-! ## The steps of one call -/

/-- The step of a caller whose call goes on. -/
def goesOn (x : SharedState κ) (caller : κ) (readings : Unit) (pool : MiningPoolManager)
    (thread : PoolThread) : SharedCall κ :=
  ⟨x, .act caller readings, .running, x.resume caller pool (some thread)⟩

variable {caller : κ} {readings : Unit} {thread : PoolThread} {rest : PoolRest}

theorem Numbered.draw (h : Numbered L checks calls tickets pending x) (hcaller : caller ∈ pending)
    (hfew : asked calls < 2 ^ 64) (work : WorkPackage) (hid : work.workId = x.shared.nextWorkId)
    (hpost : drawNumber x.shared = some pool) :
    Numbered L checks
      (calls ++ [goesOn x caller readings pool { thread with rest := storeWork L checks work }])
      (tickets.draw caller) (pending.erase caller)
      (x.resume caller pool (some { thread with rest := storeWork L checks work })) := by
  obtain rfl := Option.some.inj hpost
  have hcard := Finset.card_erase_add_one hcaller
  have hbudget := h.budget
  have hever : ∀ k, EverLive (calls ++ [goesOn x caller readings
      { x.shared with nextWorkId := x.shared.nextWorkId + 1 }
      { thread with rest := storeWork L checks work }]) k → EverLive calls k :=
    fun k => h.everLive_old fun k hk => hk
  constructor
  · change x.shared.nextWorkId + 1 = _
    rw [h.next, ofNat_succ, Tickets.draw_next]
  · rw [asked_concat, Tickets.draw_next]
    omega
  · rw [returnedIds_concat, h.returned, Tickets.draw_spent]
    exact List.append_nil _
  · exact h.ids
  · exact fun k hk => everLive_concat.mpr (.inr hk)
  · intro k hk
    have hlt := h.drawn k (hever k hk)
    rw [Tickets.draw_next]
    omega
  · refine Concurrent.forall_resume ?_ ?_
    · rintro thread' ⟨⟩
      rw [Tickets.draw_held_self]
      refine .numbered tickets.next work (hid.trans h.next) fun hused => ?_
      have hroom : tickets.next < 2 ^ 64 := by omega
      have hlt := h.drawn _ (hever _ hused)
      rw [hid, h.next, UInt64.toNat_ofNat_of_lt' hroom] at hlt
      omega
    · intro caller' thread' hne hbusy
      rw [Tickets.draw_held_of_ne hne]
      exact (h.stages caller' thread' hbusy).mono (fun _ _ => hever _)
        fun hmem => Finset.mem_erase.mpr ⟨hne, hmem⟩

theorem Numbered.put (h : Numbered L checks calls tickets pending x) {i : ℕ} {work : WorkPackage}
    (hheld : tickets.held caller = some i) (hid : work.workId = UInt64.ofNat i)
    (hnew : ¬ EverLive calls work.workId) (hroom : tickets.next ≤ 2 ^ 64)
    (does : rest.Does Spares (· = .work work)) (hpost : putWork work x.shared = some pool) :
    Numbered L checks (calls ++ [goesOn x caller readings pool { thread with rest }])
      tickets pending (x.resume caller pool (some { thread with rest })) ∧
    KeepsLive calls (goesOn x caller readings pool { thread with rest }) := by
  obtain rfl := Option.some.inj hpost
  have hlt := tickets.held_lt caller i hheld
  have hnumber : work.workId.toNat = i := by
    have hfits : i < 2 ^ 64 := by omega
    rw [hid, UInt64.toNat_ofNat_of_lt' hfits]
  have hever : ∀ k, EverLive (calls ++ [goesOn x caller readings
      { x.shared with workPackages := x.shared.workPackages.insert work.workId work }
      { thread with rest }]) k → EverLive calls k ∨ k = work.workId := by
    intro k hk
    rcases everLive_concat.mp hk with hk | hk
    · exact .inl hk
    · rcases (AList.mem_insert x.shared.workPackages).mp hk with rfl | hk
      · exact .inr rfl
      · exact .inl (h.live k hk)
  have hfree : work.workId ∉ x.shared.workPackages := fun hk => hnew (h.live _ hk)
  refine ⟨⟨h.next, ?_, ?_, ?_, ?_, ?_, ?_⟩, ?_, ?_⟩
  · rw [asked_concat]
    exact h.budget
  · rw [returnedIds_concat, h.returned]
    exact List.append_nil _
  · intro k work' hlookup
    have hinsert : (x.shared.workPackages.insert work.workId work).lookup k = some work' := hlookup
    rw [HashMap.lookup_insert_eq] at hinsert
    split at hinsert
    · rename_i hk
      rw [← Option.some.inj hinsert, hk]
    · exact h.ids k work' hinsert
  · exact fun k hk => everLive_concat.mpr (.inr hk)
  · intro k hk
    rcases hever k hk with hk | rfl
    · exact h.drawn k hk
    · rwa [hnumber]
  · refine Concurrent.forall_resume ?_ ?_
    · rintro thread' ⟨⟩
      rw [hheld]
      exact .stored i work hid does
    · intro caller' thread' hne hbusy
      refine (h.stages caller' thread' hbusy).mono (fun j hj hk => ?_) id
      rcases hever _ hk with hk | hk
      · exact hk
      · -- Two numbers below `2 ^ 64` that are held at once do not become the same id.
        have hj' := tickets.held_lt caller' j hj
        obtain rfl := Tickets.ofNat_inj_of_lt (by omega) (by omega) (hk.trans hid)
        exact absurd (tickets.apart caller' caller j hj hheld) hne
  · intro k work' hlookup
    refine .inl ?_
    change (x.shared.workPackages.insert work.workId work).lookup k = some work'
    rw [HashMap.lookup_insert_eq, if_neg]
    · exact hlookup
    · rintro rfl
      exact hfree (HashMap.mem_iff_exists_lookup.mpr ⟨work', hlookup⟩)
  · intro k hk hnot hmem
    rcases (AList.mem_insert x.shared.workPackages).mp hmem with rfl | hmem
    · exact hnew hk
    · exact hnot hmem

/-- A step of a call that may remove packages, but makes none. -/
theorem Numbered.act_removes (h : Numbered L checks calls tickets pending x)
    (hshrinks : Shrinks x.shared pool)
    (hstage : Stage L checks (EverLive calls) (caller ∈ pending) (tickets.held caller) rest) :
    Numbered L checks (calls ++ [goesOn x caller readings pool { thread with rest }])
      tickets pending (x.resume caller pool (some { thread with rest })) := by
  refine h.of_quiet rfl rfl hshrinks (Concurrent.forall_resume ?_ fun caller' thread' _ =>
    h.stages caller' thread')
  rintro thread' ⟨⟩
  exact hstage

theorem Numbered.act (h : Numbered L checks calls tickets pending x)
    (hfew : asked calls < 2 ^ 64) (hbusy : x.threads caller = some thread)
    {action : PoolUpdate} {next : MiningPoolManager → PoolRest} {seen : MiningPoolManager}
    (hdue : thread.rest = .act action next)
    (hperforms : (sharedPool L checks).perform action readings x.shared = (some seen, pool)) :
    (∃ tickets' pending', Numbered L checks
      (calls ++ [goesOn x caller readings pool { thread with rest := next seen }])
      tickets' pending' (x.resume caller pool (some { thread with rest := next seen }))) ∧
    KeepsLive calls (goesOn x caller readings pool { thread with rest := next seen }) := by
  obtain ⟨rfl, hpost⟩ := of_object_perform hperforms
  have hstage := h.stages caller thread hbusy
  rw [hdue] at hstage
  generalize hheld : tickets.held caller = number at hstage
  cases hstage with
  | other does =>
      have hshrinks := does.1 x.shared pool hpost
      refine ⟨⟨tickets, pending, h.act_removes hshrinks ?_⟩, .of_live hshrinks.live⟩
      rw [hheld]
      exact .other (does.2 x.shared)
  | unnumbered header target chainId createdAt hcaller =>
      refine ⟨⟨_, _, h.draw hcaller hfew ⟨x.shared.nextWorkId, header, target, chainId, createdAt⟩
        rfl hpost⟩, .of_live ?_⟩
      obtain rfl := Option.some.inj hpost
      exact fun k work hlookup => hlookup
  | numbered i work hid hnew =>
      have hbudget := h.budget
      have hroom : tickets.next ≤ 2 ^ 64 := by omega
      obtain ⟨hnumbered, hkeeps⟩ :=
        h.put hheld hid hnew hroom (does_countWork work).atomic hpost
      exact ⟨⟨tickets, pending, hnumbered⟩, hkeeps⟩
  | stored i work hid does =>
      have hshrinks := does.1.removes x.shared pool hpost
      refine ⟨⟨tickets, pending, h.act_removes hshrinks ?_⟩, .of_live hshrinks.live⟩
      rw [hheld]
      exact .stored i work hid (does.2 x.shared)

/-- What one step does to the numbers and to the live packages. -/
theorem Numbered.step (h : Numbered L checks calls tickets pending c.pre)
    (hfew : asked calls < 2 ^ 64) (hmakes : ((sharedPool L checks).machine κ).Makes c) :
    (∃ tickets' pending', Numbered L checks (calls ++ [c]) tickets' pending' c.post) ∧
      KeepsLive calls c := by
  obtain ⟨x, e, r, y⟩ := c
  have hstep : x.step (sharedPool L checks) e = some (r, y) := hmakes
  cases SharedObject.rule_of_step hstep with
  | call caller op idle => exact ⟨h.call caller op, .of_live fun k work hlookup => hlookup⟩
  | act caller readings thread action next seen pool busy due performs =>
      exact h.act hfew busy due performs
  | panic caller readings thread action next pool busy due performs =>
      obtain rfl := of_object_panic performs
      refine ⟨⟨tickets, pending, h.of_quiet rfl rfl (.refl _) ?_⟩,
        .of_live fun k work hlookup => hlookup⟩
      exact Concurrent.forall_resume (fun _ hnone => by cases hnone) fun caller' thread' _ =>
        h.stages caller' thread'
  | finish caller readings thread result busy due =>
      exact ⟨h.finish busy due, .of_live fun k work hlookup => hlookup⟩
  | elapse kept =>
      have hshrinks := elapse_shrinks L checks kept x.shared
      exact ⟨⟨tickets, pending, h.of_quiet rfl rfl hshrinks h.stages⟩, .of_live hshrinks.live⟩

theorem run_numbered {calls : List (SharedCall κ)} {x : SharedState κ}
    (h : ((sharedPool L checks).machine κ).Run (.start .new) calls x)
    (hfew : asked calls < 2 ^ 64) :
    ∃ tickets pending, Numbered L checks calls tickets pending x := by
  induction h with
  | start => exact ⟨_, _, numbered_start⟩
  | @call calls c _ hmakes ih =>
      rw [asked_concat] at hfew
      have hbefore : asked calls < 2 ^ 64 := by omega
      obtain ⟨tickets, pending, hnumbered⟩ := ih hbefore
      exact (hnumbered.step hbefore hmakes).1

theorem run_keepsLive {calls : List (SharedCall κ)} {x : SharedState κ}
    (h : ((sharedPool L checks).machine κ).Run (.start .new) calls x)
    (hfew : asked calls < 2 ^ 64) {before after : List (SharedCall κ)} {c : SharedCall κ}
    (hcut : calls = before ++ c :: after) : KeepsLive before c := by
  obtain ⟨hrun, hmakes⟩ := h.split hcut
  have hbefore : asked before < 2 ^ 64 := by
    rw [hcut, asked, List.countP_append] at hfew
    exact lt_of_le_of_lt (Nat.le_add_right _ _) hfew
  obtain ⟨tickets, pending, hnumbered⟩ := run_numbered hrun hbefore
  exact (hnumbered.step hbefore hmakes).2

/-! ## Shares beside other calls -/

/-- The steps that a call may take. -/
def Allows (op : PoolCall) (f : PoolUpdate) (_ : MiningPoolManager) : Prop :=
  op.share.isSome → Spares f

/-- The others may do anything to the pool. -/
def Anything (_ _ : MiningPoolManager) : Prop := True

instance : IsPreorder MiningPoolManager Anything where
  refl _ := trivial
  trans _ _ _ _ _ := trivial

theorem allows_guarantee : (sharedPool L checks).Guarantee Anything Allows := by
  refine ⟨fun _ _ _ _ _ => trivial, fun _ _ => trivial, fun op pool => ?_⟩
  have hdoes : (perform (L := L) checks op).Does (fun f => Allows op f pool) fun _ => True := by
    cases op with
    | submitShare share openedAt recordedAt =>
        exact (perform_spares rfl rfl).mono (fun f hf _ => hf) fun _ _ => trivial
    | distributeWork | getMiner | getStats | cleanupOldWork | activeMinerCount =>
        exact (does_any _).mono (fun f _ hno => by cases hno) fun _ => id
  exact hdoes.sound pool

/-- No step of `submit_share` changes the live packages, whoever comes between them. -/
theorem run_submit {calls : List (SharedCall κ)} {x : SharedState κ}
    (h : ((sharedPool L checks).machine κ).Run (.start .new) calls x) {c : SharedCall κ}
    (hc : c ∈ calls) {caller : κ} {readings : Unit} (hevent : c.event = .act caller readings)
    {thread : PoolThread} (hbusy : c.pre.threads caller = some thread)
    (hsubmits : thread.op.share.isSome) :
    c.post.shared.workPackages = c.pre.shared.workPackages := by
  obtain ⟨before, hrun, -⟩ := h.before hc
  have hmakes := h.makes hc
  have hsound := (allows_guarantee.run hrun (fun _ _ hnone => by cases hnone)).2
  obtain ⟨x, e, r, y⟩ := c
  obtain rfl : e = .act caller readings := hevent
  have hstep : x.step (sharedPool L checks) (.act caller readings) = some (r, y) := hmakes
  cases SharedObject.rule_of_step hstep with
  | act _ _ thread' action next seen pool busy due performs =>
      obtain rfl := Option.some.inj (hbusy.symm.trans busy)
      have hallowed := (hsound.due busy due).1 hsubmits
      obtain ⟨-, hpost⟩ := of_object_perform performs
      exact (Prod.mk.inj (hallowed _ _ hpost)).2
  | panic _ _ thread' action next pool busy due performs =>
      obtain rfl := of_object_panic performs
      rfl
  | finish _ _ thread' result busy due => rfl

end Shared

end SilverNetwork
