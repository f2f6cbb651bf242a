import Mathlib.Data.List.DropRight
import SilverNetwork.Foundations.Eviction
import SilverNetwork.Verification.ValidatorSync.Ledger

/-! What the manager knows of its traffic, with any number of tasks under way. The figures of a peer
are those of the frames that have gone to it and come from it since it was added. The totals are
those of all frames, less those that a task has recorded with their peer and not counted yet. -/

namespace SilverNetwork

namespace ValidatorSync

variable {Address : Type} [DecidableEq Address] {checks : OverflowChecks} {texts : Texts Address}
  {validatorId : Bytes} {maxRetries : ℕ} {address : Address} {s s' : NetworkState Address}

/-! ## Every run -/

variable {TaskId : Type} [DecidableEq TaskId] {x : NetworkPool Address TaskId}
  {calls : List (NetworkCall Address TaskId)} {c : NetworkCall Address TaskId}

namespace Transfer

@[simp] def sentBytes : Transfer Address → Option ℕ
  | .sent _ length => some length
  | .received _ _ => none

@[simp] def receivedBytes : Transfer Address → Option ℕ
  | .sent _ _ => none
  | .received _ length => some length

/-- The frame has gone to the address, or come from it. -/
def concerns (address : Address) : Transfer Address → Bool
  | .sent other _ => other = address
  | .received other _ => other = address

end Transfer

namespace Booking

@[simp] def recorded? : Booking Address → Option (Transfer Address)
  | .recorded transfer => some transfer
  | _ => none

@[simp] def counted? : Booking Address → Option (Transfer Address)
  | .counted transfer => some transfer
  | _ => none

@[simp] def result? : Booking Address → Option BroadcastResult
  | .concluded result => some result
  | _ => none

end Booking

omit [DecidableEq TaskId] in
/-- What a step of a run enters. -/
def callBooking (texts : Texts Address) (c : NetworkCall Address TaskId) :
    Option (Booking Address) :=
  match c.event with
  | .start _ _ _ => none
  | .resume id io => (c.pre.tasks id).bind fun task => stepBooking texts task io c.result

def bookings (texts : Texts Address) (calls : List (NetworkCall Address TaskId)) :
    List (Booking Address) :=
  calls.filterMap (callBooking texts)

/-- The frames that the calls have recorded with their peers. -/
def recorded (texts : Texts Address) (calls : List (NetworkCall Address TaskId)) :
    List (Transfer Address) :=
  (bookings texts calls).filterMap Booking.recorded?

/-- The frames that the calls have counted in the statistics. -/
def counted (texts : Texts Address) (calls : List (NetworkCall Address TaskId)) :
    List (Transfer Address) :=
  (bookings texts calls).filterMap Booking.counted?

/-- The results of the broadcasts that the calls have concluded. -/
def concluded (texts : Texts Address) (calls : List (NetworkCall Address TaskId)) :
    List BroadcastResult :=
  (bookings texts calls).filterMap Booking.result?

/-- The account of these frames. -/
def Account.of (frames : List (Transfer Address)) : Account where
  messagesSent := .ofNat (frames.filterMap Transfer.sentBytes).length
  bytesSent := .ofNat (frames.filterMap Transfer.sentBytes).sum
  messagesReceived := .ofNat (frames.filterMap Transfer.receivedBytes).length
  bytesReceived := .ofNat (frames.filterMap Transfer.receivedBytes).sum

/-- The totals of these frames and broadcasts, for so many peers. -/
def Totals.of (frames : List (Transfer Address)) (results : List BroadcastResult) (peers : ℕ) :
    Totals where
  totalBroadcasts := .ofNat results.length
  successfulBroadcasts := .ofNat (results.map (·.successful)).sum
  failedBroadcasts := .ofNat (results.map (·.failed)).sum
  totalMessagesSent := .ofNat (frames.filterMap Transfer.sentBytes).length
  totalMessagesReceived := .ofNat (frames.filterMap Transfer.receivedBytes).length
  totalBytesSent := (results.map (·.totalBytesSent)).sum
  totalBytesReceived := .ofNat (frames.filterMap Transfer.receivedBytes).sum
  peerCount := .ofNat peers

/-- The calls since the address was last unknown. -/
def sinceAdded (address : Address) (calls : List (NetworkCall Address TaskId)) :
    List (NetworkCall Address TaskId) :=
  calls.rtakeWhile fun c => address ∈ c.post.shared.peers

/-- The frames to and from a peer since it was added. -/
def transfersWith (texts : Texts Address) (address : Address)
    (calls : List (NetworkCall Address TaskId)) : List (Transfer Address) :=
  (recorded texts (sinceAdded address calls)).filter (Transfer.concerns address)

/-- The manager's figures are those of what the calls have entered. -/
structure Booked (texts : Texts Address) (calls : List (NetworkCall Address TaskId))
    (s : NetworkState Address) : Prop where
  peers : ∀ address peer, s.peers.lookup address = some peer →
    peer.account = .of (transfersWith texts address calls)
  totals : s.stats.totals = .of (counted texts calls) (concluded texts calls) s.peers.len

/-- No overflow check stops a task in the step. -/
def CallUntroubled (c : NetworkCall Address TaskId) : Prop :=
  c.result ≠ .panicked ∧ ∀ id message sends, c.post.tasks id = some (.broadcasting message sends) →
    ∀ send ∈ sends, send.stage ≠ none

/-- A call of the run is a step of its task, or the first step of an operation. -/
theorem step_of_makes
    (hmakes : ((networkTasks checks texts validatorId maxRetries).machine TaskId).Makes c)
    (hcalm : CallUntroubled c) :
    ∃ task io step, networkStep checks texts validatorId maxRetries task io c.pre.shared = some step ∧
      Untroubled step ∧
      c.post = ⟨step.state, Function.update c.pre.tasks c.event.task step.task⟩ ∧
      callBooking texts c = stepBooking texts task io step.progress ∧
      (c.pre.tasks c.event.task = some task ∨
        c.pre.tasks c.event.task = none ∧ ∃ op, task = .begun op) := by
  obtain ⟨pre, e, r, post⟩ := c
  have hrule : TaskSystem.Rule _ pre e r post := TaskSystem.rule_of_step hmakes
  have huntroubled : ∀ (id : TaskId) (step : TaskStep (NetworkTask Address) NetworkAnswer
      (NetworkState Address)), (pre.advance id step).1 = r → (pre.advance id step).2 = post →
      Untroubled step := by
    rintro id step rfl rfl
    cases step with
    | running task s' =>
        cases task with
        | broadcasting message sends =>
            exact hcalm.2 id message sends (by simp [TaskPool.advance, TaskStep.task])
        | _ => trivial
    | finished => trivial
    | panicked => exact absurd rfl hcalm.1
  cases hrule with
  | start id op input step idle resumes =>
      exact ⟨_, input, step, resumes, huntroubled id step rfl rfl, rfl, rfl, .inr ⟨idle, op, rfl⟩⟩
  | resume id input task step busy resumes =>
      refine ⟨task, input, step, resumes, huntroubled id step rfl rfl, rfl, ?_, .inl busy⟩
      simp [callBooking, busy, TaskPool.advance]

theorem effect_of_makes
    (hmakes : ((networkTasks checks texts validatorId maxRetries).machine TaskId).Makes c)
    (hcalm : CallUntroubled c) : Effect c.pre.shared (callBooking texts c) c.post.shared := by
  obtain ⟨task, io, step, hstep, huntroubled, hpost, hbooking, _⟩ := step_of_makes hmakes hcalm
  rw [hbooking, hpost]
  exact effect_networkStep hstep huntroubled

omit [DecidableEq TaskId] in
theorem sinceAdded_concat (address : Address) (calls : List (NetworkCall Address TaskId))
    (c : NetworkCall Address TaskId) : sinceAdded address (calls ++ [c]) =
      if address ∈ c.post.shared.peers then sinceAdded address calls ++ [c] else [] := by
  by_cases hmem : address ∈ c.post.shared.peers
  · rw [if_pos hmem, sinceAdded, List.rtakeWhile_concat_pos _ _ _ (by simpa using hmem), sinceAdded]
  · rw [if_neg hmem, sinceAdded, List.rtakeWhile_concat_neg _ _ _ (by simpa using hmem)]

theorem sinceAdded_eq_nil {s : NetworkPool Address TaskId} (hempty : s.shared.peers = ∅)
    (hrun : ((networkTasks checks texts validatorId maxRetries).machine TaskId).Run s calls x)
    (h : address ∉ x.shared.peers) : sinceAdded address calls = [] := by
  cases hrun with
  | start => rfl
  | call c _ _ => rw [sinceAdded_concat, if_neg h]

omit [DecidableEq Address] [DecidableEq TaskId] in
theorem bookings_concat (calls : List (NetworkCall Address TaskId))
    (c : NetworkCall Address TaskId) :
    bookings texts (calls ++ [c]) = bookings texts calls ++ (callBooking texts c).toList := by
  rw [bookings, List.filterMap_append]
  cases h : callBooking texts c <;> simp [h, bookings]

omit [DecidableEq TaskId] in
theorem transfersWith_concat {a : Address} (h : a ∈ c.post.shared.peers) :
    transfersWith texts a (calls ++ [c]) = transfersWith texts a calls ++
      ((callBooking texts c).bind Booking.recorded?).toList.filter (Transfer.concerns a) := by
  rw [transfersWith, sinceAdded_concat, if_pos h, recorded, bookings_concat, List.filterMap_append,
    List.filter_append, transfersWith, recorded]
  cases callBooking texts c with
  | none => rfl
  | some t => cases t <;> rfl

omit [DecidableEq Address] in
theorem Account.of_send (frames : List (Transfer Address)) (a : Address) (length : ℕ) :
    Account.of (frames ++ [.sent a length]) = (Account.of frames).send length := by
  simp [Account.of, Account.send, UInt64.ofNat_add,
    List.filterMap_cons]

omit [DecidableEq Address] in
theorem Account.of_receive (frames : List (Transfer Address)) (a : Address) (length : ℕ) :
    Account.of (frames ++ [.received a length]) = (Account.of frames).receive length := by
  simp [Account.of, Account.receive, UInt64.ofNat_add,
    List.filterMap_cons]

/-- A frame is booked where it concerns the address. -/
theorem Account.of_book (address : Address) (frames : List (Transfer Address))
    (t : Option (Booking Address)) : (Account.of frames).book address t =
      .of (frames ++ (t.bind Booking.recorded?).toList.filter (Transfer.concerns address)) := by
  cases t with
  | none => simp [Account.book]
  | some t =>
      cases t with
      | recorded transfer =>
          cases transfer with
          | sent other length =>
              by_cases h : other = address
              · simp [Account.book, Transfer.concerns, h, Account.of_send]
              · simp [Account.book, Transfer.concerns, h]
          | received other length =>
              by_cases h : other = address
              · simp [Account.book, Transfer.concerns, h, Account.of_receive]
              · simp [Account.book, Transfer.concerns, h]
      | counted | concluded => simp [Account.book]

omit [DecidableEq Address] in
theorem Totals.of_book (entries : List (Booking Address)) (peers : ℕ)
    (t : Option (Booking Address)) :
    (Totals.of (entries.filterMap Booking.counted?) (entries.filterMap Booking.result?) peers).book
        t = .of ((entries ++ t.toList).filterMap Booking.counted?)
          ((entries ++ t.toList).filterMap Booking.result?) peers := by
  cases t with
  | none => simp [Totals.book]
  | some t =>
      cases t with
      | recorded transfer => simp [Totals.book, List.filterMap_cons]
      | counted transfer =>
          cases transfer <;>
            simp [Totals.of, Totals.book, UInt64.ofNat_add, List.filterMap_cons]
      | concluded result => simp [Totals.of, Totals.book, UInt64.ofNat_add, List.filterMap_cons]

omit [DecidableEq Address] in
theorem len_eq_of_mem_iff (h : ∀ a, a ∈ s'.peers ↔ a ∈ s.peers) : s'.peers.len = s.peers.len :=
  le_antisymm (HashMap.len_le_of_subset fun a => (h a).mp)
    (HashMap.len_le_of_subset fun a => (h a).mpr)

omit [DecidableEq Address] in
theorem Totals.eq_of_peerCount {stats : BroadcastStats} {frames : List (Transfer Address)}
    {results : List BroadcastResult} {peers peers' : ℕ} {n : UInt64}
    (h : stats.totals = .of frames results peers) (hn : n = .ofNat peers') :
    ({ stats with peerCount := n } : BroadcastStats).totals = .of frames results peers' := by
  have hcount : ({ stats with peerCount := n } : BroadcastStats).totals =
      { stats.totals with peerCount := n } := rfl
  rw [hcount, h, hn]
  rfl

theorem NetworkState.account_eq_some_iff {account : Account} : s.account address = some account ↔
    ∃ peer, s.peers.lookup address = some peer ∧ peer.account = account := by
  rw [NetworkState.account, Option.map_eq_some_iff]

omit [DecidableEq TaskId] in
theorem Booked.step (h : Booked texts calls c.pre.shared)
    (hfresh : ∀ a, a ∉ c.pre.shared.peers → sinceAdded a calls = [])
    (heffect : Effect c.pre.shared (callBooking texts c) c.post.shared)
    (hroom : c.pre.shared.peers.len < UInt64.size) :
    Booked texts (calls ++ [c]) c.post.shared := by
  have hcount : c.pre.shared.stats.peerCount = .ofNat c.pre.shared.peers.len :=
    congrArg Totals.peerCount h.totals
  have hold : callBooking texts c = none → ∀ a peer, c.pre.shared.peers.lookup a = some peer →
      a ∈ c.post.shared.peers → peer.account = .of (transfersWith texts a (calls ++ [c])) := by
    intro hnone a peer hpeer hmem
    rw [transfersWith_concat hmem, hnone, h.peers a peer hpeer]
    simp
  have hcounted : callBooking texts c = none → counted texts (calls ++ [c]) =
      counted texts calls := by
    intro hnone
    rw [counted, bookings_concat, hnone, Option.toList_none, List.append_nil, counted]
  have hconcluded : callBooking texts c = none → concluded texts (calls ++ [c]) =
      concluded texts calls := by
    intro hnone
    rw [concluded, bookings_concat, hnone, Option.toList_none, List.append_nil, concluded]
  generalize ht : callBooking texts c = t at heffect
  generalize hpost : c.post.shared = s' at heffect
  cases heffect with
  | book _ _ accounts totals =>
      have hmem : ∀ a, a ∈ s'.peers ↔ a ∈ c.pre.shared.peers := by
        intro a
        have hnone : s'.account a = none ↔ c.pre.shared.account a = none := by
          rw [accounts a, Option.map_eq_none_iff]
        simpa only [NetworkState.account_eq_none_iff, not_iff_not] using hnone
      refine ⟨?_, ?_⟩
      · intro a peer hpeer
        have hpre : a ∈ c.post.shared.peers := by
          rw [hpost]
          exact HashMap.mem_iff_exists_lookup.mpr ⟨peer, hpeer⟩
        have haccount : s'.account a = some peer.account := by
          rw [NetworkState.account, hpeer, Option.map_some]
        rw [accounts a, Option.map_eq_some_iff] at haccount
        obtain ⟨account, hold, hbook⟩ := haccount
        obtain ⟨old, hlookup, rfl⟩ := NetworkState.account_eq_some_iff.mp hold
        rw [← hbook, h.peers a old hlookup, Account.of_book, transfersWith_concat hpre, ht]
      · rw [totals, h.totals, counted, concluded, counted, concluded, bookings_concat, ht,
          len_eq_of_mem_iff hmem]
        exact Totals.of_book _ _ t
  | add address now unknown =>
      refine ⟨?_, ?_⟩
      · intro a peer hpeer
        rw [HashMap.lookup_insert_eq] at hpeer
        split at hpeer
        · rename_i ha
          subst ha
          obtain rfl := Option.some.inj hpeer
          have hpost' : a ∈ c.post.shared.peers := by
            rw [hpost]
            exact HashMap.mem_insert_self _ _ _
          rw [transfersWith_concat hpost', ht, transfersWith, hfresh a unknown]
          rfl
        · exact hold ht a peer hpeer (by rw [hpost]; simp [HashMap.mem_iff_exists_lookup, *])
      · rw [hcounted ht, hconcluded ht, HashMap.len_insert_of_notMem unknown]
        exact Totals.eq_of_peerCount h.totals (by rw [hcount, UInt64.ofNat_add]; rfl)
  | remove address known =>
      refine ⟨?_, ?_⟩
      · intro a peer hpeer
        have hpost' : a ∈ c.post.shared.peers := by
          rw [hpost]
          exact HashMap.mem_iff_exists_lookup.mpr ⟨peer, hpeer⟩
        rw [HashMap.lookup_erase_eq] at hpeer
        split at hpeer
        · cases hpeer
        · exact hold ht a peer hpeer hpost'
      · rw [hcounted ht, hconcluded ht]
        refine Totals.eq_of_peerCount h.totals ?_
        have hlen := HashMap.len_erase_of_mem known
        rw [hcount, Saturating.sub64, UInt64.toNat_ofNat_of_lt' hroom, ← hlen]
        rfl
  | clean p =>
      refine ⟨?_, ?_⟩
      · intro a peer hpeer
        have hpost' : a ∈ c.post.shared.peers := by
          rw [hpost]
          exact HashMap.mem_iff_exists_lookup.mpr ⟨peer, hpeer⟩
        rw [HashMap.lookup_retain] at hpeer
        exact hold ht a peer (Option.filter_eq_some_iff.mp hpeer).1 hpost'
      · rw [hcounted ht, hconcluded ht]
        exact Totals.eq_of_peerCount h.totals rfl

theorem run_booked
    (hrun : ((networkTasks checks texts validatorId maxRetries).machine TaskId).Run
      (.idle ⟨∅, .zero⟩) calls x)
    (hcalm : ∀ c ∈ calls, CallUntroubled c)
    (hroom : ∀ c ∈ calls, c.pre.shared.peers.len < UInt64.size) :
    Booked texts calls x.shared := by
  induction hrun with
  | start =>
      refine ⟨?_, rfl⟩
      intro address peer hpeer
      cases hpeer
  | @call calls c hrun hmakes ih =>
      have hbooked := ih (fun d hd => hcalm d (List.mem_append_left _ hd))
        fun d hd => hroom d (List.mem_append_left _ hd)
      have hc : c ∈ calls ++ [c] := List.mem_concat_self
      exact hbooked.step (fun a ha => sinceAdded_eq_nil rfl hrun ha)
        (effect_of_makes hmakes (hcalm c hc)) (hroom c hc)

/-! ## The two sides of a book -/

theorem sum_map_filterMap {α β M : Type} [AddCommMonoid M] (g : α → Option β) (w : β → M)
    (l : List α) : (l.map fun a => ((g a).map w).getD 0).sum = ((l.filterMap g).map w).sum := by
  induction l with
  | nil => rfl
  | cons a l ih => cases h : g a <;> simp [h, ih]

/-- A run has entered on the one side what it has on the other, up to what its tasks leave due. -/
theorem Ledger.Balanced.run {M : Type} [AddCommMonoid M] {L : Ledger Address M}
    (h : L.Balanced checks)
    (hrun : ((networkTasks checks texts validatorId maxRetries).machine TaskId).Run
      (.idle ⟨∅, .zero⟩) calls x)
    (hcalm : ∀ c ∈ calls, CallUntroubled c) (ids : Finset TaskId)
    (hids : ∀ id ∉ ids, TaskSystem.dueOf L.due (x.tasks id) = 0) :
    ((bookings texts calls).map L.paid).sum + ∑ id ∈ ids, TaskSystem.dueOf L.due (x.tasks id) =
      ((bookings texts calls).map L.owed).sum := by
  rw [bookings, ← sum_map_filterMap, ← sum_map_filterMap]
  refine TaskSystem.run_balance hrun ?_ ids hids
  intro c hc hmakes
  obtain ⟨task, io, step, hstep, huntroubled, hpost, hbooking, hbefore⟩ :=
    step_of_makes hmakes (hcalm c hc)
  have hafter : c.post.tasks c.event.task = step.task := by
    rw [hpost]
    exact Function.update_self _ _ _
  have hdue : TaskSystem.dueOf L.due (c.pre.tasks c.event.task) = L.due task := by
    obtain hbusy | ⟨hidle, op, rfl⟩ := hbefore
    · rw [hbusy]
      rfl
    · rw [hidle]
      rfl
  rw [TaskSystem.Balances, hbooking, hafter, hdue]
  exact h.networkStep hstep huntroubled

/-- The frames that have been recorded, against those that have been counted. -/
def countingLedger : Ledger Address (Multiset (Transfer Address)) where
  paid
    | .counted transfer => {transfer}
    | _ => 0
  owed
    | .recorded transfer => {transfer}
    | _ => 0
  sending address
    | .counting _ length => {.sent address length}
    | .sending _ => 0
  receiving address length := {.received address length}

/-- What a task has recorded with a peer, and the statistics do not count yet. -/
def uncounted (task : Option (NetworkTask Address)) : Multiset (Transfer Address) :=
  TaskSystem.dueOf countingLedger.due task

omit [DecidableEq Address] in
theorem sendDue_of_ended {send : SendTask Address} (h : send.ended = true) :
    countingLedger.sendDue send = 0 := by
  obtain ⟨address, stage⟩ := send
  cases stage with
  | none => rfl
  | some stage =>
      cases stage with
      | sending phase => rfl
      | counting => cases h

omit [DecidableEq Address] in
theorem balanced_countingLedger : (countingLedger : Ledger Address _).Balanced checks where
  silent _ _ _ := rfl
  recordSent _ _ _ := zero_add _
  countSent _ _ _ := add_comm _ _
  recordReceived _ _ := zero_add _
  countReceived _ _ := (zero_add _).symm
  conclude sends tally durationMs hended _ := by
    have hzero : (sends.map countingLedger.sendDue).sum = 0 := by
      apply List.sum_eq_zero
      intro due hdue
      obtain ⟨send, hsend, rfl⟩ := List.mem_map.mp hdue
      exact sendDue_of_ended (List.all_eq_true.mp hended send hsend)
    rw [hzero]
    rfl

omit [DecidableEq Address] in
theorem sum_paid (entries : List (Booking Address)) : (entries.map countingLedger.paid).sum =
    (entries.filterMap Booking.counted? : Multiset (Transfer Address)) := by
  induction entries with
  | nil => rfl
  | cons entry entries ih =>
      rw [List.map_cons, List.sum_cons, ih]
      cases entry <;> simp [countingLedger, List.filterMap_cons]

omit [DecidableEq Address] in
theorem sum_owed (entries : List (Booking Address)) : (entries.map countingLedger.owed).sum =
    (entries.filterMap Booking.recorded? : Multiset (Transfer Address)) := by
  induction entries with
  | nil => rfl
  | cons entry entries ih =>
      rw [List.map_cons, List.sum_cons, ih]
      cases entry <;> simp [countingLedger, List.filterMap_cons]

/-- Each frame that has been recorded has been counted, or waits for it in one of the tasks. -/
theorem run_uncounted
    (hrun : ((networkTasks checks texts validatorId maxRetries).machine TaskId).Run
      (.idle ⟨∅, .zero⟩) calls x)
    (hcalm : ∀ c ∈ calls, CallUntroubled c) (ids : Finset TaskId)
    (hids : ∀ id ∉ ids, uncounted (x.tasks id) = 0) :
    (counted texts calls : Multiset (Transfer Address)) + ∑ id ∈ ids, uncounted (x.tasks id) =
      (recorded texts calls : Multiset (Transfer Address)) := by
  have hledger := balanced_countingLedger.run hrun hcalm ids hids
  rwa [sum_paid, sum_owed] at hledger

/-- However the tasks of a manager interleave, as long as no overflow check stops one of them: what
is recorded of a peer is what has gone to it and come from it since it was added. The totals are
those of the frames that have been counted, of the broadcasts that have been concluded, and of the
peers. The frames that have been recorded are those that have been counted, and those of the tasks
that are between the two. -/
theorem network_accounts
    (hrun : ((networkTasks checks texts validatorId maxRetries).machine TaskId).Run
      (.idle ⟨∅, .zero⟩) calls x)
    (hcalm : ∀ c ∈ calls, CallUntroubled c)
    (hroom : ∀ c ∈ calls, c.pre.shared.peers.len < UInt64.size) :
    (∀ address peer, x.shared.peers.lookup address = some peer →
      peer.account = .of (transfersWith texts address calls)) ∧
    x.shared.stats.totals = .of (counted texts calls) (concluded texts calls) x.shared.peers.len ∧
    ∀ ids : Finset TaskId, (∀ id ∉ ids, uncounted (x.tasks id) = 0) →
      (counted texts calls : Multiset (Transfer Address)) + ∑ id ∈ ids, uncounted (x.tasks id) =
        (recorded texts calls : Multiset (Transfer Address)) :=
  ⟨(run_booked hrun hcalm hroom).peers, (run_booked hrun hcalm hroom).totals,
    run_uncounted hrun hcalm⟩

/-- A ping that has gone to a peer, and has not been counted yet. -/
theorem network_accounts_ping :
    ∃ (calls : List (NetworkCall ℕ Unit)) (x : NetworkPool ℕ Unit) (peer : PeerInfo ℕ),
      ((networkTasks .on .plain [] 1).machine Unit).Run (.idle ⟨∅, .zero⟩) calls x ∧
      x.shared.peers.lookup 7 = some peer ∧ transfersWith .plain 7 calls = [.sent 7 24] ∧
      counted .plain calls = [] ∧ peer.account = ⟨1, 24, 0, 0⟩ ∧
      x.shared.stats.totalMessagesSent = 0 ∧
      uncounted (x.tasks ()) = {.sent 7 24} ∧
      (∀ address peer, x.shared.peers.lookup address = some peer →
        peer.account = .of (transfersWith .plain address calls)) ∧
      x.shared.stats.totals =
        .of (counted .plain calls) (concluded .plain calls) x.shared.peers.len ∧
      ∀ ids : Finset Unit, (∀ id ∉ ids, uncounted (x.tasks id) = 0) →
        (counted .plain calls : Multiset (Transfer ℕ)) + ∑ id ∈ ids, uncounted (x.tasks id) =
          (recorded .plain calls : Multiset (Transfer ℕ)) := by
  have hconnected := Machine.Run.start.of_step (M := (networkTasks .on .plain [] 1).machine Unit)
    (s := .idle ⟨∅, .zero⟩) (e := .start () (.addPeer 7) (.locked (.at 0))) rfl
    |>.of_step (e := .start () (.connectPeer 7) (.locked (.at 0))) rfl
    |>.of_step (e := .resume () (.connect (.connected .ok))) rfl
    |>.of_step (e := .resume () (.connect (.wrote (.ok ())))) rfl
    |>.of_step (e := .resume () (.connect (.answered (.data handshakeFrame)))) rfl
  have hrun := hconnected.of_step (e := .start () (.broadcastMessage (.ping 1 2)) (.locked (.at 0)))
      rfl |>.of_step (e := .resume () (.send 0 .resumed)) rfl
    |>.of_step (e := .resume () (.send 0 (.connected .ok))) rfl
    |>.of_step (e := .resume () (.send 0 (.wrote .ok 3 5))) rfl
  refine ⟨_, _, _, hrun, rfl, rfl, rfl, rfl, rfl, rfl, network_accounts hrun ?_ ?_⟩
  · intro c hc
    simp only [List.nil_append, List.cons_append, List.mem_cons, List.not_mem_nil, or_false] at hc
    rcases hc with rfl | rfl | rfl | rfl | rfl | rfl | rfl | rfl | rfl
    all_goals
      refine ⟨nofun, ?_⟩
      intro id message sends hbusy
      cases hbusy
    all_goals decide
  · intro c hc
    simp only [List.nil_append, List.cons_append, List.mem_cons, List.not_mem_nil, or_false] at hc
    rcases hc with rfl | rfl | rfl | rfl | rfl | rfl | rfl | rfl | rfl
    all_goals decide

end ValidatorSync

end SilverNetwork
