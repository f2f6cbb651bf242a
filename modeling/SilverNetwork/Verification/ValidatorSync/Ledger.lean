import SilverNetwork.Foundations.TaskBalance
import SilverNetwork.Verification.ValidatorSync.Bookings

/-! Books with two sides. A step may enter something on the one side that a later step of its task
enters on the other, and what lies between the two depends only on where the task is. -/

namespace SilverNetwork

namespace ValidatorSync

variable {Address : Type} [DecidableEq Address] {checks : OverflowChecks} {texts : Texts Address}
  {validatorId : Bytes} {maxRetries : ℕ} {address : Address} {s s' : NetworkState Address}

/-- What a step of a send makes of it. -/
inductive SendMove : SendStage → SendIo → SendStage → Prop where
  | record (number : ℕ) (frame : Bytes) (latencyMs : UInt64) (now : Instant) :
      SendMove (.sending (.writing number frame)) (.wrote .ok latencyMs now)
        (.counting latencyMs frame.length)
  | count (latencyMs : UInt64) (length : ℕ) :
      SendMove (.counting latencyMs length) .resumed
        (.sending (.finished (.ok (latencyMs, .ofNat length))))
  | silent (phase phase' : SendPhase) (io : SendIo)
      (unwritten : ∀ number frame latencyMs now, io = .wrote .ok latencyMs now →
        phase = .writing number frame → False)
      (before : ∀ sent, phase ≠ .finished (.ok sent))
      (after : ∀ sent, phase' ≠ .finished (.ok sent)) :
      SendMove (.sending phase) io (.sending phase')

theorem sendMove_of_step {message : NetworkMessage} {stage stage' : SendStage} {io : SendIo}
    (hstep : sendStep checks texts address message maxRetries stage io s =
      some (some stage', s')) : SendMove stage io stage' := by
  unfold sendStep at hstep
  split at hstep
  case h_1 number frame latencyMs now =>
      obtain rfl := (toOption_of_stage hstep).1
      exact .record number frame latencyMs now
  case h_2 latencyMs length =>
      obtain rfl := (toOption_of_stage hstep).1
      exact .count latencyMs length
  case h_3 phase hother =>
      split at hstep
      · split at hstep
        · rename_i hsend
          obtain ⟨hstage, _⟩ := Prod.mk.inj (Option.some.inj hstep)
          obtain rfl := Option.some.inj hstage
          refine .silent _ _ _ hother ?_ ?_
          · rintro sent rfl
            cases hsend
          · rintro sent rfl
            cases attemptRule_of_send hsend with
            | succeed number frame latencyMs now => exact hother _ _ _ _ rfl rfl
        · simp at hstep
      · cases hstep
  case h_4 => cases hstep

/-- The weight of what a step enters, if anything. -/
def weigh {M : Type} [AddCommMonoid M] (weight : Booking Address → M)
    (booking : Option (Booking Address)) : M := (booking.map weight).getD 0

/-- A book with two sides. What a task has entered on the side of what is owed and not yet on the
other depends on where it is. -/
structure Ledger (Address M : Type) where
  paid : Booking Address → M
  owed : Booking Address → M
  sending : Address → SendStage → M
  receiving : Address → ℕ → M

namespace Ledger

variable {M : Type} [AddCommMonoid M] {L : Ledger Address M}

def sendDue (L : Ledger Address M) (send : SendTask Address) : M :=
  (send.stage.map (L.sending send.address)).getD 0

/-- What the task has entered on one side only. -/
def due (L : Ledger Address M) : NetworkTask Address → M
  | .counting address length => L.receiving address length
  | .broadcasting _ sends => (sends.map L.sendDue).sum
  | _ => 0

/-- Every kind of step enters as much on the one side as on the other, up to what it leaves due. -/
structure Balanced (checks : OverflowChecks) (L : Ledger Address M) : Prop where
  silent : ∀ address phase, (∀ sent, phase ≠ .finished (.ok sent)) →
    L.sending address (.sending phase) = 0
  recordSent : ∀ address length latencyMs,
    L.paid (.recorded (.sent address length)) + L.sending address (.counting latencyMs length) =
      L.owed (.recorded (.sent address length))
  countSent : ∀ address length latencyMs,
    L.paid (.counted (.sent address length)) +
        L.sending address (.sending (.finished (.ok (latencyMs, .ofNat length)))) =
      L.owed (.counted (.sent address length)) + L.sending address (.counting latencyMs length)
  recordReceived : ∀ address length,
    L.paid (.recorded (.received address length)) + L.receiving address length =
      L.owed (.recorded (.received address length))
  countReceived : ∀ address length,
    L.paid (.counted (.received address length)) =
      L.owed (.counted (.received address length)) + L.receiving address length
  conclude : ∀ (sends : List (SendTask Address)) tally durationMs, sends.all SendTask.ended →
    sends.foldlM (BroadcastTally.collect checks) .zero = some tally →
      L.paid (.concluded (tally.result sends.length durationMs)) =
        L.owed (.concluded (tally.result sends.length durationMs)) + (sends.map L.sendDue).sum

/-- The sum over a list, and over the list in which one member has been replaced. -/
theorem sum_map_set {α : Type} (f : α → M) {l : List α} {i : ℕ} {a : α} (b : α)
    (h : l[i]? = some a) :
    ∃ rest, (l.map f).sum = rest + f a ∧ ((l.set i b).map f).sum = rest + f b := by
  induction l generalizing i with
  | nil => simp at h
  | cons first l ih =>
      cases i with
      | zero =>
          obtain rfl : first = a := by simpa using h
          exact ⟨(l.map f).sum, by simp [add_comm], by simp [add_comm]⟩
      | succ i =>
          obtain ⟨rest, hold, hnew⟩ := ih (by simpa using h)
          refine ⟨f first + rest, ?_, ?_⟩
          · rw [List.map_cons, List.sum_cons, hold, add_assoc]
          · rw [List.set_cons_succ, List.map_cons, List.sum_cons, hnew, add_assoc]

omit [DecidableEq Address] in
theorem Balanced.sendMove (h : L.Balanced checks) {stage stage' : SendStage} {io : SendIo}
    (hmove : SendMove stage io stage') (address : Address) :
    weigh L.paid (sendBooking address stage io) + L.sending address stage' =
      weigh L.owed (sendBooking address stage io) + L.sending address stage := by
  cases hmove with
  | record number frame latencyMs now =>
      have hbefore : L.sending address (.sending (.writing number frame)) = 0 :=
        h.silent address _ (fun _ heq => by cases heq)
      rw [hbefore, add_zero]
      exact h.recordSent address frame.length latencyMs
  | count latencyMs length => exact h.countSent address length latencyMs
  | silent phase phase' io unwritten before after =>
      rw [sendBooking_sending unwritten, h.silent address _ before, h.silent address _ after]
      rfl

theorem Balanced.broadcastSend (h : L.Balanced checks) {message : NetworkMessage}
    {sends : List (SendTask Address)} {index : ℕ} {io : SendIo}
    {step : TaskStep (NetworkTask Address) NetworkAnswer (NetworkState Address)}
    (hstep : broadcastSend checks texts maxRetries message sends index io s = some step)
    (hcalm : Untroubled step) :
    weigh L.paid (stepBooking texts (.broadcasting message sends) (.send index io) step.progress) +
        TaskSystem.dueOf L.due step.task =
      weigh L.owed (stepBooking texts (.broadcasting message sends) (.send index io)
        step.progress) + L.due (.broadcasting message sends) := by
  simp only [ValidatorSync.broadcastSend, Option.bind_eq_bind, Option.bind_eq_some_iff,
    Option.some.injEq, Prod.exists] at hstep
  obtain ⟨⟨address, _⟩, htask, stage, rfl, stage', s', hsend, rfl⟩ := hstep
  have hmem : (⟨address, stage'⟩ : SendTask Address) ∈ sends.set index ⟨address, stage'⟩ :=
    List.mem_set (List.getElem?_eq_some_iff.mp htask).1 _
  have hstage : stage' ≠ none := hcalm _ hmem
  obtain ⟨stage'', rfl⟩ := Option.ne_none_iff_exists'.mp hstage
  have hmove := h.sendMove (sendMove_of_step hsend) address
  obtain ⟨rest, hold, hnew⟩ :=
    sum_map_set L.sendDue (⟨address, some stage''⟩ : SendTask Address) htask
  have hbefore : L.due (.broadcasting message sends) = rest + L.sending address stage := hold
  have hafter : TaskSystem.dueOf L.due (TaskStep.running (.broadcasting message
      (sends.set index ⟨address, some stage''⟩)) s' : TaskStep _ NetworkAnswer _).task =
        rest + L.sending address stage'' := hnew
  rw [stepBooking_send htask, hbefore, hafter, add_left_comm, hmove, add_left_comm]

omit [DecidableEq Address] in
theorem dueOf_map {π ρ : Type} {f : π → NetworkTask Address} {g : ρ → NetworkAnswer}
    (hf : ∀ task, L.due (f task) = 0) (step : TaskStep π ρ (NetworkState Address)) :
    TaskSystem.dueOf L.due (step.map f g).task = 0 := by
  cases step with
  | running task s => exact hf task
  | finished | panicked => rfl

omit [DecidableEq Address] in
theorem dueOf_nextReconnect (rest : List Address) (reconnected : ℕ) (s : NetworkState Address) :
    TaskSystem.dueOf L.due (nextReconnect rest reconnected s).task = 0 := by
  cases rest <;> rfl

omit [DecidableEq Address] in
theorem Balanced.spawned (h : L.Balanced checks) (addresses : List Address) :
    ((addresses.map SendTask.spawned).map L.sendDue).sum = 0 := by
  induction addresses with
  | nil => rfl
  | cons address addresses ih =>
      have hsend : L.sendDue (.spawned address) = 0 :=
        h.silent address (.attempt 0 none) (fun _ heq => by cases heq)
      rw [List.map_cons, List.map_cons, List.sum_cons, ih, hsend, add_zero]

theorem Balanced.beginStep (h : L.Balanced checks) {op : NetworkOp Address}
    {readings : LockReadings Address}
    {step : TaskStep (NetworkTask Address) NetworkAnswer (NetworkState Address)}
    (hstep : beginStep checks texts validatorId op readings s = some step) :
    TaskSystem.dueOf L.due step.task = 0 := by
  cases op with
  | addPeer address =>
      obtain rfl := Option.some.inj hstep
      unfold addPeer
      split
      · rfl
      · cases Locked.addPeer checks address (readings.now address) s <;> rfl
  | removePeer | disconnectPeer | cleanupStalePeers =>
      obtain rfl := Option.some.inj hstep
      rfl
  | connectPeer address =>
      obtain ⟨step, _, rfl⟩ := Option.map_eq_some_iff.mp hstep
      exact dueOf_map (fun _ => rfl) step
  | handlePeerConnection address =>
      simp only [ValidatorSync.beginStep] at hstep
      split at hstep <;> (obtain rfl := Option.some.inj hstep; rfl)
  | reconnectFailedPeers =>
      obtain rfl := Option.some.inj hstep
      exact dueOf_nextReconnect _ _ s
  | broadcastMessage message =>
      obtain rfl := Option.some.inj hstep
      unfold startBroadcast
      split
      · rfl
      · exact h.spawned _

/-- A listener records a message and leaves its count due, or enters nothing. -/
theorem Balanced.listeningStep (h : L.Balanced checks) {phase : ConnectionPhase} {io : ListenIo}
    {progress : Progress NetworkAnswer}
    {step : TaskStep (NetworkTask Address) NetworkAnswer (NetworkState Address)}
    (hstep : listeningStep checks texts address phase io s = some step)
    (hcalm : step.progress ≠ .panicked) :
    weigh L.paid (stepBooking texts (.listening address phase) (.listen io) progress) +
        TaskSystem.dueOf L.due step.task =
      weigh L.owed (stepBooking texts (.listening address phase) (.listen io) progress) := by
  unfold ValidatorSync.listeningStep at hstep
  split at hstep
  · rename_i b bytes now
    obtain rfl := Option.some.inj hstep
    unfold receiveStep at hcalm ⊢
    simp only [stepBooking]
    cases hdecodes : NetworkMessage.fromBytes texts (b :: bytes) with
    | error e => exact add_zero _
    | ok message =>
        rw [hdecodes] at hcalm
        rw [TaskStep.proceed_of_toOption (toOption_of_proceed hcalm)]
        exact h.recordReceived address (b :: bytes).length
  · rename_i hother
    obtain ⟨step, _, rfl⟩ := Option.map_eq_some_iff.mp hstep
    rw [stepBooking_listening hother, dueOf_map (fun _ => rfl) step, add_zero]
    rfl

omit [DecidableEq Address] in
theorem Balanced.concludeBroadcast (h : L.Balanced checks) {message : NetworkMessage}
    {sends : List (SendTask Address)} {readings : LockReadings Address} {durationMs : UInt64}
    (hended : sends.all SendTask.ended)
    (hcalm : (concludeBroadcast checks sends durationMs s).progress ≠ .panicked) :
    weigh L.paid (stepBooking texts (.broadcasting message sends) (.locked readings)
          (concludeBroadcast checks sends durationMs s).progress) +
        TaskSystem.dueOf L.due (concludeBroadcast checks sends durationMs s).task =
      weigh L.owed (stepBooking texts (.broadcasting message sends) (.locked readings)
          (concludeBroadcast checks sends durationMs s).progress) +
        L.due (.broadcasting message sends) := by
  unfold ValidatorSync.concludeBroadcast at hcalm ⊢
  split
  · rename_i hfold
    rw [hfold] at hcalm
    exact absurd rfl hcalm
  · rename_i tally hfold
    rw [hfold] at hcalm
    dsimp only at hcalm ⊢
    cases hrecord : s.stats.recordBroadcast checks (tally.result sends.length durationMs) with
    | error stats =>
        rw [hrecord] at hcalm
        exact absurd rfl hcalm
    | ok stats => exact (add_zero _).trans (h.conclude sends tally durationMs hended hfold)

/-- What a step pays and leaves due is what was due before, and what it owes. -/
theorem Balanced.networkStep (h : L.Balanced checks) {task : NetworkTask Address}
    {io : NetworkIo Address}
    {step : TaskStep (NetworkTask Address) NetworkAnswer (NetworkState Address)}
    (hstep : networkStep checks texts validatorId maxRetries task io s = some step)
    (hcalm : Untroubled step) :
    weigh L.paid (stepBooking texts task io step.progress) + TaskSystem.dueOf L.due step.task =
      weigh L.owed (stepBooking texts task io step.progress) + L.due task := by
  have hprogress := progress_ne_of_untroubled hcalm
  unfold ValidatorSync.networkStep at hstep
  split at hstep
  case h_1 op readings =>
      rw [h.beginStep hstep]
      rfl
  case h_2 address phase io =>
      obtain ⟨step, _, rfl⟩ := Option.map_eq_some_iff.mp hstep
      rw [dueOf_map (fun _ => rfl) step]
      rfl
  case h_3 address phase rest reconnected io =>
      obtain ⟨step, _, rfl⟩ := Option.map_eq_some_iff.mp hstep
      cases step with
      | running | panicked => rfl
      | finished result s' => cases result <;> cases rest <;> rfl
  case h_4 address phase io =>
      rw [h.listeningStep hstep hprogress]
      exact (add_zero _).symm
  case h_5 address length readings =>
      obtain rfl := Option.some.inj hstep
      rw [TaskStep.proceed_of_toOption (toOption_of_proceed hprogress)]
      exact (add_zero _).trans (h.countReceived address length)
  case h_6 message sends index io => exact h.broadcastSend hstep hcalm
  case h_7 message sends readings =>
      split at hstep
      · rename_i hended
        obtain rfl := Option.some.inj hstep
        exact h.concludeBroadcast hended hprogress
      · cases hstep
  case h_8 => cases hstep

end Ledger

end ValidatorSync

end SilverNetwork
