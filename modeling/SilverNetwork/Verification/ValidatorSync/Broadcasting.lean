import SilverNetwork.Verification.ValidatorSync.Connecting
import SilverNetwork.Verification.ValidatorSync.Streaks

/-! The addresses that a broadcast sends to. It collects them when it starts, and its sends go on
with them whatever happens to the peers meanwhile. -/

namespace SilverNetwork

namespace ValidatorSync

variable {Address : Type} [DecidableEq Address] {checks : OverflowChecks} {texts : Texts Address}
  {validatorId : Bytes} {maxRetries : ℕ} {address : Address} {s s' started : NetworkState Address}
  {op : NetworkOp Address} {task task' : NetworkTask Address}

abbrev NetworkPool (Address TaskId : Type) : Type :=
  TaskPool (NetworkState Address) TaskId (NetworkTask Address)

abbrev NetworkCall (Address TaskId : Type) : Type :=
  Call (NetworkPool Address TaskId) (TaskEvent (NetworkIo Address) TaskId (NetworkOp Address))
    (Progress NetworkAnswer)

theorem mem_connectedPeers {order : Enumeration Address} :
    address ∈ connectedPeers order s ↔ s.stateOf address = some .connected := by
  simp only [connectedPeers, Enumeration.mem_arrange, List.mem_filter, Option.any_eq_true,
    decide_eq_true_eq, NetworkState.stateOf, Option.map_eq_some_iff]
  constructor
  · intro hmem
    exact hmem.2
  · intro hstate
    obtain ⟨peer, hpeer, hconnected⟩ := hstate
    exact ⟨HashMap.mem_iff_exists_lookup.mpr ⟨peer, hpeer⟩, peer, hpeer, hconnected⟩

/-! ## One task -/

/-- A broadcast that is under way sends to peers that were connected when it was started. -/
def Targets (op : NetworkOp Address) (started : NetworkState Address) :
    NetworkTask Address → Prop
  | .begun _ => False
  | .broadcasting message sends =>
      op = .broadcastMessage message ∧
        ∀ send ∈ sends, started.stateOf send.address = some .connected
  | _ => True

theorem targets_nextReconnect {rest : List Address} {reconnected : ℕ}
    (h : nextReconnect rest reconnected s = .running task s') : Targets op started task := by
  cases rest with
  | nil => cases h
  | cons address rest =>
      obtain ⟨rfl, _⟩ := TaskStep.running.inj h
      trivial

/-- The first step of an operation is the one that looks for the connected peers. -/
theorem targets_beginStep {readings : LockReadings Address}
    (h : beginStep checks texts validatorId op readings s = some (.running task s')) :
    Targets op s task := by
  cases op with
  | addPeer address =>
      simp only [beginStep, addPeer, Option.some.injEq] at h
      split at h
      · cases h
      · exact absurd h TaskStep.finish_ne_running
  | removePeer | disconnectPeer | cleanupStalePeers => cases Option.some.inj h
  | connectPeer address =>
      obtain ⟨step, _, hstep⟩ := Option.map_eq_some_iff.mp h
      obtain ⟨phase, rfl⟩ := TaskStep.eq_of_map_running hstep
      trivial
  | handlePeerConnection address =>
      simp only [beginStep] at h
      split at h
      · cases Option.some.inj h
      · obtain ⟨rfl, _⟩ := TaskStep.running.inj (Option.some.inj h)
        trivial
  | reconnectFailedPeers => exact targets_nextReconnect (Option.some.inj h)
  | broadcastMessage message =>
      simp only [beginStep, startBroadcast, Option.some.injEq] at h
      split at h
      · cases h
      · rename_i first rest hpeers
        obtain ⟨rfl, _⟩ := TaskStep.running.inj h
        refine ⟨rfl, ?_⟩
        intro send hsend
        obtain ⟨address, haddress, rfl⟩ := List.mem_map.mp hsend
        rw [← hpeers] at haddress
        exact mem_connectedPeers.mp haddress

theorem targets_start {io : NetworkIo Address}
    (h : networkStep checks texts validatorId maxRetries (.begun op) io s =
      some (.running task s')) : Targets op s task := by
  cases io with
  | locked readings => exact targets_beginStep h
  | connect | listen | send => cases h

theorem targets_broadcastSend {message : NetworkMessage} {sends : List (SendTask Address)}
    {index : ℕ} {io : SendIo} (hsends : Targets op started (.broadcasting message sends))
    (h : broadcastSend checks texts maxRetries message sends index io s =
      some (.running task s')) : Targets op started task := by
  simp only [broadcastSend, Option.bind_eq_bind, Option.bind_eq_some_iff, Option.some.injEq,
    Prod.exists] at h
  obtain ⟨send, hsend, phase, _, phase', s₁, _, hrunning⟩ := h
  obtain ⟨rfl, _⟩ := TaskStep.running.inj hrunning
  refine ⟨hsends.1, ?_⟩
  intro send' hsend'
  rcases List.mem_or_eq_of_mem_set hsend' with hold | rfl
  · exact hsends.2 send' hold
  · exact hsends.2 send (List.mem_of_getElem? hsend)

theorem targets_listeningStep {phase : ConnectionPhase} {io : ListenIo}
    (h : listeningStep checks texts address phase io s = some (.running task s')) :
    Targets op started task := by
  unfold listeningStep at h
  split at h
  · unfold receiveStep at h
    split at h
    · obtain ⟨rfl, _⟩ := TaskStep.running.inj (Option.some.inj h)
      trivial
    · rw [TaskStep.task_of_proceed (Option.some.inj h)]
      trivial
  · obtain ⟨step, _, hstep⟩ := Option.map_eq_some_iff.mp h
    obtain ⟨phase, rfl⟩ := TaskStep.eq_of_map_running hstep
    trivial

/-- A later step sends to nobody else. -/
theorem targets_networkStep {io : NetworkIo Address} (htask : Targets op started task)
    (h : networkStep checks texts validatorId maxRetries task io s = some (.running task' s')) :
    Targets op started task' := by
  unfold networkStep at h
  split at h
  case h_1 => exact htask.elim
  case h_2 =>
      obtain ⟨step, _, hstep⟩ := Option.map_eq_some_iff.mp h
      obtain ⟨phase, rfl⟩ := TaskStep.eq_of_map_running hstep
      trivial
  case h_3 =>
      obtain ⟨step, _, hstep⟩ := Option.map_eq_some_iff.mp h
      split at hstep
      · obtain ⟨rfl, _⟩ := TaskStep.running.inj hstep
        trivial
      · exact targets_nextReconnect hstep
      · exact targets_nextReconnect hstep
      · cases hstep
  case h_4 => exact targets_listeningStep h
  case h_5 =>
      rw [TaskStep.task_of_proceed (Option.some.inj h)]
      trivial
  case h_6 => exact targets_broadcastSend htask h
  case h_7 =>
      split at h
      · simp only [concludeBroadcast, Option.some.injEq] at h
        split at h
        · cases h
        · exact absurd h TaskStep.finish_ne_running
      · cases h
  case h_8 => cases h

/-! ## Every run -/

variable {TaskId : Type} [DecidableEq TaskId] {x : NetworkPool Address TaskId}
  {calls : List (NetworkCall Address TaskId)}

/-- A send of the broadcast to the address is resumed. -/
def SendsTo (id : TaskId) (address : Address) (c : NetworkCall Address TaskId) : Prop :=
  ∃ index io message sends send, c.event = .resume id (.send index io) ∧
    c.pre.tasks id = some (.broadcasting message sends) ∧ sends[index]? = some send ∧
    send.address = address

/-- Under any interleaving, a peer that is connected has failed at most five times in a row, and a
broadcast only ever sends to peers that were connected when it was started. -/
theorem broadcasts_avoid_failing_peers
    (h : ((networkTasks checks texts validatorId maxRetries).machine TaskId).Run
      (.idle ⟨∅, .zero⟩) calls x) :
    (∀ address peer, x.shared.peers.lookup address = some peer → peer.state = .connected →
      peer.failedAttempts ≤ 5) ∧
    ∀ before c after id address, calls = before ++ c :: after → SendsTo id address c →
      ∃ earlier a between message input, before = earlier ++ a :: between ∧
        a.event = .start id (.broadcastMessage message) input ∧
        a.pre.shared.stateOf address = some .connected ∧
        ∀ d ∈ between, ∀ op input, d.event ≠ .start id op input := by
  refine ⟨?_, ?_⟩
  · have hempty : NetworkState.FewFailures (⟨∅, .zero⟩ : NetworkState Address) := by
      intro address peer hpeer
      simp at hpeer
    exact TaskSystem.run_shared h hempty fun task input s step hs hstep => hs.networkStep hstep
  · intro before c after id address hcalls hsends
    obtain ⟨index, io, message, sends, send, _, hbusy, hsend, rfl⟩ := hsends
    have hstarted : TaskSystem.StartedIn Targets before id (.broadcasting message sends) :=
      TaskSystem.run_task (h.split hcalls).1 (fun _ _ _ _ _ => targets_start)
        (fun _ _ _ _ _ _ _ => targets_networkStep) id _ hbusy
    obtain ⟨earlier, a, between, rfl, ⟨op, input, hstart, rfl, htargets⟩, hbetween⟩ := hstarted
    exact ⟨earlier, a, between, message, input, rfl, hstart,
      htargets send (List.mem_of_getElem? hsend), hbetween⟩

def LockReadings.at (now : Instant) : LockReadings Address := ⟨fun _ => now, .stored _, 0⟩

/-- A peer that has just been connected is sent to. -/
theorem broadcasts_avoid_failing_peers_plain :
    ∃ (calls : List (NetworkCall ℕ ℕ)) (c : NetworkCall ℕ ℕ) (x : NetworkPool ℕ ℕ),
      ((networkTasks .on .plain [] 1).machine ℕ).Run (.idle ⟨∅, .zero⟩) (calls ++ [c]) x ∧
      SendsTo 3 7 c ∧
      (∃ peer, x.shared.peers.lookup 7 = some peer ∧ peer.state = .connected ∧
        peer.failedAttempts ≤ 5) ∧
      ∃ a ∈ calls, a.pre.shared.stateOf 7 = some .connected := by
  have hconnected := Machine.Run.start.of_step (M := (networkTasks .on .plain [] 1).machine ℕ)
    (s := .idle ⟨∅, .zero⟩) (e := .start 1 (.addPeer 7) (.locked (.at 0))) rfl
    |>.of_step (e := .start 2 (.connectPeer 7) (.locked (.at 0))) rfl
    |>.of_step (e := .resume 2 (.connect (.connected .ok))) rfl
    |>.of_step (e := .resume 2 (.connect (.wrote (.ok ())))) rfl
    |>.of_step (e := .resume 2 (.connect (.answered (.data handshakeFrame)))) rfl
  have hsent := hconnected.of_step (e := .start 3 (.broadcastMessage (.ping 1 2)) (.locked (.at 0)))
      rfl |>.of_step (e := .resume 3 (.send 0 .resumed)) rfl
  have havoids := broadcasts_avoid_failing_peers hsent
  refine ⟨_, _, _, hsent, ⟨0, _, _, _, _, rfl, rfl, rfl, rfl⟩, ⟨_, rfl, rfl, havoids.1 7 _ rfl rfl⟩,
    ?_⟩
  obtain ⟨earlier, a, between, message, input, hbefore, _, hstate, _⟩ :=
    havoids.2 _ _ [] 3 7 rfl ⟨0, _, _, _, _, rfl, rfl, rfl, rfl⟩
  refine ⟨a, ?_, hstate⟩
  rw [hbefore]
  simp

end ValidatorSync

end SilverNetwork
