import SilverNetwork.Foundations.LockOrder
import SilverNetwork.Model.ConcurrentNetwork

/-! The network manager under concurrent callers does not deadlock. A permit is taken before the
peers, and the peers before the statistics; nobody asks the other way round. -/

namespace SilverNetwork

namespace ValidatorSync

open LockedObject LockProgram

/-- The order in which the locks are taken. -/
def NetworkLock.rank : NetworkLock → ℕ
  | .permit _ => 0
  | .peers => 1
  | .stats => 2

abbrev guardRank (g : Guard NetworkLock) : ℕ := g.lock.rank

/-- All guards that are held rank below. -/
def Below (n : ℕ) (held : List (Guard NetworkLock)) : Prop := ∀ g ∈ held, guardRank g < n

theorem below_nil (n : ℕ) : Below n [] := by simp [Below]

theorem Below.cons {n m : ℕ} {held : List (Guard NetworkLock)} (h : Below n held) (hle : n ≤ m)
    {g : Guard NetworkLock} (hg : guardRank g < m) : Below m (g :: held) := by
  intro g' hmem
  cases List.mem_cons.mp hmem with
  | inl heq => exact heq ▸ hg
  | inr hmem => exact Nat.lt_of_lt_of_le (h g' hmem) hle

theorem Below.peers {held : List (Guard NetworkLock)} (h : Below 1 held) :
    Below 2 (Guard.write NetworkLock.peers :: held) :=
  h.cons (by decide) (by decide)

/-- What a connection holds from its start to its end. -/
theorem below_permit (permit : Fin connectionPermits) :
    Below 1 [Guard.write (NetworkLock.permit permit)] :=
  (below_nil 0).cons (by decide) Nat.zero_lt_one

namespace NetworkProgram

variable {Address α : Type} {held : List (Guard NetworkLock)}

/-- The program asks for its guards in the order, and gives them back. -/
abbrev Balanced (p : NetworkProgram Address α) (held : List (Guard NetworkLock)) : Prop :=
  AlongBalanced (ascends guardRank) p held

theorem Balanced.bind {β : Type} {p : NetworkProgram Address β} {k : β → NetworkProgram Address α}
    (hp : Balanced p held) (hk : ∀ result, Balanced (k result) held) : Balanced (p >>= k) held :=
  AlongBalanced.bind (upward_ascends _) hp hk

theorem Balanced.guarded {g : Guard NetworkLock} {body : NetworkProgram Address α}
    (hheld : Below (guardRank g) held) (hbody : Balanced body (g :: held)) :
    Balanced (LockProgram.guarded g body) held :=
  AlongBalanced.guarded (upward_ascends _) ⟨hheld, hbody⟩

theorem Balanced.pure (result : α) : Balanced (Pure.pure result : NetworkProgram Address α) held :=
  rfl

theorem Balanced.gets (f : NetworkState Address → α) :
    Balanced (LockProgram.gets f : NetworkProgram Address α) held :=
  fun _ => rfl

theorem Balanced.update (f : NetworkState Address → Option (NetworkState Address)) :
    Balanced (LockProgram.update f : NetworkProgram Address Unit) held :=
  fun _ => rfl

theorem Balanced.write
    (f : NetworkState Address → Update (NetworkState Address) (NetworkState Address)) :
    Balanced (write f) held := by
  intro s
  dsimp only
  split
  · exact rfl
  · exact fun _ => rfl

theorem Balanced.writePeers {body : NetworkProgram Address α} (hheld : Below 1 held)
    (hbody : Balanced body (.write .peers :: held)) :
    Balanced (LockProgram.guarded (.write .peers) body) held :=
  Balanced.guarded hheld hbody

theorem Balanced.readPeers (f : NetworkState Address → α) (h : Below 1 held) :
    Balanced (readPeers f) held :=
  Balanced.guarded h (.gets f)

variable {checks : OverflowChecks} {texts : Texts Address} {validatorId : Bytes}
  {address : Address}

theorem Balanced.increment (get : BroadcastStats → UInt64)
    (set : BroadcastStats → UInt64 → BroadcastStats) (h : Below 2 held) :
    Balanced (increment checks get set : NetworkProgram Address Unit) held :=
  Balanced.guarded h (.write _)

theorem Balanced.updateStats (f : NetworkState Address → Option (NetworkState Address))
    (h : Below 2 held) :
    Balanced (LockProgram.guarded (.write NetworkLock.stats) (LockProgram.update f)) held :=
  Balanced.guarded h (.update f)

/-! ## The peers and their number -/

variable [DecidableEq Address]

theorem balanced_addPeer (now : Instant) : Balanced (addPeer checks texts address now) [] := by
  apply Balanced.guarded (below_nil _)
  apply Balanced.bind (.gets _)
  intro known
  split
  · exact .pure _
  · apply Balanced.bind (.update _)
    intro _
    exact (Balanced.increment _ _ (Below.peers (below_nil 1))).bind fun _ => .pure _

theorem balanced_removePeer : Balanced (removePeer texts address) [] := by
  apply Balanced.guarded (below_nil _)
  apply Balanced.bind (.gets _)
  intro known
  split
  · apply Balanced.bind (.update _)
    intro _
    exact (Balanced.updateStats _ (Below.peers (below_nil 1))).bind fun _ => .pure _
  · exact .pure _

omit [DecidableEq Address] in
theorem balanced_countDisconnected (peer : PeerInfo Address) (h : Below 1 held) :
    Balanced (countDisconnected peer) (.write .peers :: held) := by
  unfold countDisconnected
  split
  · exact .updateStats _ h.peers
  · exact .pure _

theorem balanced_disconnectPeer : Balanced (disconnectPeer texts address) [] := by
  apply Balanced.guarded (below_nil _)
  apply Balanced.bind (.gets _)
  intro found
  cases found with
  | none => exact .pure _
  | some peer =>
      apply Balanced.bind (balanced_countDisconnected peer (below_nil 1))
      intro _
      exact (Balanced.update _).bind fun _ => .pure _

omit [DecidableEq Address] in
theorem balanced_cleanupStalePeers (now : Address → Instant) :
    Balanced (cleanupStalePeers now) [] := by
  apply Balanced.guarded (below_nil _)
  apply Balanced.bind (.gets _)
  intro initialCount
  apply Balanced.bind (.update _)
  intro _
  apply Balanced.bind (.gets _)
  intro remaining
  exact (Balanced.updateStats _ (Below.peers (below_nil 1))).bind fun _ => .pure _

/-! ## Connections, which may hold a permit -/

theorem balanced_failConnection (error : String) (h : Below 1 held) :
    Balanced (failConnection checks address error) held := by
  apply Balanced.writePeers h
  apply Balanced.bind (.gets _)
  intro known
  split
  · exact (Balanced.write _).bind fun _ => .increment _ _ h.peers
  · exact .pure _

theorem balanced_failPeer (error : String) (h : Below 1 held) :
    Balanced (failPeer checks address error) held :=
  .writePeers h (.write _)

theorem balanced_completeHandshake (message : NetworkMessage) (h : Below 1 held) :
    Balanced (completeHandshake checks address message) held := by
  apply Balanced.writePeers h
  apply Balanced.bind (.gets _)
  intro known
  split
  · exact (Balanced.write _).bind fun _ => .increment _ _ h.peers
  · exact .pure _

theorem balanced_takeResponse (response : ReadOutcome) (h : Below 1 held) :
    Balanced (takeResponse checks texts address response) held := by
  unfold takeResponse
  split
  · split
    · exact .pure _
    · exact balanced_completeHandshake _ h
  · exact balanced_failPeer _ h

theorem balanced_concludeConnect (io : ConnectIo) (h : Below 1 held) :
    Balanced (concludeConnect checks texts validatorId address io) held := by
  unfold concludeConnect
  split
  · exact (balanced_failConnection _ h).bind fun _ => .pure _
  · exact (balanced_failConnection _ h).bind fun _ => .pure _
  · split
    · exact .pure _
    · split
      · exact (balanced_failPeer _ h).bind fun _ => .pure _
      · exact (balanced_takeResponse _ h).bind fun _ => .pure _

theorem balanced_connectPeer (permit : Fin connectionPermits) (io : ConnectIo) :
    Balanced (connectPeer checks texts validatorId permit address io) [] := by
  apply Balanced.guarded (below_nil _)
  apply Balanced.bind
  · apply Balanced.writePeers (below_permit permit)
    apply Balanced.bind (.gets _)
    intro found
    cases found with
    | none => exact .pure _
    | some peer => exact (Balanced.update _).bind fun _ => .pure _
  · intro known
    split
    · exact balanced_concludeConnect io (below_permit permit)
    · exact .pure _

theorem balanced_receive (bytes : Bytes) (now : Instant) (h : Below 1 held) :
    Balanced (receive checks texts address bytes now) held := by
  unfold receive
  split
  · exact .pure _
  · apply Balanced.bind (.writePeers h (.write _))
    intro _
    apply Balanced.guarded
    · exact fun g hg => Nat.lt_succ_of_lt (h g hg)
    · exact (Balanced.write _).bind fun _ => .update _

theorem balanced_receiveAll (reads : List (Bytes × Instant)) (h : Below 1 held) :
    Balanced (receiveAll checks texts address reads) held := by
  induction reads with
  | nil => exact .writePeers h (.update _)
  | cons read rest ih => exact (balanced_receive _ _ h).bind fun _ => ih

theorem balanced_handlePeerConnection (permit : Fin connectionPermits) (wrote : Except String Unit)
    (response : ReadOutcome) (reads : List (Bytes × Instant)) :
    Balanced (handlePeerConnection checks texts validatorId permit address wrote response reads)
      [] := by
  apply Balanced.guarded (below_nil _)
  split
  case h_6 =>
    split
    · exact .pure _
    · apply Balanced.bind (.writePeers (below_permit permit) (.update _))
      intro _
      exact (balanced_receiveAll reads (below_permit permit)).bind fun _ => .pure _
  all_goals exact .pure _

theorem balanced_sendMessage (message : NetworkMessage) (attempts : List AttemptIo)
    (lastError : Option CoreError) :
    Balanced (sendMessage checks texts address message attempts lastError) [] := by
  induction attempts generalizing lastError with
  | nil => exact (Balanced.guarded (below_nil _) (.write _)).bind fun _ => .pure _
  | cons io rest ih =>
      unfold sendMessage
      split
      · apply Balanced.bind (.guarded (below_nil _) (.write _))
        intro _
        exact (Balanced.increment _ _ (below_nil 2)).bind fun _ => .pure _
      · exact (Balanced.increment _ _ (below_nil 2)).bind fun _ => ih _

omit [DecidableEq Address] in
theorem balanced_getStats : Balanced (getStats : NetworkProgram Address BroadcastStats) [] := by
  apply Balanced.bind (.guarded (below_nil _) (.gets _))
  intro stats
  apply Balanced.bind (.readPeers _ (below_nil 1))
  intro peerCount
  exact (Balanced.readPeers _ (below_nil 1)).bind fun _ => .pure _

end NetworkProgram

/-! ## All calls -/

open NetworkProgram

variable {Address Caller : Type} [DecidableEq Address] [DecidableEq Caller]
  {checks : OverflowChecks} {texts : Texts Address} {validatorId : Bytes}

theorem balanced_program (op : LockedOp Address) :
    Balanced (op.program checks texts validatorId) [] := by
  cases op with
  | addPeer address now => exact (balanced_addPeer now).bind fun _ => .pure _
  | removePeer address => exact balanced_removePeer.bind fun _ => .pure _
  | connectPeer permit address io => exact (balanced_connectPeer permit io).bind fun _ => .pure _
  | disconnectPeer address => exact balanced_disconnectPeer.bind fun _ => .pure _
  | handlePeerConnection permit address wrote response reads =>
      exact (balanced_handlePeerConnection permit wrote response reads).bind fun _ => .pure _
  | sendMessage address message attempts =>
      exact (balanced_sendMessage message attempts none).bind fun _ => .pure _
  | recordBroadcast result =>
      exact (Balanced.guarded (below_nil _) (.write _)).bind fun _ => .pure _
  | cleanupStalePeers now => exact (balanced_cleanupStalePeers now).bind fun _ => .pure _
  | getStats => exact balanced_getStats.bind fun _ => .pure _
  | resetStats => exact (Balanced.updateStats _ (below_nil 2)).bind fun _ => .pure _
  | connectedPeers | failedPeers | getPeerCount | getConnectedPeerCount | getHealthyPeerCount
  | getPeerInfo | getAllPeers | getHealthyPeers =>
      exact (Balanced.readPeers _ (below_nil 1)).bind fun _ => .pure _

/-- Whatever calls of the manager are under way, as long as one has not returned there is one that
does not wait for a lock. -/
theorem network_never_deadlocks {s : NetworkState Address}
    {calls : List (LockedObject.Step (Guard NetworkLock) (NetworkState Address) Empty Caller
      (LockedOp Address) (LockedAnswer Address))}
    {x : Contended (Guard NetworkLock) (NetworkState Address) Caller (LockedAnswer Address)}
    (hrun : ((lockedNetwork checks texts validatorId).machine Caller).Run (.start s) calls x)
    (hbusy : ∃ caller, x.threads caller ≠ none) :
    ∃ caller, x.step (lockedNetwork checks texts validatorId) (.act caller) ≠ none := by
  obtain ⟨caller, hcaller⟩ := hbusy
  have hordered : Ordered guardRank x := by
    refine ordered_run ?_ hrun
    intro op
    exact (balanced_program op).mono (upward_ascends _) fun _ _ _ => trivial
  have hranked : ∀ g : Guard NetworkLock, guardRank g ≤ 2 := by
    intro g
    cases g with
    | read lock | write lock =>
        cases lock with
        | permit => exact Nat.zero_le 2
        | peers | stats => decide
  refine hordered.exists_step hranked ?_ hcaller
  intro g g' hexcludes
  exact le_of_eq (congrArg NetworkLock.rank (Guard.lock_eq_of_excludes hexcludes)).symm

/-- An addition holds the peers. A count and a connection wait for them, and a second connection for
the permit of the first. -/
theorem network_never_deadlocks_waiting :
    ∃ calls, ∃ x : Contended (Guard NetworkLock) (NetworkState ℕ) ℕ (LockedAnswer ℕ),
      ((lockedNetwork .on .plain []).machine ℕ).Run (.start ⟨∅, .zero⟩) calls x ∧
        (∀ caller ∈ [2, 3, 4], x.step (lockedNetwork .on .plain []) (.act caller) = none ∧
          x.threads caller ≠ none) ∧
        ∃ caller, x.step (lockedNetwork .on .plain []) (.act caller) ≠ none := by
  have hadd := Machine.Run.start.of_step
    (M := (lockedNetwork .on .plain []).machine ℕ) (s := .start ⟨∅, .zero⟩)
    (e := .call 1 (.addPeer 7 0)) rfl |>.of_step (e := .act 1) rfl
  have hconnect := hadd.of_step
    (e := .call 3 (.connectPeer ⟨0, by decide⟩ 7 ⟨.timeout, .ok (), .timeout⟩)) rfl
    |>.of_step (e := .act 3) rfl
    |>.of_step (e := .call 4 (.connectPeer ⟨0, by decide⟩ 7 ⟨.timeout, .ok (), .timeout⟩)) rfl
  have hrun := hconnect.of_step (e := .call 2 .getPeerCount) rfl
  refine ⟨_, _, hrun, ?_, network_never_deadlocks hrun ⟨2, Option.some_ne_none _⟩⟩
  intro caller hcaller
  simp only [List.mem_cons, List.not_mem_nil, or_false] at hcaller
  rcases hcaller with rfl | rfl | rfl
  · exact ⟨rfl, Option.some_ne_none _⟩
  · exact ⟨rfl, Option.some_ne_none _⟩
  · exact ⟨rfl, Option.some_ne_none _⟩

end ValidatorSync

end SilverNetwork
