import SilverNetwork.Model.ValidatorSync

/-! What a connection attempt says of the peer. The rules give the result and the state for each
way in which it can end; only the answer to the handshake tells whether they agree. -/

namespace SilverNetwork

namespace ValidatorSync

variable {Address : Type} [DecidableEq Address] {checks : OverflowChecks} {texts : Texts Address}
  {validatorId : Bytes} {address : Address} {io : ConnectIo} {r : Except CoreError Unit}
  {s s' : NetworkState Address}

/-! ## The peers -/

def NetworkState.stateOf (s : NetworkState Address) (address : Address) :
    Option ConnectionState :=
  (s.peers.lookup address).map PeerInfo.state

/-- Only the entry of the address may differ. -/
def Frame (address : Address) (s s' : NetworkState Address) : Prop :=
  ∀ other, other ≠ address → s'.peers.lookup other = s.peers.lookup other

theorem withPeer_eq_some {body : PeerInfo Address → Option (PeerInfo Address)}
    {peer : PeerInfo Address} (hpeer : s.peers.lookup address = some peer)
    (h : s.withPeer address body = some s') :
    Frame address s s' ∧ s'.stats = s.stats ∧
      ∃ peer', body peer = some peer' ∧ s'.peers.lookup address = some peer' := by
  rw [NetworkState.withPeer, hpeer] at h
  obtain ⟨peer', hbody, rfl⟩ := Option.map_eq_some_iff.mp h
  refine ⟨?_, rfl, peer', hbody, AList.lookup_insert _⟩
  intro other hother
  exact AList.lookup_insert_ne hother

omit [DecidableEq Address] in
theorem failPeer_state {error : String} {peer peer' : PeerInfo Address}
    (h : failPeer checks error peer = some peer') : peer'.state = .failed := by
  simp only [failPeer, PeerInfo.recordFailure, Option.bind_eq_bind, Option.bind_eq_some_iff,
    Option.some.injEq] at h
  obtain ⟨attempts, _, rfl⟩ := h
  split <;> rfl

/-! ## The rules -/

/-- The own handshake can be encoded. -/
def Encodes (texts : Texts Address) (validatorId : Bytes) : Prop :=
  ((ownHandshake validatorId).toBytes texts).isOk

/-- What was read is a frame that holds a handshake. -/
def ReadOutcome.greets (texts : Texts Address) : ReadOutcome → Bool
  | .data bytes =>
      match NetworkMessage.fromBytes texts bytes with
      | .ok (.handshake ..) => true
      | _ => false
  | _ => false

inductive ConnectRule (texts : Texts Address) (validatorId : Bytes) (io : ConnectIo) :
    Except CoreError Unit → ConnectionState → Prop where
  | refused (e : CoreError) (connect : io.connect ≠ .ok) :
      ConnectRule texts validatorId io (.error e) .failed
  | unencoded (e : CoreError) (connect : io.connect = .ok)
      (encodes : ¬ Encodes texts validatorId) :
      ConnectRule texts validatorId io (.error e) .connecting
  | unwritten (e : CoreError) (connect : io.connect = .ok) (encodes : Encodes texts validatorId)
      (write : ¬ io.write.isOk) :
      ConnectRule texts validatorId io (.error e) .failed
  | greeted (connect : io.connect = .ok) (encodes : Encodes texts validatorId)
      (write : io.write.isOk) (response : io.response.greets texts) :
      ConnectRule texts validatorId io (.ok ()) .connected
  | ungreeted (state : ConnectionState) (connect : io.connect = .ok)
      (encodes : Encodes texts validatorId) (write : io.write.isOk)
      (response : ¬ io.response.greets texts)
      (unconnected : state = .connecting ∨ state = .failed) :
      ConnectRule texts validatorId io (.ok ()) state

theorem failConnection_eq_some {error : String} {peer : PeerInfo Address}
    (hpeer : s.peers.lookup address = some peer)
    (h : failConnection checks address error s = some s') :
    Frame address s s' ∧ s'.stateOf address = some .failed := by
  have hmem : address ∈ s.peers := HashMap.mem_iff_exists_lookup.mpr ⟨peer, hpeer⟩
  simp only [failConnection, hmem, if_true, Option.bind_eq_bind, Option.bind_eq_some_iff,
    Option.some.injEq] at h
  obtain ⟨s₁, hs₁, failures, _, rfl⟩ := h
  obtain ⟨hframe, _, peer', hbody, hlookup⟩ := withPeer_eq_some hpeer hs₁
  refine ⟨hframe, ?_⟩
  simp [NetworkState.stateOf, hlookup, failPeer_state hbody]

theorem withPeer_failPeer {error : String} {peer : PeerInfo Address}
    (hpeer : s.peers.lookup address = some peer)
    (h : s.withPeer address (failPeer checks error) = some s') :
    Frame address s s' ∧ s'.stateOf address = some .failed := by
  obtain ⟨hframe, _, peer', hbody, hlookup⟩ := withPeer_eq_some hpeer h
  refine ⟨hframe, ?_⟩
  simp [NetworkState.stateOf, hlookup, failPeer_state hbody]

/-- A handshake connects the peer, and any other message leaves it as it is. -/
theorem completeHandshake_eq_some {message : NetworkMessage} {peer : PeerInfo Address}
    (hpeer : s.peers.lookup address = some peer)
    (h : completeHandshake checks address message s = some s') :
    Frame address s s' ∧
      s'.stateOf address =
        match message with
        | .handshake .. => some .connected
        | _ => some peer.state := by
  have hmem : address ∈ s.peers := HashMap.mem_iff_exists_lookup.mpr ⟨peer, hpeer⟩
  cases message with
  | handshake id version capabilities =>
      simp only [completeHandshake, hmem, if_true, Option.bind_eq_bind, Option.bind_eq_some_iff,
        Option.some.injEq] at h
      obtain ⟨s₁, hs₁, count, _, rfl⟩ := h
      obtain ⟨hframe, _, peer', hbody, hlookup⟩ := withPeer_eq_some hpeer hs₁
      obtain rfl := Option.some.inj hbody
      refine ⟨hframe, ?_⟩
      simp [NetworkState.stateOf, hlookup, PeerInfo.greet, PeerInfo.resetFailures]
  | _ =>
      obtain rfl := Option.some.inj h
      exact ⟨fun _ _ => rfl, by simp [NetworkState.stateOf, hpeer]⟩

theorem takeResponse_eq_some {response : ReadOutcome} {peer : PeerInfo Address}
    (hpeer : s.peers.lookup address = some peer) (hstate : peer.state = .connecting)
    (h : takeResponse checks texts address response s = some s') :
    Frame address s s' ∧ ∃ state, s'.stateOf address = some state ∧
      if response.greets texts then state = .connected
      else state = .connecting ∨ state = .failed := by
  unfold takeResponse at h
  split at h
  · rename_i b bytes
    cases hread : NetworkMessage.fromBytes texts (b :: bytes) with
    | error e =>
        simp only [hread] at h
        obtain rfl := Option.some.inj h
        refine ⟨fun _ _ => rfl, .connecting, ?_, ?_⟩
        · simp [NetworkState.stateOf, hpeer, hstate]
        · simp [ReadOutcome.greets, hread]
    | ok message =>
        simp only [hread] at h
        obtain ⟨hframe, hafter⟩ := completeHandshake_eq_some hpeer h
        refine ⟨hframe, ?_⟩
        cases message with
        | handshake => exact ⟨_, hafter, by simp [ReadOutcome.greets, hread]⟩
        | _ => exact ⟨_, hafter, by simp [ReadOutcome.greets, hread, hstate]⟩
  · rename_i hnodata
    obtain ⟨hframe, hfailed⟩ := withPeer_failPeer hpeer h
    refine ⟨hframe, _, hfailed, ?_⟩
    have hungreeted : ¬ response.greets texts := by
      cases response with
      | data bytes =>
          cases bytes with
          | nil => simp [ReadOutcome.greets, NetworkMessage.fromBytes]
          | cons b bytes => exact absurd rfl (hnodata b bytes)
      | error | timeout => simp [ReadOutcome.greets]
    simp [hungreeted]

/-- A connection attempt follows the rules, and leaves the other peers alone. -/
theorem concludeConnect_rule {peer : PeerInfo Address}
    (hpeer : s.peers.lookup address = some peer) (hstate : peer.state = .connecting)
    (h : concludeConnect checks texts validatorId address io s = some (r, s')) :
    Frame address s s' ∧
      ∃ state, s'.stateOf address = some state ∧ ConnectRule texts validatorId io r state := by
  have hsame : s.stateOf address = some .connecting := by
    simp [NetworkState.stateOf, hpeer, hstate]
  unfold concludeConnect at h
  cases hconnect : io.connect with
  | error text | timeout =>
      simp only [hconnect, Option.map_eq_some_iff, Prod.mk.injEq] at h
      obtain ⟨s₁, hfail, rfl, rfl⟩ := h
      obtain ⟨hframe, hfailed⟩ := failConnection_eq_some hpeer hfail
      exact ⟨hframe, _, hfailed, .refused _ (by simp [hconnect])⟩
  | ok =>
      cases hencode : (ownHandshake validatorId).toBytes texts with
      | error e =>
          simp only [hconnect, hencode] at h
          obtain ⟨rfl, rfl⟩ := Prod.mk.inj (Option.some.inj h)
          refine ⟨fun _ _ => rfl, _, hsame, .unencoded e hconnect ?_⟩
          simp [Encodes, hencode, Except.isOk, Except.toBool]
      | ok frame =>
          have hencodes : Encodes texts validatorId := by
            simp [Encodes, hencode, Except.isOk, Except.toBool]
          cases hwrite : io.write with
          | error text =>
              simp only [hconnect, hencode, hwrite, Option.map_eq_some_iff, Prod.mk.injEq] at h
              obtain ⟨s₁, hfail, rfl, rfl⟩ := h
              obtain ⟨hframe, hfailed⟩ := withPeer_failPeer hpeer hfail
              refine ⟨hframe, _, hfailed, .unwritten _ hconnect hencodes ?_⟩
              simp [hwrite, Except.isOk, Except.toBool]
          | ok =>
              have hwritten : io.write.isOk := by
                simp [hwrite, Except.isOk, Except.toBool]
              simp only [hconnect, hencode, hwrite, Option.map_eq_some_iff, Prod.mk.injEq] at h
              obtain ⟨s₁, hresponse, rfl, rfl⟩ := h
              obtain ⟨hframe, state, hafter, hgreets⟩ := takeResponse_eq_some hpeer hstate hresponse
              refine ⟨hframe, state, hafter, ?_⟩
              by_cases hresponded : io.response.greets texts
              · rw [if_pos hresponded] at hgreets
                subst hgreets
                exact .greeted hconnect hencodes hwritten hresponded
              · rw [if_neg hresponded] at hgreets
                exact .ungreeted state hconnect hencodes hwritten hresponded hgreets

theorem connectPeer_rule (hknown : address ∈ s.peers)
    (h : connectPeer checks texts validatorId address io s = some (r, s')) :
    Frame address s s' ∧
      ∃ state, s'.stateOf address = some state ∧ ConnectRule texts validatorId io r state := by
  obtain ⟨peer, hpeer⟩ := HashMap.mem_iff_exists_lookup.mp hknown
  simp only [connectPeer, hpeer] at h
  obtain ⟨hframe, hrule⟩ := concludeConnect_rule (AList.lookup_insert _) rfl h
  refine ⟨?_, hrule⟩
  intro other hother
  rw [hframe other hother]
  exact AList.lookup_insert_ne hother

/-! ## What an attempt reports -/

/-- The attempt returns `Ok`: the handshake has been written, whatever comes back. -/
def Reports (texts : Texts Address) (validatorId : Bytes) (io : ConnectIo) : Prop :=
  io.connect = .ok ∧ Encodes texts validatorId ∧ io.write.isOk

instance (texts : Texts Address) (validatorId : Bytes) (io : ConnectIo) :
    Decidable (Reports texts validatorId io) :=
  inferInstanceAs (Decidable (_ = _ ∧ _ = _ ∧ _ = _))

omit [DecidableEq Address] in
theorem ConnectRule.ok_iff {state : ConnectionState}
    (h : ConnectRule texts validatorId io r state) :
    r = .ok () ↔ Reports texts validatorId io := by
  cases h <;> simp_all [Reports]

omit [DecidableEq Address] in
theorem ConnectRule.connected_iff {state : ConnectionState}
    (h : ConnectRule texts validatorId io r state) :
    state = .connected ↔ Reports texts validatorId io ∧ io.response.greets texts := by
  cases h with
  | ungreeted state connect encodes write response unconnected =>
      rcases unconnected with rfl | rfl <;> simp [response]
  | _ => simp_all [Reports]

/-- The result and the state that an attempt leaves agree: `Ok` means that the peer is connected,
and in no case is it left connecting. -/
def Truthful (address : Address) (r : Except CoreError Unit) (s : NetworkState Address) : Prop :=
  (r = .ok () → s.stateOf address = some .connected) ∧ s.stateOf address ≠ some .connecting

/-- The connection fails, or else the own handshake can be encoded and its write fails or is
answered by a handshake. -/
def Honest (texts : Texts Address) (validatorId : Bytes) (io : ConnectIo) : Prop :=
  io.connect ≠ .ok ∨ Encodes texts validatorId ∧ (¬ io.write.isOk ∨ io.response.greets texts)

theorem ConnectRule.truthful_iff {state : ConnectionState}
    (h : ConnectRule texts validatorId io r state) (hstate : s.stateOf address = some state) :
    Truthful address r s ↔ Honest texts validatorId io := by
  cases h with
  | ungreeted state connect encodes write response unconnected =>
      rcases unconnected with rfl | rfl <;>
        simp [Truthful, Honest, hstate, connect, write, response]
  | _ => simp_all [Truthful, Honest]

/-! ## Reconnecting -/

/-- How many peers have gone from failed to connected. -/
def reconnectedCount (s s' : NetworkState Address) : ℕ :=
  s.peers.keys.countP fun address =>
    s.stateOf address = some .failed ∧ s'.stateOf address = some .connected

theorem mem_iff_of_frame {other : Address} (h : Frame address s s')
    (hafter : ∃ state, s'.stateOf address = some state) (hknown : other ∈ s.peers) :
    other ∈ s'.peers := by
  by_cases hother : other = address
  · subst hother
    obtain ⟨state, hstate⟩ := hafter
    obtain ⟨peer, hpeer, _⟩ := Option.map_eq_some_iff.mp hstate
    exact HashMap.mem_iff_exists_lookup.mpr ⟨peer, hpeer⟩
  · obtain ⟨peer, hpeer⟩ := HashMap.mem_iff_exists_lookup.mp hknown
    exact HashMap.mem_iff_exists_lookup.mpr ⟨peer, (h other hother).trans hpeer⟩

/-- Each address of the loop is counted as its attempt reports, and ends as its attempt ends. -/
theorem reconnectEach_eq_some {ios : Address → ConnectIo} {addresses : List Address} {n n' : ℕ}
    (hknown : ∀ a ∈ addresses, a ∈ s.peers) (hnodup : addresses.Nodup)
    (h : reconnectEach checks texts validatorId ios addresses n s = some (n', s')) :
    n' = n + addresses.countP (fun a => Reports texts validatorId (ios a)) ∧
      (∀ a, a ∉ addresses → s'.stateOf a = s.stateOf a) ∧
      ∀ a ∈ addresses, s'.stateOf a = some .connected ↔
        Reports texts validatorId (ios a) ∧ (ios a).response.greets texts := by
  induction addresses generalizing n s with
  | nil =>
      obtain ⟨rfl, rfl⟩ := Prod.mk.inj (Option.some.inj h)
      simp
  | cons a rest ih =>
      simp only [reconnectEach, Option.bind_eq_bind, Option.bind_eq_some_iff, Prod.exists] at h
      obtain ⟨result, s₁, hconnect, hrest⟩ := h
      obtain ⟨hnotin, hnodup⟩ := List.nodup_cons.mp hnodup
      obtain ⟨hframe, state, hstate, hrule⟩ := connectPeer_rule (hknown a List.mem_cons_self) hconnect
      obtain ⟨hcount, hothers, hconnected⟩ := ih
        (fun b hb => mem_iff_of_frame hframe ⟨state, hstate⟩
          (hknown b (List.mem_cons_of_mem a hb))) hnodup hrest
      have hlast : s'.stateOf a = some state := (hothers a hnotin).trans hstate
      refine ⟨?_, ?_, ?_⟩
      · have hok := hrule.ok_iff
        rw [hcount, List.countP_cons]
        cases result with
        | ok =>
            simp only [hok.mp rfl, decide_true, if_true]
            omega
        | error e =>
            have hreports : ¬ Reports texts validatorId (ios a) := by simp [← hok]
            simp [hreports]
      · intro b hb
        rw [List.mem_cons, not_or] at hb
        obtain ⟨hne, hb⟩ := hb
        rw [hothers b hb, NetworkState.stateOf, hframe b hne, NetworkState.stateOf]
      · intro b hb
        rcases List.mem_cons.mp hb with rfl | hb
        · rw [hlast, Option.some.injEq]
          exact hrule.connected_iff
        · exact hconnected b hb

theorem mem_failedPeers {order : Enumeration Address} {a : Address}
    (h : a ∈ failedPeers order s) : a ∈ s.peers ∧ s.stateOf a = some .failed := by
  simp only [failedPeers, Enumeration.mem_arrange, List.mem_filter, Option.any_eq_true,
    Bool.and_eq_true, decide_eq_true_eq] at h
  obtain ⟨hkey, peer, hpeer, hfailed, _⟩ := h
  exact ⟨hkey, by simp [NetworkState.stateOf, hpeer, hfailed]⟩

theorem nodup_failedPeers (order : Enumeration Address) (s : NetworkState Address) :
    (failedPeers order s).Nodup :=
  (order.perm _).nodup_iff.mpr (s.peers.keys_nodup.filter _)

/-- Only the peers that an attempt was made for can have gone from failed to connected. -/
theorem reconnectedCount_eq {order : Enumeration Address}
    (h : ∀ a, a ∉ failedPeers order s → s'.stateOf a = s.stateOf a) :
    reconnectedCount s s' =
      (failedPeers order s).countP fun a => s'.stateOf a = some .connected := by
  have hperm := order.perm (s.peers.keys.filter fun a =>
    (s.peers.lookup a).any fun peer => peer.state = .failed && peer.failedAttempts < 10)
  rw [failedPeers, hperm.countP_eq, List.countP_filter, reconnectedCount]
  apply List.countP_congr
  intro a ha
  rw [decide_eq_true_iff, Bool.and_eq_true, decide_eq_true_iff]
  have hmem : a ∈ failedPeers order s ↔ (s.peers.lookup a).any
      (fun peer => peer.state = .failed && peer.failedAttempts < 10) = true := by
    rw [failedPeers, Enumeration.mem_arrange, List.mem_filter]
    exact and_iff_right ha
  constructor
  · intro hwent
    refine ⟨hwent.2, ?_⟩
    by_contra hskipped
    have hsame := h a fun hattempted => hskipped (hmem.mp hattempted)
    rw [hwent.1, hwent.2] at hsame
    simp at hsame
  · intro hend
    exact ⟨(mem_failedPeers (hmem.mpr hend.2)).2, hend.1⟩

/-- The count of the loop is no greater than the number of peers that are connected by it exactly
when each attempt that reports success has been answered by a handshake. -/
theorem reconnectFailedPeers_le_iff {order : Enumeration Address} {ios : Address → ConnectIo}
    {n : ℕ} (h : reconnectFailedPeers checks texts validatorId order ios s = some (n, s')) :
    n ≤ reconnectedCount s s' ↔ ∀ a ∈ failedPeers order s,
      Reports texts validatorId (ios a) → (ios a).response.greets texts := by
  obtain ⟨hcount, hothers, hconnected⟩ := reconnectEach_eq_some
    (fun a ha => (mem_failedPeers ha).1) (nodup_failedPeers order s) h
  have hwent : (failedPeers order s).countP (fun a => s'.stateOf a = some .connected) =
      ((failedPeers order s).filter fun a => Reports texts validatorId (ios a)).countP
        fun a => (ios a).response.greets texts := by
    rw [List.countP_filter]
    apply List.countP_congr
    intro a ha
    simp [hconnected a ha, and_comm]
  have hle := List.countP_le_length (p := fun a => (ios a).response.greets texts)
    (l := (failedPeers order s).filter fun a => Reports texts validatorId (ios a))
  rw [reconnectedCount_eq hothers, hwent, hcount, Nat.zero_add, List.countP_eq_length_filter]
  constructor
  · intro hall a ha hreports
    exact List.countP_eq_length.mp (Nat.le_antisymm hle hall) a (by simp [ha, hreports])
  · intro hall
    apply Nat.le_of_eq
    symm
    apply List.countP_eq_length.mpr
    intro a ha
    rw [List.mem_filter, decide_eq_true_iff] at ha
    exact hall a ha.1 ha.2

/-- An attempt tells the truth about its peer exactly when its connection fails, or its handshake
cannot be written or is answered by one. The loop over the failed peers counts no more of them
than it connects exactly when this holds of every attempt that reports success. -/
theorem connect_truthful_iff (checks : OverflowChecks) (texts : Texts Address)
    (validatorId : Bytes) (s : NetworkState Address) :
    (∀ address io r s', address ∈ s.peers →
      connectPeer checks texts validatorId address io s = some (r, s') →
      (Truthful address r s' ↔ Honest texts validatorId io)) ∧
    ∀ order ios n s',
      reconnectFailedPeers checks texts validatorId order ios s = some (n, s') →
      (n ≤ reconnectedCount s s' ↔ ∀ a ∈ failedPeers order s,
        Reports texts validatorId (ios a) → (ios a).response.greets texts) := by
  constructor
  · intro address io r s' hknown hconnect
    obtain ⟨_, state, hstate, hrule⟩ := connectPeer_rule hknown hconnect
    exact hrule.truthful_iff hstate
  · intro order ios n s' hreconnect
    exact reconnectFailedPeers_le_iff hreconnect

/-- The frame of a handshake of a validator with an empty id. -/
def handshakeFrame : Bytes :=
  [0, 0, 0, 31, 5, 0, 0, 0, 0, 0, 0, 0, 0, 0, 0, 0, 1, 0, 0, 0, 7, 0, 0, 0, 0, 0, 0, 0,
    1, 2, 3, 4, 5, 6, 7]

/-- A connection that is answered by a handshake is reported, and so is one that is refused. When a
failed peer is connected again and answers, the loop has counted no more than it has connected. -/
theorem connect_truthful_iff_plain :
    (∃ s', connectPeer .on .plain [] 0 ⟨.ok, .ok (), .data handshakeFrame⟩
        ⟨AList.insert 0 (.new 0 0) ∅, .zero⟩ = some (.ok (), s') ∧
      Truthful 0 (.ok ()) s') ∧
    (∃ s', connectPeer .on .plain [] 0 ⟨.error "refused", .ok (), .timeout⟩
        ⟨AList.insert 0 (.new 0 0) ∅, .zero⟩ =
          some (.error (.invalidData "Failed to connect to peer: refused"), s') ∧
      Truthful 0 (.error (.invalidData "Failed to connect to peer: refused")) s') ∧
    ∃ s', reconnectFailedPeers .on .plain [] (.stored _)
        (fun _ => ⟨.ok, .ok (), .data handshakeFrame⟩)
        ⟨AList.insert 0 { PeerInfo.new 0 0 with state := .failed } ∅, .zero⟩ = some (1, s') ∧
      1 ≤ reconnectedCount
        ⟨AList.insert 0 { PeerInfo.new 0 0 with state := .failed } ∅, .zero⟩ s' := by
  have hanswered := (connect_truthful_iff .on .plain [] ⟨AList.insert 0 (.new 0 0) ∅, .zero⟩).1 0
    ⟨.ok, .ok (), .data handshakeFrame⟩ _ _ (HashMap.mem_insert_self _ _ _) rfl
  have hrefused := (connect_truthful_iff .on .plain [] ⟨AList.insert 0 (.new 0 0) ∅, .zero⟩).1 0
    ⟨.error "refused", .ok (), .timeout⟩ _ _ (HashMap.mem_insert_self _ _ _) rfl
  have hcount := (connect_truthful_iff .on .plain []
    ⟨AList.insert 0 { PeerInfo.new 0 0 with state := .failed } ∅, .zero⟩).2 (.stored _)
      (fun _ => ⟨.ok, .ok (), .data handshakeFrame⟩) _ _ rfl
  exact ⟨⟨_, rfl, hanswered.mpr (.inr ⟨rfl, .inr rfl⟩)⟩,
    ⟨_, rfl, hrefused.mpr (.inl (by decide))⟩, _, rfl, hcount.mpr fun _ _ _ => rfl⟩

/-- A peer that never answers the handshake is reported as connected, though it has failed, and
one that answers with a byte that is no message is so reported and left connecting. -/
theorem ungreeted_peer_reported_connected :
    (∃ s', connectPeer .on .plain [] 0 ⟨.ok, .ok (), .timeout⟩
        ⟨AList.insert 0 (.new 0 0) ∅, .zero⟩ = some (.ok (), s') ∧
      s'.stateOf 0 = some .failed ∧ ¬ Truthful 0 (.ok ()) s') ∧
    ∃ s', connectPeer .on .plain [] 0 ⟨.ok, .ok (), .data [0]⟩
        ⟨AList.insert 0 (.new 0 0) ∅, .zero⟩ = some (.ok (), s') ∧
      s'.stateOf 0 = some .connecting ∧ ¬ Truthful 0 (.ok ()) s' := by
  refine ⟨⟨_, rfl, rfl, ?_⟩, _, rfl, rfl, ?_⟩
  · intro htruthful
    exact absurd (htruthful.1 rfl) (by decide)
  · intro htruthful
    exact absurd rfl htruthful.2

end ValidatorSync

end SilverNetwork
