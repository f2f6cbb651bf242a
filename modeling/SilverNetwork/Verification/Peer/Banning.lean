import SilverNetwork.Foundations.KeyedStore
import SilverNetwork.Model.Peer

/-! The link between the reputation of a peer and its status. Penalties ban a peer whose
reputation is too low; an update of the status sets whatever it is given. -/

namespace SilverNetwork

namespace Peer

open PeerManager

variable {PeerId Multiaddr : Type} {info : PeerInfo PeerId Multiaddr}

/-- A peer that should be banned is. -/
def PeerInfo.BannedIfDue (info : PeerInfo PeerId Multiaddr) : Prop :=
  info.shouldBan → info.status = .banned

theorem PeerInfo.bannedIfDue_new (peer : PeerId) (now : Instant) :
    (PeerInfo.new peer now : PeerInfo PeerId Multiaddr).BannedIfDue := by
  intro hban
  simp [shouldBan, new] at hban

/-- A peer that should still be banned after a reward should have been before. -/
theorem PeerInfo.BannedIfDue.increaseReputation (h : info.BannedIfDue) (amount : UInt8) :
    (info.increaseReputation amount).BannedIfDue := by
  intro hban
  apply h
  simp only [shouldBan, PeerInfo.increaseReputation, decide_eq_true_eq, UInt8.lt_iff_toNat_lt,
    UInt8.toNat_min, Saturating.toNat_add, UInt8.toNat_ofNat] at hban ⊢
  omega

theorem PeerInfo.bannedIfDue_decreaseReputation (amount : UInt8)
    (info : PeerInfo PeerId Multiaddr) :
    BannedIfDue (if (info.decreaseReputation amount).shouldBan then
      { info.decreaseReputation amount with status := .banned }
      else info.decreaseReputation amount) := by
  intro hban
  split
  · rfl
  · rename_i hkeep
    rw [if_neg hkeep] at hban
    exact absurd hban hkeep

variable [DecidableEq PeerId] {m m' : PeerManager PeerId Multiaddr} {peer : PeerId}

/-- Every peer that should be banned is, and so is in none of the lists of peers in use. -/
def PeerManager.KeepsBanned (m : PeerManager PeerId Multiaddr) : Prop :=
  ∀ peer info, m.peers.lookup peer = some info → info.shouldBan →
    info.status = .banned ∧
      ∀ order, peer ∉ m.connectedPeers order ∧ peer ∉ m.miningPoolPeers order

/-- The event gives no other status than `Banned` to a peer that should be banned. -/
def PeerManager.Respects (m : PeerManager PeerId Multiaddr) : PeerEvent PeerId Multiaddr → Prop
  | .updatePeerStatus peer status _ =>
      status = .banned ∨ ∀ info, m.peers.lookup peer = some info → ¬ info.shouldBan
  | _ => True

/-- Each peer is filed under its own id, and banned if it should be. -/
structure PeerManager.Bans (m : PeerManager PeerId Multiaddr) : Prop where
  keyed : KeyedStore.Keyed PeerInfo.peerId m.peers
  banned : ∀ peer info, m.peers.lookup peer = some info → info.BannedIfDue

theorem bans_new (maxPeers minPeers : ℕ) (timeout : Duration) :
    (PeerManager.new maxPeers minPeers timeout : PeerManager PeerId Multiaddr).Bans :=
  ⟨KeyedStore.keyed_empty _, by simp [PeerManager.new]⟩

/-- In a manager that files its peers under their ids, a banned peer is in no list. -/
theorem keepsBanned_iff (hkeyed : KeyedStore.Keyed PeerInfo.peerId m.peers) :
    m.KeepsBanned ↔ m.Bans := by
  constructor
  · intro h
    exact ⟨hkeyed, fun peer info hinfo hban => (h peer info hinfo hban).1⟩
  · intro h peer info hinfo hban
    have hstatus := h.banned peer info hinfo hban
    refine ⟨hstatus, ?_⟩
    have hother : ∀ info' ∈ m.peers.values, info'.peerId = peer → info'.status ≠ .connected := by
      intro info' hvalue hpeer
      have hlookup := (hkeyed.mem_values_iff _).mp hvalue
      rw [hpeer, hinfo] at hlookup
      obtain rfl := Option.some.inj hlookup
      simp [hstatus]
    intro order
    constructor
    · simp only [connectedPeers, List.mem_map, List.mem_filter, Enumeration.mem_arrange,
        decide_eq_true_eq]
      intro hmem
      obtain ⟨info', ⟨hvalue, hconnected⟩, hpeer⟩ := hmem
      exact hother info' hvalue hpeer hconnected
    · simp only [miningPoolPeers, List.mem_map, List.mem_filter, Enumeration.mem_arrange,
        Bool.and_eq_true, decide_eq_true_eq]
      intro hmem
      obtain ⟨info', ⟨hvalue, -, hconnected⟩, hpeer⟩ := hmem
      exact hother info' hvalue hpeer hconnected

/-! ## One call -/

theorem lookup_getMut (body : PeerInfo PeerId Multiaddr → PeerInfo PeerId Multiaddr)
    (peer' : PeerId) : (m.getMut peer body).peers.lookup peer' =
      if peer' = peer then (m.peers.lookup peer).map body else m.peers.lookup peer' := by
  unfold getMut
  cases hfound : m.peers.lookup peer with
  | none =>
      by_cases hpeer : peer' = peer
      · subst hpeer
        simp [hfound]
      · simp [hpeer]
  | some info => simp [HashMap.lookup_insert_eq]

/-- What an entry can become: it keeps its id and, if the event respects the bans, its ban. -/
def Carries (m : PeerManager PeerId Multiaddr) (e : PeerEvent PeerId Multiaddr)
    (info info' : PeerInfo PeerId Multiaddr) : Prop :=
  info'.peerId = info.peerId ∧ (m.Respects e → info.BannedIfDue → info'.BannedIfDue)

theorem getMut_entry {e : PeerEvent PeerId Multiaddr} {peer' : PeerId}
    {body : PeerInfo PeerId Multiaddr → PeerInfo PeerId Multiaddr}
    (h : (m.getMut peer' body).peers.lookup peer = some info)
    (hbody : ∀ info, m.peers.lookup peer' = some info → Carries m e info (body info)) :
    ∃ old, m.peers.lookup peer = some old ∧ Carries m e old info := by
  rw [lookup_getMut] at h
  split at h
  · rename_i hpeer
    obtain ⟨old, hold, rfl⟩ := Option.map_eq_some_iff.mp h
    exact ⟨old, hpeer ▸ hold, hbody old hold⟩
  · exact ⟨info, h, rfl, fun _ hdue => hdue⟩

/-- Every entry after a call is new or comes from the entry before it. -/
theorem peerStep_entry {e : PeerEvent PeerId Multiaddr} {r : PeerResult PeerId Multiaddr}
    (hstep : peerStep m e = some (r, m')) (h : m'.peers.lookup peer = some info) :
    (∃ now, info = .new peer now) ∨
      ∃ old, m.peers.lookup peer = some old ∧ Carries m e old info := by
  cases e with
  | addPeer peer' now =>
      obtain rfl : (m.addPeer peer' now).2 = m' := (Prod.mk.inj (Option.some.inj hstep)).2
      unfold addPeer at h
      split at h
      · exact Or.inr ⟨info, h, rfl, fun _ hdue => hdue⟩
      · split at h
        · exact Or.inr ⟨info, h, rfl, fun _ hdue => hdue⟩
        · rw [HashMap.lookup_insert_eq] at h
          split at h
          · rename_i hpeer
            subst hpeer
            exact Or.inl ⟨now, (Option.some.inj h).symm⟩
          · exact Or.inr ⟨info, h, rfl, fun _ hdue => hdue⟩
  | removePeer peer' =>
      obtain rfl : (m.removePeer peer').2 = m' := (Prod.mk.inj (Option.some.inj hstep)).2
      rw [removePeer, HashMap.lookup_erase_eq] at h
      split at h
      · simp at h
      · exact Or.inr ⟨info, h, rfl, fun _ hdue => hdue⟩
  | updatePeerStatus peer' status now =>
      obtain ⟨-, rfl⟩ := Prod.mk.inj (Option.some.inj hstep)
      refine Or.inr (getMut_entry h ?_)
      intro old hold
      refine ⟨rfl, ?_⟩
      intro hrespects _ hban
      rcases hrespects with rfl | hkeep
      · rfl
      · exact absurd hban (hkeep old hold)
  | decreaseReputation peer' amount =>
      obtain ⟨-, rfl⟩ := Prod.mk.inj (Option.some.inj hstep)
      refine Or.inr (getMut_entry h ?_)
      intro old _
      refine ⟨?_, fun _ _ => old.bannedIfDue_decreaseReputation amount⟩
      dsimp only
      split
      · rfl
      · rfl
  | increaseReputation peer' amount =>
      obtain ⟨-, rfl⟩ := Prod.mk.inj (Option.some.inj hstep)
      exact Or.inr
        (getMut_entry h fun _ _ => ⟨rfl, fun _ hdue => hdue.increaseReputation amount⟩)
  | banPeer peer' =>
      obtain ⟨-, rfl⟩ := Prod.mk.inj (Option.some.inj hstep)
      exact Or.inr (getMut_entry h fun _ _ => ⟨rfl, fun _ _ _ => rfl⟩)
  | removeTimedOutPeers order now =>
      obtain rfl : (m.removeTimedOutPeers order now).2 = m' :=
        (Prod.mk.inj (Option.some.inj hstep)).2
      rw [removeTimedOutPeers, HashMap.lookup_retain] at h
      exact Or.inr ⟨info, (Option.filter_eq_some_iff.mp h).1, rfl, fun _ hdue => hdue⟩
  | _ =>
      obtain ⟨-, rfl⟩ := Prod.mk.inj (Option.some.inj hstep)
      exact Or.inr (getMut_entry h fun _ _ => ⟨rfl, fun _ hdue => hdue⟩)

theorem peerStep_keyed {e : PeerEvent PeerId Multiaddr} {r : PeerResult PeerId Multiaddr}
    (hstep : peerStep m e = some (r, m')) (h : KeyedStore.Keyed PeerInfo.peerId m.peers) :
    KeyedStore.Keyed PeerInfo.peerId m'.peers := by
  intro peer info hinfo
  rcases peerStep_entry hstep hinfo with ⟨now, rfl⟩ | ⟨old, hold, hkey, -⟩
  · rfl
  · rw [hkey]
    exact h peer old hold

/-- A call that respects the bans keeps them. -/
theorem PeerManager.Bans.step {e : PeerEvent PeerId Multiaddr} {r : PeerResult PeerId Multiaddr}
    (h : m.Bans) (hstep : peerStep m e = some (r, m')) (hrespects : m.Respects e) : m'.Bans := by
  refine ⟨peerStep_keyed hstep h.keyed, ?_⟩
  intro peer info hinfo
  rcases peerStep_entry hstep hinfo with ⟨now, rfl⟩ | ⟨old, hold, -, hdue⟩
  · exact PeerInfo.bannedIfDue_new peer now
  · exact hdue hrespects (h.banned peer old hold)

/-- An update of the status that does not respect the bans breaks one. -/
theorem PeerManager.Bans.respects {e : PeerEvent PeerId Multiaddr}
    {r : PeerResult PeerId Multiaddr} (h : m'.Bans) (hstep : peerStep m e = some (r, m')) :
    m.Respects e := by
  cases e with
  | updatePeerStatus peer status now =>
      obtain ⟨-, rfl⟩ := Prod.mk.inj (Option.some.inj hstep)
      by_cases hdue : ∃ info, m.peers.lookup peer = some info ∧ info.shouldBan
      · obtain ⟨info, hinfo, hban⟩ := hdue
        refine Or.inl (h.banned peer ({ info with status }.updateLastSeen now) ?_ hban)
        simp [updatePeerStatus, lookup_getMut, hinfo]
      · refine Or.inr ?_
        intro info hinfo hban
        exact hdue ⟨info, hinfo, hban⟩
  | _ => trivial

/-! ## Every run -/

variable {maxPeers minPeers : ℕ} {timeout : Duration} {calls : List (PeerCall PeerId Multiaddr)}

theorem run_keyed
    (h : (peerMachine PeerId Multiaddr).Run (.new maxPeers minPeers timeout) calls m) :
    KeyedStore.Keyed PeerInfo.peerId m.peers :=
  h.invariant (I := fun m => KeyedStore.Keyed PeerInfo.peerId m.peers)
    (KeyedStore.keyed_empty _) fun _ hmakes => peerStep_keyed hmakes

/-- A run keeps every peer that should be banned banned, and out of the lists, exactly when none
of its calls gives such a peer another status. -/
theorem misbehaving_peers_stay_banned_iff
    (h : (peerMachine PeerId Multiaddr).Run (.new maxPeers minPeers timeout) calls m) :
    (∀ c ∈ calls, c.post.KeepsBanned) ↔ ∀ c ∈ calls, c.pre.Respects c.event := by
  have hbans := h.forall_post_iff (I := PeerManager.Bans) (C := fun c => c.pre.Respects c.event)
    (bans_new maxPeers minPeers timeout) fun c hmakes hpre =>
      ⟨fun hpost => hpost.respects hmakes, hpre.step hmakes⟩
  rw [← hbans]
  apply forall₂_congr
  intro c hc
  obtain ⟨before, hrun, -⟩ := h.before hc
  exact keepsBanned_iff (run_keyed (hrun.call c (h.makes hc)))

/-- A penalty bans a peer, and a later reward does not unban it. -/
theorem misbehaving_peers_stay_banned_iff_plain :
    ∃ calls m, (peerMachine ℕ String).Run (.new 8 1 100) calls m ∧
      (∀ c ∈ calls, c.post.KeepsBanned) ∧ (m.getPeer 7).map PeerInfo.status = some .banned := by
  have hrun := ((((Machine.Run.start (M := peerMachine ℕ String)
    (s := .new 8 1 100)).of_step (e := .addPeer 7 0) rfl).of_step
      (e := .updatePeerStatus 7 .connected 1) rfl).of_step
      (e := .decreaseReputation 7 45) rfl).of_step (e := .increaseReputation 7 2) rfl
  refine ⟨_, _, hrun, (misbehaving_peers_stay_banned_iff hrun).mpr ?_, rfl⟩
  simp [PeerManager.Respects]
  decide

/-- A banned peer that reconnects is connected, though its reputation is 0. -/
theorem banned_peer_reconnects :
    ∃ calls m, (peerMachine ℕ String).Run (.new 8 1 100) calls m ∧
      (m.getPeer 7).map PeerInfo.shouldBan = some true ∧ m.connectedPeers (.stored _) = [7] := by
  have hrun := (((Machine.Run.start (M := peerMachine ℕ String)
    (s := .new 8 1 100)).of_step (e := .addPeer 7 0) rfl).of_step
      (e := .banPeer 7) rfl).of_step (e := .updatePeerStatus 7 .connected 1) rfl
  exact ⟨_, _, hrun, rfl, rfl⟩

end Peer

end SilverNetwork
