import SilverNetwork.Model.ConcurrentPeers

/-! The admission of peers by several callers. A call checks the size of the table and the presence
of its peer in steps of their own, and inserts the peer in another, whatever has happened since; so
the table keeps to its limit where there still is room at the insertion, and not otherwise. -/

namespace SilverNetwork

namespace Peer

open SharedObject

variable {PeerId Multiaddr Caller : Type} [DecidableEq PeerId] [DecidableEq Caller]
  {m : PeerManager PeerId Multiaddr} {peer : PeerId} {caller : Caller} {maxPeers minPeers : ℕ}
  {timeout : Duration} {x y : ConcurrentPeers PeerId Multiaddr Caller}
  {c : ConcurrentPeersCall PeerId Multiaddr Caller}
  {calls : List (ConcurrentPeersCall PeerId Multiaddr Caller)}

/-! ## Admissions -/

/-- The caller inserts the peer, as its call has decided. -/
def AdmitsBy (caller : Caller) (peer : PeerId) (c : ConcurrentPeersCall PeerId Multiaddr Caller) :
    Prop :=
  ∃ readings thread info next, c.event = .act caller readings ∧
    c.pre.threads caller = some thread ∧ thread.rest = .act (.insert peer info) next

def Admits (peer : PeerId) (c : ConcurrentPeersCall PeerId Multiaddr Caller) : Prop :=
  ∃ caller, AdmitsBy caller peer c

/-- A peer that is admitted is a new one, and there is room for it. -/
def FindsRoom (maxPeers : ℕ) (c : ConcurrentPeersCall PeerId Multiaddr Caller) : Prop :=
  ∀ peer, Admits peer c → peer ∉ c.pre.shared.peers ∧ c.pre.shared.peers.len < maxPeers

/-- The peer is removed from the table. -/
def Leaves (peer : PeerId) (c : ConcurrentPeersCall PeerId Multiaddr Caller) : Prop :=
  peer ∈ c.pre.shared.peers ∧ peer ∉ c.post.shared.peers

/-- A call for the peer answers that it has been added. -/
def ReturnsTrue (caller : Caller) (peer : PeerId)
    (c : ConcurrentPeersCall PeerId Multiaddr Caller) : Prop :=
  ∃ readings thread, c.event = .act caller readings ∧ c.pre.threads caller = some thread ∧
    thread.op = .addPeer peer ∧ c.result = .returned (.added true)

/-- The last that the caller has done is to admit the peer. -/
def LastAdmitted (caller : Caller) (peer : PeerId)
    (calls : List (ConcurrentPeersCall PeerId Multiaddr Caller)) : Prop :=
  Since (AdmitsBy caller peer) (fun c => ∀ readings, c.event ≠ .act caller readings) calls

/-! ## A caller alone -/

/-- The call that a sequential event stands for. -/
def PeerEvent.op : PeerEvent PeerId Multiaddr → PeerOp PeerId Multiaddr
  | .addPeer peer _ => .addPeer peer
  | .removePeer peer => .removePeer peer
  | .updatePeerStatus peer status _ => .updatePeer (.peerStatus peer status)
  | .updatePeerAddresses peer addresses _ => .updatePeer (.peerAddresses peer addresses)
  | .updatePeerProtocol peer protocolVersion agentVersion _ =>
      .updatePeer (.peerProtocol peer protocolVersion agentVersion)
  | .markAsMiningPool peer => .updatePeer (.markAsMiningPool peer)
  | .recordMessageSent peer _ => .updatePeer (.recordMessageSent peer)
  | .recordMessageReceived peer _ => .updatePeer (.recordMessageReceived peer)
  | .increaseReputation peer amount => .updatePeer (.increaseReputation peer amount)
  | .decreaseReputation peer amount => .updatePeer (.decreaseReputation peer amount)
  | .banPeer peer => .updatePeer (.banPeer peer)
  | .removeTimedOutPeers _ _ => .removeTimedOutPeers

def PeerResult.answer : PeerResult PeerId Multiaddr → PeerAnswer PeerId Multiaddr
  | .added answer => .added answer
  | .removed info => .info info
  | .timedOut peers => .peers peers
  | .done => .done

def PeerReadings.at (now : Instant) : PeerReadings PeerId Multiaddr :=
  ⟨now, .stored _, .stored _⟩

theorem alone_addPeer (peer : PeerId) (now : Instant) (m : PeerManager PeerId Multiaddr) :
    ∃ readings, (sharedPeers PeerId Multiaddr m.maxPeers m.minPeers).alone
      (PeerProgram.addPeer m.maxPeers peer) readings m = some (m.addPeer peer now) := by
  have hlen : (sharedPeers PeerId Multiaddr m.maxPeers m.minPeers).perform .len (.at now) m =
      (some m.peers.len, m) := rfl
  have hknown : (sharedPeers PeerId Multiaddr m.maxPeers m.minPeers).perform (.containsKey peer)
      (.at now) m = (some (decide (peer ∈ m.peers)), m) := rfl
  by_cases hfull : m.maxPeers ≤ m.peers.len
  · refine ⟨[.at now], (SharedObject.alone_once_bind hlen []).trans ?_⟩
    simp [PeerManager.addPeer, hfull, SharedObject.alone]
  · by_cases hmem : peer ∈ m.peers
    · refine ⟨[.at now, .at now], (SharedObject.alone_once_bind hlen _).trans ?_⟩
      rw [if_neg hfull]
      refine (SharedObject.alone_once_bind hknown []).trans ?_
      simp [PeerManager.addPeer, hfull, hmem, SharedObject.alone]
    · refine ⟨[.at now, .at now, .at now, .at now],
        (SharedObject.alone_once_bind hlen _).trans ?_⟩
      rw [if_neg hfull]
      refine (SharedObject.alone_once_bind hknown _).trans ?_
      rw [PeerManager.addPeer, if_neg hfull, if_neg hmem, decide_eq_false hmem]
      rfl

/-- Alone, a call does what its one step does. -/
theorem alone_of_step {e : PeerEvent PeerId Multiaddr} {r : PeerResult PeerId Multiaddr}
    {m' : PeerManager PeerId Multiaddr} (h : peerStep m e = some (r, m')) :
    ∃ readings, (sharedPeers PeerId Multiaddr m.maxPeers m.minPeers).alone
      (e.op.program m.maxPeers m.minPeers) readings m = some (r.answer, m') := by
  cases e with
  | addPeer peer now =>
      obtain ⟨rfl, rfl⟩ := Prod.mk.inj (Option.some.inj h)
      obtain ⟨readings, hadd⟩ := alone_addPeer peer now m
      exact ⟨readings ++ [], SharedObject.alone_bind hadd []⟩
  | removePeer peer | markAsMiningPool peer | increaseReputation peer
  | decreaseReputation peer | banPeer peer =>
      obtain ⟨rfl, rfl⟩ := Prod.mk.inj (Option.some.inj h)
      exact ⟨[.at 0], rfl⟩
  | updatePeerStatus _ _ now | updatePeerAddresses _ _ now | updatePeerProtocol _ _ _ now
  | recordMessageSent _ now | recordMessageReceived _ now =>
      obtain ⟨rfl, rfl⟩ := Prod.mk.inj (Option.some.inj h)
      exact ⟨[.at now], rfl⟩
  | removeTimedOutPeers order now =>
      obtain ⟨rfl, rfl⟩ := Prod.mk.inj (Option.some.inj h)
      exact ⟨[.at now, ⟨now, .stored _, order⟩], rfl⟩

/-- A call that nobody interrupts does what its one step does. -/
theorem run_of_step {e : PeerEvent PeerId Multiaddr} {r : PeerResult PeerId Multiaddr}
    {m' : PeerManager PeerId Multiaddr} (hidle : x.threads caller = none)
    (h : peerStep x.shared e = some (r, m')) :
    ∃ calls, ((sharedPeers PeerId Multiaddr x.shared.maxPeers x.shared.minPeers).machine
        Caller).Run x calls { x with shared := m' } ∧
      ∃ c ∈ calls, c.result = .returned r.answer := by
  obtain ⟨readings, halone⟩ := alone_of_step h
  obtain ⟨calls, hrun, _, hreturned⟩ := SharedObject.run_call_alone (.at 0) hidle halone
  exact ⟨calls, hrun, hreturned⟩

/-! ## The table -/

theorem len_getMut (peer : PeerId)
    (body : PeerInfo PeerId Multiaddr → PeerInfo PeerId Multiaddr)
    (m : PeerManager PeerId Multiaddr) : (m.getMut peer body).peers.len ≤ m.peers.len := by
  unfold PeerManager.getMut
  cases hlookup : m.peers.lookup peer with
  | none => exact Nat.le_refl _
  | some info =>
      apply HashMap.len_le_of_subset
      intro other hother
      rcases (AList.mem_insert m.peers).mp hother with rfl | hother
      · exact HashMap.mem_iff_exists_lookup.mpr ⟨info, hlookup⟩
      · exact hother

theorem len_apply (update : PeerUpdate PeerId Multiaddr) (now : Instant)
    (m : PeerManager PeerId Multiaddr) : (update.apply now m).peers.len ≤ m.peers.len := by
  cases update <;> exact len_getMut _ _ m

/-- No action but an insertion makes the table larger. -/
theorem len_perform {action : PeerAct PeerId Multiaddr}
    (h : ∀ peer info, action ≠ .insert peer info) (readings : PeerReadings PeerId Multiaddr)
    (m : PeerManager PeerId Multiaddr) : (action.perform readings m).2.peers.len ≤ m.peers.len := by
  cases action with
  | insert peer info => exact absurd rfl (h peer info)
  | readClock | len | containsKey | get | iter => exact Nat.le_refl _
  | remove peer => exact HashMap.len_erase_le m.peers peer
  | getMut update => exact len_apply update readings.now m
  | retain now => exact HashMap.len_retain_le _ _

/-- A step that finds room for a peer keeps to the limit. -/
theorem FindsRoom.step (h : FindsRoom maxPeers c)
    (hmakes : ((sharedPeers PeerId Multiaddr maxPeers minPeers).machine Caller).Makes c)
    (hlimit : c.pre.shared.peers.len ≤ maxPeers) : c.post.shared.peers.len ≤ maxPeers := by
  rcases (rule_of_step hmakes).shared with hsame | ⟨duration, _⟩ |
    ⟨caller, readings, thread, action, next, hevent, hbusy, hdue, hpost⟩
  · rw [hsame]
    exact hlimit
  · cases duration
  · rw [hpost]
    by_cases hinsert : ∃ peer info, action = .insert peer info
    · obtain ⟨peer, info, rfl⟩ := hinsert
      obtain ⟨_, hroom⟩ := h peer ⟨caller, readings, thread, info, next, hevent, hbusy, hdue⟩
      exact Nat.le_trans (HashMap.len_insert_le _ peer info) hroom
    · have hother : ∀ peer info, action ≠ .insert peer info :=
        fun peer info heq => hinsert ⟨peer, info, heq⟩
      exact Nat.le_trans (len_perform hother readings c.pre.shared) hlimit

theorem Admits.mem_post
    (hmakes : ((sharedPeers PeerId Multiaddr maxPeers minPeers).machine Caller).Makes c)
    (h : Admits peer c) : peer ∈ c.post.shared.peers := by
  obtain ⟨caller, readings, thread, info, next, hevent, hbusy, hdue⟩ := h
  have hrule := rule_of_step hmakes
  rw [hevent] at hrule
  rw [hrule.performs hbusy hdue]
  exact HashMap.mem_insert_self _ peer info

omit [DecidableEq Caller] in
/-- A peer that does not leave the table stays in it. -/
theorem run_stays {M : Machine (ConcurrentPeers PeerId Multiaddr Caller)
      (ConcurrentEvent (PeerReadings PeerId Multiaddr) Empty Caller (PeerOp PeerId Multiaddr))
      (Progress (PeerAnswer PeerId Multiaddr))} (h : M.Run x calls y)
    (hmem : peer ∈ x.shared.peers) (hstays : ∀ c ∈ calls, ¬ Leaves peer c) :
    peer ∈ y.shared.peers := by
  refine h.invariant_of_mem (I := fun x => peer ∈ x.shared.peers) hmem ?_
  intro c hc _ hpre
  by_contra hpost
  exact hstays c hc ⟨hpre, hpost⟩

/-! ## The calls that answer -/

/-- A program of which every path either admits the peer and then answers that it has been added,
or answers something else. -/
def AdmitsFirst (peer : PeerId) :
    AtomicProgram (PeerAct PeerId Multiaddr) PeerAct.Answer (PeerAnswer PeerId Multiaddr) → Prop
  | .ret result => result ≠ .added true
  | .act action next =>
      (∀ answer, AdmitsFirst peer (next answer)) ∨
        (∃ info, action = .insert peer info) ∧ ∀ answer, next answer = .ret (.added true)

omit [DecidableEq PeerId] in
theorem addPeer_admitsFirst (maxPeers minPeers : ℕ) (peer : PeerId) :
    AdmitsFirst peer
      (PeerOp.program maxPeers minPeers (.addPeer peer : PeerOp PeerId Multiaddr)) := by
  simp only [PeerOp.program, PeerProgram.addPeer, PeerProgram.act, AtomicProgram.once_bind,
    AtomicProgram.act_bind]
  refine .inl fun len => ?_
  by_cases hfull : maxPeers ≤ len
  · simp [hfull, AdmitsFirst]
  · simp only [hfull, if_false, AtomicProgram.act_bind]
    refine .inl fun known => ?_
    by_cases hknown : known = true
    · simp [hknown, AdmitsFirst]
    · simp only [hknown]
      exact .inl fun now => .inr ⟨⟨_, rfl⟩, fun _ => rfl⟩

/-- A call of `add_peer` that has not inserted its peer yet will, if it answers that it has. -/
def Tracked (calls : List (ConcurrentPeersCall PeerId Multiaddr Caller))
    (x : ConcurrentPeers PeerId Multiaddr Caller) : Prop :=
  ∀ caller thread peer, x.threads caller = some thread → thread.op = .addPeer peer →
    AdmitsFirst peer thread.rest ∨
      thread.rest = .ret (.added true) ∧ LastAdmitted caller peer calls

omit [DecidableEq PeerId] in
/-- The steps of the others change nothing about a call. -/
theorem Tracked.of_resume (h : Tracked calls c.pre) {other : Caller}
    (hpost : ∃ shared rest, c.post = c.pre.resume other shared rest)
    (hevent : ∀ caller readings, c.event = .act caller readings → caller = other)
    (hother : ∀ thread peer, c.post.threads other = some thread → thread.op = .addPeer peer →
      AdmitsFirst peer thread.rest ∨
        thread.rest = .ret (.added true) ∧ LastAdmitted other peer (calls ++ [c])) :
    Tracked (calls ++ [c]) c.post := by
  intro caller thread peer hbusy hop
  by_cases hsame : caller = other
  · obtain rfl := hsame
    exact hother thread peer hbusy hop
  · obtain ⟨shared, rest, hpost⟩ := hpost
    rw [hpost, Concurrent.resume_threads_of_ne hsame] at hbusy
    refine (h caller thread peer hbusy hop).imp_right fun ⟨hrest, hlast⟩ => ⟨hrest, ?_⟩
    exact Since.concat hlast fun readings heq => hsame (hevent caller readings heq)

theorem Tracked.step (h : Tracked calls c.pre)
    (hmakes : ((sharedPeers PeerId Multiaddr maxPeers minPeers).machine Caller).Makes c) :
    Tracked (calls ++ [c]) c.post := by
  obtain ⟨pre, e, r, post⟩ := c
  have hrule : Rule (sharedPeers PeerId Multiaddr maxPeers minPeers) pre e r post :=
    rule_of_step hmakes
  cases hrule with
  | elapse duration => cases duration
  | call caller op idle =>
      refine h.of_resume ⟨_, _, rfl⟩ (by simp) ?_
      intro thread peer hbusy hop
      obtain rfl : _ = thread := by simpa using hbusy
      obtain rfl : op = .addPeer peer := hop
      exact .inl (addPeer_admitsFirst maxPeers minPeers peer)
  | panic caller | finish caller =>
      refine h.of_resume ⟨_, _, rfl⟩ (by simp +contextual) ?_
      intro thread peer hbusy
      simp at hbusy
  | act caller readings before action next answer s busy due performs =>
      refine h.of_resume ⟨_, _, rfl⟩ (by simp +contextual) ?_
      intro thread peer hbusy hop
      obtain rfl : _ = thread := by simpa using hbusy
      rcases h caller before peer busy hop with hfirst | ⟨hret, _⟩
      · rw [due] at hfirst
        rcases hfirst with hnext | ⟨⟨info, rfl⟩, hnext⟩
        · exact .inl (hnext answer)
        · exact .inr ⟨hnext answer, .last ⟨readings, before, info, next, rfl, busy, due⟩⟩
      · cases due.symm.trans hret

theorem tracked_of_run {m : PeerManager PeerId Multiaddr}
    (h : ((sharedPeers PeerId Multiaddr maxPeers minPeers).machine Caller).Run (.start m) calls x) :
    Tracked calls x := by
  induction h with
  | start =>
      intro caller thread peer hbusy
      cases hbusy
  | call c _ hmakes ih => exact ih.step hmakes

theorem ReturnsTrue.lastAdmitted (h : ReturnsTrue caller peer c) (htracked : Tracked calls c.pre)
    (hmakes : ((sharedPeers PeerId Multiaddr maxPeers minPeers).machine Caller).Makes c) :
    LastAdmitted caller peer calls := by
  obtain ⟨readings, thread, hevent, hbusy, hop, hresult⟩ := h
  obtain ⟨pre, e, r, post⟩ := c
  obtain rfl : e = _ := hevent
  obtain rfl : r = _ := hresult
  have hrule : Rule (sharedPeers PeerId Multiaddr maxPeers minPeers) pre (.act caller readings)
      (.returned (.added true)) post := rule_of_step hmakes
  cases hrule with
  | finish _ _ thread' _ busy due =>
      obtain rfl := Option.some.inj (hbusy.symm.trans busy)
      rcases htracked caller thread peer hbusy hop with hfirst | ⟨_, hlast⟩
      · rw [due] at hfirst
        exact absurd rfl hfirst
      · exact hlast

/-- As long as an insertion finds its peer absent and room in the table, the table keeps to its
limit; between two admissions of a peer it leaves the table, and a call that answers that the peer
has been added has done nothing since it admitted it. -/
theorem peers_within_limit
    (h : ((sharedPeers PeerId Multiaddr maxPeers minPeers).machine Caller).Run
      (ConcurrentPeers.new maxPeers minPeers timeout) calls x)
    (hroom : ∀ c ∈ calls, FindsRoom maxPeers c) :
    x.shared.peers.len ≤ maxPeers ∧
    (∀ peer before a during b after, calls = before ++ a :: (during ++ b :: after) →
      Admits peer a → Admits peer b → ∃ c ∈ during, Leaves peer c) ∧
    ∀ caller peer before c after, calls = before ++ c :: after → ReturnsTrue caller peer c →
      LastAdmitted caller peer before := by
  refine ⟨?_, ?_, ?_⟩
  · refine h.invariant_of_mem (I := fun x => x.shared.peers.len ≤ maxPeers) (Nat.zero_le _) ?_
    intro c hc hmakes hlimit
    exact (hroom c hc).step hmakes hlimit
  · intro peer before a during b after hcalls ha hb
    by_contra hstays
    have hmakes : ((sharedPeers PeerId Multiaddr maxPeers minPeers).machine Caller).Makes a :=
      (h.split hcalls).2
    rw [hcalls, List.append_cons] at h
    obtain ⟨u, hfirst, hrest⟩ := h.cut
    obtain rfl := hfirst.last
    have hmem : peer ∈ b.pre.shared.peers :=
      run_stays (hrest.split rfl).1 (ha.mem_post hmakes)
        fun c hc hleaves => hstays ⟨c, hc, hleaves⟩
    have hb' : b ∈ calls := by simp [hcalls]
    exact (hroom b hb' peer hb).1 hmem
  · intro caller peer before c after hcalls hreturns
    obtain ⟨hbefore, hmakes⟩ := h.split hcalls
    exact hreturns.lastAdmitted (tracked_of_run hbefore) hmakes

/-- The peer that a step inserts, if it does. -/
def inserted (c : ConcurrentPeersCall PeerId Multiaddr Caller) : Option PeerId :=
  match c.event with
  | .act caller _ => (c.pre.threads caller).bind fun thread =>
      match thread.rest with
      | .act (.insert peer _) _ => some peer
      | _ => none
  | _ => none

omit [DecidableEq PeerId] [DecidableEq Caller] in
theorem Admits.inserted (h : Admits peer c) : inserted c = some peer := by
  obtain ⟨caller, readings, thread, info, next, hevent, hbusy, hdue⟩ := h
  simp only [Peer.inserted, hevent, hbusy, Option.bind_some, hdue]

omit [DecidableEq PeerId] [DecidableEq Caller] in
theorem findsRoom_of_inserted (h : ∀ peer ∈ inserted c,
    peer ∉ c.pre.shared.peers ∧ c.pre.shared.peers.len < maxPeers) : FindsRoom maxPeers c :=
  fun peer hadmits => h peer hadmits.inserted

/-- A caller adds a peer, removes it and adds it again while another one adds a peer, with room for
both: the table keeps to its limit, the peer has left it in between, and each answer is due to an
insertion of its own. -/
theorem peers_within_limit_plain :
    ∃ calls, ∃ x : ConcurrentPeers ℕ Unit ℕ,
      ((sharedPeers ℕ Unit 2 0).machine ℕ).Run (ConcurrentPeers.new 2 0 0) calls x ∧
      7 ∈ x.shared.peers ∧ 8 ∈ x.shared.peers ∧ x.shared.peers.len ≤ 2 ∧
      (∃ c ∈ calls, Leaves 7 c) ∧
      ∃ before c after, calls = before ++ c :: after ∧ ReturnsTrue 1 7 c ∧
        LastAdmitted 1 7 before := by
  have hfirst := Machine.Run.start.of_step (M := (sharedPeers ℕ Unit 2 0).machine ℕ)
    (s := ConcurrentPeers.new 2 0 0) (e := .call 1 (.addPeer 7)) rfl
    |>.of_step (e := .act 1 (.at 0)) rfl |>.of_step (e := .act 1 (.at 0)) rfl
    |>.of_step (e := .act 1 (.at 0)) rfl
  have hinserted := hfirst.of_step (e := .act 1 (.at 0)) rfl
  have hanswered := hinserted.of_step (e := .call 2 (.addPeer 8)) rfl
    |>.of_step (e := .act 2 (.at 0)) rfl |>.of_step (e := .act 1 (.at 0)) rfl
    |>.of_step (e := .call 1 (.removePeer 7)) rfl |>.of_step (e := .act 2 (.at 0)) rfl
    |>.of_step (e := .act 1 (.at 0)) rfl |>.of_step (e := .act 2 (.at 0)) rfl
    |>.of_step (e := .act 1 (.at 0)) rfl |>.of_step (e := .act 2 (.at 0)) rfl
    |>.of_step (e := .call 1 (.addPeer 7)) rfl |>.of_step (e := .act 1 (.at 0)) rfl
    |>.of_step (e := .act 1 (.at 0)) rfl |>.of_step (e := .act 1 (.at 0)) rfl
  have hrun := hanswered.of_step (e := .act 1 (.at 0)) rfl
    |>.of_step (e := .act 2 (.at 0)) rfl |>.of_step (e := .act 1 (.at 0)) rfl
  obtain ⟨hlimit, hbetween, hanswers⟩ := peers_within_limit hrun (by
    simp only [List.nil_append, List.mem_append, List.mem_singleton, or_imp, forall_and, forall_eq]
    repeat' apply And.intro
    all_goals exact findsRoom_of_inserted (by decide +kernel))
  obtain ⟨c, hc, hleaves⟩ := hbetween 7 [_, _, _, _] _ [_, _, _, _, _, _, _, _, _, _, _, _, _] _
    [_, _] rfl ⟨1, .at 0, _, _, _, rfl, rfl, rfl⟩ ⟨1, .at 0, _, _, _, rfl, rfl, rfl⟩
  refine ⟨_, _, hrun, by decide, by decide, hlimit, ⟨c, ?_, hleaves⟩, ?_⟩
  · exact List.mem_append_left [_, _, _] (List.mem_append_right [_, _, _, _, _] hc)
  · exact ⟨_, _, [], rfl, ⟨.at 0, _, rfl, rfl, rfl, rfl⟩,
      hanswers 1 7 _ _ [] rfl ⟨.at 0, _, rfl, rfl, rfl, rfl⟩⟩

/-- Two callers find room for a peer each, or a peer absent, and then both of them insert. -/
theorem room_taken_twice :
    (∃ calls, ∃ x : ConcurrentPeers ℕ Unit ℕ,
      ((sharedPeers ℕ Unit 1 0).machine ℕ).Run (ConcurrentPeers.new 1 0 0) calls x ∧
      x.shared.peers.len = 2) ∧
    ∃ calls, ∃ x : ConcurrentPeers ℕ Unit ℕ,
      ((sharedPeers ℕ Unit 1 0).machine ℕ).Run (ConcurrentPeers.new 1 0 0) calls x ∧
      (∀ c ∈ calls, ¬ Leaves 7 c) ∧ (∃ c ∈ calls, ReturnsTrue 1 7 c) ∧
      ∃ c ∈ calls, ReturnsTrue 2 7 c := by
  refine ⟨?_, ?_⟩
  · have hchecked := Machine.Run.start.of_step (M := (sharedPeers ℕ Unit 1 0).machine ℕ)
      (s := ConcurrentPeers.new 1 0 0) (e := .call 1 (.addPeer 7)) rfl
      |>.of_step (e := .call 2 (.addPeer 8)) rfl
      |>.of_step (e := .act 1 (.at 0)) rfl |>.of_step (e := .act 2 (.at 0)) rfl
      |>.of_step (e := .act 1 (.at 0)) rfl |>.of_step (e := .act 2 (.at 0)) rfl
      |>.of_step (e := .act 1 (.at 0)) rfl |>.of_step (e := .act 2 (.at 0)) rfl
    have hinserted := hchecked.of_step (e := .act 1 (.at 0)) rfl
      |>.of_step (e := .act 2 (.at 0)) rfl
    exact ⟨_, _, hinserted, by decide⟩
  · have hchecked := Machine.Run.start.of_step (M := (sharedPeers ℕ Unit 1 0).machine ℕ)
      (s := ConcurrentPeers.new 1 0 0) (e := .call 1 (.addPeer 7)) rfl
      |>.of_step (e := .call 2 (.addPeer 7)) rfl
      |>.of_step (e := .act 1 (.at 0)) rfl |>.of_step (e := .act 2 (.at 0)) rfl
      |>.of_step (e := .act 1 (.at 0)) rfl |>.of_step (e := .act 2 (.at 0)) rfl
      |>.of_step (e := .act 1 (.at 0)) rfl |>.of_step (e := .act 2 (.at 0)) rfl
    have hinserted := hchecked.of_step (e := .act 1 (.at 0)) rfl
      |>.of_step (e := .act 2 (.at 0)) rfl
    have hreturned := hinserted.of_step (e := .act 1 (.at 0)) rfl
      |>.of_step (e := .act 2 (.at 0)) rfl
    refine ⟨_, _, hreturned, ?_, ?_, ?_⟩
    · simp only [List.nil_append, List.mem_append, List.mem_singleton, or_imp, forall_and,
        forall_eq]
      simp only [Leaves]
      decide
    · refine ⟨_, List.mem_append_left _ (List.mem_append_right _ (List.mem_singleton_self _)), ?_⟩
      exact ⟨.at 0, _, rfl, rfl, rfl, rfl⟩
    · refine ⟨_, List.mem_append_right _ (List.mem_singleton_self _), ?_⟩
      exact ⟨.at 0, _, rfl, rfl, rfl, rfl⟩

end Peer

end SilverNetwork
