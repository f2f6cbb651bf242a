import SilverNetwork.Foundations.RelyGuarantee
import SilverNetwork.Model.ConcurrentReputation

/-! The operations of the reputation as programs. Run without interruption, each is the one step
that a single caller sees; run among others, it acts on readings that are at most too old. -/

namespace SilverNetwork

namespace Security

variable {PeerId Caller : Type} [DecidableEq PeerId] [DecidableEq Caller]
  {checks : OverflowChecks}

/-! ## A single caller -/

namespace ReputationEvent

/-- The operation that is called. -/
def op : ReputationEvent PeerId → ReputationOp PeerId
  | .getScore peer _ => .getScore peer
  | .increaseReputation peer amount _ => .increaseReputation peer amount
  | .decreaseReputation peer amount reason _ => .decreaseReputation peer amount reason
  | .banPeer peer reason _ _ _ => .banPeer peer reason
  | .unbanPeer peer _ _ => .unbanPeer peer
  | .isBanned peer _ _ _ => .isBanned peer
  | .getBanReason peer => .getBanReason peer
  | .cleanupExpiredBans _ => .cleanupExpiredBans
  | .getStats _ => .getStats
  | .clearAll => .clearAll

/-- The readings that are not taken under a guard of the scores are those of the clock. -/
def ReadsAt (now : Instant) : ReputationEvent PeerId → Prop
  | .getScore _ readAt => readAt = now
  | .decreaseReputation _ _ _ readings => readings.bannedAt = now
  | .banPeer _ _ bannedAt _ _ => bannedAt = now
  | .isBanned _ readAt _ _ => readAt = now
  | .cleanupExpiredBans readAt => readAt = now
  | _ => True

end ReputationEvent

def ActReadings.update (readings : UpdateReadings) : ActReadings PeerId := ⟨readings, fun _ => 0⟩

def ActReadings.none : ActReadings PeerId := .update ⟨0, 0, 0⟩

theorem alone_banPeer (peer : PeerId) (reason : String) (now createdAt updatedAt : Instant)
    (r : PeerReputation PeerId) :
    (sharedReputation PeerId checks).alone (ReputationProgram.banPeer peer reason)
        [.none, .none, .update ⟨createdAt, 0, updatedAt⟩] ⟨r, now⟩ =
      some ((), ⟨r.banPeer peer reason now createdAt updatedAt, now⟩) :=
  rfl

theorem alone_unbanPeer (checks : OverflowChecks) (peer : PeerId)
    (now createdAt updatedAt : Instant) (r : PeerReputation PeerId) :
    ∃ readings, (sharedReputation PeerId checks).alone (ReputationProgram.unbanPeer peer)
      readings ⟨r, now⟩ = some ((), ⟨r.unbanPeer peer createdAt updatedAt, now⟩) := by
  by_cases hbanned : peer ∈ r.blocklist
  · refine ⟨[.none, .update ⟨createdAt, 0, updatedAt⟩], ?_⟩
    have hremove : (sharedReputation PeerId checks).perform (.removeBan peer) .none ⟨r, now⟩ =
        (some true, ⟨{ r with blocklist := r.blocklist.erase peer }, now⟩) := if_pos hbanned
    rw [PeerReputation.unbanPeer, if_pos hbanned]
    exact SharedObject.alone_once_bind hremove _
  · refine ⟨[.none], ?_⟩
    have hremove : (sharedReputation PeerId checks).perform (.removeBan peer) .none ⟨r, now⟩ =
        (some false, ⟨r, now⟩) := if_neg hbanned
    rw [PeerReputation.unbanPeer, if_neg hbanned]
    exact SharedObject.alone_once_bind hremove _

theorem alone_isBanned (checks : OverflowChecks) (peer : PeerId)
    (now createdAt updatedAt : Instant) (r : PeerReputation PeerId) :
    ∃ readings, (sharedReputation PeerId checks).alone (ReputationProgram.isBanned peer)
      readings ⟨r, now⟩ = some ((r.isBanned peer now createdAt updatedAt).map id
        fun r => ⟨r, now⟩) := by
  have hget : (sharedReputation PeerId checks).perform (.getBan peer) .none ⟨r, now⟩ =
      (some ((r.blocklist.lookup peer).map fun entry => (entry, now)), ⟨r, now⟩) := rfl
  cases hban : r.blocklist.lookup peer with
  | none =>
      rw [hban] at hget
      refine ⟨[.none], (SharedObject.alone_once_bind hget _).trans ?_⟩
      simp [PeerReputation.isBanned, hban, SharedObject.alone]
  | some entry =>
      rw [hban] at hget
      by_cases hactive : now - entry.bannedAt < entry.duration
      · refine ⟨[.none], (SharedObject.alone_once_bind hget _).trans ?_⟩
        simp [PeerReputation.isBanned, hban, hactive, SharedObject.alone]
      · obtain ⟨readings, hunban⟩ := alone_unbanPeer checks peer now createdAt updatedAt r
        refine ⟨.none :: (readings ++ []), (SharedObject.alone_once_bind hget _).trans ?_⟩
        simp only [Option.map_some, hactive, if_false]
        rw [SharedObject.alone_bind hunban]
        simp [PeerReputation.isBanned, hban, hactive, SharedObject.alone]

theorem perform_raiseScore {peer : PeerId} {amount : UInt8} {readings : UpdateReadings}
    {r r' : PeerReputation PeerId} (now : Instant)
    (h : r.increaseReputation checks peer amount readings = some r') :
    (sharedReputation PeerId checks).perform (.raiseScore peer amount) (.update readings)
      ⟨r, now⟩ = (some (), ⟨r', now⟩) := by
  cases hcount : checks.add (r.scoreEntry peer readings.createdAt).goodCount 1 with
  | none => simp [PeerReputation.increaseReputation, hcount] at h
  | some goodCount =>
      obtain rfl : _ = r' := by simpa [PeerReputation.increaseReputation, hcount] using h
      simp [sharedReputation, ReputationAct.perform, ReputationAct.putScore, ActReadings.update,
        hcount]

theorem alone_decreaseReputation {peer : PeerId} {amount : UInt8} {reason : String}
    {readings : PeerReputation.PenaltyReadings} {r r' : PeerReputation PeerId}
    (h : r.decreaseReputation checks peer amount reason readings = some r') :
    ∃ inputs, (sharedReputation PeerId checks).alone
      (ReputationProgram.decreaseReputation peer amount reason) inputs ⟨r, readings.bannedAt⟩ =
        some ((), ⟨r', readings.bannedAt⟩) := by
  cases hcount : checks.add (r.scoreEntry peer readings.createdAt).badCount 1 with
  | none => simp [PeerReputation.decreaseReputation, hcount] at h
  | some badCount =>
      simp only [PeerReputation.decreaseReputation, hcount, Option.bind_eq_bind,
        Option.bind_some] at h
      obtain ⟨score, hscore⟩ : ∃ score, score = Saturating.sub (PeerReputation.applyDecay
        r.decayRate readings.readAt (r.scoreEntry peer readings.createdAt)) amount := ⟨_, rfl⟩
      have hlower : (sharedReputation PeerId checks).perform (.lowerScore peer amount)
          (.update readings.toUpdateReadings) ⟨r, readings.bannedAt⟩ =
          (some (decide (score < r.banThreshold)), ReputationAct.putScore peer
            ⟨score, readings.updatedAt, (r.scoreEntry peer readings.createdAt).goodCount,
              badCount⟩ ⟨r, readings.bannedAt⟩) := by
        simp [sharedReputation, ReputationAct.perform, ActReadings.update, hcount, hscore]
      rw [← hscore] at h
      split at h
      · rename_i hbelow
        obtain rfl := Option.some.inj h
        refine ⟨[_, .none, .none, .update ⟨readings.bannedAt, 0, readings.resetAt⟩],
          (SharedObject.alone_once_bind hlower _).trans ?_⟩
        rw [decide_eq_true hbelow]
        exact alone_banPeer peer reason readings.bannedAt readings.bannedAt readings.resetAt _
      · rename_i hbelow
        obtain rfl := Option.some.inj h
        refine ⟨[_], (SharedObject.alone_once_bind hlower []).trans ?_⟩
        rw [decide_eq_false hbelow]
        rfl

/-- Alone, an operation does what its one step does. -/
theorem alone_of_step {e : ReputationEvent PeerId} {result : ReputationResult}
    {r r' : PeerReputation PeerId} {now : Instant} (hreads : e.ReadsAt now)
    (h : reputationStep checks r e = some (result, r')) :
    ∃ readings, (sharedReputation PeerId checks).alone e.op.program readings ⟨r, now⟩ =
      some (result, ⟨r', now⟩) := by
  cases e with
  | increaseReputation peer amount readings =>
      obtain ⟨r', hraised, hresult⟩ := Option.map_eq_some_iff.mp h
      obtain ⟨rfl, rfl⟩ := Prod.mk.inj hresult
      exact ⟨[.update readings],
        SharedObject.alone_once_bind (perform_raiseScore now hraised) []⟩
  | decreaseReputation peer amount reason readings =>
      obtain rfl : readings.bannedAt = now := hreads
      obtain ⟨r', hlowered, hresult⟩ := Option.map_eq_some_iff.mp h
      obtain ⟨rfl, rfl⟩ := Prod.mk.inj hresult
      obtain ⟨inputs, halone⟩ := alone_decreaseReputation hlowered
      exact ⟨inputs ++ [], SharedObject.alone_bind halone []⟩
  | getScore peer readAt =>
      obtain rfl : readAt = now := hreads
      obtain ⟨rfl, rfl⟩ := Prod.mk.inj (Option.some.inj h)
      exact ⟨[.none], rfl⟩
  | banPeer peer reason bannedAt createdAt updatedAt =>
      obtain rfl : bannedAt = now := hreads
      obtain ⟨rfl, rfl⟩ := Prod.mk.inj (Option.some.inj h)
      exact ⟨_ ++ [], SharedObject.alone_bind
        (alone_banPeer peer reason bannedAt createdAt updatedAt r) []⟩
  | unbanPeer peer createdAt updatedAt =>
      obtain ⟨rfl, rfl⟩ := Prod.mk.inj (Option.some.inj h)
      obtain ⟨readings, hunban⟩ := alone_unbanPeer checks peer now createdAt updatedAt r
      exact ⟨readings ++ [], SharedObject.alone_bind hunban []⟩
  | isBanned peer readAt createdAt updatedAt =>
      obtain rfl : readAt = now := hreads
      obtain ⟨rfl, rfl⟩ := Prod.mk.inj (Option.some.inj h)
      obtain ⟨readings, hbanned⟩ := alone_isBanned checks peer readAt createdAt updatedAt r
      exact ⟨readings ++ [], SharedObject.alone_bind hbanned []⟩
  | getBanReason peer =>
      obtain ⟨rfl, rfl⟩ := Prod.mk.inj (Option.some.inj h)
      have hget : (sharedReputation PeerId checks).perform (.getBan peer) .none ⟨r, now⟩ =
          (some ((r.blocklist.lookup peer).map fun entry => (entry, now)), ⟨r, now⟩) := rfl
      refine ⟨[.none], (SharedObject.alone_once_bind hget []).trans ?_⟩
      simp only [PeerReputation.getBanReason, SharedObject.alone, Option.map_map,
        AtomicProgram.pure_eq]
      rfl
  | cleanupExpiredBans readAt =>
      obtain rfl : readAt = now := hreads
      obtain ⟨rfl, rfl⟩ := Prod.mk.inj (Option.some.inj h)
      exact ⟨[.none, .none], rfl⟩
  | getStats readAt =>
      obtain ⟨rfl, rfl⟩ := Prod.mk.inj (Option.some.inj h)
      exact ⟨[.none, .none, ⟨⟨0, 0, 0⟩, readAt⟩], rfl⟩
  | clearAll =>
      obtain ⟨rfl, rfl⟩ := Prod.mk.inj (Option.some.inj h)
      exact ⟨[.none, .none], rfl⟩

/-- A call that nobody interrupts is a step of the reputation as a single caller sees it. -/
theorem call_alone {x : ConcurrentReputation PeerId Caller} {caller : Caller}
    {e : ReputationEvent PeerId} {result : ReputationResult} {r : PeerReputation PeerId}
    (hidle : x.threads caller = none) (hreads : e.ReadsAt x.shared.now)
    (h : reputationStep checks x.shared.reputation e = some (result, r)) :
    ∃ calls, ((sharedReputation PeerId checks).machine Caller).Run x calls
        { x with shared.reputation := r } ∧ ∃ c ∈ calls, c.result = .returned result := by
  obtain ⟨readings, halone⟩ := alone_of_step hreads h
  obtain ⟨calls, hrun, _, hreturned⟩ := SharedObject.run_call_alone .none hidle halone
  exact ⟨calls, hrun, hreturned⟩

/-! ## What the callers keep to -/

/-- The clock does not go back, and the configuration stays. -/
structure Later (s t : SharedReputation PeerId) : Prop where
  now_le : s.now ≤ t.now
  banDuration_eq : t.reputation.banDuration = s.reputation.banDuration

instance : IsPreorder (SharedReputation PeerId) Later where
  refl := fun s => ⟨le_refl s.now, rfl⟩
  trans := fun _ _ _ h h' => ⟨h.now_le.trans h'.now_le, h'.banDuration_eq.trans h.banDuration_eq⟩

/-- A reading is not ahead of the clock, and bans are only removed by the operations that lift
them. -/
def Allowed (op : ReputationOp PeerId) : ReputationAct PeerId → SharedReputation PeerId → Prop
  | .insertBan _ _ bannedAt, s => bannedAt ≤ s.now
  | .retainBans now, s => now ≤ s.now
  | .removeBan peer, _ => op = .isBanned peer ∨ op = .unbanPeer peer
  | .clearBans, _ => op = .clearAll
  | _, _ => True

theorem later_perform (checks : OverflowChecks) (action : ReputationAct PeerId)
    (readings : ActReadings PeerId) (s : SharedReputation PeerId) :
    Later s ((sharedReputation PeerId checks).perform action readings s).2 := by
  simp only [sharedReputation]
  cases action with
  | raiseScore peer amount =>
      simp only [ReputationAct.perform]
      split
      · exact ⟨le_refl s.now, rfl⟩
      · exact ⟨le_refl s.now, rfl⟩
  | lowerScore peer amount =>
      simp only [ReputationAct.perform]
      split
      · exact ⟨le_refl s.now, rfl⟩
      · exact ⟨le_refl s.now, rfl⟩
  | removeBan peer =>
      simp only [ReputationAct.perform]
      split
      · exact ⟨le_refl s.now, rfl⟩
      · exact ⟨le_refl s.now, rfl⟩
  | _ => exact ⟨le_refl s.now, rfl⟩

/-- The ban is not ahead of the clock when it is inserted, however much later that is. -/
theorem sound_banPeer (op : ReputationOp PeerId) (peer : PeerId) (reason : String)
    (s : SharedReputation PeerId) :
    (sharedReputation PeerId checks).Sound Later (Allowed op)
      (ReputationProgram.banPeer peer reason) s := by
  refine .once_bind (fun _ _ => trivial) ?_
  rintro t readings bannedAt u _ hread
  obtain ⟨hanswer, rfl⟩ := Prod.mk.inj hread
  obtain rfl := Option.some.inj hanswer
  refine .once_bind (fun t' ht' => ht'.now_le) ?_
  intro _ _ _ _ _ _
  exact .once fun _ _ => trivial

theorem sound_unbanPeer {op : ReputationOp PeerId} {peer : PeerId}
    (h : op = .isBanned peer ∨ op = .unbanPeer peer) (s : SharedReputation PeerId) :
    (sharedReputation PeerId checks).Sound Later (Allowed op)
      (ReputationProgram.unbanPeer peer) s := by
  refine .once_bind (fun _ _ => h) ?_
  intro _ _ removed _ _ _
  cases removed with
  | true => exact .once fun _ _ => trivial
  | false => trivial

theorem sound_program (op : ReputationOp PeerId) (s : SharedReputation PeerId) :
    (sharedReputation PeerId checks).Sound Later (Allowed op) op.program s := by
  cases op with
  | getScore | increaseReputation | getBanReason =>
      exact .bind (.once fun _ _ => trivial) fun _ _ => trivial
  | decreaseReputation peer amount reason =>
      refine .bind (.once_bind (fun _ _ => trivial) ?_) fun _ _ => trivial
      intro _ _ below u _ _
      cases below with
      | true => exact sound_banPeer _ peer reason u
      | false => trivial
  | banPeer peer reason => exact (sound_banPeer _ peer reason s).bind fun _ _ => trivial
  | unbanPeer peer => exact (sound_unbanPeer (.inr rfl) s).bind fun _ _ => trivial
  | isBanned peer =>
      refine .bind (.once_bind (fun _ _ => trivial) ?_) fun _ _ => trivial
      intro _ _ ban u _ _
      cases ban with
      | none => trivial
      | some found =>
          obtain ⟨entry, now⟩ := found
          simp only
          split
          · trivial
          · exact (sound_unbanPeer (.inl rfl) u).bind fun _ _ => trivial
  | cleanupExpiredBans =>
      refine .bind (.once_bind (fun _ _ => trivial) ?_) fun _ _ => trivial
      rintro t _ now u _ hread
      obtain ⟨hanswer, rfl⟩ := Prod.mk.inj hread
      obtain rfl := Option.some.inj hanswer
      exact .once fun t' ht' => ht'.now_le
  | getStats =>
      refine .bind (.once_bind (fun _ _ => trivial) ?_) fun _ _ => trivial
      intro _ _ _ _ _ _
      refine .once_bind (fun _ _ => trivial) ?_
      intro _ _ _ _ _ _
      exact .bind (.once fun _ _ => trivial) fun _ _ => trivial
  | clearAll =>
      refine .bind (.once_bind (fun _ _ => trivial) ?_) fun _ _ => trivial
      intro _ _ _ _ _ _
      exact .once fun _ _ => rfl

theorem guarantee : (sharedReputation PeerId checks).Guarantee Later Allowed where
  perform := fun _ action readings s _ => later_perform checks action readings s
  elapse := fun duration s => ⟨Nat.le_add_right s.now duration, rfl⟩
  program := sound_program

end Security

end SilverNetwork
