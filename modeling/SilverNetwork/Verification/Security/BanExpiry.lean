import SilverNetwork.Model.Security

/-! The two ways in which an expired ban ends. `is_banned` resets the score of the peer as
`unban_peer` does; `cleanup_expired_bans` leaves it as the ban has left it. -/

namespace SilverNetwork

namespace Security

open PeerReputation

variable {PeerId : Type} [DecidableEq PeerId] {checks : OverflowChecks} {peer : PeerId}
  {a b a' : PeerReputation PeerId}

namespace PeerReputation

def withScore (peer : PeerId) (score : ReputationScore) (r : PeerReputation PeerId) :
    PeerReputation PeerId :=
  { r with scores := r.scores.insert peer score }

/-- The score that a reward leaves. -/
def raised (checks : OverflowChecks) (peer : PeerId) (amount : UInt8) (readings : UpdateReadings)
    (r : PeerReputation PeerId) : Option ReputationScore :=
  let entry := r.scoreEntry peer readings.createdAt
  (checks.add entry.goodCount 1).map fun goodCount =>
    { entry with
      score := min (Saturating.add (applyDecay r.decayRate readings.readAt entry) amount) 100
      lastUpdate := readings.updatedAt
      goodCount }

/-- The score that a penalty leaves. -/
def lowered (checks : OverflowChecks) (peer : PeerId) (amount : UInt8) (readings : UpdateReadings)
    (r : PeerReputation PeerId) : Option ReputationScore :=
  let entry := r.scoreEntry peer readings.createdAt
  (checks.add entry.badCount 1).map fun badCount =>
    { entry with
      score := Saturating.sub (applyDecay r.decayRate readings.readAt entry) amount
      lastUpdate := readings.updatedAt
      badCount }

theorem increaseReputation_eq (r : PeerReputation PeerId) (amount : UInt8)
    (readings : UpdateReadings) : r.increaseReputation checks peer amount readings =
      (r.raised checks peer amount readings).map fun score => r.withScore peer score := by
  simp only [increaseReputation, raised]
  cases checks.add (r.scoreEntry peer readings.createdAt).goodCount 1 with
  | none => rfl
  | some goodCount => rfl

theorem decreaseReputation_eq (r : PeerReputation PeerId) (amount : UInt8) (reason : String)
    (readings : PenaltyReadings) : r.decreaseReputation checks peer amount reason readings =
      (r.lowered checks peer amount readings.toUpdateReadings).map fun score =>
        if score.score < r.banThreshold then
          (r.withScore peer score).banPeer peer reason readings.bannedAt readings.bannedAt
            readings.resetAt
        else r.withScore peer score := by
  simp only [decreaseReputation, lowered]
  cases checks.add (r.scoreEntry peer readings.createdAt).badCount 1 with
  | none => rfl
  | some badCount =>
      simp only [Option.bind_eq_bind, Option.bind_some, Option.map_some]
      split
      · rfl
      · rfl

end PeerReputation

/-! ## What the operations on a peer read of the state -/

/-- The states have the same configuration and the same entries of the peer. -/
structure AgreeOn (peer : PeerId) (a b : PeerReputation PeerId) : Prop where
  decayRate : a.decayRate = b.decayRate
  banThreshold : a.banThreshold = b.banThreshold
  banDuration : a.banDuration = b.banDuration
  blocklist : a.blocklist.lookup peer = b.blocklist.lookup peer
  scores : a.scores.lookup peer = b.scores.lookup peer

theorem AgreeOn.scoreEntry (h : AgreeOn peer a b) (createdAt : Instant) :
    a.scoreEntry peer createdAt = b.scoreEntry peer createdAt := by
  rw [PeerReputation.scoreEntry, PeerReputation.scoreEntry, h.scores]

theorem AgreeOn.getScore (h : AgreeOn peer a b) (now : Instant) :
    a.getScore peer now = b.getScore peer now := by
  rw [PeerReputation.getScore, PeerReputation.getScore, h.scores, h.decayRate]

theorem AgreeOn.raised (h : AgreeOn peer a b) (amount : UInt8) (readings : UpdateReadings) :
    a.raised checks peer amount readings = b.raised checks peer amount readings := by
  rw [PeerReputation.raised, PeerReputation.raised, h.scoreEntry, h.decayRate]

theorem AgreeOn.lowered (h : AgreeOn peer a b) (amount : UInt8) (readings : UpdateReadings) :
    a.lowered checks peer amount readings = b.lowered checks peer amount readings := by
  rw [PeerReputation.lowered, PeerReputation.lowered, h.scoreEntry, h.decayRate]

theorem AgreeOn.withScore (h : AgreeOn peer a b) (score : ReputationScore) :
    AgreeOn peer (a.withScore peer score) (b.withScore peer score) := by
  refine ⟨h.decayRate, h.banThreshold, h.banDuration, h.blocklist, ?_⟩
  simp [PeerReputation.withScore]

theorem AgreeOn.banPeer (h : AgreeOn peer a b) (reason : String)
    (bannedAt createdAt updatedAt : Instant) :
    AgreeOn peer (a.banPeer peer reason bannedAt createdAt updatedAt)
      (b.banPeer peer reason bannedAt createdAt updatedAt) := by
  refine ⟨h.decayRate, h.banThreshold, h.banDuration, ?_, ?_⟩
  · simp [PeerReputation.banPeer, h.banDuration]
  · simp [PeerReputation.banPeer, h.scoreEntry]

theorem AgreeOn.increaseReputation (h : AgreeOn peer a b) {amount : UInt8}
    {readings : UpdateReadings}
    (hstep : a.increaseReputation checks peer amount readings = some a') :
    ∃ b', b.increaseReputation checks peer amount readings = some b' ∧ AgreeOn peer a' b' := by
  rw [increaseReputation_eq, h.raised, Option.map_eq_some_iff] at hstep
  obtain ⟨score, hscore, rfl⟩ := hstep
  refine ⟨_, ?_, h.withScore score⟩
  rw [increaseReputation_eq, hscore]
  rfl

theorem AgreeOn.decreaseReputation (h : AgreeOn peer a b) {amount : UInt8} {reason : String}
    {readings : PenaltyReadings}
    (hstep : a.decreaseReputation checks peer amount reason readings = some a') :
    ∃ b', b.decreaseReputation checks peer amount reason readings = some b' ∧
      AgreeOn peer a' b' := by
  rw [decreaseReputation_eq, h.lowered, Option.map_eq_some_iff] at hstep
  obtain ⟨score, hscore, heq⟩ := hstep
  rw [decreaseReputation_eq, hscore, Option.map_some, ← h.banThreshold, ← heq]
  refine ⟨_, rfl, ?_⟩
  split
  · exact (h.withScore score).banPeer reason _ _ _
  · exact h.withScore score

/-! ## Later operations on the peer -/

/-- The event reads or updates the score of the peer. -/
def ReputationEvent.OnScore (peer : PeerId) : ReputationEvent PeerId → Prop
  | .getScore peer' _ => peer' = peer
  | .increaseReputation peer' _ _ => peer' = peer
  | .decreaseReputation peer' _ _ _ => peer' = peer
  | _ => False

/-- States that agree on the peer answer such an event alike, and agree again. -/
theorem AgreeOn.step (h : AgreeOn peer a b) {e : ReputationEvent PeerId} {r : ReputationResult}
    (hevent : e.OnScore peer) (hstep : reputationStep checks a e = some (r, a')) :
    ∃ b', reputationStep checks b e = some (r, b') ∧ AgreeOn peer a' b' := by
  cases e with
  | getScore peer' now =>
      obtain rfl : peer' = peer := hevent
      obtain ⟨rfl, rfl⟩ := Prod.mk.inj (Option.some.inj hstep)
      refine ⟨b, ?_, h⟩
      rw [reputationStep, h.getScore]
  | increaseReputation peer' amount readings =>
      obtain rfl : peer' = peer := hevent
      obtain ⟨next, hnext, heq⟩ := Option.map_eq_some_iff.mp hstep
      obtain ⟨rfl, rfl⟩ := Prod.mk.inj heq
      obtain ⟨b', hb', hagree⟩ := h.increaseReputation hnext
      refine ⟨b', ?_, hagree⟩
      rw [reputationStep, hb']
      rfl
  | decreaseReputation peer' amount reason readings =>
      obtain rfl : peer' = peer := hevent
      obtain ⟨next, hnext, heq⟩ := Option.map_eq_some_iff.mp hstep
      obtain ⟨rfl, rfl⟩ := Prod.mk.inj heq
      obtain ⟨b', hb', hagree⟩ := h.decreaseReputation hnext
      refine ⟨b', ?_, hagree⟩
      rw [reputationStep, hb']
      rfl
  | _ => exact hevent.elim

/-- The two states have lifted the ban of the peer alike: it has no blocklist entry in either,
the same score entry, and everything done with its score later has the same effect. -/
structure EndsAlike (checks : OverflowChecks) (peer : PeerId) (a b : PeerReputation PeerId) :
    Prop where
  lifted : a.blocklist.lookup peer = none ∧ b.blocklist.lookup peer = none
  score : a.scores.lookup peer = b.scores.lookup peer
  later : ∀ (calls : List (ReputationCall PeerId)) a',
    (reputationMachine PeerId checks).Run a calls a' →
    (∀ c ∈ calls, c.event.OnScore peer) →
      ∃ calls' b', (reputationMachine PeerId checks).Run b calls' b' ∧
        calls'.map Call.event = calls.map Call.event ∧
        calls'.map Call.result = calls.map Call.result ∧
        a'.blocklist.lookup peer = b'.blocklist.lookup peer ∧
        a'.scores.lookup peer = b'.scores.lookup peer

/-- States that agree on a peer without a ban have lifted it alike. -/
theorem AgreeOn.endsAlike (h : AgreeOn peer a b) (hlifted : a.blocklist.lookup peer = none) :
    EndsAlike checks peer a b := by
  refine ⟨⟨hlifted, h.blocklist ▸ hlifted⟩, h.scores, ?_⟩
  intro calls a' hrun hevents
  have hsteps : ∀ c ∈ calls, ∀ u, (reputationMachine PeerId checks).Makes c →
      AgreeOn peer c.pre u → ∃ u', (reputationMachine PeerId checks).step u c.event =
        some (c.result, u') ∧ AgreeOn peer c.post u' :=
    fun c hc u hmakes hrelated => hrelated.step (hevents c hc) hmakes
  obtain ⟨calls', b', hrun', hsame, hresults, hagree⟩ := hrun.simulate h hsteps
  exact ⟨calls', b', hrun', hsame, hresults, hagree.blocklist, hagree.scores⟩

/-! ## An expired ban -/

variable {r : PeerReputation PeerId} {entry : BlocklistEntry} {now createdAt updatedAt : Instant}

theorem isBanned_expired (hbanned : r.blocklist.lookup peer = some entry)
    (hexpired : entry.duration ≤ now - entry.bannedAt) :
    (r.isBanned peer now createdAt updatedAt).2 =
      { r with
        blocklist := r.blocklist.erase peer
        scores := r.scores.insert peer
          { r.scoreEntry peer createdAt with score := 50, lastUpdate := updatedAt } } := by
  have hmem : peer ∈ r.blocklist := HashMap.mem_iff_exists_lookup.mpr ⟨entry, hbanned⟩
  simp only [isBanned, hbanned, Nat.not_lt.mpr hexpired, if_false, unbanPeer, hmem, if_true]

theorem cleanup_expired (hbanned : r.blocklist.lookup peer = some entry)
    (hexpired : entry.duration ≤ now - entry.bannedAt) :
    (r.cleanupExpiredBans now).2.blocklist.lookup peer = none := by
  have hgone : (r.cleanupExpiredBans now).2.blocklist.lookup peer = Option.filter
      (fun entry => !decide (entry.duration ≤ now - entry.bannedAt)) (some entry) := by
    rw [← hbanned]
    exact HashMap.lookup_retain _ _ _
  rw [hgone, Option.filter_some, if_neg]
  simp [hexpired]

/-- The two ways to end an expired ban leave the same of it exactly when the peer's score is
neutral already, as of the very reading at which it is reset. -/
theorem ban_ends_alike_iff (checks : OverflowChecks)
    (hbanned : r.blocklist.lookup peer = some entry)
    (hexpired : entry.duration ≤ now - entry.bannedAt) :
    EndsAlike checks peer (r.isBanned peer now createdAt updatedAt).2
        (r.cleanupExpiredBans now).2 ↔
      ∃ score, r.scores.lookup peer = some score ∧ score.score = 50 ∧
        score.lastUpdate = updatedAt := by
  rw [isBanned_expired hbanned hexpired]
  constructor
  · intro halike
    have hscore := (AList.lookup_insert _).symm.trans halike.score
    exact ⟨_, hscore.symm, rfl, rfl⟩
  · rintro ⟨score, hscore, hneutral, hupdate⟩
    have hreset : { r.scoreEntry peer createdAt with score := 50, lastUpdate := updatedAt } =
        score := by
      rw [scoreEntry, hscore, Option.getD_some, ← hneutral, ← hupdate]
    have hlifted := cleanup_expired hbanned hexpired
    rw [hreset]
    apply AgreeOn.endsAlike
    · refine ⟨rfl, rfl, rfl, ?_, ?_⟩
      · rw [hlifted]
        exact AList.lookup_erase _ _
      · exact (AList.lookup_insert _).trans hscore.symm
    · exact AList.lookup_erase _ _

/-- A peer whose score is back to neutral when its ban ends. -/
theorem ban_ends_alike_iff_plain :
    ∃ calls r, (reputationMachine ℕ .on).Run (.withConfig 1 10 20) calls r ∧
      r.blocklist.lookup 7 = some ⟨"spam", 0, 20⟩ ∧
      EndsAlike .on 7 (r.isBanned 7 20 20 20).2 (r.cleanupExpiredBans 20).2 := by
  have hrun := ((Machine.Run.start (M := reputationMachine ℕ .on)
    (s := .withConfig 1 10 20)).of_step (e := .banPeer 7 "spam" 0 0 0) rfl).of_step
      (e := .increaseReputation 7 50 ⟨20, 20, 20⟩) rfl
  obtain ⟨calls, r, hrun, hbanned, hneutral⟩ :
      ∃ calls r, (reputationMachine ℕ .on).Run (.withConfig 1 10 20) calls r ∧
        r.blocklist.lookup 7 = some ⟨"spam", 0, 20⟩ ∧
        ∃ score, r.scores.lookup 7 = some score ∧ score.score = 50 ∧ score.lastUpdate = 20 :=
    ⟨_, _, hrun, rfl, _, rfl, rfl, rfl⟩
  exact ⟨calls, r, hrun, hbanned, (ban_ends_alike_iff .on hbanned (by decide)).mpr hneutral⟩

/-- A peer banned at reading 0 is neutral when `is_banned` has found the ban over, but has the
score 0 when the clean-up has. -/
theorem ban_ends_differently :
    ∃ calls r, (reputationMachine ℕ .on).Run (.withConfig 1 10 20) calls r ∧
      r.blocklist.lookup 7 = some ⟨"spam", 0, 20⟩ ∧
      (r.isBanned 7 20 20 20).2.getScore 7 20 = 50 ∧
      (r.cleanupExpiredBans 20).2.getScore 7 20 = 0 ∧
      (r.isBanned 7 20 20 20).2.scores.lookup 7 ≠ (r.cleanupExpiredBans 20).2.scores.lookup 7 := by
  have hrun := (Machine.Run.start (M := reputationMachine ℕ .on)
    (s := .withConfig 1 10 20)).of_step (e := .banPeer 7 "spam" 0 0 0) rfl
  exact ⟨_, _, hrun, rfl, by decide, by decide, by decide⟩

end Security

end SilverNetwork
