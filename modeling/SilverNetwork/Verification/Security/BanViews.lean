import SilverNetwork.Verification.Security.BanDuration

/-! The views of a ban. `is_banned` compares the clock with the blocklist entry, while the reason
and the statistics go by the entry alone, which stays until something is done about it. -/

namespace SilverNetwork

namespace Security

open PeerReputation

variable {PeerId : Type} [DecidableEq PeerId] {checks : OverflowChecks} {peer : PeerId}
  {r r' : PeerReputation PeerId} {e : ReputationEvent PeerId} {result : ReputationResult}

/-- The peers that `is_banned` would call banned at the given time. -/
def PeerReputation.peersBannedAt (now : Instant) (r : PeerReputation PeerId) : Set PeerId :=
  {peer | (r.isBanned peer now now now).1 = true}

structure BanViewsAgree (now : Instant) (r : PeerReputation PeerId) : Prop where
  reason : ∀ peer, (r.getBanReason peer).isSome = true ↔ peer ∈ r.peersBannedAt now
  stats : ∀ readAt, (r.getStats readAt).bannedPeers = (r.peersBannedAt now).ncard

/-! ## The views of one state -/

theorem mem_peersBannedAt_iff {now : Instant} : peer ∈ r.peersBannedAt now ↔
    ∃ entry, r.blocklist.lookup peer = some entry ∧ now - entry.bannedAt < entry.duration := by
  unfold PeerReputation.peersBannedAt isBanned
  cases hlookup : r.blocklist.lookup peer with
  | none => simp [hlookup]
  | some entry =>
      by_cases hlasts : now - entry.bannedAt < entry.duration
      · simp [hlookup, hlasts]
      · simp [hlookup, hlasts]

theorem ncard_peersBannedAt (now : Instant) (r : PeerReputation PeerId) :
    (r.peersBannedAt now).ncard = (HashMap.retain r.blocklist fun _ entry =>
      decide (now - entry.bannedAt < entry.duration)).len := by
  rw [← HashMap.ncard_mem]
  congr 1
  ext peer
  rw [mem_peersBannedAt_iff, Set.mem_ofPred_eq, HashMap.mem_iff_exists_lookup]
  simp [HashMap.lookup_retain, Option.filter_eq_some_iff]

/-- The views agree exactly when no entry is over. -/
theorem banViewsAgree_iff_entries {now : Instant} : BanViewsAgree now r ↔
    ∀ peer entry, r.blocklist.lookup peer = some entry →
      now - entry.bannedAt < entry.duration := by
  constructor
  · intro h peer entry hlookup
    have hbanned := (h.reason peer).mp (by simp [getBanReason, hlookup])
    obtain ⟨entry', hlookup', hlasts⟩ := mem_peersBannedAt_iff.mp hbanned
    obtain rfl := Option.some.inj (hlookup.symm.trans hlookup')
    exact hlasts
  · intro h
    refine ⟨?_, ?_⟩
    · intro peer
      rw [mem_peersBannedAt_iff, getBanReason, Option.isSome_map, Option.isSome_iff_exists]
      exact exists_congr fun entry =>
        (and_iff_left_of_imp fun hlookup => h peer entry hlookup).symm
    · intro readAt
      have hnone : ¬ (HashMap.retain r.blocklist fun _ entry =>
          decide (now - entry.bannedAt < entry.duration)).len < r.blocklist.len := by
        rw [HashMap.len_retain_lt_iff]
        rintro ⟨peer, entry, hlookup, hover⟩
        simp [h peer entry hlookup] at hover
      rw [ncard_peersBannedAt]
      exact Nat.le_antisymm (Nat.le_of_not_lt hnone) (HashMap.len_retain_le _ _)

/-! ## The entries of a run -/

/-- The event finds a ban of the peer over, and lets go of it. -/
def ReputationEvent.expires (peer : PeerId) (bannedAt : Instant) (duration : Duration) :
    ReputationEvent PeerId → Bool
  | .isBanned peer' now _ _ => peer' = peer && duration ≤ now - bannedAt
  | .cleanupExpiredBans now => duration ≤ now - bannedAt
  | _ => false

theorem lookup_isBanned_iff {entry : BlocklistEntry} (peer' : PeerId)
    (now createdAt updatedAt : Instant) :
    (r.isBanned peer' now createdAt updatedAt).2.blocklist.lookup peer = some entry ↔
      r.blocklist.lookup peer = some entry ∧
        (ReputationEvent.isBanned peer' now createdAt updatedAt).expires peer entry.bannedAt
          entry.duration = false := by
  have hunban := lookup_unbanPeer r peer peer' createdAt updatedAt
  unfold isBanned ReputationEvent.expires
  by_cases hpeer : peer' = peer
  · subst hpeer
    cases hlookup : r.blocklist.lookup peer' with
    | none => simp [hlookup]
    | some found =>
        by_cases hlasts : now - found.bannedAt < found.duration
        · simp only [hlasts, if_true, hlookup, Option.some.injEq, decide_true, Bool.true_and,
            decide_eq_false_iff_not, Nat.not_le]
          refine (and_iff_left_of_imp ?_).symm
          rintro rfl
          exact hlasts
        · simp only [hlasts, if_false, hunban, if_true, reduceCtorEq, Option.some.injEq,
            decide_true, Bool.true_and, decide_eq_false_iff_not, Nat.not_le, false_iff, not_and]
          rintro rfl
          exact hlasts
  · rw [if_neg (Ne.symm hpeer)] at hunban
    simp only [hpeer, decide_false, Bool.false_and, and_true]
    split
    · rfl
    · split
      · rfl
      · rw [hunban]

/-- A call that neither bans the peer nor lifts its bans keeps its entry unless it has expired. -/
theorem lookup_iff_of_unbanned {entry : BlocklistEntry}
    (h : reputationStep checks r e = some (result, r'))
    (hban : ∀ bannedAt, e.ban r ≠ some (peer, bannedAt)) (hlifts : e.lifts peer = false) :
    r'.blocklist.lookup peer = some entry ↔
      r.blocklist.lookup peer = some entry ∧
        e.expires peer entry.bannedAt entry.duration = false := by
  cases e with
  | isBanned peer' now createdAt updatedAt =>
      obtain ⟨-, rfl⟩ := Prod.mk.inj (Option.some.inj h)
      exact lookup_isBanned_iff peer' now createdAt updatedAt
  | cleanupExpiredBans now =>
      obtain ⟨-, rfl⟩ := Prod.mk.inj (Option.some.inj h)
      have hretain : (r.cleanupExpiredBans now).2.blocklist.lookup peer =
          (r.blocklist.lookup peer).filter fun entry =>
            !decide (entry.duration ≤ now - entry.bannedAt) := HashMap.lookup_retain _ _ _
      refine (iff_of_eq (congrArg (· = some entry) hretain)).trans ?_
      simp [Option.filter_eq_some_iff, ReputationEvent.expires]
  | _ =>
      cases banChange h peer with
      | banned bannedAt _ hbans => exact absurd hbans (hban bannedAt)
      | lifted _ hlifted => simp [hlifts] at hlifted
      | kept _ _ hentry =>
          rw [hentry]
          exact (and_iff_left rfl).symm
      | expired now entry _ _ hnow => cases hnow

/-- The call bans the peer at the given reading. -/
def BansAt (peer : PeerId) (bannedAt : Instant) (c : ReputationCall PeerId) : Prop :=
  c.event.ban c.pre = some (peer, bannedAt)

/-- The call neither replaces nor lifts a ban of the peer, nor finds it over. -/
structure Spares (peer : PeerId) (bannedAt : Instant) (duration : Duration)
    (c : ReputationCall PeerId) : Prop where
  ban : ∀ bannedAt, ¬ BansAt peer bannedAt c
  lifts : c.event.lifts peer = false
  expires : c.event.expires peer bannedAt duration = false

/-- The peer has been banned at the given reading, and every call since has spared the ban. -/
def Unended (peer : PeerId) (bannedAt : Instant) (duration : Duration)
    (calls : List (ReputationCall PeerId)) : Prop :=
  Since (BansAt peer bannedAt) (Spares peer bannedAt duration) calls

variable {decayRate banThreshold : UInt8} {duration : Duration}
  {calls : List (ReputationCall PeerId)}

/-- The entries of the peer are its bans that no call has ended. -/
structure Lists (duration : Duration) (calls : List (ReputationCall PeerId)) (peer : PeerId)
    (r : PeerReputation PeerId) : Prop where
  lasting : ∀ entry, r.blocklist.lookup peer = some entry → entry.duration = duration
  unended : ∀ bannedAt, (∃ reason, r.blocklist.lookup peer = some ⟨reason, bannedAt, duration⟩) ↔
    Unended peer bannedAt duration calls

theorem lists_withConfig (decayRate banThreshold : UInt8) (duration : Duration) (peer : PeerId) :
    Lists duration [] peer (.withConfig decayRate banThreshold duration) := by
  refine ⟨?_, ?_⟩
  · intro entry h
    simp [withConfig] at h
  · intro bannedAt
    simp [withConfig, Unended]

theorem Lists.step {c : ReputationCall PeerId} (h : Lists c.pre.banDuration calls peer c.pre)
    (hmakes : (reputationMachine PeerId checks).Makes c) :
    Lists c.pre.banDuration (calls ++ [c]) peer c.post := by
  have hkeeps : (∀ t, ¬ BansAt peer t c) → c.event.lifts peer = false →
      Lists c.pre.banDuration (calls ++ [c]) peer c.post := by
    intro hban hlifts
    refine ⟨?_, ?_⟩
    · intro entry hentry
      exact h.lasting entry ((lookup_iff_of_unbanned hmakes hban hlifts).mp hentry).1
    · intro bannedAt
      have hspares : Spares peer bannedAt c.pre.banDuration c ↔
          c.event.expires peer bannedAt c.pre.banDuration = false :=
        ⟨Spares.expires, fun hexpires => ⟨hban, hlifts, hexpires⟩⟩
      rw [Unended, Since.concat_iff, or_iff_right (hban bannedAt), hspares]
      refine Iff.trans ?_ (and_congr_left' (h.unended bannedAt))
      simp only [lookup_iff_of_unbanned hmakes hban hlifts, exists_and_right]
  cases banChange hmakes peer with
  | banned bannedAt reason hban hlifts hentry =>
      refine ⟨?_, ?_⟩
      · intro entry hfound
        obtain rfl := Option.some.inj (hentry.symm.trans hfound)
        rfl
      · intro bannedAt'
        have hnot : ¬ Spares peer bannedAt' c.pre.banDuration c := fun hspares =>
          hspares.ban bannedAt hban
        rw [Unended, Since.concat_iff, hentry, or_iff_left fun h => hnot h.2]
        simp [BansAt, hban]
  | lifted hban hlifts hentry =>
      refine ⟨by simp [hentry], ?_⟩
      intro bannedAt
      have hnot : ¬ Spares peer bannedAt c.pre.banDuration c := fun hspares =>
        Bool.noConfusion (hlifts.symm.trans hspares.lifts)
      rw [Unended, Since.concat_iff, hentry, or_iff_left fun h => hnot h.2]
      simp [BansAt, hban]
  | kept hban hlifts => exact hkeeps hban hlifts
  | expired now entry hban hlifts => exact hkeeps (by simp [BansAt, hban]) hlifts

theorem run_lists
    (h : (reputationMachine PeerId checks).Run (.withConfig decayRate banThreshold duration)
      calls r) : r.banDuration = duration ∧ ∀ peer, Lists duration calls peer r := by
  induction h with
  | start => exact ⟨rfl, lists_withConfig decayRate banThreshold duration⟩
  | call c _ hmakes ih =>
      obtain ⟨rfl, hlists⟩ := ih
      exact ⟨reputationStep_banDuration hmakes, fun peer => (hlists peer).step hmakes⟩

/-- After any run and at any time, the views agree exactly when each ban that is over by then
has been ended by a call. -/
theorem ban_views_agree_iff
    (h : (reputationMachine PeerId checks).Run (.withConfig decayRate banThreshold duration)
      calls r) (now : Instant) :
    BanViewsAgree now r ↔ ∀ peer bannedAt, duration ≤ now - bannedAt →
      ¬ Unended peer bannedAt duration calls := by
  obtain ⟨-, hlists⟩ := run_lists h
  rw [banViewsAgree_iff_entries]
  refine forall_congr' fun peer => ?_
  constructor
  · intro hlasts bannedAt hover hunended
    obtain ⟨reason, hlookup⟩ := ((hlists peer).unended bannedAt).mpr hunended
    exact absurd (hlasts _ hlookup) (Nat.not_lt.mpr hover)
  · intro hended entry hlookup
    have hduration := (hlists peer).lasting entry hlookup
    refine Nat.lt_of_not_le fun hover => hended entry.bannedAt (hduration ▸ hover) ?_
    refine ((hlists peer).unended entry.bannedAt).mp ⟨entry.reason, ?_⟩
    rw [hlookup, ← hduration]

/-- A ban that is over has been cleaned up. -/
theorem ban_views_agree_iff_plain :
    ∃ calls r, (reputationMachine ℕ .on).Run (.withConfig 1 10 20) calls r ∧
      calls.map Call.result = [.done, .removed 1] ∧ BanViewsAgree 20 r := by
  have hrun := ((Machine.Run.start (M := reputationMachine ℕ .on)
    (s := .withConfig 1 10 20)).of_step (e := .banPeer 7 "spam" 0 0 0) rfl).of_step
      (e := .cleanupExpiredBans 20) rfl
  refine ⟨_, _, hrun, by decide, (ban_views_agree_iff hrun 20).mpr ?_⟩
  intro peer bannedAt hover hunended
  rcases Since.concat_iff.mp hunended with hbans | ⟨-, hspares⟩
  · cases hbans
  · exact absurd hover (of_decide_eq_false hspares.expires)

/-- A ban that is over still has a reason, and still counts. -/
theorem ban_views_disagree :
    ∃ calls r, (reputationMachine ℕ .on).Run (.withConfig 1 10 20) calls r ∧
      r.getBanReason 7 = some "spam" ∧ (r.isBanned 7 20 20 20).1 = false ∧
      (r.getStats fun _ => 20).bannedPeers = 1 ∧ (r.peersBannedAt 20).ncard = 0 := by
  have hrun := (Machine.Run.start (M := reputationMachine ℕ .on)
    (s := .withConfig 1 10 20)).of_step (e := .banPeer 7 "spam" 0 0 0) rfl
  refine ⟨_, _, hrun, rfl, by decide, by decide, ?_⟩
  rw [ncard_peersBannedAt]
  decide

end Security

end SilverNetwork
