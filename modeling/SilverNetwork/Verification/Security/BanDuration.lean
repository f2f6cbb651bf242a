import SilverNetwork.Verification.Security.BanExpiry

/-! How long a ban lasts. Expired bans go on two ways and at any later reading, so the blocklist
holds the last ban of a peer, except that it may have forgotten one that is over. -/

namespace SilverNetwork

namespace Security

open PeerReputation

variable {PeerId : Type} [DecidableEq PeerId] {checks : OverflowChecks} {peer : PeerId}
  {r r' : PeerReputation PeerId} {e : ReputationEvent PeerId} {result : ReputationResult}

/-- The peer that the event bans, and when. -/
def ReputationEvent.ban (r : PeerReputation PeerId) :
    ReputationEvent PeerId → Option (PeerId × Instant)
  | .banPeer peer _ bannedAt _ _ => some (peer, bannedAt)
  | .decreaseReputation peer amount _ readings =>
      let current := applyDecay r.decayRate readings.readAt (r.scoreEntry peer readings.createdAt)
      if Saturating.sub current amount < r.banThreshold then some (peer, readings.bannedAt)
      else none
  | _ => none

/-- The event lifts the ban of the peer, whether it is over or not. -/
def ReputationEvent.lifts (peer : PeerId) : ReputationEvent PeerId → Bool
  | .unbanPeer peer' _ _ => peer' = peer
  | .clearAll => true
  | _ => false

/-- The reading at which the event lets go of the bans that are over. -/
def ReputationEvent.expiresAt : ReputationEvent PeerId → Option Instant
  | .isBanned _ now _ _ => some now
  | .cleanupExpiredBans now => some now
  | _ => none

/-- What an event does to the ban of a peer. -/
inductive BanChange (peer : PeerId) (r : PeerReputation PeerId) (e : ReputationEvent PeerId)
    (r' : PeerReputation PeerId) : Prop where
  | banned (bannedAt : Instant) (reason : String) (hban : e.ban r = some (peer, bannedAt))
      (hlifts : e.lifts peer = false)
      (hentry : r'.blocklist.lookup peer = some ⟨reason, bannedAt, r.banDuration⟩)
  | lifted (hban : e.ban r = none) (hlifts : e.lifts peer = true)
      (hentry : r'.blocklist.lookup peer = none)
  | kept (hban : ∀ bannedAt, e.ban r ≠ some (peer, bannedAt)) (hlifts : e.lifts peer = false)
      (hentry : r'.blocklist.lookup peer = r.blocklist.lookup peer)
  | expired (now : Instant) (entry : BlocklistEntry) (hban : e.ban r = none)
      (hlifts : e.lifts peer = false) (hnow : e.expiresAt = some now)
      (hpre : r.blocklist.lookup peer = some entry)
      (hexpired : entry.duration ≤ now - entry.bannedAt)
      (hentry : r'.blocklist.lookup peer = none)

theorem BanChange.of_ban {peer' : PeerId} {reason : String} {bannedAt : Instant}
    (hban : e.ban r = some (peer', bannedAt)) (hlifts : e.lifts peer = false)
    (hblocklist : r'.blocklist = r.blocklist.insert peer' ⟨reason, bannedAt, r.banDuration⟩) :
    BanChange peer r e r' := by
  by_cases hpeer : peer = peer'
  · subst hpeer
    refine .banned bannedAt reason hban hlifts ?_
    rw [hblocklist]
    exact AList.lookup_insert _
  · refine .kept ?_ hlifts ?_
    · simp [hban, Ne.symm hpeer]
    · rw [hblocklist]
      exact AList.lookup_insert_ne hpeer

theorem lookup_unbanPeer (r : PeerReputation PeerId) (peer peer' : PeerId)
    (createdAt updatedAt : Instant) :
    (r.unbanPeer peer' createdAt updatedAt).blocklist.lookup peer =
      if peer = peer' then none else r.blocklist.lookup peer := by
  rw [← HashMap.lookup_erase_eq, unbanPeer]
  split
  · rfl
  · rename_i hnot
    rw [HashMap.lookup_erase_eq]
    split
    · rename_i hpeer
      rw [hpeer]
      exact AList.lookup_eq_none.mpr hnot
    · rfl

theorem unbanPeer_banDuration (peer' : PeerId) (createdAt updatedAt : Instant) :
    (r.unbanPeer peer' createdAt updatedAt).banDuration = r.banDuration := by
  unfold unbanPeer
  split
  · rfl
  · rfl

theorem BanChange.of_isBanned {peer' : PeerId} {now createdAt updatedAt : Instant} :
    BanChange peer r (.isBanned peer' now createdAt updatedAt)
      (r.isBanned peer' now createdAt updatedAt).2 := by
  cases hfound : r.blocklist.lookup peer' with
  | none =>
      refine .kept (by simp [ReputationEvent.ban]) rfl ?_
      simp [isBanned, hfound]
  | some entry =>
      by_cases hlasts : now - entry.bannedAt < entry.duration
      · refine .kept (by simp [ReputationEvent.ban]) rfl ?_
        simp [isBanned, hfound, hlasts]
      · have hlookup := lookup_unbanPeer r peer peer' createdAt updatedAt
        have hnext : (r.isBanned peer' now createdAt updatedAt).2 =
            r.unbanPeer peer' createdAt updatedAt := by
          simp [isBanned, hfound, hlasts]
        rw [hnext]
        by_cases hpeer : peer = peer'
        · subst hpeer
          refine .expired now entry rfl rfl rfl hfound (Nat.le_of_not_lt hlasts) ?_
          rw [hlookup, if_pos rfl]
        · refine .kept (by simp [ReputationEvent.ban]) rfl ?_
          rw [hlookup, if_neg hpeer]

theorem BanChange.of_cleanup {now : Instant} :
    BanChange peer r (.cleanupExpiredBans now) (r.cleanupExpiredBans now).2 := by
  cases hfound : r.blocklist.lookup peer with
  | none =>
      refine .kept (by simp [ReputationEvent.ban]) rfl ?_
      simp [cleanupExpiredBans, HashMap.lookup_retain, hfound]
  | some entry =>
      by_cases hexpired : entry.duration ≤ now - entry.bannedAt
      · exact .expired now entry rfl rfl rfl hfound hexpired (cleanup_expired hfound hexpired)
      · refine .kept (by simp [ReputationEvent.ban]) rfl ?_
        simp [cleanupExpiredBans, HashMap.lookup_retain, hfound, Nat.lt_of_not_le hexpired]

/-- Every event leaves the ban of a peer alone or changes it in one of three ways. -/
theorem banChange (h : reputationStep checks r e = some (result, r')) (peer : PeerId) :
    BanChange peer r e r' := by
  cases e with
  | getScore peer' now =>
      obtain ⟨-, rfl⟩ := Prod.mk.inj (Option.some.inj h)
      exact .kept (by simp [ReputationEvent.ban]) rfl rfl
  | increaseReputation peer' amount readings =>
      simp only [reputationStep, increaseReputation_eq, Option.map_map, Option.map_eq_some_iff] at h
      obtain ⟨score, -, heq⟩ := h
      obtain ⟨-, rfl⟩ := Prod.mk.inj heq
      exact .kept (by simp [ReputationEvent.ban]) rfl rfl
  | decreaseReputation peer' amount reason readings =>
      simp only [reputationStep, decreaseReputation_eq, lowered, Option.map_map,
        Option.map_eq_some_iff] at h
      obtain ⟨badCount, -, heq⟩ := h
      obtain ⟨-, hnext⟩ := Prod.mk.inj heq
      simp only [Function.comp_apply] at hnext
      split at hnext
      · rename_i hlow
        exact .of_ban (if_pos hlow) rfl (by rw [← hnext]; rfl)
      · rename_i hhigh
        refine .kept ?_ rfl (by rw [← hnext]; rfl)
        simp [ReputationEvent.ban, if_neg hhigh]
  | banPeer peer' reason bannedAt createdAt updatedAt =>
      obtain ⟨-, rfl⟩ := Prod.mk.inj (Option.some.inj h)
      exact .of_ban rfl rfl rfl
  | unbanPeer peer' createdAt updatedAt =>
      obtain ⟨-, rfl⟩ := Prod.mk.inj (Option.some.inj h)
      have hlookup := lookup_unbanPeer r peer peer' createdAt updatedAt
      by_cases hpeer : peer = peer'
      · rw [if_pos hpeer] at hlookup
        exact .lifted rfl (by simp [ReputationEvent.lifts, hpeer]) hlookup
      · rw [if_neg hpeer] at hlookup
        refine .kept (by simp [ReputationEvent.ban]) ?_ hlookup
        simp [ReputationEvent.lifts, Ne.symm hpeer]
  | isBanned peer' now createdAt updatedAt =>
      obtain ⟨-, rfl⟩ := Prod.mk.inj (Option.some.inj h)
      exact .of_isBanned
  | getBanReason peer' =>
      obtain ⟨-, rfl⟩ := Prod.mk.inj (Option.some.inj h)
      exact .kept (by simp [ReputationEvent.ban]) rfl rfl
  | cleanupExpiredBans now =>
      obtain ⟨-, rfl⟩ := Prod.mk.inj (Option.some.inj h)
      exact .of_cleanup
  | getStats readAt =>
      obtain ⟨-, rfl⟩ := Prod.mk.inj (Option.some.inj h)
      exact .kept (by simp [ReputationEvent.ban]) rfl rfl
  | clearAll =>
      obtain ⟨-, rfl⟩ := Prod.mk.inj (Option.some.inj h)
      exact .lifted rfl rfl rfl

/-! ## The bans of a peer -/

/-- The readings of the call that decide about bans. -/
def ReputationCall.times (c : ReputationCall PeerId) : List Instant :=
  ((c.event.ban c.pre).map Prod.snd).toList ++ c.event.expiresAt.toList

/-- The bans of the peer since they were last lifted, with one call more. -/
def bansWith (peer : PeerId) (bans : List Instant) (c : ReputationCall PeerId) : List Instant :=
  if c.event.lifts peer then []
  else
    match c.event.ban c.pre with
    | some (peer', bannedAt) => if peer' = peer then bans ++ [bannedAt] else bans
    | none => bans

/-- When the peer has been banned since its bans were last lifted. -/
def bansSinceLifted (peer : PeerId) (calls : List (ReputationCall PeerId)) : List Instant :=
  calls.foldl (bansWith peer) []

theorem bansWith_of_untouched {bans : List Instant} {c : ReputationCall PeerId}
    (hban : ∀ bannedAt, c.event.ban c.pre ≠ some (peer, bannedAt))
    (hlifts : c.event.lifts peer = false) : bansWith peer bans c = bans := by
  rw [bansWith, hlifts]
  cases hc : c.event.ban c.pre with
  | none => rfl
  | some ban =>
      have hpeer : ban.1 ≠ peer := by
        intro heq
        exact hban ban.2 (by rw [hc, ← heq])
      simp [hpeer]

/-- The blocklist entry of a peer is its last ban, and a ban without an entry was over at one
of the readings so far. -/
structure Enforces (duration : Duration) (readings bans : List Instant)
    (entry : Option BlocklistEntry) : Prop where
  past : ∀ bannedAt ∈ bans, bannedAt ∈ readings
  listed : ∀ found, entry = some found →
    found.duration = duration ∧ bans.getLast? = some found.bannedAt
  ended : entry = none → ∀ bannedAt, bans.getLast? = some bannedAt →
    ∃ t ∈ readings, bannedAt + duration ≤ t

variable {duration : Duration} {readings bans more : List Instant} {entry : Option BlocklistEntry}

theorem enforces_none (duration : Duration) (readings : List Instant) :
    Enforces duration readings [] none :=
  ⟨by simp, by simp, by simp⟩

theorem Enforces.later (h : Enforces duration readings bans entry) (more : List Instant) :
    Enforces duration (readings ++ more) bans entry := by
  refine ⟨?_, h.listed, ?_⟩
  · intro bannedAt hbannedAt
    exact List.mem_append_left _ (h.past bannedAt hbannedAt)
  · intro hnone bannedAt hlast
    obtain ⟨t, ht, hover⟩ := h.ended hnone bannedAt hlast
    exact ⟨t, List.mem_append_left _ ht, hover⟩

theorem Enforces.ban (h : Enforces duration readings bans entry) {bannedAt : Instant}
    (hmore : bannedAt ∈ more) (reason : String) :
    Enforces duration (readings ++ more) (bans ++ [bannedAt])
      (some ⟨reason, bannedAt, duration⟩) := by
  refine ⟨?_, by simp, by simp⟩
  intro t ht
  rcases List.mem_append.mp ht with ht | ht
  · exact List.mem_append_left _ (h.past t ht)
  · rw [List.mem_singleton.mp ht]
    exact List.mem_append_right _ hmore

theorem Enforces.expire {found : BlocklistEntry} {now : Instant}
    (h : Enforces duration readings bans (some found)) (hmore : now ∈ more)
    (hlater : ∀ t ∈ readings, t ≤ now) (hexpired : found.duration ≤ now - found.bannedAt) :
    Enforces duration (readings ++ more) bans none := by
  obtain ⟨hduration, hlast⟩ := h.listed found rfl
  refine ⟨(h.later more).past, by simp, ?_⟩
  intro _ bannedAt hbannedAt
  obtain rfl : found.bannedAt = bannedAt := Option.some.inj (hlast.symm.trans hbannedAt)
  have hpast := hlater _ (h.past _ (List.mem_of_getLast? hlast))
  refine ⟨now, List.mem_append_right _ hmore, ?_⟩
  rw [hduration] at hexpired
  exact (Nat.le_sub_iff_add_le' hpast).mp hexpired

/-- One call keeps the blocklist in step with the bans. -/
theorem Enforces.step {c : ReputationCall PeerId}
    (h : Enforces c.pre.banDuration readings bans (c.pre.blocklist.lookup peer))
    (hmakes : (reputationMachine PeerId checks).Makes c)
    (hlater : ∀ t ∈ c.times, ∀ earlier ∈ readings, earlier ≤ t) :
    Enforces c.pre.banDuration (readings ++ c.times) (bansWith peer bans c)
      (c.post.blocklist.lookup peer) := by
  cases banChange hmakes peer with
  | banned bannedAt reason hban hlifts hentry =>
      have hbans : bansWith peer bans c = bans ++ [bannedAt] := by
        simp [bansWith, hlifts, hban]
      rw [hbans, hentry]
      exact h.ban (by simp [ReputationCall.times, hban]) reason
  | lifted hban hlifts hentry =>
      have hbans : bansWith peer bans c = [] := by
        simp [bansWith, hlifts]
      rw [hbans, hentry]
      exact enforces_none _ _
  | kept hban hlifts hentry =>
      rw [bansWith_of_untouched hban hlifts, hentry]
      exact h.later _
  | expired now found hban hlifts hnow hpre hexpired hentry =>
      have hmem : now ∈ c.times := by
        simp [ReputationCall.times, hnow]
      rw [bansWith_of_untouched (by simp [hban]) hlifts, hentry]
      rw [hpre] at h
      exact h.expire hmem (hlater now hmem) hexpired

theorem reputationStep_banDuration (h : reputationStep checks r e = some (result, r')) :
    r'.banDuration = r.banDuration := by
  cases e with
  | increaseReputation peer' amount readings =>
      simp only [reputationStep, increaseReputation_eq, Option.map_map, Option.map_eq_some_iff] at h
      obtain ⟨score, -, heq⟩ := h
      obtain ⟨-, rfl⟩ := Prod.mk.inj heq
      rfl
  | decreaseReputation peer' amount reason readings =>
      simp only [reputationStep, decreaseReputation_eq, Option.map_map, Option.map_eq_some_iff] at h
      obtain ⟨score, -, heq⟩ := h
      obtain ⟨-, rfl⟩ := Prod.mk.inj heq
      dsimp only
      split
      · rfl
      · rfl
  | unbanPeer peer' createdAt updatedAt =>
      obtain ⟨-, rfl⟩ := Prod.mk.inj (Option.some.inj h)
      exact unbanPeer_banDuration peer' createdAt updatedAt
  | isBanned peer' now createdAt updatedAt =>
      obtain ⟨-, rfl⟩ := Prod.mk.inj (Option.some.inj h)
      dsimp only [id]
      split
      · rfl
      · split
        · rfl
        · exact unbanPeer_banDuration peer' createdAt updatedAt
  | _ =>
      obtain ⟨-, rfl⟩ := Prod.mk.inj (Option.some.inj h)
      rfl

variable {decayRate banThreshold : UInt8} {calls : List (ReputationCall PeerId)}

/-- After a run whose readings do not decrease, the blocklist enforces the bans so far. -/
theorem run_enforces
    (h : (reputationMachine PeerId checks).Run (.withConfig decayRate banThreshold duration) calls r)
    (hclock : (calls.flatMap ReputationCall.times).Pairwise (· ≤ ·)) :
    r.banDuration = duration ∧ ∀ peer, Enforces duration (calls.flatMap ReputationCall.times)
      (bansSinceLifted peer calls) (r.blocklist.lookup peer) := by
  induction h with
  | start => exact ⟨rfl, fun peer => enforces_none _ _⟩
  | @call calls c _ hmakes ih =>
      rw [List.flatMap_append, List.flatMap_singleton] at hclock ⊢
      obtain ⟨hbefore, _, hpast⟩ := List.pairwise_append.mp hclock
      obtain ⟨hduration, henforces⟩ := ih hbefore
      refine ⟨(reputationStep_banDuration hmakes).trans hduration, ?_⟩
      intro peer
      have hpre := henforces peer
      rw [← hduration] at hpre ⊢
      rw [bansSinceLifted, List.foldl_append]
      exact hpre.step hmakes fun t ht earlier hearlier => hpast earlier hearlier t ht

theorem Enforces.isBanned_iff {now : Instant}
    (h : Enforces duration readings bans (r.blocklist.lookup peer))
    (createdAt updatedAt : Instant) (hnow : ∀ t ∈ readings, t ≤ now) :
    (r.isBanned peer now createdAt updatedAt).1 = true ↔
      ∃ bannedAt, bans.getLast? = some bannedAt ∧ now < bannedAt + duration := by
  cases hfound : r.blocklist.lookup peer with
  | none =>
      have hanswer : (r.isBanned peer now createdAt updatedAt).1 = false := by
        simp [isBanned, hfound]
      rw [hanswer]
      refine iff_of_false (by simp) ?_
      rintro ⟨bannedAt, hlast, hlasts⟩
      obtain ⟨t, ht, hover⟩ := h.ended hfound bannedAt hlast
      exact absurd (hnow t ht) (Nat.not_le.mpr (Nat.lt_of_lt_of_le hlasts hover))
  | some found =>
      obtain ⟨hduration, hlast⟩ := h.listed found hfound
      have hpast := hnow _ (h.past _ (List.mem_of_getLast? hlast))
      have hanswer : (r.isBanned peer now createdAt updatedAt).1 = true ↔
          now - found.bannedAt < found.duration := by
        simp only [isBanned, hfound]
        split
        · rename_i hlasts
          exact iff_of_true rfl hlasts
        · rename_i hover
          exact iff_of_false (by simp) hover
      rw [hanswer, hduration, hlast, Nat.sub_lt_iff_lt_add' hpast]
      simp

/-- The answer at the end of a run follows the last of the bans that have not been lifted. -/
theorem run_isBanned_iff {now : Instant}
    (h : (reputationMachine PeerId checks).Run (.withConfig decayRate banThreshold duration) calls r)
    (hclock : (calls.flatMap ReputationCall.times).Pairwise (· ≤ ·)) (peer : PeerId)
    (createdAt updatedAt : Instant) (hnow : ∀ t ∈ calls.flatMap ReputationCall.times, t ≤ now) :
    (r.isBanned peer now createdAt updatedAt).1 = true ↔ ∃ bannedAt,
      (bansSinceLifted peer calls).getLast? = some bannedAt ∧ now < bannedAt + duration :=
  ((run_enforces h hclock).2 peer).isBanned_iff createdAt updatedAt hnow

theorem isBanned_result {c : ReputationCall PeerId} {now createdAt updatedAt : Instant}
    (hmakes : (reputationMachine PeerId checks).Makes c)
    (hevent : c.event = .isBanned peer now createdAt updatedAt) :
    c.result = .banned (c.pre.isBanned peer now createdAt updatedAt).1 := by
  rw [Machine.Makes, hevent] at hmakes
  exact (Prod.mk.inj (Option.some.inj hmakes)).1.symm

/-- A peer is banned exactly when one of its bans came after they were last lifted and the
last of these began less than the ban duration ago. No call but a ban of the peer or a lift
changes the answer. -/
theorem ban_lasts_its_duration
    (h : (reputationMachine PeerId checks).Run (.withConfig decayRate banThreshold duration) calls r)
    (hclock : (calls.flatMap ReputationCall.times).Pairwise (· ≤ ·)) :
    (∀ before c after peer now createdAt updatedAt, calls = before ++ c :: after →
      c.event = .isBanned peer now createdAt updatedAt →
        (c.result = .banned true ↔ ∃ bannedAt,
          (bansSinceLifted peer before).getLast? = some bannedAt ∧ now < bannedAt + duration)) ∧
      ∀ before c after peer, calls = before ++ c :: after →
        (∀ bannedAt, c.event.ban c.pre ≠ some (peer, bannedAt)) → c.event.lifts peer = false →
          ∀ now createdAt updatedAt,
            (∀ t ∈ (before ++ [c]).flatMap ReputationCall.times, t ≤ now) →
              (c.post.isBanned peer now createdAt updatedAt).1 =
                (c.pre.isBanned peer now createdAt updatedAt).1 := by
  constructor
  · intro before c after peer now createdAt updatedAt hcalls hevent
    obtain ⟨hrun, hmakes⟩ := h.split hcalls
    rw [hcalls, List.flatMap_append, List.flatMap_cons] at hclock
    obtain ⟨hbefore, _, hpast⟩ := List.pairwise_append.mp hclock
    have hnow : ∀ t ∈ before.flatMap ReputationCall.times, t ≤ now := by
      intro t ht
      refine hpast t ht now (List.mem_append_left _ ?_)
      simp [ReputationCall.times, hevent, ReputationEvent.expiresAt]
    rw [isBanned_result hmakes hevent,
      ← run_isBanned_iff hrun hbefore peer createdAt updatedAt hnow]
    simp
  · intro before c after peer hcalls hban hlifts now createdAt updatedAt hnow
    obtain ⟨hrun, hmakes⟩ := h.split hcalls
    rw [hcalls, List.append_cons, List.flatMap_append] at hclock
    have hfront := (List.pairwise_append.mp hclock).1
    have hpost := run_isBanned_iff (hrun.call c hmakes) hfront peer createdAt updatedAt hnow
    rw [List.flatMap_append] at hfront hnow
    have hpre := run_isBanned_iff hrun (List.pairwise_append.mp hfront).1 peer createdAt updatedAt
      fun t ht => hnow t (List.mem_append_left _ ht)
    have hsame : bansSinceLifted peer (before ++ [c]) = bansSinceLifted peer before := by
      rw [bansSinceLifted, List.foldl_append]
      exact bansWith_of_untouched hban hlifts
    rw [hsame, ← hpre] at hpost
    exact Bool.eq_iff_iff.mpr hpost

/-- A penalty extends a ban: it lasts until reading 34, though the first was over at 20. -/
theorem ban_lasts_its_duration_plain :
    ∃ calls r, (reputationMachine ℕ .on).Run (.withConfig 1 10 20) calls r ∧
      calls.map Call.result = [.done, .done, .removed 0, .banned true, .banned false] ∧
      ∀ before c after peer now createdAt updatedAt, calls = before ++ c :: after →
        c.event = .isBanned peer now createdAt updatedAt →
          (c.result = .banned true ↔ ∃ bannedAt,
            (bansSinceLifted peer before).getLast? = some bannedAt ∧ now < bannedAt + 20) := by
  have hrun := (((((Machine.Run.start (M := reputationMachine ℕ .on)
    (s := .withConfig 1 10 20)).of_step (e := .banPeer 7 "spam" 0 0 0) rfl).of_step
      (e := .decreaseReputation 7 1 "late" ⟨⟨15, 15, 15⟩, 15, 15⟩) rfl).of_step
      (e := .cleanupExpiredBans 20) rfl).of_step (e := .isBanned 7 34 34 34) rfl).of_step
      (e := .isBanned 7 35 35 35) rfl
  have hlasts := ban_lasts_its_duration hrun (by decide)
  exact ⟨_, _, hrun, rfl, hlasts.1⟩

end Security

end SilverNetwork
