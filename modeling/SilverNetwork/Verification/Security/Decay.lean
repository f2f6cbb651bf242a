import SilverNetwork.Foundations.Approach
import SilverNetwork.Verification.Security.BanExpiry

/-! How scores move towards neutral. The hours since the last update are kept to eight bits, and
an update that changes nothing starts them anew, without the part of an hour that had passed. -/

namespace SilverNetwork

open Approach

namespace Security

open PeerReputation

variable {PeerId : Type} [DecidableEq PeerId] {checks : OverflowChecks} {peer : PeerId}
  {r r' : PeerReputation PeerId} {e : ReputationEvent PeerId} {result : ReputationResult}

/-! ## The decay of one score -/

/-- The hours that are counted between two readings. -/
def countedHours (since now : Instant) : ℕ := (now - since) / 1_000_000_000 / 3600 % 256

/-- How far a score is from neutral. -/
def ReputationScore.bias (score : ReputationScore) : ℕ := Nat.dist score.score.toNat 50

theorem toNat_applyDecay (decayRate : UInt8) (now : Instant) (score : ReputationScore) :
    (applyDecay decayRate now score).toNat =
      approach 50 (countedHours score.lastUpdate now * decayRate.toNat) score.score.toNat := by
  have hdistance : Nat.dist score.score.toNat 50 ≤ 255 := by
    have hscore := score.score.toNat_lt
    unfold Nat.dist
    omega
  rw [← approach_min hdistance, applyDecay, approach, countedHours]
  simp only [UInt8.lt_iff_toNat_lt, apply_ite UInt8.toNat, Saturating.toNat_max,
    Saturating.toNat_min, Saturating.toNat_sub, Saturating.toNat_add, Saturating.toNat_mul,
    UInt8.toNat_ofNat', UInt8.reduceToNat, Nat.reducePow]
  split
  · rfl
  · omega

/-- A later score is between an earlier one and neutral exactly when no fewer hours are counted
for it, or enough of them to bring the score back. -/
theorem decay_towards_neutral_iff (decayRate : UInt8) (score : ReputationScore)
    (t₁ t₂ : Instant) :
    (applyDecay decayRate t₂ score).toNat ∈
        Set.uIcc (applyDecay decayRate t₁ score).toNat 50 ↔
      decayRate = 0 ∨ countedHours score.lastUpdate t₁ ≤ countedHours score.lastUpdate t₂ ∨
        score.bias ≤ countedHours score.lastUpdate t₂ * decayRate.toNat := by
  rw [toNat_applyDecay, toNat_applyDecay, approach_mem_uIcc_iff, ← or_assoc]
  refine or_congr_left ?_
  by_cases hrate : decayRate = 0
  · simp [hrate]
  · have hpositive : 0 < decayRate.toNat := by
      rw [Nat.pos_iff_ne_zero]
      exact fun hzero => hrate (UInt8.toNat_inj.mp hzero)
    rw [Nat.mul_le_mul_right_iff hpositive]
    simp [hrate]

/-- A score of 30 is back to neutral after 255 hours, and 30 again after 256. -/
theorem decay_starts_again :
    ∃ calls r, (reputationMachine ℕ .on).Run .new calls r ∧
      ∃ score, r.scores.lookup 7 = some score ∧ score.lastUpdate = 0 ∧
        r.getScore 7 (255 * 3_600_000_000_000) = 50 ∧
        r.getScore 7 (256 * 3_600_000_000_000) = 30 ∧
        (applyDecay r.decayRate (256 * 3_600_000_000_000) score).toNat ∉
          Set.uIcc (applyDecay r.decayRate (255 * 3_600_000_000_000) score).toNat 50 := by
  have hrun := (Machine.Run.start (M := reputationMachine ℕ .on) (s := .new)).of_step
    (e := .decreaseReputation 7 20 "late" ⟨⟨0, 0, 0⟩, 0, 0⟩) rfl
  refine ⟨_, _, hrun, ⟨30, 0, 0, 1⟩, by decide, rfl, by decide, by decide, ?_⟩
  rw [Set.mem_uIcc]
  decide

/-! ## Updates by nothing -/

/-- The event updates the score of the peer without raising or lowering it. -/
def ReputationEvent.Touches (peer : PeerId) : ReputationEvent PeerId → Prop
  | .increaseReputation peer' amount _ => peer' = peer ∧ amount = 0
  | .decreaseReputation peer' amount _ _ => peer' = peer ∧ amount = 0
  | _ => False

def ReputationEvent.updateReadings : ReputationEvent PeerId → Option UpdateReadings
  | .increaseReputation _ _ readings => some readings
  | .decreaseReputation _ _ _ readings => some readings.toUpdateReadings
  | _ => none

/-- The last update of a score, and the hours counted before it. -/
structure DecayClock where
  lastUpdate : Instant
  hours : ℕ

def DecayClock.update (clock : DecayClock) (readings : UpdateReadings) : DecayClock where
  lastUpdate := readings.updatedAt
  hours := clock.hours + countedHours clock.lastUpdate readings.readAt

def DecayClock.hoursAt (clock : DecayClock) (now : Instant) : ℕ :=
  clock.hours + countedHours clock.lastUpdate now

/-- The hours counted until `now` for a score that is updated at the given readings. -/
def creditedHours (lastUpdate : Instant) (updates : List UpdateReadings) (now : Instant) : ℕ :=
  (updates.foldl DecayClock.update ⟨lastUpdate, 0⟩).hoursAt now

/-! ### Scores stay below 101 -/

def ScoresBounded (scores : HashMap PeerId ReputationScore) : Prop :=
  ∀ peer score, scores.lookup peer = some score → score.score.toNat ≤ 100

theorem scoresBounded_empty : ScoresBounded (∅ : HashMap PeerId ReputationScore) := by
  intro peer score h
  simp at h

theorem ScoresBounded.insert {scores : HashMap PeerId ReputationScore} (h : ScoresBounded scores)
    (peer : PeerId) {score : ReputationScore} (hscore : score.score.toNat ≤ 100) :
    ScoresBounded (scores.insert peer score) := by
  intro peer' score' hlookup
  rw [HashMap.lookup_insert_eq] at hlookup
  split at hlookup
  · obtain rfl := Option.some.inj hlookup
    exact hscore
  · exact h peer' score' hlookup

theorem ScoresBounded.scoreEntry (h : ScoresBounded r.scores) (peer : PeerId)
    (createdAt : Instant) : (r.scoreEntry peer createdAt).score.toNat ≤ 100 := by
  unfold PeerReputation.scoreEntry
  cases hlookup : r.scores.lookup peer with
  | none => simp
  | some score => exact h peer score hlookup

theorem toNat_applyDecay_le (decayRate : UInt8) (now : Instant) {score : ReputationScore}
    (h : score.score.toNat ≤ 100) : (applyDecay decayRate now score).toNat ≤ 100 := by
  have hbetween := approach_mem_uIcc 50
    (countedHours score.lastUpdate now * decayRate.toNat) score.score.toNat
  rw [Set.mem_uIcc] at hbetween
  rw [toNat_applyDecay]
  omega

theorem ScoresBounded.unbanPeer (h : ScoresBounded r.scores) (peer : PeerId)
    (createdAt updatedAt : Instant) :
    ScoresBounded (r.unbanPeer peer createdAt updatedAt).scores := by
  unfold PeerReputation.unbanPeer
  split
  · exact h.insert peer (by simp)
  · exact h

theorem toNat_le_of_raised {amount : UInt8} {readings : UpdateReadings} {score : ReputationScore}
    (hraised : r.raised checks peer amount readings = some score) : score.score.toNat ≤ 100 := by
  obtain ⟨goodCount, -, rfl⟩ := Option.map_eq_some_iff.mp hraised
  simp

theorem ScoresBounded.lowered (h : ScoresBounded r.scores) {amount : UInt8}
    {readings : UpdateReadings} {score : ReputationScore}
    (hlowered : r.lowered checks peer amount readings = some score) :
    score.score.toNat ≤ 100 := by
  obtain ⟨badCount, -, rfl⟩ := Option.map_eq_some_iff.mp hlowered
  have hdecayed := toNat_applyDecay_le r.decayRate readings.readAt
    (h.scoreEntry peer readings.createdAt)
  rw [Saturating.toNat_sub]
  omega

theorem ScoresBounded.step (h : ScoresBounded r.scores)
    (hstep : reputationStep checks r e = some (result, r')) : ScoresBounded r'.scores := by
  cases e with
  | increaseReputation peer amount readings =>
      simp only [reputationStep, increaseReputation_eq, Option.map_map,
        Option.map_eq_some_iff] at hstep
      obtain ⟨score, hraised, heq⟩ := hstep
      obtain ⟨-, rfl⟩ := Prod.mk.inj heq
      exact h.insert peer (toNat_le_of_raised hraised)
  | decreaseReputation peer amount reason readings =>
      simp only [reputationStep, decreaseReputation_eq, Option.map_map,
        Option.map_eq_some_iff] at hstep
      obtain ⟨score, hlowered, heq⟩ := hstep
      obtain ⟨-, rfl⟩ := Prod.mk.inj heq
      have hscores := h.insert peer (h.lowered hlowered)
      dsimp only [Function.comp_apply]
      split
      · exact hscores.insert peer (by simp)
      · exact hscores
  | banPeer peer reason bannedAt createdAt updatedAt =>
      obtain ⟨-, rfl⟩ := Prod.mk.inj (Option.some.inj hstep)
      exact h.insert peer (by simp)
  | unbanPeer peer createdAt updatedAt =>
      obtain ⟨-, rfl⟩ := Prod.mk.inj (Option.some.inj hstep)
      exact h.unbanPeer peer createdAt updatedAt
  | isBanned peer now createdAt updatedAt =>
      obtain ⟨-, rfl⟩ := Prod.mk.inj (Option.some.inj hstep)
      dsimp only [id, isBanned]
      split
      · exact h
      · split
        · exact h
        · exact h.unbanPeer peer createdAt updatedAt
  | clearAll =>
      obtain ⟨-, rfl⟩ := Prod.mk.inj (Option.some.inj hstep)
      exact scoresBounded_empty
  | _ =>
      obtain ⟨-, rfl⟩ := Prod.mk.inj (Option.some.inj hstep)
      exact h

theorem run_scoresBounded {decayRate banThreshold : UInt8} {duration : Duration}
    {calls : List (ReputationCall PeerId)}
    (h : (reputationMachine PeerId checks).Run (.withConfig decayRate banThreshold duration)
      calls r) : ScoresBounded r.scores :=
  h.invariant (I := fun r => ScoresBounded r.scores) scoresBounded_empty
    fun _ hmakes hpre => hpre.step hmakes

/-! ### Runs of updates by nothing -/

/-- The peer's score is what the hours on the clock have made of `start`. -/
structure FollowsClock (peer : PeerId) (start : ReputationScore) (clock : DecayClock)
    (r : PeerReputation PeerId) : Prop where
  score : ∃ score, r.scores.lookup peer = some score ∧ score.lastUpdate = clock.lastUpdate ∧
    score.score.toNat = approach 50 (clock.hours * r.decayRate.toNat) start.score.toNat

variable {start : ReputationScore} {clock : DecayClock}

theorem FollowsClock.toNat_getScore (h : FollowsClock peer start clock r) (now : Instant) :
    (r.getScore peer now).toNat =
      approach 50 (clock.hoursAt now * r.decayRate.toNat) start.score.toNat := by
  obtain ⟨score, hlookup, hupdate, hscore⟩ := h.score
  simp only [getScore, hlookup]
  rw [toNat_applyDecay, hscore, approach_approach, hupdate, ← Nat.add_mul]
  rfl

/-- An update by nothing moves the clock and nothing else. -/
theorem FollowsClock.step (h : FollowsClock peer start clock r)
    (hbound : start.score.toNat ≤ 100) (hneutral : r.banThreshold ≤ 50)
    (hfloor : r.banThreshold ≤ start.score) (htouches : e.Touches peer)
    (hstep : reputationStep checks r e = some (result, r')) :
    ∃ readings, e.updateReadings = some readings ∧ r'.decayRate = r.decayRate ∧
      r'.banThreshold = r.banThreshold ∧ FollowsClock peer start (clock.update readings) r' := by
  have hdecayed := h.toNat_getScore
  obtain ⟨score, hlookup, -, -⟩ := h.score
  simp only [getScore, hlookup] at hdecayed
  simp only [UInt8.le_iff_toNat_le, UInt8.reduceToNat] at hneutral hfloor
  cases e with
  | increaseReputation peer' amount readings =>
      obtain ⟨rfl, rfl⟩ := htouches
      simp only [reputationStep, increaseReputation_eq, raised, PeerReputation.scoreEntry, hlookup,
        Option.getD_some, Option.map_map, Option.map_eq_some_iff] at hstep
      obtain ⟨goodCount, -, heq⟩ := hstep
      obtain ⟨-, rfl⟩ := Prod.mk.inj heq
      have hbetween := approach_mem_uIcc 50
        (clock.hoursAt readings.readAt * r.decayRate.toNat) start.score.toNat
      rw [← hdecayed, Set.mem_uIcc] at hbetween
      refine ⟨readings, rfl, rfl, rfl, ⟨_, AList.lookup_insert _, rfl, ?_⟩⟩
      refine Eq.trans ?_ (hdecayed readings.readAt)
      simp only [Saturating.toNat_min, Saturating.toNat_add, UInt8.toNat_zero, UInt8.reduceToNat]
      omega
  | decreaseReputation peer' amount reason readings =>
      obtain ⟨rfl, rfl⟩ := htouches
      simp only [reputationStep, decreaseReputation_eq, lowered, PeerReputation.scoreEntry, hlookup,
        Option.getD_some, Option.map_map, Option.map_eq_some_iff] at hstep
      obtain ⟨badCount, -, heq⟩ := hstep
      obtain ⟨-, rfl⟩ := Prod.mk.inj heq
      have hbetween := approach_mem_uIcc 50
        (clock.hoursAt readings.readAt * r.decayRate.toNat) start.score.toNat
      rw [← hdecayed, Set.mem_uIcc] at hbetween
      have hsame : (Saturating.sub (applyDecay r.decayRate readings.readAt score) 0).toNat =
          (applyDecay r.decayRate readings.readAt score).toNat := by
        rw [Saturating.toNat_sub, UInt8.toNat_zero, Nat.sub_zero]
      -- a score on the allowed side of the threshold does not cross it on its way to neutral
      have hhigh : ¬ Saturating.sub (applyDecay r.decayRate readings.readAt score) 0 <
          r.banThreshold := by
        rw [UInt8.lt_iff_toNat_lt, hsame]
        omega
      simp only [Function.comp_apply, if_neg hhigh]
      exact ⟨_, rfl, rfl, rfl,
        ⟨_, AList.lookup_insert _, rfl, hsame.trans (hdecayed readings.readAt)⟩⟩
  | _ => exact htouches.elim

theorem run_followsClock {calls : List (ReputationCall PeerId)}
    (hlookup : r.scores.lookup peer = some start) (hbound : start.score.toNat ≤ 100)
    (hneutral : r.banThreshold ≤ 50) (hfloor : r.banThreshold ≤ start.score)
    (h : (reputationMachine PeerId checks).Run r calls r')
    (htouches : ∀ c ∈ calls, c.event.Touches peer) :
    r'.decayRate = r.decayRate ∧ r'.banThreshold = r.banThreshold ∧
      FollowsClock peer start ((calls.filterMap fun c => c.event.updateReadings).foldl
        DecayClock.update ⟨start.lastUpdate, 0⟩) r' := by
  induction h with
  | start => exact ⟨rfl, rfl, ⟨start, hlookup, rfl, by simp⟩⟩
  | @call calls c _ hmakes ih =>
      obtain ⟨hrate, hthreshold, hclock⟩ :=
        ih fun c' hc' => htouches c' (List.mem_append_left _ hc')
      rw [← hthreshold] at hneutral hfloor
      obtain ⟨readings, hreadings, hrate', hthreshold', hclock'⟩ :=
        hclock.step hbound hneutral hfloor (htouches c List.mem_concat_self) hmakes
      refine ⟨hrate'.trans hrate, hthreshold'.trans hthreshold, ?_⟩
      simpa [List.filterMap_append, hreadings] using hclock'

/-- After any updates by nothing the score is what it would have been without them exactly when
they take no counted hour away, or the score is neutral by then either way. -/
theorem updates_by_nothing_keep_decay_iff {decayRate banThreshold : UInt8} {duration : Duration}
    {history calls : List (ReputationCall PeerId)} {score : ReputationScore}
    (hreach : (reputationMachine PeerId checks).Run
      (.withConfig decayRate banThreshold duration) history r)
    (hneutral : r.banThreshold ≤ 50) (hscore : r.scores.lookup peer = some score)
    (hfloor : r.banThreshold ≤ score.score)
    (h : (reputationMachine PeerId checks).Run r calls r')
    (htouches : ∀ c ∈ calls, c.event.Touches peer) (now : Instant) :
    r'.getScore peer now = r.getScore peer now ↔
      r.decayRate = 0 ∨
        creditedHours score.lastUpdate (calls.filterMap fun c => c.event.updateReadings) now =
          countedHours score.lastUpdate now ∨
        score.bias ≤ creditedHours score.lastUpdate
            (calls.filterMap fun c => c.event.updateReadings) now * r.decayRate.toNat ∧
          score.bias ≤ countedHours score.lastUpdate now * r.decayRate.toNat := by
  obtain ⟨hrate, -, hclock⟩ := run_followsClock hscore (run_scoresBounded hreach peer score hscore)
    hneutral hfloor h htouches
  have hbefore : (r.getScore peer now).toNat =
      approach 50 (countedHours score.lastUpdate now * r.decayRate.toNat) score.score.toNat := by
    simp only [getScore, hscore]
    exact toNat_applyDecay _ _ _
  rw [← UInt8.toNat_inj, hbefore, hclock.toNat_getScore, hrate, approach_eq_iff,
    mul_eq_mul_right_iff, ← UInt8.toNat_inj, UInt8.toNat_zero, ← or_assoc, or_comm (a := _ = 0)]
  rfl

/-- A penalty brings a new score down to 30. -/
theorem exists_late :
    ∃ calls, (reputationMachine ℕ .on).Run .new calls
      (PeerReputation.new.withScore 7 ⟨30, 0, 0, 1⟩) :=
  ⟨_, (Machine.Run.start (M := reputationMachine ℕ .on) (s := .new)).of_step
    (e := .decreaseReputation 7 20 "late" ⟨⟨0, 0, 0⟩, 0, 0⟩) (r := .done) rfl⟩

/-- A score that is updated by nothing on the hour decays as if it had been left alone. -/
theorem updates_by_nothing_keep_decay_iff_plain :
    ∃ history r calls r', (reputationMachine ℕ .on).Run .new history r ∧
      (reputationMachine ℕ .on).Run r calls r' ∧
      calls.filterMap (fun c => c.event.updateReadings) =
        [⟨0, 3_600_000_000_000, 3_600_000_000_000⟩] ∧
      r'.getScore 7 (2 * 3_600_000_000_000) = r.getScore 7 (2 * 3_600_000_000_000) := by
  obtain ⟨history, hreach⟩ := exists_late
  have hrun := (Machine.Run.start (M := reputationMachine ℕ .on)
    (s := PeerReputation.new.withScore 7 ⟨30, 0, 0, 1⟩)).of_step
    (e := .increaseReputation 7 0 ⟨0, 3_600_000_000_000, 3_600_000_000_000⟩) rfl
  have hscore : (PeerReputation.new.withScore 7 ⟨30, 0, 0, 1⟩).scores.lookup 7 =
    some ⟨30, 0, 0, 1⟩ := rfl
  have hkeeps := updates_by_nothing_keep_decay_iff hreach (by decide) hscore (by decide) hrun
    (by simp [ReputationEvent.Touches]) (2 * 3_600_000_000_000)
  exact ⟨history, _, _, _, hreach, hrun, rfl, hkeeps.mpr (by decide)⟩

/-- A score of 30 that is updated by nothing after half an hour has not moved after an hour. -/
theorem update_by_nothing_stops_decay :
    ∃ history r calls r', (reputationMachine ℕ .on).Run .new history r ∧
      r.banThreshold ≤ 50 ∧ r.scores.lookup 7 = some ⟨30, 0, 0, 1⟩ ∧ r.banThreshold ≤ 30 ∧
      (reputationMachine ℕ .on).Run r calls r' ∧
      calls.map Call.event =
        [.increaseReputation 7 0 ⟨0, 1_800_000_000_000, 1_800_000_000_000⟩] ∧
      r.getScore 7 3_600_000_000_000 = 31 ∧ r'.getScore 7 3_600_000_000_000 = 30 := by
  obtain ⟨history, hreach⟩ := exists_late
  have hrun := (Machine.Run.start (M := reputationMachine ℕ .on)
    (s := PeerReputation.new.withScore 7 ⟨30, 0, 0, 1⟩)).of_step
    (e := .increaseReputation 7 0 ⟨0, 1_800_000_000_000, 1_800_000_000_000⟩) rfl
  exact ⟨history, _, _, _, hreach, by decide, rfl, by decide, hrun, rfl, by decide, by decide⟩

end Security

end SilverNetwork
