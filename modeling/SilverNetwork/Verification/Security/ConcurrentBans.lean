import SilverNetwork.Verification.Security.ReputationCallers

/-! Bans under concurrent callers. A ban outlives whatever the other callers do as long as no
call acts on what it saw of the blocklist before the ban was made. -/

namespace SilverNetwork

namespace Security

variable {PeerId Caller : Type} [DecidableEq PeerId] [DecidableEq Caller]
  {checks : OverflowChecks}

/-! ## Steps that keep bans -/

def Expired (s : SharedReputation PeerId) (entry : BlocklistEntry) : Prop :=
  entry.duration ≤ s.now - entry.bannedAt

/-- The action takes from the blocklist a ban that the call does not go by. `is_banned` goes by the
one that it has read, `unban_peer` and `clear_all` by those made before they were called, and
`ban_peer` by those that are older than its own. -/
def Loses (thread : ReputationThread PeerId) :
    ReputationAct PeerId → PeerId → BlocklistEntry → Prop
  | .insertBan peer _ bannedAt, peer', entry => peer' = peer ∧ bannedAt < entry.bannedAt
  | .removeBan peer, peer', entry =>
      peer' = peer ∧ (thread.op = .isBanned peer ∨ thread.calledIn.now < entry.bannedAt)
  | .clearBans, _, entry => thread.calledIn.now < entry.bannedAt
  | _, _, _ => False

/-- What the action loses has expired. -/
def Heeds (thread : ReputationThread PeerId) (s : SharedReputation PeerId)
    (action : ReputationAct PeerId) : Prop :=
  ∀ peer entry, s.reputation.blocklist.lookup peer = some entry → Loses thread action peer entry →
    Expired s entry

/-- A step in which the caller is about to do an action. -/
def Does (c : ConcurrentReputationCall PeerId Caller) (thread : ReputationThread PeerId)
    (action : ReputationAct PeerId) : Prop :=
  ∃ caller readings next, c.event = .act caller readings ∧
    c.pre.threads caller = some thread ∧ thread.rest = .act action next

def KeepsBans (c : ConcurrentReputationCall PeerId Caller) : Prop :=
  ∀ thread action, Does c thread action → Heeds thread c.pre.shared action

/-- `ban_peer` inserts a ban that it has made at the time `bannedAt`. -/
def Bans (peer : PeerId) (bannedAt : Instant) (c : ConcurrentReputationCall PeerId Caller) :
    Prop :=
  ∃ thread reason, Does c thread (.insertBan peer reason bannedAt)

/-- A call of `unban_peer` or `clear_all` at the time `bannedAt` or later. -/
def LiftsSince (peer : PeerId) (bannedAt : Instant)
    (c : ConcurrentReputationCall PeerId Caller) : Prop :=
  ∃ caller op, c.event = .call caller op ∧ (op = .unbanPeer peer ∨ op = .clearAll) ∧
    bannedAt ≤ c.pre.shared.now

variable {peer : PeerId} {bannedAt : Instant} {x y : ConcurrentReputation PeerId Caller}

/-- A ban for the peer that is as late as `bannedAt`, as long as that one would last. -/
def Banned (peer : PeerId) (bannedAt : Instant) (s : SharedReputation PeerId) : Prop :=
  s.now < bannedAt + s.reputation.banDuration →
    ∃ entry, s.reputation.blocklist.lookup peer = some entry ∧ bannedAt ≤ entry.bannedAt ∧
      entry.duration = s.reputation.banDuration

/-- Who may lift the ban has been called before it was made. -/
def Unlifted (peer : PeerId) (bannedAt : Instant) (x : ConcurrentReputation PeerId Caller) :
    Prop :=
  ∀ caller thread, x.threads caller = some thread →
    thread.op = .unbanPeer peer ∨ thread.op = .clearAll → thread.calledIn.now < bannedAt

variable {s : SharedReputation PeerId} {thread : ReputationThread PeerId}

/-- A ban as late as one that lasts has not expired, to a reading that may be old. -/
theorem not_expired {made now readAt madeLater duration : ℕ} (hmade : made ≤ now)
    (hlasts : now < made + duration) (hlate : made ≤ madeLater) (hread : readAt ≤ now) :
    ¬ duration ≤ readAt - madeLater := by
  omega

theorem lasts_of_fresh {made now duration : ℕ} (hfresh : ¬ duration ≤ now - made) :
    now < made + duration := by
  omega

/-- A later ban is left to the peer by an action that does not lose the one there is. -/
theorem kept_of_not_loses (checks : OverflowChecks) {action : ReputationAct PeerId}
    {entry : BlocklistEntry} (hentry : s.reputation.blocklist.lookup peer = some entry)
    (hduration : entry.duration = s.reputation.banDuration)
    (hallowed : Allowed thread.op action s)
    (hunlifted : thread.op = .unbanPeer peer ∨ thread.op = .clearAll →
      thread.calledIn.now < entry.bannedAt)
    (hlasts : ∀ readAt ≤ s.now, ¬ entry.duration ≤ readAt - entry.bannedAt)
    (hloses : ¬ Loses thread action peer entry) (readings : ActReadings PeerId) :
    ∃ entry', ((sharedReputation PeerId checks).perform action readings
        s).2.reputation.blocklist.lookup peer = some entry' ∧
      entry.bannedAt ≤ entry'.bannedAt ∧ entry'.duration = s.reputation.banDuration := by
  have hsame : ∃ entry', s.reputation.blocklist.lookup peer = some entry' ∧
      entry.bannedAt ≤ entry'.bannedAt ∧ entry'.duration = s.reputation.banDuration :=
    ⟨entry, hentry, le_refl _, hduration⟩
  simp only [sharedReputation]
  cases action with
  | insertBan peer' reason bannedAt' =>
      simp only [ReputationAct.perform, ReputationAct.putBans, HashMap.lookup_insert_eq]
      split
      · rename_i hpeer
        have hlater : entry.bannedAt ≤ bannedAt' := by
          apply Nat.le_of_not_lt
          intro holder
          exact hloses ⟨hpeer, holder⟩
        exact ⟨_, rfl, hlater, rfl⟩
      · exact hsame
  | removeBan peer' =>
      simp only [ReputationAct.perform]
      split
      · simp only [ReputationAct.putBans, HashMap.lookup_erase_eq]
        split
        · rename_i hpeer
          subst hpeer
          rcases hallowed with hop | hop
          · exact absurd ⟨rfl, .inl hop⟩ hloses
          · exact absurd ⟨rfl, .inr (hunlifted (.inl hop))⟩ hloses
        · exact hsame
      · exact hsame
  | retainBans now =>
      simp only [ReputationAct.perform, PeerReputation.cleanupExpiredBans, HashMap.lookup_retain,
        hentry]
      exact ⟨entry, by simpa using hlasts now hallowed, le_refl entry.bannedAt, hduration⟩
  | clearBans => exact absurd (hunlifted (.inr hallowed)) hloses
  | raiseScore | lowerScore =>
      simp only [ReputationAct.perform]
      split
      · exact hsame
      · exact hsame
  | _ => exact hsame

theorem Banned.perform {action : ReputationAct PeerId} (hbanned : Banned peer bannedAt s)
    (hmade : bannedAt ≤ s.now) (hallowed : Allowed thread.op action s)
    (hheeds : Heeds thread s action)
    (hunlifted : thread.op = .unbanPeer peer ∨ thread.op = .clearAll →
      thread.calledIn.now < bannedAt) (readings : ActReadings PeerId) :
    Banned peer bannedAt ((sharedReputation PeerId checks).perform action readings s).2 := by
  have hlater := later_perform checks action readings s
  intro hlasts
  rw [hlater.banDuration_eq] at hlasts ⊢
  have hnow := Nat.lt_of_le_of_lt hlater.now_le hlasts
  obtain ⟨entry, hentry, hlate, hduration⟩ := hbanned hnow
  have hfresh : ∀ readAt ≤ s.now, ¬ entry.duration ≤ readAt - entry.bannedAt := by
    intro readAt hread
    exact not_expired hmade (hduration ▸ hnow) hlate hread
  have hloses : ¬ Loses thread action peer entry := by
    intro hloses
    exact hfresh s.now (le_refl s.now) (hheeds peer entry hentry hloses)
  obtain ⟨entry', hentry', hlater', hduration'⟩ := kept_of_not_loses checks hentry
    hduration hallowed (fun hlifts => (hunlifted hlifts).trans_le hlate) hfresh hloses readings
  exact ⟨entry', hentry', hlate.trans hlater', hduration'⟩

/-- To lose a ban that has not expired is to break it. -/
theorem not_banned_of_loses {action : ReputationAct PeerId} {entry : BlocklistEntry}
    (hentry : s.reputation.blocklist.lookup peer = some entry)
    (hduration : entry.duration = s.reputation.banDuration)
    (hloses : Loses thread action peer entry) (hfresh : ¬ Expired s entry)
    (readings : ActReadings PeerId) :
    Banned peer entry.bannedAt s ∧ ¬ Banned peer entry.bannedAt
      ((sharedReputation PeerId checks).perform action readings s).2 := by
  have hlasts : s.now < entry.bannedAt + s.reputation.banDuration := by
    rw [← hduration]
    exact lasts_of_fresh hfresh
  refine ⟨fun _ => ⟨entry, hentry, le_refl _, hduration⟩, ?_⟩
  intro hbanned
  cases action with
  | insertBan peer' reason bannedAt' =>
      obtain ⟨rfl, holder⟩ := hloses
      obtain ⟨entry', hentry', hlate, _⟩ := hbanned hlasts
      obtain rfl := Option.some.inj ((AList.lookup_insert _).symm.trans hentry')
      exact absurd hlate (Nat.not_le.mpr holder)
  | removeBan peer' =>
      obtain ⟨rfl, _⟩ := hloses
      have hmem := HashMap.mem_iff_exists_lookup.mpr ⟨entry, hentry⟩
      simp only [sharedReputation, ReputationAct.perform, if_pos hmem] at hbanned
      obtain ⟨entry', hentry', _⟩ := hbanned hlasts
      simp [ReputationAct.putBans] at hentry'
  | clearBans =>
      obtain ⟨entry', hentry', _⟩ := hbanned hlasts
      cases hentry'
  | _ => cases hloses

theorem Banned.elapse (hbanned : Banned peer bannedAt s) (duration : Duration) :
    Banned peer bannedAt ((sharedReputation PeerId checks).elapse duration s) :=
  fun hlasts => hbanned (Nat.lt_of_le_of_lt (Nat.le_add_right s.now duration) hlasts)

/-- The state between two steps of a run in which nobody lifts the ban. -/
structure Steady (checks : OverflowChecks) (peer : PeerId) (bannedAt : Instant)
    (x : ConcurrentReputation PeerId Caller) : Prop where
  sound : (sharedReputation PeerId checks).AllSound Later Allowed x
  unlifted : Unlifted peer bannedAt x

omit [DecidableEq Caller] in
theorem steady_new (decayRate banThreshold : UInt8) (banDuration : Duration) (now : Instant) :
    Steady checks peer bannedAt
      (.new decayRate banThreshold banDuration now : ConcurrentReputation PeerId Caller) := by
  constructor
  case sound =>
    intro caller thread hbusy
    cases hbusy
  case unlifted =>
    intro caller thread hbusy
    cases hbusy

variable {c : ConcurrentReputationCall PeerId Caller}

theorem Steady.step (hsteady : Steady checks peer bannedAt c.pre)
    (hmakes : ((sharedReputation PeerId checks).machine Caller).Makes c)
    (hunlifted : ¬ LiftsSince peer bannedAt c) : Steady checks peer bannedAt c.post := by
  have hrule := SharedObject.rule_of_step hmakes
  refine ⟨(guarantee.step hsteady.sound hrule).2, ?_⟩
  intro caller thread hbusy hlifts
  rcases hrule.thread hbusy with ⟨before, hbefore, hop, hcalled⟩ | ⟨hevent, hcalled⟩
  · rw [← hcalled]
    exact hsteady.unlifted caller before hbefore (hop ▸ hlifts)
  · rw [hcalled]
    apply Nat.lt_of_not_le
    intro hlate
    exact hunlifted ⟨caller, thread.op, hevent, hlifts, hlate⟩

/-- The ban is there when it has been made. -/
theorem banned_of_bans (hsteady : Steady checks peer bannedAt c.pre)
    (hmakes : ((sharedReputation PeerId checks).machine Caller).Makes c)
    (hbans : Bans peer bannedAt c) :
    bannedAt ≤ c.post.shared.now ∧ Banned peer bannedAt c.post.shared := by
  obtain ⟨thread, reason, caller, readings, next, hevent, hbusy, hdue⟩ := hbans
  have hrule := SharedObject.rule_of_step hmakes
  rw [hevent] at hrule
  have hinserted : c.post.shared = ((sharedReputation PeerId checks).perform
    (.insertBan peer reason bannedAt) readings c.pre.shared).2 := hrule.performs hbusy hdue
  obtain ⟨hmade, _⟩ := hsteady.sound.due hbusy hdue
  rw [hinserted]
  refine ⟨hmade, fun _ => ⟨_, AList.lookup_insert _, le_refl bannedAt, rfl⟩⟩

theorem Banned.step (hbanned : Banned peer bannedAt c.pre.shared)
    (hmade : bannedAt ≤ c.pre.shared.now) (hsteady : Steady checks peer bannedAt c.pre)
    (hmakes : ((sharedReputation PeerId checks).machine Caller).Makes c) (hkeeps : KeepsBans c) :
    Banned peer bannedAt c.post.shared := by
  rcases (SharedObject.rule_of_step hmakes).shared with hsame | ⟨duration, helapsed⟩ |
    ⟨caller, readings, thread, action, next, hevent, hbusy, hdue, hperformed⟩
  · rw [hsame]
    exact hbanned
  · rw [helapsed]
    exact hbanned.elapse duration
  · rw [hperformed]
    obtain ⟨hallowed, _⟩ := hsteady.sound.due hbusy hdue
    exact hbanned.perform hmade hallowed
      (hkeeps thread action ⟨caller, readings, next, hevent, hbusy, hdue⟩)
      (hsteady.unlifted caller thread hbusy) readings

/-! ## Runs -/

variable {t : ConcurrentReputation PeerId Caller}
  {calls : List (ConcurrentReputationCall PeerId Caller)}

theorem run_steady (hrun : ((sharedReputation PeerId checks).machine Caller).Run x calls t)
    (hsteady : Steady checks peer bannedAt x)
    (hunlifted : ∀ c ∈ calls, ¬ LiftsSince peer bannedAt c) : Steady checks peer bannedAt t :=
  hrun.invariant_of_mem hsteady fun c hc hmakes hpre => hpre.step hmakes (hunlifted c hc)

/-- The run from the insertion of a ban on. -/
theorem run_banned (hrun : ((sharedReputation PeerId checks).machine Caller).Run x calls t)
    (hsteady : Steady checks peer bannedAt x) (hmade : bannedAt ≤ x.shared.now)
    (hbanned : Banned peer bannedAt x.shared)
    (hunlifted : ∀ c ∈ calls, ¬ LiftsSince peer bannedAt c) (hkeeps : ∀ c ∈ calls, KeepsBans c) :
    Banned peer bannedAt t.shared := by
  have hall : Steady checks peer bannedAt t ∧ bannedAt ≤ t.shared.now ∧
      Banned peer bannedAt t.shared := by
    refine hrun.invariant_of_mem (I := fun x => Steady checks peer bannedAt x ∧
      bannedAt ≤ x.shared.now ∧ Banned peer bannedAt x.shared) ⟨hsteady, hmade, hbanned⟩ ?_
    rintro c hc hmakes ⟨hpre, hmade, hbanned⟩
    have hlater := (guarantee.step hpre.sound (SharedObject.rule_of_step hmakes)).1
    exact ⟨hpre.step hmakes (hunlifted c hc), hmade.trans hlater.now_le,
      hbanned.step hmade hpre hmakes (hkeeps c hc)⟩
  exact hall.2.2

/-- A ban of any caller outlives what the others do until it expires, or until one of them lifts
it, in a run whose steps heed the bans that have been made meanwhile. -/
theorem bans_outlive_callers {decayRate banThreshold : UInt8} {banDuration : Duration}
    {now : Instant}
    (hrun : ((sharedReputation PeerId checks).machine Caller).Run
      (ConcurrentReputation.new decayRate banThreshold banDuration now) calls t)
    (hkeeps : ∀ c ∈ calls, KeepsBans c) :
    ∀ peer bannedAt, (∃ c ∈ calls, Bans peer bannedAt c) →
      (∀ c ∈ calls, ¬ LiftsSince peer bannedAt c) →
      t.shared.now < bannedAt + banDuration →
      ∃ entry, t.shared.reputation.blocklist.lookup peer = some entry ∧
        bannedAt ≤ entry.bannedAt ∧ entry.duration = banDuration := by
  rintro peer bannedAt ⟨c, hc, hbans⟩ hunlifted hlasts
  have hsteady : Steady checks peer bannedAt (.new decayRate banThreshold banDuration now :
    ConcurrentReputation PeerId Caller) := steady_new decayRate banThreshold banDuration now
  have hduration : t.shared.reputation.banDuration = banDuration :=
    (guarantee.run hrun hsteady.sound).1.banDuration_eq
  have hmakes := hrun.makes hc
  obtain ⟨before, after, rfl⟩ := List.append_of_mem hc
  have hbefore := run_steady (hrun.split rfl).1 hsteady fun c' hc' =>
    hunlifted c' (List.mem_append_left _ hc')
  obtain ⟨hmade, hbanned⟩ := banned_of_bans hbefore hmakes hbans
  rw [List.append_cons] at hrun
  obtain ⟨u, hfirst, hrest⟩ := hrun.cut
  obtain rfl : u = c.post := hfirst.last
  have hin : ∀ c' ∈ after, c' ∈ before ++ c :: after := by
    intro c' hc'
    simp [hc']
  rw [← hduration] at hlasts ⊢
  exact run_banned hrest (hbefore.step hmakes (hunlifted c hc)) hmade hbanned
    (fun c' hc' => hunlifted c' (hin c' hc')) (fun c' hc' => hkeeps c' (hin c' hc')) hlasts

omit [DecidableEq Caller] in
/-- With an empty blocklist there is nothing to heed. -/
theorem keepsBans_of_empty (h : c.pre.shared.reputation.blocklist = ∅) : KeepsBans c := by
  intro thread action _ peer entry hentry
  simp [h] at hentry

/-- A ban that is made alone lasts. -/
theorem bans_outlive_callers_plain :
    ∃ calls t, ((sharedReputation ℕ .on).machine ℕ).Run (ConcurrentReputation.new 1 10 10 0)
        calls t ∧ t.shared.now = 3 ∧
      ∃ entry, t.shared.reputation.blocklist.lookup 7 = some entry ∧ 0 ≤ entry.bannedAt ∧
        entry.duration = 10 := by
  have hinserted := Machine.Run.start.of_step (M := (sharedReputation ℕ .on).machine ℕ)
    (s := ConcurrentReputation.new 1 10 10 0) (e := .call 1 (.banPeer 7 "flood")) rfl
    |>.of_step (e := .act 1 .none) rfl |>.of_step (e := .act 1 .none) rfl
  have hrun := hinserted.of_step (e := .elapse 3) rfl
  refine ⟨_, _, hrun, rfl, bans_outlive_callers hrun ?_ 7 0 ?_ ?_ (by decide)⟩
  case refine_1 =>
    simp only [List.nil_append, List.mem_append, List.mem_singleton, or_imp, forall_and, forall_eq]
    refine ⟨⟨⟨keepsBans_of_empty rfl, keepsBans_of_empty rfl⟩, keepsBans_of_empty rfl⟩, ?_⟩
    rintro thread action ⟨caller, readings, next, hevent, _⟩
    cases hevent
  case refine_2 =>
    refine ⟨_, List.mem_append_left _ (List.mem_append_right _ (List.mem_singleton_self _)), ?_⟩
    exact ⟨_, "flood", 1, .none, _, rfl, rfl, rfl⟩
  case refine_3 => simp [LiftsSince, or_imp, forall_and]

/-- A caller sees that a ban has expired, and removes the one that another caller has made since. -/
theorem renewed_ban_lost :
    ∃ calls t, ((sharedReputation ℕ .on).machine ℕ).Run (ConcurrentReputation.new 1 10 10 0)
        calls t ∧
      (∃ c ∈ calls, Bans 7 10 c) ∧ (∀ c ∈ calls, ¬ LiftsSince 7 10 c) ∧
      t.shared.now < 10 + 10 ∧ t.shared.reputation.blocklist.lookup 7 = none := by
  have hexpired := Machine.Run.start.of_step (M := (sharedReputation ℕ .on).machine ℕ)
    (s := ConcurrentReputation.new 1 10 10 0) (e := .call 1 (.banPeer 7 "flood")) rfl
    |>.of_step (e := .act 1 .none) rfl |>.of_step (e := .act 1 .none) rfl
    |>.of_step (e := .act 1 .none) rfl |>.of_step (e := .act 1 .none) rfl
    |>.of_step (e := .elapse 10) rfl
  have hrenewed := hexpired.of_step (e := .call 1 (.isBanned 7)) rfl
    |>.of_step (e := .act 1 .none) rfl |>.of_step (e := .call 2 (.banPeer 7 "flood")) rfl
    |>.of_step (e := .act 2 .none) rfl |>.of_step (e := .act 2 .none) rfl
  have hlost := hrenewed.of_step (e := .act 1 .none) rfl
  refine ⟨_, _, hlost, ?_, ?_, by decide, rfl⟩
  · refine ⟨_, List.mem_append_left _ (List.mem_append_right _ (List.mem_singleton_self _)), ?_⟩
    exact ⟨_, "flood", 2, .none, _, rfl, rfl, rfl⟩
  · simp [LiftsSince, or_imp, forall_and]

end Security

end SilverNetwork
