import Mathlib.Data.Finset.Order
import SilverNetwork.Foundations.SlidingWindow
import SilverNetwork.Model.Security

/-! The rate limiter against the calls it has let through: the queue of a peer holds the times
of these, up to the ones that had left the window when the peer was last checked. -/

namespace SilverNetwork

namespace Security

open RateLimiter SlidingWindow

variable {PeerId : Type} [DecidableEq PeerId] {l l' : RateLimiter PeerId} {peer : PeerId}

theorem entry_insert (peer' : PeerId) (queue : List Instant) :
    entry peer { l with peerMessages := l.peerMessages.insert peer' queue } =
      if peer = peer' then queue else l.entry peer := by
  unfold entry
  rw [HashMap.lookup_insert_eq]
  split
  · rfl
  · rfl

theorem entry_clearPeer (peer' : PeerId) :
    (l.clearPeer peer').entry peer = if peer = peer' then [] else l.entry peer := by
  unfold entry clearPeer
  rw [HashMap.lookup_erase_eq]
  split
  · rfl
  · rfl

theorem getMessageCount_eq (peer : PeerId) (l : RateLimiter PeerId) :
    l.getMessageCount peer = (l.entry peer).length := by
  unfold getMessageCount entry
  cases l.peerMessages.lookup peer with
  | none => rfl
  | some queue => rfl

variable [ToString PeerId]

/-- One call of the limiter. -/
inductive RateLimiterStep (l : RateLimiter PeerId) :
    RateLimiterEvent PeerId → RateLimiterResult → RateLimiter PeerId → Prop where
  | passed (peer : PeerId) (now : Instant)
      (hroom : (expire l.window now (l.entry peer)).length < l.rateLimit.toNat) :
      RateLimiterStep l (.checkRateLimit peer now) (.checked (.ok ()))
        { l with peerMessages :=
          l.peerMessages.insert peer (expire l.window now (l.entry peer) ++ [now]) }
  | rejected (peer : PeerId) (now : Instant)
      (hfull : l.rateLimit.toNat ≤ (expire l.window now (l.entry peer)).length) :
      RateLimiterStep l (.checkRateLimit peer now)
        (.checked (.error (.rateLimitExceeded (toString peer))))
        { l with peerMessages := l.peerMessages.insert peer (expire l.window now (l.entry peer)) }
  | peerCleared (peer : PeerId) : RateLimiterStep l (.clearPeer peer) .cleared (l.clearPeer peer)
  | allCleared : RateLimiterStep l .clearAll .cleared l.clearAll

theorem RateLimiterStep.execution {e : RateLimiterEvent PeerId} {r : RateLimiterResult}
    (h : RateLimiterStep l e r l') : rateLimiterStep l e = some (r, l') := by
  cases h with
  | passed peer now hroom =>
      have hcheck : l.checkRateLimit peer now = _ := if_neg (Nat.not_le.mpr hroom)
      rw [rateLimiterStep, hcheck]
      rfl
  | rejected peer now hfull =>
      have hcheck : l.checkRateLimit peer now = _ := if_pos hfull
      rw [rateLimiterStep, hcheck]
      rfl
  | peerCleared peer => rfl
  | allCleared => rfl

theorem RateLimiterStep.progress (l : RateLimiter PeerId) (e : RateLimiterEvent PeerId) :
    ∃ r l', RateLimiterStep l e r l' := by
  cases e with
  | checkRateLimit peer now =>
      by_cases hroom : (expire l.window now (l.entry peer)).length < l.rateLimit.toNat
      · exact ⟨_, _, .passed peer now hroom⟩
      · exact ⟨_, _, .rejected peer now (Nat.le_of_not_lt hroom)⟩
  | clearPeer peer => exact ⟨_, _, .peerCleared peer⟩
  | clearAll => exact ⟨_, _, .allCleared⟩

theorem rateLimiterMachine_makes_iff {c : RateLimiterCall PeerId} :
    (rateLimiterMachine PeerId).Makes c ↔ RateLimiterStep c.pre c.event c.result c.post :=
  ⟨Machine.rule_of_execution (fun _ _ => RateLimiterStep.execution)
    (RateLimiterStep.progress c.pre c.event),
    RateLimiterStep.execution⟩

theorem RateLimiterStep.config {e : RateLimiterEvent PeerId} {r : RateLimiterResult}
    (h : RateLimiterStep l e r l') : l'.rateLimit = l.rateLimit ∧ l'.window = l.window := by
  cases h with
  | passed => exact ⟨rfl, rfl⟩
  | rejected => exact ⟨rfl, rfl⟩
  | peerCleared => exact ⟨rfl, rfl⟩
  | allCleared => exact ⟨rfl, rfl⟩

theorem RateLimiterStep.ok_iff {now : Instant} {r : RateLimiterResult}
    (h : RateLimiterStep l (.checkRateLimit peer now) r l') : r = .checked (.ok ()) ↔
      (expire l.window now (l.entry peer)).length < l.rateLimit.toNat := by
  cases h with
  | passed _ _ hroom => exact iff_of_true rfl hroom
  | rejected _ _ hfull => exact iff_of_false (by simp) (Nat.not_lt.mpr hfull)

/-! ## The calls let through -/

/-- The times at which the calls check a peer. -/
def RateLimiterEvent.times : RateLimiterEvent PeerId → List Instant
  | .checkRateLimit _ now => [now]
  | _ => []

/-- The times of the peer's accepted calls since it was last cleared, with one call more. -/
def acceptedWith (peer : PeerId) (accepted : List Instant) :
    RateLimiterEvent PeerId → RateLimiterResult → List Instant
  | .checkRateLimit peer' now, .checked (.ok ()) =>
      if peer = peer' then accepted ++ [now] else accepted
  | .checkRateLimit _ _, _ => accepted
  | .clearPeer peer', _ => if peer = peer' then [] else accepted
  | .clearAll, _ => []

/-- The times of the peer's accepted calls since it was last cleared. -/
def accepted (peer : PeerId) (calls : List (RateLimiterCall PeerId)) : List Instant :=
  calls.foldl (fun accepted c => acceptedWith peer accepted c.event c.result) []

variable {limit : UInt32} {window : Duration} {now : Instant} {past : PeerId → List Instant}

/-- The limiter has its configuration, and each queue tracks the accepted calls of its peer. -/
structure Limits (limit : UInt32) (window : Duration) (now : Instant)
    (accepted : PeerId → List Instant) (l : RateLimiter PeerId) : Prop where
  rateLimit : l.rateLimit = limit
  reach : l.window = window
  tracks : ∀ peer, Tracks limit.toNat window now (accepted peer) (l.entry peer)

omit [ToString PeerId] in
theorem limits_withWindow (limit : UInt32) (window : Duration) (now : Instant) :
    Limits limit window now (fun _ : PeerId => []) (.withWindow limit window) :=
  ⟨rfl, rfl, fun _ => .none _ _ _⟩

omit [ToString PeerId] in
theorem Limits.later {later : Instant} (h : Limits limit window now past l)
    (hlater : now ≤ later) : Limits limit window later past l :=
  ⟨h.rateLimit, h.reach, fun peer => (h.tracks peer).later hlater⟩

/-- A call at the reading `now` keeps the queues in step with the accepted calls. -/
theorem Limits.step {e : RateLimiterEvent PeerId} {r : RateLimiterResult}
    (h : Limits limit window now past l) (hstep : RateLimiterStep l e r l')
    (hnow : ∀ t ∈ e.times, t = now) :
    Limits limit window now (fun peer => acceptedWith peer (past peer) e r) l' := by
  obtain ⟨hlimit, hwindow⟩ := hstep.config
  refine ⟨hlimit.trans h.rateLimit, hwindow.trans h.reach, ?_⟩
  intro peer
  have htracks := h.tracks peer
  cases hstep with
  | passed peer' now' hroom =>
      obtain rfl : now' = now := hnow now' (List.mem_singleton.mpr rfl)
      rw [h.rateLimit, h.reach] at hroom
      rw [entry_insert, acceptedWith, h.reach]
      split
      · rename_i hpeer
        obtain rfl := hpeer
        exact htracks.accept hroom
      · exact htracks
  | rejected peer' now' hfull =>
      obtain rfl : now' = now := hnow now' (List.mem_singleton.mpr rfl)
      rw [entry_insert, acceptedWith, h.reach]
      · split
        · rename_i hpeer
          obtain rfl := hpeer
          exact htracks.reject
        · exact htracks
      · simp
  | peerCleared peer' =>
      rw [entry_clearPeer, acceptedWith]
      split
      · exact .none _ _ _
      · exact htracks
  | allCleared => exact .none _ _ _

/-- After a run whose readings do not decrease, the queues track the accepted calls, at any
reading from then on. -/
theorem run_limits {calls : List (RateLimiterCall PeerId)}
    (h : (rateLimiterMachine PeerId).Run (.withWindow limit window) calls l)
    (hclock : (calls.flatMap fun c => c.event.times).Pairwise (· ≤ ·))
    (hnow : ∀ t ∈ calls.flatMap fun c => c.event.times, t ≤ now) :
    Limits limit window now (fun peer => accepted peer calls) l := by
  induction h generalizing now with
  | start => exact limits_withWindow limit window now
  | @call calls c _ hmakes ih =>
      rw [List.flatMap_append, List.flatMap_singleton] at hclock hnow
      obtain ⟨hbefore, _, hpast⟩ := List.pairwise_append.mp hclock
      have haccepted : (fun peer => accepted peer (calls ++ [c])) =
          fun peer => acceptedWith peer (accepted peer calls) c.event c.result := by
        funext peer
        rw [accepted, List.foldl_append]
        rfl
      have hstep := rateLimiterMachine_makes_iff.mp hmakes
      rw [haccepted]
      cases he : c.event with
      | checkRateLimit peer now' =>
          rw [he] at hpast hnow hstep
          have hpre := ih hbefore fun t ht => hpast t ht now' (List.mem_singleton.mpr rfl)
          have hpost := hpre.step hstep fun t ht => List.mem_singleton.mp ht
          exact hpost.later (hnow now' (List.mem_append_right _ (List.mem_singleton.mpr rfl)))
      | clearPeer peer =>
          rw [he] at hstep
          have hpre := ih hbefore fun t ht => hnow t (List.mem_append_left _ ht)
          exact hpre.step hstep fun t ht => absurd ht List.not_mem_nil
      | clearAll =>
          rw [he] at hstep
          have hpre := ih hbefore fun t ht => hnow t (List.mem_append_left _ ht)
          exact hpre.step hstep fun t ht => absurd ht List.not_mem_nil

/-! ## The answers to one peer -/

/-- The event is about the peer. -/
def RateLimiterEvent.concerns (peer : PeerId) : RateLimiterEvent PeerId → Bool
  | .checkRateLimit peer' _ => decide (peer = peer')
  | .clearPeer peer' => decide (peer = peer')
  | .clearAll => true

/-- The part of the limiter on which its answers to the peer rest. -/
def own (peer : PeerId) (l : RateLimiter PeerId) : UInt32 × Duration × List Instant :=
  (l.rateLimit, l.window, l.entry peer)

/-- How that part answers the events about the peer. -/
def answerOwn (peer : PeerId) : UInt32 × Duration × List Instant → RateLimiterEvent PeerId →
    RateLimiterResult × UInt32 × Duration × List Instant
  | (limit, window, queue), .checkRateLimit _ now =>
      if (expire window now queue).length < limit.toNat then
        (.checked (.ok ()), limit, window, expire window now queue ++ [now])
      else (.checked (.error (.rateLimitExceeded (toString peer))), limit, window,
        expire window now queue)
  | (limit, window, _), _ => (.cleared, limit, window, [])

theorem RateLimiterStep.own {e : RateLimiterEvent PeerId} {r : RateLimiterResult}
    (h : RateLimiterStep l e r l') (hconcerns : e.concerns peer) :
    answerOwn peer (own peer l) e = (r, own peer l') := by
  cases h with
  | passed peer' now hroom =>
      obtain rfl : peer = peer' := of_decide_eq_true hconcerns
      simp only [Security.own, answerOwn, hroom, if_true, entry_insert]
  | rejected peer' now hfull =>
      obtain rfl : peer = peer' := of_decide_eq_true hconcerns
      simp only [Security.own, answerOwn, Nat.not_lt.mpr hfull, if_false, if_true, entry_insert]
  | peerCleared peer' =>
      obtain rfl : peer = peer' := of_decide_eq_true hconcerns
      rw [Security.own, Security.own, entry_clearPeer, if_pos rfl]
      rfl
  | allCleared => rfl

theorem RateLimiterStep.own_unchanged {e : RateLimiterEvent PeerId} {r : RateLimiterResult}
    (h : RateLimiterStep l e r l') (hconcerns : ¬ e.concerns peer) :
    Security.own peer l' = Security.own peer l := by
  cases h with
  | passed peer' now hroom =>
      have hpeer : peer ≠ peer' := fun hpeer => hconcerns (decide_eq_true hpeer)
      rw [Security.own, entry_insert, if_neg hpeer]
      rfl
  | rejected peer' now hfull =>
      have hpeer : peer ≠ peer' := fun hpeer => hconcerns (decide_eq_true hpeer)
      rw [Security.own, entry_insert, if_neg hpeer]
      rfl
  | peerCleared peer' =>
      have hpeer : peer ≠ peer' := fun hpeer => hconcerns (decide_eq_true hpeer)
      rw [Security.own, entry_clearPeer, if_neg hpeer]
      rfl
  | allCleared => exact absurd rfl hconcerns

/-- The calls about one peer. -/
def concerning (peer : PeerId) (calls : List (RateLimiterCall PeerId)) :
    List (RateLimiterCall PeerId) :=
  calls.filter fun c => c.event.concerns peer

theorem run_own {calls : List (RateLimiterCall PeerId)}
    (h : (rateLimiterMachine PeerId).Run (.withWindow limit window) calls l) (peer : PeerId) :
    (Machine.replay (answerOwn peer) (limit, window, [])
      ((concerning peer calls).map Call.event)).1 = (concerning peer calls).map Call.result := by
  have hreplay := h.replay_own (p := fun e => e.concerns peer)
    (fun c hmakes hown => (rateLimiterMachine_makes_iff.mp hmakes).own hown)
    (fun c hmakes hown => (rateLimiterMachine_makes_iff.mp hmakes).own_unchanged hown)
  exact congrArg Prod.fst hreplay

/-- A check lets a message through exactly when fewer than the limit of those let through since
the peer was last cleared lie within the window. So no interval as long as the window holds
more of them than the limit, nor does the queue, and only the events about a peer decide what
the peer is answered. -/
theorem sliding_window_exact {calls : List (RateLimiterCall PeerId)}
    (h : (rateLimiterMachine PeerId).Run (.withWindow limit window) calls l)
    (hclock : (calls.flatMap fun c => c.event.times).Pairwise (· ≤ ·)) :
    (∀ before c after peer now, calls = before ++ c :: after →
      c.event = .checkRateLimit peer now →
        (c.result = .checked (.ok ()) ↔ (accepted peer before).countP
          (fun t => decide (now ≤ t + window ∧ t ≤ now)) < limit.toNat)) ∧
      (∀ peer start, (accepted peer calls).countP
        (fun t => decide (start ≤ t ∧ t ≤ start + window)) ≤ limit.toNat) ∧
      (∀ peer, l.getMessageCount peer ≤ limit.toNat) ∧
      ∀ peer calls' l',
        (rateLimiterMachine PeerId).Run (.withWindow limit window) calls' l' →
        (concerning peer calls).map Call.event = (concerning peer calls').map Call.event →
          (concerning peer calls).map Call.result = (concerning peer calls').map Call.result := by
  obtain ⟨last, hlast⟩ := (calls.flatMap fun c => c.event.times).toFinset.exists_le
  have hlimits := run_limits h hclock fun t ht => hlast t (List.mem_toFinset.mpr ht)
  refine ⟨?_, ?_, ?_, ?_⟩
  · intro before c after peer now hcalls he
    obtain ⟨hrun, hmakes⟩ := h.split hcalls
    have hstep := rateLimiterMachine_makes_iff.mp hmakes
    rw [hcalls, List.flatMap_append, List.flatMap_cons, he] at hclock
    obtain ⟨hbefore, _, hpast⟩ := List.pairwise_append.mp hclock
    have hthen := run_limits hrun hbefore fun t ht => hpast t ht now List.mem_cons_self
    have htracks := hthen.tracks peer
    rw [he] at hstep
    rw [hstep.ok_iff, hthen.rateLimit, hthen.reach, htracks.length_expire_eq,
      countFrom_window htracks.past]
  · intro peer start
    exact (hlimits.tracks peer).admitted.countFrom_le start
  · intro peer
    rw [getMessageCount_eq]
    exact (hlimits.tracks peer).length_le
  · intro peer calls' l' h' hevents
    rw [← run_own h peer, ← run_own h' peer, hevents]

/-- Of three messages of one peer the second comes while the first is still in the window. -/
theorem sliding_window_exact_plain :
    ∃ calls l, (rateLimiterMachine ℕ).Run (.withWindow 1 10) calls l ∧
      calls.map Call.result = [.checked (.ok ()), .checked (.error (.rateLimitExceeded "7")),
        .checked (.ok ())] ∧ ∀ peer, l.getMessageCount peer ≤ 1 := by
  have hrun := (((Machine.Run.start (M := rateLimiterMachine ℕ)
    (s := .withWindow 1 10)).of_step (e := .checkRateLimit 7 0) rfl).of_step
      (e := .checkRateLimit 7 10) rfl).of_step (e := .checkRateLimit 7 11) rfl
  have hexact := sliding_window_exact hrun (by decide)
  exact ⟨_, _, hrun, rfl, hexact.2.2.1⟩

end Security

end SilverNetwork
