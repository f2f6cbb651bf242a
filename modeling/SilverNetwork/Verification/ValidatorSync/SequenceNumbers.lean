import Mathlib.Data.List.Chain
import SilverNetwork.Model.ValidatorEnvelope

/-! The sequence numbers that two functions draw from one counter. Each draw moves the counter on
by one, but one function hands out the number before the move and the other the number after it,
so that the two may hand out the same number. -/

namespace SilverNetwork

namespace ValidatorSync

variable {checks : OverflowChecks} {draw : SequenceDraw} {s s' number : UInt64}
  {calls : List SequenceCall}

/-- By how much the number that is handed out is ahead of the counter. -/
def SequenceDraw.ahead : SequenceDraw → ℕ
  | .sendMessageReal => 0
  | .nextSequence => 1

theorem sequenceStep_counts (h : sequenceStep checks s draw = some (number, s'))
    (hroom : s.toNat + 1 < 2 ^ 64) :
    s'.toNat = s.toNat + 1 ∧ number.toNat = s.toNat + draw.ahead := by
  cases draw with
  | sendMessageReal =>
      obtain ⟨rfl, rfl⟩ := Prod.mk.inj (Option.some.inj h)
      simp only [Saturating.toNat_add64, UInt64.toNat_one, SequenceDraw.ahead, Nat.add_zero,
        and_true]
      omega
  | nextSequence =>
      obtain ⟨advanced, hadd, hpair⟩ := Option.map_eq_some_iff.mp h
      obtain ⟨rfl, rfl⟩ := Prod.mk.inj hpair
      have hsum := OverflowChecks.toNat_of_add hadd fun _ => hroom
      exact ⟨hsum, hsum⟩

/-- The counter counts the draws. -/
theorem run_counts (h : (sequenceMachine checks).Run 0 calls s) (hfew : calls.length < 2 ^ 64) :
    s.toNat = calls.length := by
  induction h with
  | start => rfl
  | @call calls c _ hmakes ih =>
      rw [List.length_append, List.length_singleton] at hfew ⊢
      have hpre := ih (by omega)
      rw [(sequenceStep_counts hmakes (by omega)).1, hpre]

/-- A draw hands out its place in the order, or the one after it. -/
theorem run_hands_out (h : (sequenceMachine checks).Run 0 calls s) (hfew : calls.length < 2 ^ 64)
    {before after : List SequenceCall} {c : SequenceCall} (hc : calls = before ++ c :: after) :
    c.result.toNat = before.length + c.event.ahead := by
  obtain ⟨hrun, hmakes⟩ := h.split hc
  have hlength : calls.length = before.length + (after.length + 1) := by simp [hc]
  have hpre := run_counts hrun (by omega)
  rw [(sequenceStep_counts hmakes (by omega)).2, hpre]

/-- Two relations that agree on neighbours have the same chains. -/
theorem isChain_congr {α : Type} {R S : α → α → Prop} {l : List α}
    (hagree : ∀ a b, [a, b] <:+: l → (R a b ↔ S a b)) : l.IsChain R ↔ l.IsChain S := by
  induction l with
  | nil => simp
  | cons a l ih =>
      cases l with
      | nil => simp
      | cons b l =>
          have hhead := hagree a b ⟨[], l, rfl⟩
          have htail := ih fun x y hxy => hagree x y (hxy.trans (List.suffix_cons a _).isInfix)
          rw [List.isChain_cons_cons, List.isChain_cons_cons, hhead, htail]

/-- The numbers are new and increase from draw to draw exactly where no `send_message_real` draws
next after a `next_sequence`. -/
theorem draws_increasing_iff (h : (sequenceMachine checks).Run 0 calls s)
    (hfew : calls.length < 2 ^ 64) :
    (calls.map Call.result).Nodup ∧ (calls.map Call.result).Pairwise (· < ·) ↔
      calls.IsChain fun c d => ¬ (c.event = .nextSequence ∧ d.event = .sendMessageReal) := by
  have hneighbours : calls.IsChain (fun c d => c.result < d.result) ↔
      calls.IsChain fun c d => ¬ (c.event = .nextSequence ∧ d.event = .sendMessageReal) := by
    apply isChain_congr
    rintro c d ⟨before, after, hcalls⟩
    have hfirst : calls = before ++ c :: d :: after := by simp [← hcalls]
    have hsecond : calls = (before ++ [c]) ++ d :: after := by simp [← hcalls]
    rw [UInt64.lt_iff_toNat_lt, run_hands_out h hfew hfirst, run_hands_out h hfew hsecond,
      List.length_append, List.length_singleton]
    cases c.event <;> cases d.event <;>
      simp only [SequenceDraw.ahead, reduceCtorEq, and_self, and_false, false_and, not_true_eq_false,
        not_false_eq_true, iff_true, iff_false] <;>
      omega
  have hdistinct : (calls.map Call.result).Pairwise (· < ·) → (calls.map Call.result).Nodup :=
    List.Pairwise.imp fun hlt => UInt64.ne_of_lt hlt
  rw [and_iff_right_of_imp hdistinct, ← List.isChain_iff_pairwise, List.isChain_map, hneighbours]

theorem draws_increasing_iff_plain : ∃ calls s, (sequenceMachine .on).Run 0 calls s ∧
    (calls.map Call.result).Nodup ∧ (calls.map Call.result).Pairwise (· < ·) := by
  have hrun := Machine.Run.start.of_step (M := sequenceMachine .on) (s := 0)
    (e := .sendMessageReal) rfl |>.of_step (e := .nextSequence) rfl
  exact ⟨_, _, hrun, (draws_increasing_iff hrun (by decide)).mpr (by simp)⟩

/-- A number that was handed out by one function is handed out again by the other. -/
theorem draws_repeat : ¬ ∀ (checks : OverflowChecks) (calls : List SequenceCall) (s : UInt64),
    (sequenceMachine checks).Run 0 calls s → calls.length < 2 ^ 64 →
      (calls.map Call.result).Nodup ∧ (calls.map Call.result).Pairwise (· < ·) := by
  intro hall
  have hrun := Machine.Run.start.of_step (M := sequenceMachine .on) (s := 0)
    (e := .nextSequence) rfl |>.of_step (e := .sendMessageReal) rfl
  have hnodup := (hall _ _ _ hrun (by decide)).1
  revert hnodup
  decide

end ValidatorSync

end SilverNetwork
