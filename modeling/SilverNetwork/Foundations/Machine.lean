import Mathlib.Data.List.Forall2
import Mathlib.Data.List.Induction

/-! Deterministic machines driven by calls, the runs they make, and the rules by
which a fact about one call becomes a fact about every run. A call that does not
return has no successor, so no run continues past it. -/

namespace SilverNetwork

/-- Some entry of the log satisfies `p`, and all the entries since then satisfy `q`. -/
def Since {α : Type*} (p q : α → Prop) (log : List α) : Prop :=
  ∃ before x after, log = before ++ x :: after ∧ p x ∧ ∀ y ∈ after, q y

namespace Since

variable {α : Type*} {p p' q : α → Prop} {log : List α} {x : α}

theorem last (h : p x) : Since p q (log ++ [x]) := ⟨log, x, [], rfl, h, by simp⟩

@[simp] theorem not_nil : ¬ Since p q ([] : List α) := by
  rintro ⟨before, x, after, h, -⟩
  simp at h

theorem concat (h : Since p q log) (hx : q x) : Since p q (log ++ [x]) := by
  obtain ⟨before, y, after, rfl, hy, hafter⟩ := h
  refine ⟨before, y, after ++ [x], by simp, hy, ?_⟩
  exact List.forall_mem_append.mpr ⟨hafter, List.forall_mem_singleton.mpr hx⟩

theorem concat_iff : Since p q (log ++ [x]) ↔ p x ∨ Since p q log ∧ q x := by
  constructor
  · rintro ⟨before, y, after, hlog, hy, hafter⟩
    rcases List.eq_nil_or_concat after with rfl | ⟨rest, last, rfl⟩
    · obtain ⟨-, hx⟩ := List.append_inj' hlog rfl
      obtain rfl : x = y := by simpa using hx
      exact .inl hy
    · rw [List.concat_eq_append, ← List.cons_append, ← List.append_assoc] at hlog
      obtain ⟨rfl, hx⟩ := List.append_inj' hlog rfl
      obtain rfl : x = last := by simpa using hx
      exact .inr ⟨⟨before, y, rest, rfl, hy, fun z hz => hafter z (by simp [hz])⟩,
        hafter x (by simp)⟩
  · rintro (hx | ⟨h, hx⟩)
    · exact .last hx
    · exact h.concat hx

theorem mono (h : Since p q log) (hp : ∀ x, p x → p' x) : Since p' q log := by
  obtain ⟨before, y, after, hlog, hy, hafter⟩ := h
  exact ⟨before, y, after, hlog, hp y hy, hafter⟩

end Since

/-- A machine answers an event with a result and its next state, or does not
return. Readings of the outside world belong to the event. -/
structure Machine (σ ε ρ : Type*) where
  step : σ → ε → Option (ρ × σ)

/-- One completed call of a run, with the states on both sides of it. -/
structure Call (σ ε ρ : Type*) where
  pre : σ
  event : ε
  result : ρ
  post : σ

namespace Machine

variable {σ ε ρ η : Type*}

def Makes (M : Machine σ ε ρ) (c : Call σ ε ρ) : Prop :=
  M.step c.pre c.event = some (c.result, c.post)

/-- `M.Run s calls t`: making `calls` one after the other leads from `s` to `t`. -/
inductive Run (M : Machine σ ε ρ) (s : σ) : List (Call σ ε ρ) → σ → Prop where
  | start : Run M s [] s
  | call {calls : List (Call σ ε ρ)} (c : Call σ ε ρ) :
      Run M s calls c.pre → M.Makes c → Run M s (calls ++ [c]) c.post

variable {M : Machine σ ε ρ} {s t : σ} {calls : List (Call σ ε ρ)}

theorem Run.of_step {e : ε} {r : ρ} {u : σ} (h : M.Run s calls t)
    (hs : M.step t e = some (r, u)) : M.Run s (calls ++ [⟨t, e, r, u⟩]) u :=
  .call ⟨t, e, r, u⟩ h hs

theorem Run.append {u : σ} {more : List (Call σ ε ρ)} (h : M.Run s calls t)
    (hmore : M.Run t more u) : M.Run s (calls ++ more) u := by
  induction hmore with
  | start => simpa using h
  | @call more c _ hmakes ih =>
      rw [← List.append_assoc]
      exact .call c ih hmakes

/-- A run ends where its last call does. -/
theorem Run.last {c : Call σ ε ρ} (h : M.Run s (calls ++ [c]) t) : t = c.post := by
  generalize hc : calls ++ [c] = all at h
  cases h with
  | start => simp at hc
  | call d _ _ =>
      obtain ⟨_, hd⟩ := List.append_inj' hc rfl
      obtain rfl : c = d := by simpa using hd
      rfl

/-- A run splits at each of its calls. -/
theorem Run.split (h : M.Run s calls t) {before after : List (Call σ ε ρ)} {c : Call σ ε ρ}
    (hc : calls = before ++ c :: after) : M.Run s before c.pre ∧ M.Makes c := by
  induction h generalizing after with
  | start => simp at hc
  | @call calls d hrun hmakes ih =>
      rcases List.eq_nil_or_concat after with rfl | ⟨rest, last, rfl⟩
      · obtain ⟨rfl, hd⟩ := List.append_inj' hc rfl
        obtain rfl : d = c := by simpa using hd
        exact ⟨hrun, hmakes⟩
      · rw [List.concat_eq_append, ← List.cons_append, ← List.append_assoc] at hc
        exact ih (List.append_inj' hc rfl).1

/-- A run may be cut anywhere into two. -/
theorem Run.cut {before after : List (Call σ ε ρ)} (h : M.Run s (before ++ after) t) :
    ∃ u, M.Run s before u ∧ M.Run u after t := by
  induction after using List.reverseRecOn generalizing t with
  | nil =>
      rw [List.append_nil] at h
      exact ⟨t, h, .start⟩
  | append_singleton after c ih =>
      rw [← List.append_assoc] at h
      obtain ⟨hrun, hmakes⟩ := h.split rfl
      have ht : t = c.post := h.last
      obtain ⟨u, hbefore, hafter⟩ := ih hrun
      rw [ht]
      exact ⟨u, hbefore, .call c hafter hmakes⟩

theorem Run.makes (h : M.Run s calls t) {c : Call σ ε ρ} (hc : c ∈ calls) : M.Makes c := by
  obtain ⟨before, after, rfl⟩ := List.append_of_mem hc
  exact (h.split rfl).2

/-- Each call of a run is made where some of the run's calls lead. -/
theorem Run.before (h : M.Run s calls t) {c : Call σ ε ρ} (hc : c ∈ calls) :
    ∃ before, M.Run s before c.pre ∧ ∀ c' ∈ before, c' ∈ calls := by
  obtain ⟨before, after, rfl⟩ := List.append_of_mem hc
  exact ⟨before, (h.split rfl).1, fun c' hc' => List.mem_append_left _ hc'⟩

/-- Rules that the machine executes, one of which applies, are what it does. -/
theorem rule_of_execution {Rule : ρ → σ → Prop} {e : ε} {r : ρ}
    (hexecution : ∀ r t, Rule r t → M.step s e = some (r, t)) (happlies : ∃ r t, Rule r t)
    (h : M.step s e = some (r, t)) : Rule r t := by
  obtain ⟨r', t', hrule⟩ := happlies
  obtain ⟨rfl, rfl⟩ := Prod.mk.inj (Option.some.inj ((hexecution r' t' hrule).symm.trans h))
  exact hrule

/-! ## Invariants -/

/-- What holds at the start and survives every call holds at the end of every run. -/
theorem Run.invariant {I : σ → Prop} (h : M.Run s calls t) (hs : I s)
    (step : ∀ c, M.Makes c → I c.pre → I c.post) : I t := by
  induction h with
  | start => exact hs
  | call c _ hmakes ih => exact step c hmakes ih

/-- An invariant that the calls of the run itself keep. -/
theorem Run.invariant_of_mem {I : σ → Prop} (h : M.Run s calls t) (hs : I s)
    (step : ∀ c ∈ calls, M.Makes c → I c.pre → I c.post) : I t := by
  induction h with
  | start => exact hs
  | @call calls c _ hmakes ih =>
      have hpre := ih fun c' hc' => step c' (List.mem_append_left [c] hc')
      exact step c List.mem_concat_self hmakes hpre

/-- Such an invariant holds before each of the calls. -/
theorem Run.invariant_pre {I : σ → Prop} (h : M.Run s calls t) (hs : I s)
    (step : ∀ c ∈ calls, M.Makes c → I c.pre → I c.post) {c : Call σ ε ρ} (hc : c ∈ calls) :
    I c.pre := by
  obtain ⟨before, hrun, hbefore⟩ := h.before hc
  exact hrun.invariant_of_mem hs fun c' hc' => step c' (hbefore c' hc')

/-- A run is no longer than the rank that its calls use up. -/
theorem Run.length_add_rank_le (rank : σ → ℕ) (h : M.Run s calls t)
    (step : ∀ c, M.Makes c → rank c.post < rank c.pre) : calls.length + rank t ≤ rank s := by
  induction h with
  | start => simp
  | call c _ hmakes ih =>
      have hlt := step c hmakes
      rw [List.length_append, List.length_singleton]
      omega

/-- An invariant of the state together with what an observer remembers of the calls. -/
theorem Run.invariant_history {I : η → σ → Prop} {observe : η → Call σ ε ρ → η} {h₀ : η}
    (h : M.Run s calls t) (hs : I h₀ s)
    (step : ∀ past c, M.Makes c → I past c.pre → I (observe past c) c.post) :
    I (calls.foldl observe h₀) t := by
  induction h with
  | start => exact hs
  | call c _ hmakes ih =>
      rw [List.foldl_append]
      exact step _ c hmakes ih

/-- Where `C` is exactly what one call needs to keep `I`, a run keeps `I` in every
state it reaches exactly when each of its calls meets `C`. -/
theorem Run.forall_post_iff {I : σ → Prop} {C : Call σ ε ρ → Prop} (h : M.Run s calls t)
    (hs : I s) (step : ∀ c, M.Makes c → I c.pre → (I c.post ↔ C c)) :
    (∀ c ∈ calls, I c.post) ↔ ∀ c ∈ calls, C c := by
  suffices hmain : ((∀ c ∈ calls, I c.post) ↔ ∀ c ∈ calls, C c) ∧
      ((∀ c ∈ calls, I c.post) → I t) from hmain.1
  induction h with
  | start => simp [hs]
  | call c _ hmakes ih =>
      obtain ⟨hiff, hlast⟩ := ih
      simp only [List.mem_append, List.mem_singleton, or_imp, forall_and, forall_eq]
      refine ⟨?_, fun hall => hall.2⟩
      constructor
      · rintro ⟨hpost, hc⟩
        exact ⟨hiff.mp hpost, (step c hmakes (hlast hpost)).mp hc⟩
      · rintro ⟨hcalls, hc⟩
        have hpost := hiff.mpr hcalls
        exact ⟨hpost, (step c hmakes (hlast hpost)).mpr hc⟩

/-! ## Two runs -/

variable {σ' ε' ρ' : Type*} {M' : Machine σ' ε' ρ'} {s' t' : σ'} {calls' : List (Call σ' ε' ρ')}

theorem forall₂_concat_left {α β : Type*} {R : α → β → Prop} {l : List α} {a : α} {l' : List β}
    (h : List.Forall₂ R (l ++ [a]) l') :
    ∃ front b, l' = front ++ [b] ∧ List.Forall₂ R l front ∧ R a b := by
  rw [← List.forall₂_reverse_iff, List.reverse_append] at h
  obtain ⟨b, rest, hb, hrest, hl'⟩ := List.forall₂_cons_left_iff.mp h
  refine ⟨rest.reverse, b, ?_, ?_, hb⟩
  · rw [← List.reverse_reverse l', hl', List.reverse_cons]
  · rwa [← List.forall₂_reverse_iff, List.reverse_reverse]

/-- Two runs whose events correspond call by call give corresponding results, if every pair
of corresponding calls made in corresponding states does. -/
theorem Run.correspond {R : σ → σ' → Prop} {E : ε → ε' → Prop} {Q : ρ → ρ' → Prop}
    (h : M.Run s calls t) (h' : M'.Run s' calls' t') (hs : R s s')
    (hevents : List.Forall₂ (fun c c' => E c.event c'.event) calls calls')
    (step : ∀ c c', M.Makes c → M'.Makes c' → R c.pre c'.pre → E c.event c'.event →
      Q c.result c'.result ∧ R c.post c'.post) :
    List.Forall₂ (fun c c' => Q c.result c'.result) calls calls' ∧ R t t' := by
  induction h generalizing calls' t' with
  | start =>
      cases h' with
      | start => exact ⟨.nil, hs⟩
      | call => simpa using hevents.length_eq
  | @call calls c _ hmakes ih =>
      cases h' with
      | start => simpa using hevents.length_eq
      | @call calls' c' hrun' hmakes' =>
          obtain ⟨front, last, hcalls', hfront, hevent⟩ := forall₂_concat_left hevents
          obtain ⟨rfl, hlast'⟩ := List.append_inj' hcalls' rfl
          obtain rfl : c' = last := by simpa using hlast'
          obtain ⟨hresults, hlast⟩ := ih hrun' hfront
          obtain ⟨hresult, hpost⟩ := step c c' hmakes hmakes' hlast hevent
          exact ⟨List.rel_append hresults (.cons hresult .nil), hpost⟩

/-- A machine that can answer events corresponding to those of a run, from states related to
the run's own, has a run of its own with these events, related to the first call by call. -/
theorem Run.follow {R : σ → σ' → Prop} {E : ε → ε' → Prop} {Q : ρ → ρ' → Prop}
    (h : M.Run s calls t) (hs : R s s') {events : List ε'}
    (hevents : List.Forall₂ (fun c e' => E c.event e') calls events)
    (step : ∀ before c after u e', calls = before ++ c :: after → R c.pre u → E c.event e' →
      ∃ r' u', M'.step u e' = some (r', u') ∧ Q c.result r' ∧ R c.post u') :
    ∃ calls' t', M'.Run s' calls' t' ∧ calls'.map Call.event = events ∧
      List.Forall₂ (fun c c' => Q c.result c'.result ∧ R c.post c'.post) calls calls' ∧
      R t t' := by
  induction h generalizing events with
  | start =>
      obtain rfl := List.forall₂_nil_left_iff.mp hevents
      exact ⟨[], s', .start, rfl, .nil, hs⟩
  | @call calls c _ _ ih =>
      obtain ⟨front, e', rfl, hfront, hevent⟩ := forall₂_concat_left hevents
      obtain ⟨calls', u, hrun, hmap, hcalls, hrelated⟩ := ih hfront fun before d after v e h =>
        step before d (after ++ [c]) v e (by simp [h])
      obtain ⟨r', u', hstep, hresult, hpost⟩ := step calls c [] u e' rfl hrelated hevent
      exact ⟨_, u', hrun.of_step hstep, by simp [hmap],
        List.rel_append hcalls (.cons ⟨hresult, hpost⟩ .nil), hpost⟩

/-- A machine that can answer each event of a run as the run does, from states related to its
own, has a run of its own with the same events and results. -/
theorem Run.simulate {M' : Machine σ' ε ρ} {R : σ → σ' → Prop} (h : M.Run s calls t)
    (hs : R s s') (step : ∀ c ∈ calls, ∀ u, M.Makes c → R c.pre u →
      ∃ u', M'.step u c.event = some (c.result, u') ∧ R c.post u') :
    ∃ calls' t', M'.Run s' calls' t' ∧ calls'.map Call.event = calls.map Call.event ∧
      calls'.map Call.result = calls.map Call.result ∧ R t t' := by
  have hevents : List.Forall₂ (fun c e' => c.event = e') calls (calls.map Call.event) := by
    simp [List.forall₂_map_right_iff, List.forall₂_same]
  have hanswers : ∀ before c after u e', calls = before ++ c :: after → R c.pre u →
      c.event = e' → ∃ r' u', M'.step u e' = some (r', u') ∧ c.result = r' ∧ R c.post u' := by
    rintro before c after u _ hcut hpre rfl
    have hc : c ∈ calls := by simp [hcut]
    obtain ⟨u', hstep, hpost⟩ := step c hc u (h.makes hc) hpre
    exact ⟨c.result, u', hstep, rfl, hpost⟩
  obtain ⟨calls', t', hrun, hmap, hcalls, hrelated⟩ := h.follow hs hevents hanswers
  refine ⟨calls', t', hrun, hmap, ?_, hrelated⟩
  rw [← List.forall₂_eq_eq_eq, List.forall₂_map_left_iff, List.forall₂_map_right_iff]
  exact (hcalls.imp fun c c' hcall => hcall.1.symm).flip

/-! ## Part of a machine -/

/-- The results of the events, one after the other, for a part of the state that answers them
by itself, and what that part is in the end. -/
def replay {π : Type*} (f : π → ε → ρ × π) : π → List ε → List ρ × π
  | part, [] => ([], part)
  | part, e :: events =>
      let answer := f part e
      let rest := replay f answer.2 events
      (answer.1 :: rest.1, rest.2)

theorem replay_concat {π : Type*} (f : π → ε → ρ × π) (part : π) (events : List ε) (e : ε) :
    replay f part (events ++ [e]) =
      ((replay f part events).1 ++ [(f (replay f part events).2 e).1],
        (f (replay f part events).2 e).2) := by
  induction events generalizing part with
  | nil => rfl
  | cons e' events ih => simp [replay, ih]

/-- A part of the state that some events move by themselves, and all others leave alone,
answers these events as if the others were not there. -/
theorem Run.replay_own {π : Type*} {view : σ → π} {f : π → ε → ρ × π} {p : ε → Bool}
    (h : M.Run s calls t)
    (hown : ∀ c, M.Makes c → p c.event → f (view c.pre) c.event = (c.result, view c.post))
    (hother : ∀ c, M.Makes c → ¬ p c.event → view c.post = view c.pre) :
    replay f (view s) ((calls.filter fun c => p c.event).map Call.event) =
      ((calls.filter fun c => p c.event).map Call.result, view t) := by
  induction h with
  | start => rfl
  | @call calls c _ hmakes ih =>
      rw [List.filter_append, List.map_append, List.map_append]
      by_cases hc : p c.event
      · simp only [List.filter_cons_of_pos, List.filter_nil, List.map_cons, List.map_nil, hc]
        rw [replay_concat, ih, hown c hmakes hc]
      · simp only [List.filter_cons_of_neg, List.filter_nil, List.map_nil, List.append_nil, hc,
          not_false_eq_true, Bool.false_eq_true]
        rw [ih, hother c hmakes hc]

end Machine

end SilverNetwork
