import SilverNetwork.Foundations.Interleaving

/-! Reasoning about interleaved programs one at a time. What a program keeps to, whatever the
others may do to the state between its actions, it keeps to in every run. -/

namespace SilverNetwork

namespace SharedObject

variable {σ ε δ κ Op ρ ρ' Act : Type} {Answer : Act → Type} [DecidableEq κ]
  {O : SharedObject σ ε δ Op ρ Act Answer} {x y : Concurrent σ κ Op ρ Act Answer}

/-! ## One program among others -/

variable {R : σ → σ → Prop} {Q : Act → σ → Prop} {s t : σ}

/-- The program does each of its actions where `Q` allows it, if between its actions the state
changes only as `R` says. -/
def Sound (O : SharedObject σ ε δ Op ρ Act Answer) (R : σ → σ → Prop) (Q : Act → σ → Prop) :
    AtomicProgram Act Answer ρ' → σ → Prop
  | .ret _, _ => True
  | .act action next, s => ∀ t, R s t → Q action t ∧
      ∀ readings answer u, O.perform action readings t = (some answer, u) →
        Sound O R Q (next answer) u

omit [DecidableEq κ] in
/-- Between two actions nothing is lost of what a program keeps to. -/
theorem Sound.mono [IsTrans σ R] {p : AtomicProgram Act Answer ρ'} (h : O.Sound R Q p s)
    (hst : R s t) : O.Sound R Q p t := by
  cases p with
  | ret result => trivial
  | act action next => exact fun u htu => h u (IsTrans.trans _ _ _ hst htu)

/-- A first action, which is allowed whenever it comes. -/
theorem Sound.once_bind {action : Act} {k : Answer action → AtomicProgram Act Answer ρ'}
    (h : ∀ t, R s t → Q action t)
    (hk : ∀ t readings answer u, R s t → O.perform action readings t = (some answer, u) →
      O.Sound R Q (k answer) u) : O.Sound R Q (AtomicProgram.once action >>= k) s :=
  fun t hst => ⟨h t hst, fun readings answer u => hk t readings answer u hst⟩

theorem Sound.once {action : Act} (h : ∀ t, R s t → Q action t) :
    O.Sound R Q (AtomicProgram.once action) s :=
  fun t hst => ⟨h t hst, fun _ _ _ _ => trivial⟩

/-- An operation that goes on with another one. -/
theorem Sound.bind {ρ'' : Type} {p : AtomicProgram Act Answer ρ'}
    {k : ρ' → AtomicProgram Act Answer ρ''} (h : O.Sound R Q p s)
    (hk : ∀ result t, O.Sound R Q (k result) t) : O.Sound R Q (p >>= k) s := by
  induction p generalizing s with
  | ret result => exact hk result s
  | act action next ih =>
      intro t hst
      obtain ⟨hallowed, hnext⟩ := h t hst
      refine ⟨hallowed, ?_⟩
      intro readings answer u hperform
      exact ih answer (hnext readings answer u hperform)

/-! ## All the programs together -/

/-- Whatever is done, an action that `Q` allows to an operation or the passing of time, is among
the changes `R` that the programs of all operations bear. -/
structure Guarantee (O : SharedObject σ ε δ Op ρ Act Answer) (R : σ → σ → Prop)
    (Q : Op → Act → σ → Prop) : Prop where
  perform : ∀ op action readings s, Q op action s → R s (O.perform action readings s).2
  elapse : ∀ duration s, R s (O.elapse duration s)
  program : ∀ op s, O.Sound R (Q op) (O.program op) s

variable {Q : Op → Act → σ → Prop}

/-- Each caller may go on. -/
def AllSound (O : SharedObject σ ε δ Op ρ Act Answer) (R : σ → σ → Prop)
    (Q : Op → Act → σ → Prop) (x : Concurrent σ κ Op ρ Act Answer) : Prop :=
  ∀ caller thread, x.threads caller = some thread → O.Sound R (Q thread.op) thread.rest x.shared

omit [DecidableEq κ] in
/-- What is done next is allowed. -/
theorem AllSound.due [Std.Refl R] (h : O.AllSound R Q x) {caller : κ}
    {thread : Thread σ Op ρ Act Answer} {action : Act}
    {next : Answer action → AtomicProgram Act Answer ρ} (hbusy : x.threads caller = some thread)
    (hdue : thread.rest = .act action next) :
    Q thread.op action x.shared ∧ ∀ readings answer s,
      O.perform action readings x.shared = (some answer, s) →
        O.Sound R (Q thread.op) (next answer) s := by
  have hsound := h caller thread hbusy
  rw [hdue] at hsound
  exact hsound x.shared (refl_of R x.shared)

omit [DecidableEq κ] in
theorem AllSound.mono [IsTrans σ R] (h : O.AllSound R Q x) (hst : R x.shared s) :
    O.AllSound R Q { x with shared := s } :=
  fun caller thread hbusy => (h caller thread hbusy).mono hst

theorem AllSound.resume [IsTrans σ R] (h : O.AllSound R Q x) (hst : R x.shared s) (caller : κ)
    {rest : Option (Thread σ Op ρ Act Answer)}
    (hrest : ∀ thread, rest = some thread → O.Sound R (Q thread.op) thread.rest s) :
    O.AllSound R Q (x.resume caller s rest) :=
  Concurrent.forall_resume hrest fun caller' thread _ hbusy => (h caller' thread hbusy).mono hst

variable [IsPreorder σ R] {e : ConcurrentEvent ε δ κ Op} {r : Progress ρ}

theorem Guarantee.step (h : O.Guarantee R Q) (hsound : O.AllSound R Q x)
    (hrule : Rule O x e r y) : R x.shared y.shared ∧ O.AllSound R Q y := by
  cases hrule with
  | call caller op idle =>
      have hst : R x.shared x.shared := refl_of R x.shared
      refine ⟨hst, hsound.resume hst caller ?_⟩
      rintro thread ⟨⟩
      exact h.program op x.shared
  | act caller readings thread action next answer s busy due performs =>
      obtain ⟨hallowed, hnext⟩ := hsound.due busy due
      have hst := h.perform thread.op action readings x.shared hallowed
      rw [performs] at hst
      refine ⟨hst, hsound.resume hst caller ?_⟩
      rintro thread ⟨⟩
      exact hnext readings answer s performs
  | panic caller readings thread action next s busy due performs =>
      obtain ⟨hallowed, _⟩ := hsound.due busy due
      have hst := h.perform thread.op action readings x.shared hallowed
      rw [performs] at hst
      exact ⟨hst, hsound.resume hst caller (by simp)⟩
  | finish caller readings thread result busy due =>
      have hst : R x.shared x.shared := refl_of R x.shared
      exact ⟨hst, hsound.resume hst caller (by simp)⟩
  | elapse duration =>
      have hst := h.elapse duration x.shared
      exact ⟨hst, hsound.mono hst⟩

/-- In every run the state changes as `R` says, and each caller may go on. -/
theorem Guarantee.run (h : O.Guarantee R Q)
    {calls : List (Call (Concurrent σ κ Op ρ Act Answer) (ConcurrentEvent ε δ κ Op) (Progress ρ))}
    (hrun : (O.machine κ).Run x calls y) (hsound : O.AllSound R Q x) :
    R x.shared y.shared ∧ O.AllSound R Q y := by
  refine hrun.invariant (I := fun y => R x.shared y.shared ∧ O.AllSound R Q y)
    ⟨refl_of R x.shared, hsound⟩ ?_
  rintro c hmakes ⟨hst, hsound⟩
  obtain ⟨hstep, hsound'⟩ := h.step hsound (rule_of_step hmakes)
  exact ⟨IsTrans.trans _ _ _ hst hstep, hsound'⟩

/-! ## What is returned -/

/-- Whatever the others do, the program returns only what `P` allows where it returns. -/
def Returns (O : SharedObject σ ε δ Op ρ Act Answer) (R : σ → σ → Prop) (P : ρ' → σ → Prop) :
    AtomicProgram Act Answer ρ' → σ → Prop
  | .ret result, s => ∀ t, R s t → P result t
  | .act action next, s => ∀ t, R s t → ∀ readings answer u,
      O.perform action readings t = (some answer, u) → Returns O R P (next answer) u

omit [DecidableEq κ] [IsPreorder σ R] in
theorem Returns.mono [IsTrans σ R] {P : ρ' → σ → Prop} {p : AtomicProgram Act Answer ρ'}
    (h : O.Returns R P p s) (hst : R s t) : O.Returns R P p t := by
  cases p with
  | ret result => exact fun u htu => h u (IsTrans.trans _ _ _ hst htu)
  | act action next => exact fun u htu => h u (IsTrans.trans _ _ _ hst htu)

omit [DecidableEq κ] [IsPreorder σ R] in
theorem Returns.of_forall {P : ρ' → σ → Prop} {p : AtomicProgram Act Answer ρ'}
    (h : ∀ result t, P result t) : O.Returns R P p s := by
  induction p generalizing s with
  | ret result => exact fun t _ => h result t
  | act action next ih => exact fun _ _ _ answer _ _ => ih answer

omit [DecidableEq κ] [IsPreorder σ R] in
/-- A first action, with what is known of its answer. -/
theorem Returns.once_bind {P : ρ' → σ → Prop} {action : Act}
    {k : Answer action → AtomicProgram Act Answer ρ'}
    (hk : ∀ t readings answer u, R s t → O.perform action readings t = (some answer, u) →
      O.Returns R P (k answer) u) : O.Returns R P (AtomicProgram.once action >>= k) s :=
  fun t hst readings answer u => hk t readings answer u hst

/-- Each caller returns only what its operation allows, for the state that it was called in. -/
def AllReturn (O : SharedObject σ ε δ Op ρ Act Answer) (R : σ → σ → Prop)
    (P : Op → σ → ρ → σ → Prop) (x : Concurrent σ κ Op ρ Act Answer) : Prop :=
  ∀ caller thread, x.threads caller = some thread →
    O.Returns R (P thread.op thread.calledIn) thread.rest x.shared

theorem AllReturn.resume {P : Op → σ → ρ → σ → Prop} (h : O.AllReturn R P x) (hst : R x.shared s)
    (caller : κ) {rest : Option (Thread σ Op ρ Act Answer)}
    (hrest : ∀ thread, rest = some thread →
      O.Returns R (P thread.op thread.calledIn) thread.rest s) :
    O.AllReturn R P (x.resume caller s rest) :=
  Concurrent.forall_resume hrest fun caller' thread _ hbusy => (h caller' thread hbusy).mono hst

theorem AllReturn.step {P : Op → σ → ρ → σ → Prop} (h : O.AllReturn R P x)
    (hprogram : ∀ op s, O.Returns R (P op s) (O.program op) s) (hst : R x.shared y.shared)
    (hrule : Rule O x e r y) : O.AllReturn R P y := by
  cases hrule with
  | call caller op idle =>
      refine h.resume hst caller ?_
      rintro thread ⟨⟩
      exact hprogram op x.shared
  | act caller readings thread action next answer s busy due performs =>
      refine h.resume hst caller ?_
      rintro thread' ⟨⟩
      have hthread := h caller thread busy
      rw [due] at hthread
      exact hthread x.shared (refl_of R x.shared) readings answer s performs
  | panic caller | finish caller => exact h.resume hst caller (by simp)
  | elapse duration => exact fun caller thread hbusy => (h caller thread hbusy).mono hst

/-- In a run that changes the state only as `R` says, whatever is returned is what its operation
allows. -/
theorem run_returned {P : Op → σ → ρ → σ → Prop}
    (hprogram : ∀ op s, O.Returns R (P op s) (O.program op) s)
    {calls : List (Call (Concurrent σ κ Op ρ Act Answer) (ConcurrentEvent ε δ κ Op) (Progress ρ))}
    (hrun : (O.machine κ).Run (.start s) calls y)
    (hst : ∀ c ∈ calls, R c.pre.shared c.post.shared)
    {c : Call (Concurrent σ κ Op ρ Act Answer) (ConcurrentEvent ε δ κ Op) (Progress ρ)}
    (hc : c ∈ calls) {caller : κ} {readings : ε} {thread : Thread σ Op ρ Act Answer} {result : ρ}
    (hevent : c.event = .act caller readings) (hbusy : c.pre.threads caller = some thread)
    (hresult : c.result = .returned result) :
    P thread.op thread.calledIn result c.pre.shared := by
  have hall : O.AllReturn R P c.pre := by
    have hstart : O.AllReturn R P (.start s : Concurrent σ κ Op ρ Act Answer) := by
      intro caller thread hnone
      cases hnone
    exact hrun.invariant_pre hstart (fun d hd hmakes hreturns =>
      hreturns.step hprogram (hst d hd) (rule_of_step hmakes)) hc
  have hrule := rule_of_step (hrun.makes hc)
  rw [hevent, hresult] at hrule
  have hthread := hall caller thread hbusy
  generalize c.post = z at hrule
  cases hrule with
  | finish _ _ thread' result' busy due =>
      obtain rfl := Option.some.inj (hbusy.symm.trans busy)
      rw [due] at hthread
      exact hthread c.pre.shared (refl_of R c.pre.shared)

end SharedObject

end SilverNetwork
