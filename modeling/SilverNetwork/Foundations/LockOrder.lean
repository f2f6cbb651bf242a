import SilverNetwork.Foundations.LockedObject

/-! Reasoning about the locks that a program asks for, and what follows for the callers together:
no deadlock where all of them ask in one order, and no return for one that asks for a guard that it
keeps out itself. -/

namespace SilverNetwork

namespace LockProgram

variable {Λ σ α β : Type}

/-! ## Programs along their locks -/

/-- Where a caller that holds guards asks for one more, what is to be shown of that, given what is
to be shown of the rest. -/
abbrev Ask (Λ : Type) : Type := List Λ → Λ → Prop → Prop

section Along

variable [DecidableEq Λ]

/-- Whatever states the program sees, `ask` holds where it asks for a guard, and `Q` where it is
done, with the guards that are held there. -/
def Along (ask : Ask Λ) (Q : α → List Λ → Prop) : LockProgram Λ σ α → List Λ → Prop
  | .done result, held => Q result held
  | .acquire lock next, held => ask held lock (next.Along ask Q (lock :: held))
  | .release lock next, held => next.Along ask Q (held.erase lock)
  | .step _ next, held => ∀ s, (next s).Along ask Q held

/-- To show more of the rest shows no less of the whole. -/
def Upward (ask : Ask Λ) : Prop := ∀ held lock p q, (p → q) → ask held lock p → ask held lock q

/-- Each guard ranks above those that are held. -/
def ascends (rank : Λ → ℕ) : Ask Λ := fun held lock rest =>
  (∀ lock' ∈ held, rank lock' < rank lock) ∧ rest

/-- The rest matters only if the guard is granted, which those in `kept` are not. -/
def unlessKept (kept : List Λ → Λ → Prop) : Ask Λ := fun held lock rest => ¬ kept held lock → rest

omit [DecidableEq Λ] in
theorem upward_ascends (rank : Λ → ℕ) : Upward (ascends rank) :=
  fun _ _ _ _ hrest h => ⟨h.1, hrest h.2⟩

omit [DecidableEq Λ] in
theorem upward_unlessKept (kept : List Λ → Λ → Prop) : Upward (unlessKept kept) :=
  fun _ _ _ _ hrest h hkept => hrest (h hkept)

variable {ask : Ask Λ} {Q : α → List Λ → Prop} {R : β → List Λ → Prop} {held : List Λ}

theorem Along.mono {Q' : α → List Λ → Prop} (hask : Upward ask) {p : LockProgram Λ σ α}
    (h : p.Along ask Q held) (hQ : ∀ result held, Q result held → Q' result held) :
    p.Along ask Q' held := by
  induction p generalizing held with
  | done result => exact hQ result held h
  | acquire lock next ih => exact hask _ _ _ _ ih h
  | release lock next ih => exact ih h
  | step update next ih => exact fun s => ih s (h s)

theorem Along.bind (hask : Upward ask) {p : LockProgram Λ σ β} {k : β → LockProgram Λ σ α}
    (hp : p.Along ask R held) (hk : ∀ result held, R result held → (k result).Along ask Q held) :
    (p >>= k).Along ask Q held := by
  change (p.bind k).Along ask Q held
  induction p generalizing held with
  | done result => exact hk result held hp
  | acquire lock next ih => exact hask _ _ _ _ ih hp
  | release lock next ih => exact ih hp
  | step update next ih => exact fun s => ih s (hp s)

theorem Along.map (hask : Upward ask) {p : LockProgram Λ σ β} {f : β → α}
    (hp : p.Along ask (fun result => Q (f result)) held) : (f <$> p).Along ask Q held :=
  hp.bind hask fun _ _ hresult => hresult

/-- A guard around a body, which is dropped behind it. -/
theorem Along.guarded (hask : Upward ask) {lock : Λ} {body : LockProgram Λ σ α}
    (h : ask held lock
      (body.Along ask (fun result held => Q result (held.erase lock)) (lock :: held))) :
    (guarded lock body).Along ask Q held :=
  hask _ _ _ _ (fun hbody => hbody.bind hask fun _ _ hresult => hresult) h

/-- The program gives back the guards that it takes. -/
abbrev AlongBalanced (ask : Ask Λ) (p : LockProgram Λ σ α) (held : List Λ) : Prop :=
  p.Along ask (fun _ held' => held' = held) held

theorem AlongBalanced.guarded (hask : Upward ask) {lock : Λ} {body : LockProgram Λ σ α}
    (h : ask held lock (AlongBalanced ask body (lock :: held))) :
    AlongBalanced ask (guarded lock body) held := by
  refine Along.guarded hask (hask _ _ _ _ ?_ h)
  intro hbody
  refine hbody.mono hask ?_
  rintro result held' rfl
  exact List.erase_cons_head lock held

theorem AlongBalanced.bind (hask : Upward ask) {p : LockProgram Λ σ β}
    {k : β → LockProgram Λ σ α} (hp : AlongBalanced ask p held)
    (hk : ∀ result, (k result).Along ask Q held) : (p >>= k).Along ask Q held := by
  refine Along.bind hask hp ?_
  rintro result held' rfl
  exact hk result

theorem AlongBalanced.sequence (hask : Upward ask) {f : β → LockProgram Λ σ α} {xs : List β}
    (h : ∀ x ∈ xs, AlongBalanced ask (f x) held) : AlongBalanced ask (sequence f xs) held := by
  induction xs with
  | nil => rfl
  | cons x xs ih =>
      refine (h x List.mem_cons_self).bind hask fun y => ?_
      exact (ih fun x' hx' => h x' (List.mem_cons_of_mem x hx')).bind hask fun ys => rfl

/-- Nothing is to be shown of a guard that may not be granted. -/
theorem along_unlessKept {kept : List Λ → Λ → Prop} (p : LockProgram Λ σ α) (held : List Λ)
    (hQ : ∀ result held, Q result held) : p.Along (unlessKept kept) Q held := by
  induction p generalizing held with
  | done result => exact hQ result held
  | acquire lock next ih => exact fun _ => ih _
  | release lock next ih => exact ih _
  | step update next ih => exact fun s => ih s _

/-- A loop with an iteration that is never done is never done. -/
theorem Along.sequence_never (hask : Upward ask) {f : β → LockProgram Λ σ α} {x : β} {xs : List β}
    (hx : x ∈ xs) (hnever : (f x).Along ask (fun _ _ => False) held)
    (hothers : ∀ y, AlongBalanced ask (f y) held) :
    (sequence f xs).Along ask (fun _ _ => False) held := by
  induction xs with
  | nil => cases hx
  | cons y ys ih =>
      rcases List.mem_cons.mp hx with rfl | hmem
      · exact hnever.bind hask fun _ _ hnone => hnone.elim
      · exact (hothers y).bind hask fun _ => (ih hmem).bind hask fun _ _ hnone => hnone.elim

end Along

/-! ## Programs of so many steps -/

/-- Whatever states it sees, the program is done after `n` steps, the return among them. -/
def Within : LockProgram Λ σ α → ℕ → Prop
  | _, 0 => False
  | .done _, _ + 1 => True
  | .acquire _ next, n + 1 => next.Within n
  | .release _ next, n + 1 => next.Within n
  | .step _ next, n + 1 => ∀ s, (next s).Within n

theorem Within.pos {p : LockProgram Λ σ α} {n : ℕ} (h : p.Within n) : 0 < n := by
  cases n with
  | zero => cases p <;> exact h.elim
  | succ n => exact Nat.succ_pos n

theorem Within.mono {p : LockProgram Λ σ α} {n m : ℕ} (h : p.Within n) (hle : n ≤ m) :
    p.Within m := by
  induction p generalizing n m with
  | done result =>
      cases n with
      | zero => exact h.elim
      | succ n =>
          obtain ⟨m, rfl⟩ := Nat.exists_eq_add_of_le' (Nat.lt_of_lt_of_le n.succ_pos hle)
          trivial
  | acquire lock next ih | release lock next ih =>
      cases n with
      | zero => exact h.elim
      | succ n =>
          obtain ⟨m, rfl⟩ := Nat.exists_eq_add_of_le' (Nat.lt_of_lt_of_le n.succ_pos hle)
          exact ih h (Nat.le_of_succ_le_succ hle)
  | step update next ih =>
      cases n with
      | zero => exact h.elim
      | succ n =>
          obtain ⟨m, rfl⟩ := Nat.exists_eq_add_of_le' (Nat.lt_of_lt_of_le n.succ_pos hle)
          exact fun s => ih s (h s) (Nat.le_of_succ_le_succ hle)

theorem Within.bind {p : LockProgram Λ σ β} {k : β → LockProgram Λ σ α} {n m : ℕ}
    (hp : p.Within n) (hk : ∀ result, (k result).Within m) : (p >>= k).Within (n + m) := by
  change (p.bind k).Within (n + m)
  induction p generalizing n with
  | done result => exact (hk result).mono (Nat.le_add_left m n)
  | acquire lock next ih | release lock next ih =>
      cases n with
      | zero => exact hp.elim
      | succ n =>
          rw [Nat.succ_add]
          exact ih hp
  | step update next ih =>
      cases n with
      | zero => exact hp.elim
      | succ n =>
          rw [Nat.succ_add]
          exact fun s => ih s (hp s)

theorem Within.guarded {body : LockProgram Λ σ α} {n : ℕ} (h : body.Within n) (lock : Λ) :
    (guarded lock body).Within (n + 3) :=
  Within.bind (m := 2) h fun _ => trivial

end LockProgram

namespace LockedObject

open LockProgram

variable {Λ σ δ κ Op ρ : Type} [DecidableEq κ] [DecidableEq Λ] {O : LockedObject Λ σ δ Op ρ}
  {x y : Contended Λ σ κ ρ} {e : ContendedEvent δ κ Op} {r : Progress ρ} {caller : κ}

/-! ## One caller among others -/

/-- The others neither move a caller on nor touch its guards. -/
theorem Rule.frame (h : Rule O x e r y) (hother : e.caller ≠ some caller) :
    y.threads caller = x.threads caller ∧ heldBy caller y.guards = heldBy caller x.guards := by
  cases h with
  | elapse => exact ⟨rfl, rfl⟩
  | call caller' | update caller' =>
      have hne : caller ≠ caller' := fun h => hother (congrArg some h.symm)
      exact ⟨Function.update_of_ne hne _ _, rfl⟩
  | finish caller' | panic caller' =>
      have hne : caller ≠ caller' := fun h => hother (congrArg some h.symm)
      exact ⟨Function.update_of_ne hne _ _, heldBy_leave_of_ne hne⟩
  | acquire caller' =>
      have hne : caller ≠ caller' := fun h => hother (congrArg some h.symm)
      exact ⟨Function.update_of_ne hne _ _, heldBy_cons_of_ne hne⟩
  | release caller' =>
      have hne : caller ≠ caller' := fun h => hother (congrArg some h.symm)
      exact ⟨Function.update_of_ne hne _ _, heldBy_erase_of_ne hne⟩

/-- Who holds a guard has not returned. -/
def Owned (x : Contended Λ σ κ ρ) : Prop := ∀ g ∈ x.guards, x.threads g.1 ≠ none

omit [DecidableEq Λ] in
theorem Owned.heldBy_eq_nil (h : Owned x) (hidle : x.threads caller = none) :
    heldBy caller x.guards = [] := by
  rw [List.eq_nil_iff_forall_not_mem]
  intro lock hmem
  exact h _ (mem_heldBy.mp hmem) hidle

omit [DecidableEq κ] [DecidableEq Λ] in
theorem owned_start (s : σ) : Owned (.start s : Contended Λ σ κ ρ) := by
  intro g hg
  cases hg

omit [DecidableEq Λ] in
theorem Owned.resume (h : Owned x) {s : σ} {guards : List (κ × Λ)} {rest : LockProgram Λ σ ρ}
    (hguards : ∀ g ∈ guards, g ∈ x.guards ∨ g.1 = caller) :
    Owned (x.resume caller s guards rest) := by
  intro g hg
  simp only [Contended.resume, Function.update_apply]
  split
  · simp
  · rename_i hne
    exact h g ((hguards g hg).resolve_right hne)

omit [DecidableEq Λ] in
theorem Owned.leave (h : Owned x) : Owned (x.leave caller) := by
  intro g hg
  obtain ⟨hmem, hne⟩ := List.mem_filter.mp hg
  simp only [Contended.leave, Function.update_of_ne (of_decide_eq_true hne)]
  exact h g hmem

theorem Rule.owned (h : Rule O x e r y) (howned : Owned x) : Owned y := by
  cases h with
  | elapse => exact howned
  | call | update => exact howned.resume fun g hg => .inl hg
  | finish | panic => exact howned.leave
  | acquire caller lock =>
      refine howned.resume fun g hg => ?_
      rcases List.mem_cons.mp hg with rfl | hg
      · exact .inr rfl
      · exact .inl hg
  | release caller lock => exact howned.resume fun g hg => .inl (List.mem_of_mem_erase hg)

/-- A caller is where its program may be, with its guards. -/
def Follows (ask : Ask Λ) (Q : ρ → List Λ → Prop) (caller : κ) (x : Contended Λ σ κ ρ) : Prop :=
  ∀ rest, x.threads caller = some rest → rest.Along ask Q (heldBy caller x.guards)

variable {ask : Ask Λ} {Q : ρ → List Λ → Prop}

/-- A caller stays with its program if it may go on where it is granted a guard. -/
theorem Rule.follows (h : Rule O x e r y) (howned : Owned x)
    (hcall : ∀ op, e = .call caller op → (O.program op).Along ask Q [])
    (hgrant : ∀ lock p, O.Grants x lock → ask (heldBy caller x.guards) lock p → p)
    (hx : Follows ask Q caller x) : Follows ask Q caller y := by
  by_cases hown : e.caller = some caller
  · intro rest hrest
    cases h with
    | elapse => cases hown
    | call caller' op idle =>
        obtain rfl := Option.some.inj hown
        obtain rfl : _ = rest := by simpa [Contended.resume] using hrest
        rw [Contended.resume, howned.heldBy_eq_nil idle]
        exact hcall op rfl
    | finish caller' | panic caller' =>
        obtain rfl := Option.some.inj hown
        simp [Contended.leave] at hrest
    | acquire caller' lock next due grants =>
        obtain rfl := Option.some.inj hown
        obtain rfl : _ = rest := by simpa [Contended.resume] using hrest
        rw [Contended.resume, heldBy_cons_self]
        exact hgrant lock _ grants (hx _ due)
    | release caller' lock next due =>
        obtain rfl := Option.some.inj hown
        obtain rfl : _ = rest := by simpa [Contended.resume] using hrest
        rw [Contended.resume, heldBy_erase_self]
        exact hx _ due
    | update caller' update next s due =>
        obtain rfl := Option.some.inj hown
        obtain rfl : _ = rest := by simpa [Contended.resume] using hrest
        exact hx _ due x.shared
  · obtain ⟨hthread, hheld⟩ := h.frame hown
    intro rest hrest
    rw [hheld]
    exact hx rest (hthread ▸ hrest)

theorem follows_start (s : σ) : Follows ask Q caller (.start s : Contended Λ σ κ ρ) := by
  intro rest hrest
  cases hrest

/-- What a caller returns is what its program may be done with. -/
theorem Rule.returned {result : ρ} (h : Rule O x (.act caller) (.returned result) y)
    (hx : Follows ask Q caller x) : Q result (heldBy caller x.guards) := by
  cases h with
  | finish _ _ due => exact hx _ due

/-! ## Callers that block themselves -/

/-- The caller waits for a guard that its own guard keeps out. -/
def SelfBlocked (O : LockedObject Λ σ δ Op ρ) (caller : κ) (x : Contended Λ σ κ ρ) : Prop :=
  ∃ lock next, x.threads caller = some (.acquire lock next) ∧
    ∃ lock' ∈ heldBy caller x.guards, O.excludes lock' lock = true

omit [DecidableEq Λ] in
theorem not_grants_of_held {lock lock' : Λ} (hheld : lock' ∈ heldBy caller x.guards)
    (hexcludes : O.excludes lock' lock = true) : ¬ O.Grants x lock := by
  intro hgrants
  have hnot := hgrants _ (mem_heldBy.mp hheld)
  rw [hexcludes] at hnot
  cases hnot

/-- A caller that blocks itself takes no step any more. -/
theorem SelfBlocked.step (h : SelfBlocked O caller x) (hrule : Rule O x e r y) :
    e.caller ≠ some caller ∧ SelfBlocked O caller y ∧
      heldBy caller y.guards = heldBy caller x.guards := by
  obtain ⟨lock, next, hthread, lock', hheld, hexcludes⟩ := h
  have hother : e.caller ≠ some caller := by
    intro hcaller
    cases hrule with
    | elapse => cases hcaller
    | call caller' op idle =>
        obtain rfl := Option.some.inj hcaller
        rw [idle] at hthread
        cases hthread
    | acquire caller' lock next due grants =>
        obtain rfl := Option.some.inj hcaller
        obtain ⟨rfl, _⟩ := LockProgram.acquire.inj (Option.some.inj (hthread.symm.trans due))
        exact not_grants_of_held hheld hexcludes grants
    | finish caller' _ due | release caller' _ _ due | update caller' _ _ _ due
    | panic caller' _ _ due =>
        obtain rfl := Option.some.inj hcaller
        cases hthread.symm.trans due
  obtain ⟨hsame, hguards⟩ := hrule.frame hother
  exact ⟨hother, ⟨lock, next, hsame.trans hthread, lock', hguards ▸ hheld, hexcludes⟩, hguards⟩

/-- The guard is not granted any more, as it is kept out by a caller that blocks itself. -/
structure Hogged (O : LockedObject Λ σ δ Op ρ) (holder : κ) (lock : Λ)
    (x : Contended Λ σ κ ρ) : Prop where
  owned : Owned x
  blocked : SelfBlocked O holder x
  kept : ∃ lock' ∈ heldBy holder x.guards, O.excludes lock' lock = true

variable {holder : κ} {lock : Λ}

theorem Hogged.step (h : Hogged O holder lock x) (hrule : Rule O x e r y) :
    Hogged O holder lock y := by
  obtain ⟨_, hblocked, hguards⟩ := h.blocked.step hrule
  obtain ⟨lock', hheld, hexcludes⟩ := h.kept
  exact ⟨hrule.owned h.owned, hblocked, lock', hguards ▸ hheld, hexcludes⟩

/-- The program is never done without the guard. -/
abbrev Needs (lock : Λ) (p : LockProgram Λ σ ρ) : Prop :=
  p.Along (unlessKept fun _ lock' => lock' = lock) (fun _ _ => False) []

theorem Hogged.follows (h : Hogged O holder lock x) (hrule : Rule O x e r y)
    (hcall : ∀ op, e = .call caller op → Needs lock (O.program op))
    (hx : Follows (unlessKept fun _ lock' => lock' = lock) (fun _ _ => False) caller x) :
    Follows (unlessKept fun _ lock' => lock' = lock) (fun _ _ => False) caller y := by
  refine hrule.follows h.owned hcall ?_ hx
  intro lock' p hgrants hasks
  refine hasks ?_
  rintro rfl
  obtain ⟨held, hheld, hexcludes⟩ := h.kept
  exact not_grants_of_held hheld hexcludes hgrants

/-- A call that is never done without such a guard does not return. -/
theorem Hogged.starves {op : Op} {before after : List (Step Λ σ δ κ Op ρ)}
    {c d : Step Λ σ δ κ Op ρ} {result : ρ} (h : Hogged O holder lock x)
    (hneeds : Needs lock (O.program op)) (hrun : (O.machine κ).Run x (before ++ c :: after) y)
    (hcall : c.event = .call caller op) (hquiet : ∀ c' ∈ after, ∀ op', c'.event ≠ .call caller op')
    (hd : d ∈ after) (hact : d.event = .act caller) : d.result ≠ .returned result := by
  obtain ⟨hbefore, hmakes⟩ := hrun.split rfl
  have hpre : Hogged O holder lock c.pre :=
    hbefore.invariant h fun c' hmakes' hc' => hc'.step (rule_of_step hmakes')
  have hrule := rule_of_step hmakes
  rw [hcall] at hrule
  have hidle : c.pre.threads caller = none := by
    generalize c.result = r, c.post = z at hrule
    cases hrule with
    | call _ _ idle => exact idle
  have hcalled : Follows (unlessKept fun _ lock' => lock' = lock) (fun _ _ => False) caller
      c.post := by
    refine hpre.follows hrule ?_ ?_
    · rintro op' hop
      cases hop
      exact hneeds
    · intro rest hrest
      rw [hidle] at hrest
      cases hrest
  rw [List.append_cons] at hrun
  obtain ⟨u, hfirst, hrest⟩ := hrun.cut
  obtain rfl : u = c.post := hfirst.last
  obtain ⟨hd_pre, hd_follows⟩ := hrest.invariant_pre (I := fun z => Hogged O holder lock z ∧
    Follows (unlessKept fun _ lock' => lock' = lock) (fun _ _ => False) caller z)
    ⟨hpre.step hrule, hcalled⟩ (fun c' hc' hmakes' hpost =>
      have hrule' := rule_of_step hmakes'
      ⟨hpost.1.step hrule', hpost.1.follows hrule'
        (fun op' hop => absurd hop (hquiet c' hc' op')) hpost.2⟩) hd
  intro hreturned
  have hlast := rule_of_step (hrest.makes hd)
  rw [hact, hreturned] at hlast
  exact hlast.returned hd_follows

/-! ## Deadlock -/

/-- The callers ask for their guards in the order of the ranks. -/
structure Ordered (rank : Λ → ℕ) (x : Contended Λ σ κ ρ) : Prop where
  owned : Owned x
  follows : ∀ caller, Follows (ascends rank) (fun _ _ => True) caller x

variable {rank : Λ → ℕ}

theorem Ordered.step (h : Ordered rank x)
    (hprogram : ∀ op, (O.program op).Along (ascends rank) (fun _ _ => True) [])
    (hrule : Rule O x e r y) : Ordered rank y where
  owned := hrule.owned h.owned
  follows := fun caller => hrule.follows h.owned (fun op _ => hprogram op)
    (fun _ _ _ hasks => hasks.2) (h.follows caller)

theorem ordered_run (hprogram : ∀ op, (O.program op).Along (ascends rank) (fun _ _ => True) [])
    {s : σ} {calls : List (Step Λ σ δ κ Op ρ)} (hrun : (O.machine κ).Run (.start s) calls x) :
    Ordered rank x :=
  hrun.invariant ⟨owned_start s, fun _ => follows_start s⟩
    fun _ hmakes h => h.step hprogram (rule_of_step hmakes)

/-- Of callers that keep to the order, one can go on as long as one has not returned: the last in
the order of the guards that are asked for. -/
theorem Ordered.exists_step {bound : ℕ} (h : Ordered rank x) (hbound : ∀ lock, rank lock ≤ bound)
    (hexcludes : ∀ lock lock', O.excludes lock lock' = true → rank lock' ≤ rank lock)
    (hbusy : x.threads caller ≠ none) : ∃ caller', x.step O (.act caller') ≠ none := by
  by_contra hall
  push Not at hall
  have hchain : ∀ n, ∃ caller lock next, x.threads caller = some (.acquire lock next) ∧
      n ≤ rank lock := by
    intro n
    induction n with
    | zero =>
        obtain ⟨rest, hrest⟩ := Option.ne_none_iff_exists'.mp hbusy
        obtain ⟨lock, next, rfl, _⟩ := step_act_eq_none_iff.mp (hall caller) rest hrest
        exact ⟨caller, lock, next, hrest, Nat.zero_le _⟩
    | succ n ih =>
        obtain ⟨caller, lock, next, hasks, hn⟩ := ih
        obtain ⟨lock, next, hsame, hwaits⟩ := step_act_eq_none_iff.mp (hall caller) _ hasks
        obtain ⟨rfl, rfl⟩ := LockProgram.acquire.inj hsame
        -- somebody holds a guard against it, who has to wait for one further up
        simp only [Grants, not_forall, Bool.not_eq_false] at hwaits
        obtain ⟨g, hg, hexcluded⟩ := hwaits
        obtain ⟨rest, hrest⟩ := Option.ne_none_iff_exists'.mp (h.owned g hg)
        obtain ⟨lock', next', rfl, _⟩ := step_act_eq_none_iff.mp (hall g.1) rest hrest
        have habove := (h.follows g.1 _ hrest).1 g.2 (mem_heldBy.mpr hg)
        have hrank := hexcludes _ _ hexcluded
        exact ⟨g.1, lock', next', hrest, by omega⟩
  obtain ⟨_, lock, _, _, hbeyond⟩ := hchain (bound + 1)
  have hle := hbound lock
  omega

/-! ## The number of steps -/

/-- The step is one of the caller's program. -/
def acts (caller : κ) (c : Step Λ σ δ κ Op ρ) : Bool :=
  match c.event with
  | .act caller' => caller' = caller
  | _ => false

omit [DecidableEq Λ] in
theorem acts_iff {c : Step Λ σ δ κ Op ρ} :
    acts caller c = true ↔ c.event = .act caller := by
  unfold acts
  split
  · rename_i caller' hevent
    simp [hevent]
  · rename_i hevent
    simpa using hevent caller

variable {calls : List (Step Λ σ δ κ Op ρ)} {n : ℕ}

/-- A caller has at most `n` more steps to take. -/
def StepsLeft (caller : κ) (n : ℕ) (x : Contended Λ σ κ ρ) : Prop :=
  ∀ rest, x.threads caller = some rest → rest.Within n

/-- A step of the caller's own is one of those that were left. -/
theorem Rule.stepsLeft (h : Rule O x (.act caller) r y) (hleft : StepsLeft caller (n + 1) x) :
    StepsLeft caller n y := by
  intro rest hrest
  cases h with
  | finish | panic => simp [Contended.leave] at hrest
  | acquire _ lock next due | release _ lock next due =>
      obtain rfl : _ = rest := by simpa [Contended.resume] using hrest
      exact hleft _ due
  | update _ update next s due =>
      obtain rfl : _ = rest := by simpa [Contended.resume] using hrest
      exact hleft _ due x.shared

theorem Rule.busy (h : Rule O x (.act caller) r y) :
    ∃ rest, x.threads caller = some rest := by
  cases h with
  | finish _ _ due | acquire _ _ _ due | release _ _ _ due | update _ _ _ _ due
  | panic _ _ _ due => exact ⟨_, due⟩

/-- While a caller makes no new call, it takes no more steps than are left to its program. -/
theorem countP_acts_le (hrun : (O.machine κ).Run x calls y) (hleft : StepsLeft caller n x)
    (hcalls : ∀ c ∈ calls, ∀ op, c.event ≠ .call caller op) :
    ∃ m, calls.countP (acts caller) + m ≤ n ∧ StepsLeft caller m y := by
  induction hrun with
  | start => exact ⟨n, by simp, hleft⟩
  | @call calls c _ hmakes ih =>
      obtain ⟨m, hcount, hpre⟩ := ih fun c' hc' => hcalls c' (List.mem_append_left _ hc')
      have hrule := rule_of_step hmakes
      rw [List.countP_append, List.countP_singleton]
      by_cases hact : acts caller c
      · rw [acts_iff.mp hact] at hrule
        obtain ⟨rest, hrest⟩ := hrule.busy
        obtain ⟨m, rfl⟩ := Nat.exists_eq_add_of_le' (hpre rest hrest).pos
        rw [if_pos hact]
        exact ⟨m, by omega, hrule.stepsLeft hpre⟩
      · have hother : c.event.caller ≠ some caller := by
          intro hcaller
          cases hevent : c.event with
          | call caller' op =>
              rw [hevent] at hcaller
              obtain rfl := Option.some.inj hcaller
              exact hcalls c List.mem_concat_self op hevent
          | act caller' =>
              rw [hevent] at hcaller
              obtain rfl := Option.some.inj hcaller
              exact hact (acts_iff.mpr hevent)
          | elapse duration =>
              rw [hevent] at hcaller
              cases hcaller
        rw [if_neg hact]
        refine ⟨m, hcount, ?_⟩
        intro rest hrest
        exact hpre rest ((hrule.frame hother).1 ▸ hrest)

/-! ## All the callers together -/

/-- The programs of all operations ask for their guards in the order of the ranks, and are done
after `n` steps. -/
structure Orderly (O : LockedObject Λ σ δ Op ρ) (rank : Λ → ℕ) (bound n : ℕ) : Prop where
  ranked : ∀ lock, rank lock ≤ bound
  excludes : ∀ lock lock', O.excludes lock lock' = true → rank lock' ≤ rank lock
  ascends : ∀ op, (O.program op).Along (ascends rank) (fun _ _ => True) []
  within : ∀ op, (O.program op).Within n

variable {bound : ℕ} {s : σ}

theorem Orderly.run (h : O.Orderly rank bound n) (hrun : (O.machine κ).Run (.start s) calls x) :
    Ordered rank x ∧ ∀ caller, StepsLeft caller n x := by
  refine ⟨ordered_run h.ascends hrun, ?_⟩
  refine hrun.invariant (I := fun x => ∀ caller, StepsLeft caller n x)
    (fun _ _ hrest => by cases hrest) ?_
  intro c hmakes hleft caller rest hrest
  have hrule := rule_of_step hmakes
  by_cases hown : c.event.caller = some caller
  · cases hevent : c.event with
    | elapse =>
        rw [hevent] at hown
        cases hown
    | act caller' =>
        rw [hevent] at hown hrule
        obtain rfl := Option.some.inj hown
        have hmore : StepsLeft caller' (n + 1) c.pre :=
          fun rest hrest => (hleft caller' rest hrest).mono (Nat.le_succ n)
        exact hrule.stepsLeft hmore rest hrest
    | call caller' op =>
        rw [hevent] at hown hrule
        obtain rfl := Option.some.inj hown
        generalize c.result = r, c.post = y at hrule hrest
        cases hrule with
        | call _ _ idle =>
            obtain rfl : _ = rest := by simpa [Contended.resume] using hrest
            exact h.within op
  · exact hleft caller rest ((hrule.frame hown).1 ▸ hrest)

/-- Whatever the callers have done, one of them can go on as long as one has not returned; and
however they go on, as long as a caller makes no new call, it takes at most `n` steps more. So all
of them return. -/
theorem Orderly.completes (h : O.Orderly rank bound n)
    (hrun : (O.machine κ).Run (.start s) calls x) :
    (∀ caller, x.threads caller ≠ none → ∃ caller', x.step O (.act caller') ≠ none) ∧
    ∀ more y, (O.machine κ).Run x more y → ∀ caller,
      (∀ c ∈ more, ∀ op, c.event ≠ .call caller op) → more.countP (acts caller) ≤ n := by
  obtain ⟨hordered, hleft⟩ := h.run hrun
  refine ⟨fun caller hbusy => hordered.exists_step h.ranked h.excludes hbusy, ?_⟩
  intro more y hmore caller hcalls
  obtain ⟨m, hcount, _⟩ := countP_acts_le hmore (hleft caller) hcalls
  omega

end LockedObject

end SilverNetwork
