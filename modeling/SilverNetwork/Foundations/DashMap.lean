import Mathlib.Algebra.BigOperators.Fin
import SilverNetwork.Foundations.HashMap
import SilverNetwork.Foundations.LockProgram

/-! Sharded concurrent maps. An operation on one key holds the lock of the key's shard
while it lasts; an operation on the whole map takes the locks of all shards in turn. -/

namespace SilverNetwork

/-- A map inside a state `σ`, with its shards and their locks. -/
structure DashMap (Λ σ κ ν : Type) where
  shards : ℕ
  shardOf : κ → Fin shards
  lock : Fin shards → Λ
  get : σ → HashMap κ ν
  set : HashMap κ ν → σ → σ

namespace DashMap

open LockProgram

variable {Λ σ κ ν α : Type} [DecidableEq κ] (d : DashMap Λ σ κ ν)

def containsKey (key : κ) : LockProgram Λ σ Bool :=
  guarded (d.lock (d.shardOf key)) (gets fun s => decide (key ∈ d.get s))

def find (key : κ) : LockProgram Λ σ (Option ν) :=
  guarded (d.lock (d.shardOf key)) (gets fun s => (d.get s).lookup key)

def insert (key : κ) (value : ν) : LockProgram Λ σ Unit :=
  guarded (d.lock (d.shardOf key)) (update fun s => some (d.set ((d.get s).insert key value) s))

def orInsert (key : κ) (value : ν) (m : HashMap κ ν) : HashMap κ ν :=
  if key ∈ m then m else m.insert key value

/-- `entry(key).or_insert(value)`, whose guard outlives the call and spans the body. -/
def withEntry (key : κ) (value : ν) (body : LockProgram Λ σ α) : LockProgram Λ σ α :=
  guarded (d.lock (d.shardOf key)) do
    update fun s => some (d.set (orInsert key value (d.get s)) s)
    body

/-- An update of the value under a key whose guard is held. -/
def modify (key : κ) (f : ν → Option ν) : LockProgram Λ σ Unit :=
  update fun s =>
    match (d.get s).lookup key with
    | none => some s
    | some value => (f value).map fun value => d.set ((d.get s).insert key value) s

omit [DecidableEq κ] in
def shardLen (i : Fin d.shards) (m : HashMap κ ν) : ℕ :=
  (m.entries.filter fun e => d.shardOf e.1 = i).length

def len : LockProgram Λ σ ℕ := do
  let counts ← sequence
    (fun i => guarded (d.lock i) (gets fun s => d.shardLen i (d.get s))) (List.finRange d.shards)
  pure counts.sum

/-- One shard with only the entries that `keep` keeps. The closure may panic on one. -/
def retainShard (i : Fin d.shards) (keep : ν → Option Bool) (m : HashMap κ ν) :
    Option (HashMap κ ν) :=
  if m.entries.all fun e => d.shardOf e.1 ≠ i || (keep e.2).isSome then
    some (HashMap.retain m fun key value => d.shardOf key ≠ i || keep value == some true)
  else none

def retain (keep : ν → Option Bool) : LockProgram Λ σ Unit := do
  let _ ← sequence
    (fun i => guarded (d.lock i)
      (update fun s => (d.retainShard i keep (d.get s)).map fun m => d.set m s))
    (List.finRange d.shards)
  pure ()

theorem lookup_orInsert (m : HashMap κ ν) (key : κ) (value : ν) :
    (orInsert key value m).lookup key = some ((m.lookup key).getD value) := by
  unfold orInsert
  split
  · rename_i hmem
    obtain ⟨found, hfound⟩ := HashMap.mem_iff_exists_lookup.mp hmem
    rw [hfound]
    rfl
  · rename_i hnot
    rw [AList.lookup_eq_none.mpr hnot]
    exact AList.lookup_insert m

/-- Putting another value under a key forgets whether an entry was made for it. -/
theorem insert_orInsert (m : HashMap κ ν) (key : κ) (value value' : ν) :
    AList.insert key value' (orInsert key value m) = m.insert key value' := by
  unfold orInsert
  split
  · rfl
  · exact AList.insert_insert m

/-! ## Leaving out entries -/

section Sweeps

variable {d}

theorem retainShard_isSome_iff {i : Fin d.shards} {keep : ν → Option Bool} {m : HashMap κ ν} :
    (d.retainShard i keep m).isSome ↔
      ∀ k v, m.lookup k = some v → d.shardOf k = i → (keep v).isSome := by
  unfold retainShard
  rw [Option.isSome_ite, List.all_eq_true]
  constructor
  · intro hall k v hlookup hshard
    have he := hall ⟨k, v⟩ (AList.mem_lookup_iff.mp hlookup)
    simpa [hshard] using he
  · intro hall e he
    by_cases hshard : d.shardOf e.1 = i
    · simp [hshard, hall e.1 e.2 (AList.mem_lookup_iff.mpr he) hshard]
    · simp [hshard]

theorem lookup_retainShard {i : Fin d.shards} {keep : ν → Option Bool} {m m' : HashMap κ ν}
    (h : d.retainShard i keep m = some m') (k : κ) :
    m'.lookup k = (m.lookup k).filter fun v => d.shardOf k ≠ i || keep v == some true := by
  obtain ⟨-, hkept⟩ := Option.ite_none_right_eq_some.mp h
  obtain rfl := Option.some.inj hkept
  exact HashMap.lookup_retain m _ k

/-- The closure has not panicked on an entry of the shards, and only what it keeps is left. -/
structure Retained (keep : ν → Option Bool) (visited : List (Fin d.shards)) (m m' : HashMap κ ν) :
    Prop where
  judged : ∀ k v, m.lookup k = some v → d.shardOf k ∈ visited → (keep v).isSome
  lookup : ∀ k, m'.lookup k =
    (m.lookup k).filter fun v => d.shardOf k ∉ visited || keep v == some true

theorem Retained.cons {keep : ν → Option Bool} {i : Fin d.shards} {rest : List (Fin d.shards)}
    {m m₁ m' : HashMap κ ν} (hfirst : d.retainShard i keep m = some m₁)
    (hrest : Retained keep rest m₁ m') : Retained keep (i :: rest) m m' := by
  have hjudged := retainShard_isSome_iff.mp (Option.isSome_of_eq_some hfirst)
  constructor
  · intro k v hlookup hvisited
    by_cases hshard : d.shardOf k = i
    · exact hjudged k v hlookup hshard
    · have hkept : m₁.lookup k = some v := by
        rw [lookup_retainShard hfirst, hlookup]
        simp [Option.filter, hshard]
      exact hrest.judged k v hkept ((List.mem_cons.mp hvisited).resolve_left hshard)
  · intro k
    rw [hrest.lookup, lookup_retainShard hfirst, Option.filter_filter]
    congr 1
    funext v
    by_cases hshard : d.shardOf k = i
    · cases keep v == some true <;> simp [hshard]
    · simp [hshard]

/-- The sweep of one shard, under its lock. -/
def sweepShard (d : DashMap Λ σ κ ν) (keep : ν → Option Bool) (i : Fin d.shards) :
    LockProgram Λ σ Unit :=
  guarded (d.lock i) (update fun s => (d.retainShard i keep (d.get s)).map fun m => d.set m s)

omit [DecidableEq κ] in
theorem unlocked_sweepShard (keep : ν → Option Bool) (i : Fin d.shards) (s : σ) :
    (d.sweepShard keep i).unlocked s =
      (d.retainShard i keep (d.get s)).map fun m => ((), d.set m s) := by
  rw [sweepShard, unlocked_guarded, unlocked_update, Option.map_map]
  rfl

theorem retained_of_sweeps (hget : ∀ m s, d.get (d.set m s) = m) {keep : ν → Option Bool}
    {shards : List (Fin d.shards)} {s t : σ} {done : List Unit}
    (h : (sequence (d.sweepShard keep) shards).unlocked s = some (done, t)) :
    Retained keep shards (d.get s) (d.get t) := by
  induction shards generalizing s done with
  | nil =>
      obtain ⟨-, rfl⟩ := Prod.mk.inj (Option.some.inj h)
      refine ⟨by simp, fun k => ?_⟩
      cases hlookup : (d.get s).lookup k with
      | none => rfl
      | some v => simp [Option.filter]
  | cons i rest ih =>
      rw [sequence_cons, unlocked_bind, unlocked_sweepShard, Option.bind_eq_some_iff] at h
      obtain ⟨_, hfirst, hrest⟩ := h
      obtain ⟨m, hm, rfl⟩ := Option.map_eq_some_iff.mp hfirst
      rw [unlocked_bind, Option.bind_eq_some_iff] at hrest
      obtain ⟨⟨_, u⟩, hrest, hdone⟩ := hrest
      obtain ⟨-, rfl⟩ := Prod.mk.inj (Option.some.inj hdone)
      have hretained := ih hrest
      rw [hget] at hretained
      exact hretained.cons hm

theorem sweeps_return (hget : ∀ m s, d.get (d.set m s) = m) {keep : ν → Option Bool}
    (shards : List (Fin d.shards)) {s : σ}
    (h : ∀ k v, (d.get s).lookup k = some v → (keep v).isSome) :
    ∃ done t, (sequence (d.sweepShard keep) shards).unlocked s = some (done, t) := by
  induction shards generalizing s with
  | nil => exact ⟨[], s, rfl⟩
  | cons i rest ih =>
      obtain ⟨m, hm⟩ := Option.isSome_iff_exists.mp
        (retainShard_isSome_iff.mpr fun k v hlookup _ => h k v hlookup)
      have hleft : ∀ k v, (d.get (d.set m s)).lookup k = some v → (keep v).isSome := by
        intro k v hlookup
        rw [hget, lookup_retainShard hm] at hlookup
        exact h k v (Option.filter_eq_some_iff.mp hlookup).1
      obtain ⟨done, t, hrest⟩ := ih hleft
      refine ⟨() :: done, t, ?_⟩
      rw [sequence_cons, unlocked_bind, unlocked_sweepShard, hm]
      simp only [Option.map_some, Option.bind_some, unlocked_bind, hrest]
      rfl

omit [DecidableEq κ] in
theorem unlocked_retain (keep : ν → Option Bool) (s : σ) : (d.retain keep).unlocked s =
    ((sequence (d.sweepShard keep) (List.finRange d.shards)).unlocked s).map fun r => ((), r.2) :=
  unlocked_map (fun _ => ()) _ s

/-- A sweep of the whole map leaves what the closure keeps of it. -/
theorem retained_of_retain (hget : ∀ m s, d.get (d.set m s) = m) {keep : ν → Option Bool}
    {s t : σ} {done : Unit} (h : (d.retain keep).unlocked s = some (done, t)) :
    (∀ k v, (d.get s).lookup k = some v → (keep v).isSome) ∧
      ∀ k, (d.get t).lookup k = ((d.get s).lookup k).filter fun v => keep v == some true := by
  rw [unlocked_retain, Option.map_eq_some_iff] at h
  obtain ⟨⟨_, u⟩, hsweeps, hdone⟩ := h
  obtain ⟨-, rfl⟩ := Prod.mk.inj hdone
  have hretained := retained_of_sweeps hget hsweeps
  refine ⟨fun k v hlookup => hretained.judged k v hlookup (List.mem_finRange _), fun k => ?_⟩
  rw [hretained.lookup]
  simp

theorem retain_returns (hget : ∀ m s, d.get (d.set m s) = m) {keep : ν → Option Bool} {s : σ}
    (h : ∀ k v, (d.get s).lookup k = some v → (keep v).isSome) :
    ∃ t, (d.retain keep).unlocked s = some ((), t) := by
  obtain ⟨done, t, hsweeps⟩ := sweeps_return hget (List.finRange d.shards) h
  exact ⟨t, by rw [unlocked_retain, hsweeps, Option.map_some]⟩

end Sweeps

/-! ## Locking behaviour -/

variable [DecidableEq Λ]

/-- A caller that holds `held` holds no shard of the map. -/
def Free (held : List Λ) : Prop := ∀ i, d.lock i ∉ held

variable {d} {held : List Λ}

theorem Free.containsKey (h : d.Free held) (key : κ) : Clean held (d.containsKey key) :=
  .guarded (h _) (.gets _)

theorem Free.find (h : d.Free held) (key : κ) : Clean held (d.find key) :=
  .guarded (h _) (.gets _)

theorem Free.exec_containsKey (h : d.Free held) (key : κ) (s : σ) :
    (d.containsKey key).exec held s = .finished (decide (key ∈ d.get s)) s held := by
  rw [DashMap.containsKey, exec_guarded_of_notMem (h _)]
  exact congrArg (LockOutcome.finished _ s) (List.erase_cons_head _ held)

theorem Free.insert (h : d.Free held) (key : κ) (value : ν) : Clean held (d.insert key value) :=
  .guarded (h _) (.update _)

theorem Stuck.withEntry {key : κ} {lock : Λ} {body : LockProgram Λ σ α}
    (hkey : d.lock (d.shardOf key) ∉ held) (value : ν)
    (hbody : Stuck (d.lock (d.shardOf key) :: held) lock body) :
    Stuck held lock (d.withEntry key value body) :=
  .guarded hkey ((Clean.update _).bind_stuck fun _ => hbody)

omit [DecidableEq κ] in
theorem Free.len (h : d.Free held) : Clean held d.len :=
  (Clean.sequence fun i _ => .guarded (h i) (.gets _)).map List.sum

omit [DecidableEq κ] in
theorem Free.retain (h : d.Free held) (keep : ν → Option Bool) : Clean held (d.retain keep) :=
  (Clean.sequence fun i _ => .guarded (h i) (.update _)).map fun _ => ()

omit [DecidableEq κ] [DecidableEq Λ] in
/-- The shards partition the map. -/
theorem sum_shardLen (d : DashMap Λ σ κ ν) (m : HashMap κ ν) :
    ((List.finRange d.shards).map fun i => d.shardLen i m).sum = m.len := by
  simp only [shardLen, HashMap.len]
  induction m.entries with
  | nil => simp
  | cons e entries ih =>
      have hone : ∀ i : Fin d.shards,
          ((e :: entries).filter fun e => d.shardOf e.1 = i).length =
            (entries.filter fun e => d.shardOf e.1 = i).length +
              if d.shardOf e.1 = i then 1 else 0 := by
        intro i
        by_cases hi : d.shardOf e.1 = i <;> simp [hi]
      simp only [hone, List.sum_map_add, ih, List.length_cons, Nat.add_left_cancel_iff]
      rw [← Fin.sum_univ_def, Finset.sum_ite_eq]
      simp

omit [DecidableEq κ] in
theorem exec_shardLen {i : Fin d.shards} (h : d.lock i ∉ held) (s : σ) :
    (guarded (d.lock i) (gets fun s => d.shardLen i (d.get s))).exec held s =
      .finished (d.shardLen i (d.get s)) s held := by
  rw [exec_guarded_of_notMem h]
  exact congrArg (LockOutcome.finished _ s) (List.erase_cons_head (d.lock i) held)

omit [DecidableEq κ] in
/-- The length read shard by shard is the number of entries. -/
theorem Free.exec_len (h : d.Free held) (s : σ) :
    d.len.exec held s = .finished (d.get s).len s held := by
  rw [DashMap.len, exec_bind, exec_sequence_reads fun i => exec_shardLen (h i)]
  exact congrArg (LockOutcome.finished · s held) (d.sum_shardLen (d.get s))

omit [DecidableEq κ] in
/-- A caller that holds one shard of the map blocks itself when it asks for the length. -/
theorem len_stuck {i : Fin d.shards} (hheld : d.lock i ∈ held)
    (hothers : ∀ j, j ≠ i → d.lock j ∉ held) : Stuck held (d.lock i) d.len := by
  have hblocked : ∀ s, (guarded (d.lock i) (gets fun s => d.shardLen i (d.get s))).exec held s =
      .blocked (d.lock i) := exec_guarded_of_mem hheld _
  intro s
  apply Or.inr
  rw [DashMap.len, exec_bind, exec_sequence_blocked (List.mem_finRange i) hblocked]
  · intro j hj s
    exact ⟨_, s, exec_shardLen (hothers j hj) s⟩

/-! ## Without the locks -/

omit [DecidableEq Λ] in
@[simp] theorem unlocked_containsKey (d : DashMap Λ σ κ ν) (key : κ) (s : σ) :
    (d.containsKey key).unlocked s = some (decide (key ∈ d.get s), s) := by
  rw [containsKey, unlocked_guarded]
  rfl

omit [DecidableEq Λ] in
@[simp] theorem unlocked_insert (d : DashMap Λ σ κ ν) (key : κ) (value : ν) (s : σ) :
    (d.insert key value).unlocked s = some ((), d.set ((d.get s).insert key value) s) := by
  rw [insert, unlocked_guarded]
  rfl

omit [DecidableEq Λ] in
theorem unlocked_withEntry (d : DashMap Λ σ κ ν) (key : κ) (value : ν)
    (body : LockProgram Λ σ α) (s : σ) : (d.withEntry key value body).unlocked s =
      body.unlocked (d.set (orInsert key value (d.get s)) s) := by
  rw [withEntry, unlocked_guarded, unlocked_bind]
  rfl

omit [DecidableEq Λ] in
/-- An entry that is made and updated under its guard. -/
theorem unlocked_withEntry_modify {d : DashMap Λ σ κ ν} (hget : ∀ m s, d.get (d.set m s) = m)
    (hset : ∀ m m' s, d.set m (d.set m' s) = d.set m s) (key : κ) (value : ν)
    (f : ν → Option ν) (k : Unit → LockProgram Λ σ α) (s : σ) :
    (d.withEntry key value (d.modify key f >>= k)).unlocked s =
      (f (((d.get s).lookup key).getD value)).bind fun value' =>
        (k ()).unlocked (d.set ((d.get s).insert key value') s) := by
  rw [unlocked_withEntry, unlocked_bind, modify, unlocked_update]
  simp only [hget, hset, lookup_orInsert, insert_orInsert]
  cases f (((d.get s).lookup key).getD value) with
  | none => rfl
  | some value' => rfl

omit [DecidableEq κ] in
@[simp] theorem unlocked_len (d : DashMap Λ σ κ ν) (s : σ) :
    d.len.unlocked s = some ((d.get s).len, s) :=
  have hfree : d.Free [] := fun _ => List.not_mem_nil
  unlocked_of_exec (hfree.exec_len s)

omit [DecidableEq κ] [DecidableEq Λ] in
/-- Leaving out entries touches nothing but the map. -/
theorem keeps_retain {γ : Type} {view : σ → γ} (hview : ∀ m s, view (d.set m s) = view s)
    (keep : ν → Option Bool) : Keeps view (d.retain keep) := by
  refine Keeps.bind (Keeps.sequence (fun i => Keeps.guarded (Keeps.update ?_) _) _)
    fun _ => .pure ()
  intro s t h
  obtain ⟨m, -, rfl⟩ := Option.map_eq_some_iff.mp h
  exact hview m s

end DashMap

end SilverNetwork
