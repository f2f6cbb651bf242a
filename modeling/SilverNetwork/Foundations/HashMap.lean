import Mathlib.Data.List.AList
import Mathlib.Data.Set.Card
import Mathlib.Data.UInt

/-! Hash maps as association lists without repeated keys. The stored order is never
observed: every traversal goes through an `Enumeration`, which may put the entries
into any order whatever. -/

namespace SilverNetwork

/-- A finite map of the source; Mathlib's `AList` supplies its operations. -/
abbrev HashMap (κ ν : Type) : Type := AList (fun _ : κ => ν)

/-- The order in which one traversal of a hash map visits its entries. -/
structure Enumeration (β : Type) where
  arrange : List β → List β
  perm : ∀ l, (arrange l).Perm l

/-- The enumeration that keeps the stored order. -/
def Enumeration.stored (β : Type) : Enumeration β := ⟨id, fun _ => List.Perm.refl _⟩

/-- The enumeration that turns the stored order round. -/
def Enumeration.reversed (β : Type) : Enumeration β := ⟨List.reverse, List.reverse_perm⟩

@[simp] theorem Enumeration.mem_arrange {β : Type} (e : Enumeration β) {l : List β} {x : β} :
    x ∈ e.arrange l ↔ x ∈ l :=
  (e.perm l).mem_iff

@[simp] theorem Enumeration.length_arrange {β : Type} (e : Enumeration β) (l : List β) :
    (e.arrange l).length = l.length :=
  (e.perm l).length_eq

namespace HashMap

variable {κ ν : Type}

def len (m : HashMap κ ν) : ℕ := m.entries.length

def values (m : HashMap κ ν) : List ν := m.entries.map Sigma.snd

/-- The entries that satisfy the predicate. -/
def retain (m : HashMap κ ν) (p : κ → ν → Bool) : HashMap κ ν where
  entries := m.entries.filter (fun e => p e.1 e.2)
  nodupKeys := m.nodupKeys.sublist List.filter_sublist

@[simp] theorem len_empty : len (∅ : HashMap κ ν) = 0 := rfl

@[simp] theorem values_empty : values (∅ : HashMap κ ν) = [] := rfl

@[simp] theorem length_values (m : HashMap κ ν) : m.values.length = m.len := by
  simp [values, len]

theorem len_eq_zero_iff {m : HashMap κ ν} : m.len = 0 ↔ m = ∅ := by
  constructor
  · intro h
    exact AList.ext (List.length_eq_zero_iff.mp h)
  · rintro rfl
    rfl

theorem len_le_of_subset {m m' : HashMap κ ν} (h : ∀ k ∈ m, k ∈ m') : m.len ≤ m'.len := by
  have hkeys : m.keys.Subperm m'.keys :=
    List.subperm_of_subset m.keys_nodup fun k hk => h k hk
  have hlength := hkeys.length_le
  simpa [len, AList.keys, List.keys] using hlength

theorem exists_mem_of_ne_empty {m : HashMap κ ν} (h : m ≠ ∅) : ∃ k, k ∈ m := by
  by_contra hnone
  refine h (AList.ext (List.eq_nil_iff_forall_not_mem.mpr ?_))
  intro e he
  exact hnone ⟨e.1, List.mem_keys_of_mem he⟩

variable [DecidableEq κ]

theorem ncard_mem (m : HashMap κ ν) : {k | k ∈ m}.ncard = m.len := by
  have hkeys : {k | k ∈ m} = (m.keys.toFinset : Set κ) := by
    ext k
    simp [AList.mem_keys]
  rw [hkeys, Set.ncard_coe_finset, List.toFinset_card_of_nodup m.keys_nodup]
  simp [len, AList.keys, List.keys]

theorem len_eq_card {m : HashMap κ ν} {keys : Finset κ} (h : ∀ k, k ∈ m ↔ k ∈ keys) :
    m.len = keys.card := by
  rw [← ncard_mem, ← Set.ncard_coe_finset]
  congr 1
  ext k
  exact h k

theorem card_le_len {m : HashMap κ ν} {keys : Finset κ} (h : ∀ k ∈ keys, k ∈ m) :
    keys.card ≤ m.len := by
  have hcard : m.len = m.keys.toFinset.card := len_eq_card fun k => by simp [AList.mem_keys]
  rw [hcard]
  refine Finset.card_le_card fun k hk => ?_
  simpa [AList.mem_keys] using h k hk

theorem mem_values_iff {m : HashMap κ ν} {v : ν} :
    v ∈ m.values ↔ ∃ k, m.lookup k = some v := by
  simp only [values, List.mem_map, Sigma.exists, exists_eq_right, ← Option.mem_def,
    AList.mem_lookup_iff]

theorem mem_iff_exists_lookup {m : HashMap κ ν} {k : κ} : k ∈ m ↔ ∃ v, m.lookup k = some v := by
  rw [← AList.lookup_isSome, Option.isSome_iff_exists]

theorem mem_of_kept {m m' : HashMap κ ν} {k : κ} (hk : k ∈ m)
    (hkept : ∀ k v, m.lookup k = some v → m'.lookup k = some v) : k ∈ m' := by
  obtain ⟨v, hv⟩ := mem_iff_exists_lookup.mp hk
  exact mem_iff_exists_lookup.mpr ⟨v, hkept k v hv⟩

theorem lookup_insert_eq (m : HashMap κ ν) (k k' : κ) (v : ν) :
    (m.insert k v).lookup k' = if k' = k then some v else m.lookup k' := by
  split
  · rename_i h
    subst h
    exact AList.lookup_insert m
  · rename_i h
    exact AList.lookup_insert_ne h

theorem lookup_erase_eq (m : HashMap κ ν) (k k' : κ) :
    (m.erase k).lookup k' = if k' = k then none else m.lookup k' := by
  split
  · rename_i h
    subst h
    exact AList.lookup_erase _ m
  · rename_i h
    exact AList.lookup_erase_ne h

theorem len_insert_of_notMem {m : HashMap κ ν} {k : κ} (h : k ∉ m) (v : ν) :
    len (m.insert k v) = m.len + 1 := by
  rw [len, AList.entries_insert_of_notMem h]
  rfl

theorem len_insert_of_kept {m m' : HashMap κ ν} {k : κ} (h : k ∉ m')
    (hkept : ∀ k v, m.lookup k = some v → m'.lookup k = some v) (v : ν) :
    len (m.insert k v) = m.len + 1 :=
  len_insert_of_notMem (fun hmem => h (mem_of_kept hmem hkept)) v

theorem len_insert_le (m : HashMap κ ν) (k : κ) (v : ν) : len (m.insert k v) ≤ m.len + 1 := by
  by_cases hk : k ∈ m
  · have hsame : len (m.insert k v) ≤ m.len := by
      apply len_le_of_subset
      intro k' hk'
      rcases (AList.mem_insert m).mp hk' with rfl | hk'
      · exact hk
      · exact hk'
    omega
  · rw [len_insert_of_notMem hk]

theorem len_erase_le (m : HashMap κ ν) (k : κ) : len (m.erase k) ≤ m.len := by
  apply len_le_of_subset
  intro k' hk'
  exact (AList.mem_erase.mp hk').2

theorem mem_insert_self (m : HashMap κ ν) (k : κ) (v : ν) : k ∈ m.insert k v :=
  (AList.mem_insert m).mpr (Or.inl rfl)

theorem insert_ne_empty (m : HashMap κ ν) (k : κ) (v : ν) : m.insert k v ≠ ∅ := by
  intro h
  have hk := mem_insert_self m k v
  rw [h] at hk
  exact AList.notMem_empty k hk

theorem lookup_retain (m : HashMap κ ν) (p : κ → ν → Bool) (k : κ) :
    (retain m p).lookup k = (m.lookup k).filter (p k) := by
  apply Option.ext
  intro v
  rw [Option.filter_eq_some_iff, ← Option.mem_def, AList.mem_lookup_iff, ← Option.mem_def,
    AList.mem_lookup_iff]
  exact List.mem_filter

theorem len_retain_lt_iff {m : HashMap κ ν} {p : κ → ν → Bool} :
    len (retain m p) < m.len ↔ ∃ k v, m.lookup k = some v ∧ p k v = false := by
  unfold len retain
  rw [List.length_filter_lt_length_iff_exists]
  constructor
  · rintro ⟨⟨k, v⟩, hmem, hfails⟩
    exact ⟨k, v, AList.mem_lookup_iff.mpr hmem, by simpa using hfails⟩
  · rintro ⟨k, v, hlookup, hfails⟩
    exact ⟨⟨k, v⟩, AList.mem_lookup_iff.mp hlookup, by simpa using hfails⟩

omit [DecidableEq κ] in
theorem len_retain_le (m : HashMap κ ν) (p : κ → ν → Bool) : len (retain m p) ≤ m.len :=
  List.length_filter_le _ _

/-! ## Sums over a map -/

omit [DecidableEq κ] in
def total (f : ν → ℕ) (m : HashMap κ ν) : ℕ := (m.values.map f).sum

omit [DecidableEq κ] in
@[simp] theorem total_empty (f : ν → ℕ) : total f (∅ : HashMap κ ν) = 0 := rfl

theorem sum_kerase (f : ν → ℕ) (l : List (Sigma fun _ : κ => ν)) (k : κ) :
    ((l.kerase k).map fun e => f e.2).sum + ((l.dlookup k).map f).getD 0 =
      (l.map fun e => f e.2).sum := by
  induction l with
  | nil => rfl
  | cons e l ih =>
      by_cases hk : k = e.1
      · subst hk
        simp [List.dlookup_cons_eq l e.1 e.2, Nat.add_comm]
      · rw [List.kerase_cons_ne hk, List.dlookup_cons_ne l e hk]
        simp only [List.map_cons, List.sum_cons]
        omega

/-- An entry that is put into a map takes the place of what lay under its key. -/
theorem total_insert (f : ν → ℕ) (m : HashMap κ ν) (k : κ) (v : ν) :
    total f (m.insert k v) + ((m.lookup k).map f).getD 0 = total f m + f v := by
  have herase := sum_kerase f m.entries k
  simp only [total, values, List.map_map, AList.entries_insert, List.map_cons, List.sum_cons,
    AList.lookup, Function.comp_def]
  omega

theorem le_total (f : ν → ℕ) {m : HashMap κ ν} {k : κ} {v : ν} (h : m.lookup k = some v) :
    f v ≤ total f m := by
  have herase := sum_kerase f m.entries k
  have hlookup : m.entries.dlookup k = some v := h
  rw [hlookup, Option.map_some, Option.getD_some] at herase
  simp only [total, values, List.map_map, Function.comp_def]
  omega

theorem total_congr {f g : ν → ℕ} {m : HashMap κ ν}
    (h : ∀ k v, m.lookup k = some v → f v = g v) : total f m = total g m := by
  refine congrArg List.sum (List.map_congr_left ?_)
  intro v hv
  obtain ⟨k, hk⟩ := mem_values_iff.mp hv
  exact h k v hk

theorem total_eq_zero {f : ν → ℕ} {m : HashMap κ ν} (h : ∀ k v, m.lookup k = some v → f v = 0) :
    total f m = 0 := by
  rw [total_congr (g := fun _ => 0) h]
  simp [total]

/-! ## Equality up to the stored order -/

omit [DecidableEq κ] in
/-- The two maps hold the same entries. -/
def SameEntries (m m' : HashMap κ ν) : Prop := m.entries.Perm m'.entries

namespace SameEntries

variable {m m' : HashMap κ ν}

omit [DecidableEq κ] in
theorem refl (m : HashMap κ ν) : SameEntries m m := List.Perm.refl _

omit [DecidableEq κ] in
theorem len_eq (h : SameEntries m m') : m.len = m'.len := List.Perm.length_eq h

omit [DecidableEq κ] in
theorem values_perm (h : SameEntries m m') : m.values.Perm m'.values := List.Perm.map _ h

theorem lookup_eq (h : SameEntries m m') (k : κ) : m.lookup k = m'.lookup k := AList.perm_lookup h

theorem of_lookup (h : ∀ k, m.lookup k = m'.lookup k) : SameEntries m m' := by
  apply List.lookup_ext m.nodupKeys m'.nodupKeys
  intro k v
  exact iff_of_eq (congrArg (v ∈ ·) (h k))

theorem insert (h : SameEntries m m') (k : κ) (v : ν) :
    SameEntries (m.insert k v) (m'.insert k v) := AList.perm_insert h

theorem erase (h : SameEntries m m') (k : κ) : SameEntries (m.erase k) (m'.erase k) :=
  AList.perm_erase h

end SameEntries

/-! ## Equality up to the names of the keys -/

variable {κ' ν' : Type} [DecidableEq κ']

/-- The second map holds the entries of the first under renamed keys, with rewritten values. -/
def RenamedEntries (f : κ ≃ κ') (g : ν → ν') (m : HashMap κ ν) (m' : HashMap κ' ν') : Prop :=
  ∀ k, m'.lookup (f k) = (m.lookup k).map g

namespace RenamedEntries

variable {f : κ ≃ κ'} {g : ν → ν'} {m : HashMap κ ν} {m' : HashMap κ' ν'}

theorem empty : RenamedEntries f g ∅ ∅ := fun k => by simp

theorem mem_iff (h : RenamedEntries f g m m') (k : κ) : f k ∈ m' ↔ k ∈ m := by
  rw [← AList.lookup_isSome, h k, Option.isSome_map, AList.lookup_isSome]

theorem len_eq (h : RenamedEntries f g m m') : m.len = m'.len := by
  have himage : {k' | k' ∈ m'} = f '' {k | k ∈ m} := by
    ext k'
    simp only [Set.mem_ofPred_eq, Equiv.image_eq_preimage_symm, Set.mem_preimage]
    rw [← h.mem_iff, f.apply_symm_apply]
  rw [← ncard_mem m, ← ncard_mem m', himage, Set.ncard_image_of_injective _ f.injective]

theorem insert (h : RenamedEntries f g m m') (k : κ) (v : ν) :
    RenamedEntries f g (m.insert k v) (m'.insert (f k) (g v)) := by
  intro k₁
  simp only [lookup_insert_eq, f.apply_eq_iff_eq, h k₁]
  split
  · rfl
  · rfl

end RenamedEntries

theorem renamedEntries_refl_iff {m m' : HashMap κ ν} :
    RenamedEntries (Equiv.refl κ) id m m' ↔ SameEntries m m' := by
  simp only [RenamedEntries, Equiv.refl_apply, Option.map_id_fun, id_eq]
  constructor
  · exact fun h => .of_lookup fun k => (h k).symm
  · exact fun h k => (h.lookup_eq k).symm

end HashMap

end SilverNetwork
