import SilverNetwork.Foundations.HashMap

/-! Stores that file each value under its own key. Where the key determines the value,
such a store is exactly the set of the values filed in it. -/

namespace SilverNetwork.KeyedStore

variable {κ β : Type} [DecidableEq κ] (key : β → κ)

def store (values : List β) (m : HashMap κ β) : HashMap κ β :=
  values.foldl (fun m v => m.insert (key v) v) m

@[simp] theorem store_nil (m : HashMap κ β) : store key [] m = m := rfl

theorem store_cons (v : β) (values : List β) (m : HashMap κ β) :
    store key (v :: values) m = store key values (m.insert (key v) v) := rfl

/-- Every value lies under its own key. -/
def Keyed (m : HashMap κ β) : Prop := ∀ k v, m.lookup k = some v → key v = k

theorem keyed_empty : Keyed key (∅ : HashMap κ β) := by
  intro k v h
  simp at h

theorem Keyed.store {m : HashMap κ β} (h : Keyed key m) (values : List β) :
    Keyed key (store key values m) := by
  induction values generalizing m with
  | nil => exact h
  | cons v values ih =>
      apply ih
      intro k w hl
      rw [HashMap.lookup_insert_eq] at hl
      split at hl
      · rename_i hk
        rw [← Option.some.inj hl, hk]
      · exact h k w hl

theorem mem_store {values : List β} {m : HashMap κ β} {k : κ} :
    k ∈ store key values m ↔ (∃ v ∈ values, key v = k) ∨ k ∈ m := by
  induction values generalizing m with
  | nil => simp
  | cons v values ih =>
      rw [store_cons, ih, AList.mem_insert]
      simp only [List.mem_cons, exists_eq_or_imp, eq_comm (a := k)]
      rw [or_left_comm, or_assoc]

theorem store_eq_empty_iff {values : List β} {m : HashMap κ β} :
    store key values m = ∅ ↔ values = [] ∧ m = ∅ := by
  induction values generalizing m with
  | nil => simp
  | cons v values ih =>
      rw [store_cons, ih]
      simp [HashMap.insert_ne_empty]

theorem store_sameEntries {m m' : HashMap κ β} (h : HashMap.SameEntries m m') (values : List β) :
    HashMap.SameEntries (store key values m) (store key values m') := by
  induction values generalizing m m' with
  | nil => exact h
  | cons v values ih => exact ih (h.insert (key v) v)

/-! ## What a keyed store holds -/

theorem Keyed.mem_values_iff {m : HashMap κ β} (h : Keyed key m) {v : β} :
    v ∈ m.values ↔ m.lookup (key v) = some v := by
  rw [HashMap.mem_values_iff]
  refine ⟨?_, fun hl => ⟨key v, hl⟩⟩
  rintro ⟨k, hl⟩
  rwa [h k v hl]

theorem Keyed.mem_iff {m : HashMap κ β} (h : Keyed key m) {k : κ} :
    k ∈ m ↔ ∃ v ∈ m.values, key v = k := by
  rw [HashMap.mem_iff_exists_lookup]
  constructor
  · rintro ⟨v, hl⟩
    exact ⟨v, HashMap.mem_values_iff.mpr ⟨k, hl⟩, h k v hl⟩
  · rintro ⟨v, hv, hk⟩
    exact ⟨v, hk ▸ (h.mem_values_iff key).mp hv⟩

/-- No key occurs twice among the stored values. -/
theorem Keyed.nodup_map_key {m : HashMap κ β} (h : Keyed key m) :
    (m.values.map key).Nodup := by
  have hkeys : m.values.map key = m.keys := by
    simp only [HashMap.values, AList.keys, List.keys, List.map_map]
    apply List.map_congr_left
    intro e he
    exact h e.1 e.2 (AList.mem_lookup_iff.mpr he)
  rw [hkeys]
  exact m.keys_nodup

/-- `m` holds exactly the values of `filed`. -/
structure Holds (filed : List β) (m : HashMap κ β) : Prop where
  keyed : Keyed key m
  lookup_iff : ∀ v, m.lookup (key v) = some v ↔ v ∈ filed

theorem holds_empty : Holds key [] (∅ : HashMap κ β) := ⟨keyed_empty key, by simp⟩

theorem Holds.store {filed : List β} {m : HashMap κ β} (h : Holds key filed m)
    (hinj : Function.Injective key) (values : List β) :
    Holds key (filed ++ values) (store key values m) := by
  refine ⟨h.keyed.store key values, ?_⟩
  induction values generalizing filed m with
  | nil => simpa using h.lookup_iff
  | cons v values ih =>
      have hone : Holds key (filed ++ [v]) (m.insert (key v) v) := by
        refine ⟨h.keyed.store key [v], ?_⟩
        intro w
        rw [HashMap.lookup_insert_eq, List.mem_append, List.mem_singleton]
        by_cases hw : w = v
        · simp [hw]
        · rw [if_neg (fun hk => hw (hinj hk)), h.lookup_iff]
          simp [hw]
      simpa [store_cons] using ih hone

theorem Holds.mem_values_iff {filed : List β} {m : HashMap κ β} (h : Holds key filed m) {v : β} :
    v ∈ m.values ↔ v ∈ filed := by
  rw [h.keyed.mem_values_iff key, h.lookup_iff]

end SilverNetwork.KeyedStore
