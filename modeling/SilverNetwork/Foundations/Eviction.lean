import Mathlib.Data.Finset.Card
import Mathlib.Data.List.MinMax
import Mathlib.Data.List.Sort
import SilverNetwork.Foundations.HashMap

/-! Removing the oldest entries of a map whose values carry a stamp. Whichever entry goes,
all the entries that stay are at least as new, so it is outlived by that many. -/

namespace SilverNetwork

namespace HashMap

variable {κ ν : Type} [DecidableEq κ]

theorem len_erase_of_mem {m : HashMap κ ν} {k : κ} (h : k ∈ m) : len (m.erase k) + 1 = m.len := by
  have hkeys : (m.erase k).keys = m.keys.erase k := List.keys_kerase
  have hlength : (m.keys.erase k).length + 1 = m.keys.length := by
    have hpositive := List.length_pos_of_mem h
    rw [List.length_erase_of_mem h]
    omega
  rw [← hkeys] at hlength
  simpa [len, AList.keys, List.keys] using hlength

def eraseAll (keys : List κ) (m : HashMap κ ν) : HashMap κ ν :=
  keys.foldl (fun m k => m.erase k) m

theorem lookup_eraseAll (keys : List κ) (m : HashMap κ ν) (k : κ) :
    (eraseAll keys m).lookup k = if k ∈ keys then none else m.lookup k := by
  induction keys generalizing m with
  | nil => simp [eraseAll]
  | cons key keys ih =>
      rw [eraseAll, List.foldl_cons, ← eraseAll, ih, lookup_erase_eq]
      by_cases hk : k = key
      · simp [hk]
      · simp [hk]

theorem len_eraseAll {keys : List κ} (hkeys : keys.Nodup) {m : HashMap κ ν}
    (hmem : ∀ k ∈ keys, k ∈ m) : (eraseAll keys m).len + keys.length = m.len := by
  induction keys generalizing m with
  | nil => rfl
  | cons key keys ih =>
      obtain ⟨hkey, hrest⟩ := List.nodup_cons.mp hkeys
      have hstill : ∀ k ∈ keys, k ∈ m.erase key := by
        intro k hk
        have hne : k ≠ key := fun heq => hkey (heq ▸ hk)
        exact AList.mem_erase.mpr ⟨hne, hmem k (List.mem_cons_of_mem key hk)⟩
      have hfirst := len_erase_of_mem (hmem key List.mem_cons_self)
      have hothers := ih hrest hstill
      rw [eraseAll, List.foldl_cons, ← eraseAll, List.length_cons]
      omega

end HashMap

namespace Eviction

variable {κ ν : Type} [DecidableEq κ] (stamp : ν → ℕ)

/-- At least `n` other entries carry a stamp no older than that of `key`. -/
def OutlivedBy (n : ℕ) (m : HashMap κ ν) (key : κ) : Prop :=
  ∃ newer : Finset κ, n ≤ newer.card ∧ ∃ v, m.lookup key = some v ∧
    ∀ k ∈ newer, k ≠ key ∧ ∃ w, m.lookup k = some w ∧ stamp v ≤ stamp w

omit [DecidableEq κ] in
/-- The first `n` keys of a map in the order of their stamps. -/
def oldest (order : Enumeration (Sigma fun _ : κ => ν)) (n : ℕ) (m : HashMap κ ν) : List κ :=
  (((order.arrange m.entries).insertionSort fun a b => stamp a.2 ≤ stamp b.2).take n).map
    Sigma.fst

variable {stamp} {order : Enumeration (Sigma fun _ : κ => ν)} {n : ℕ} {m : HashMap κ ν}

theorem OutlivedBy.mono {n' : ℕ} {m' : HashMap κ ν} {key : κ} (h : OutlivedBy stamp n m key)
    (hn : n' ≤ n) (hm : ∀ k v, m.lookup k = some v → m'.lookup k = some v) :
    OutlivedBy stamp n' m' key := by
  obtain ⟨newer, hcard, v, hv, hnewer⟩ := h
  refine ⟨newer, hn.trans hcard, v, hm key v hv, ?_⟩
  intro k hk
  obtain ⟨hne, w, hw, hle⟩ := hnewer k hk
  exact ⟨hne, w, hm k w hw, hle⟩

omit [DecidableEq κ] in
theorem byAge_perm : ((order.arrange m.entries).insertionSort
    fun a b => stamp a.2 ≤ stamp b.2).Perm m.entries :=
  (List.perm_insertionSort _ _).trans (order.perm _)

omit [DecidableEq κ] in
theorem byAge_keys_nodup : (((order.arrange m.entries).insertionSort
    fun a b => stamp a.2 ≤ stamp b.2).map Sigma.fst).Nodup :=
  (byAge_perm.map Sigma.fst).nodup_iff.mpr m.keys_nodup

omit [DecidableEq κ] in
theorem oldest_nodup : (oldest stamp order n m).Nodup := by
  have hsub := List.take_sublist n
    ((order.arrange m.entries).insertionSort fun a b => stamp a.2 ≤ stamp b.2)
  exact byAge_keys_nodup.sublist (hsub.map Sigma.fst)

omit [DecidableEq κ] in
theorem mem_of_mem_oldest {k : κ} (h : k ∈ oldest stamp order n m) : k ∈ m := by
  obtain ⟨e, he, rfl⟩ := List.mem_map.mp h
  exact List.mem_map_of_mem (byAge_perm.mem_iff.mp (List.mem_of_mem_take he))

omit [DecidableEq κ] in
theorem length_oldest : (oldest stamp order n m).length = min n m.len := by
  have hlength : ((order.arrange m.entries).insertionSort
      fun a b => stamp a.2 ≤ stamp b.2).length = m.len := byAge_perm.length_eq
  rw [oldest, List.length_map, List.length_take, hlength]

theorem lookup_of_mem_byAge {e : Sigma fun _ : κ => ν}
    (h : e ∈ (order.arrange m.entries).insertionSort fun a b => stamp a.2 ≤ stamp b.2) :
    m.lookup e.1 = some e.2 :=
  AList.mem_lookup_iff.mpr (byAge_perm.mem_iff.mp h)

/-- One of the `n` oldest entries is outlived by all the others. -/
theorem outlivedBy_of_mem_oldest {key : κ} (h : key ∈ oldest stamp order n m) :
    OutlivedBy stamp (m.len - n) m key := by
  set byAge := (order.arrange m.entries).insertionSort fun a b => stamp a.2 ≤ stamp b.2
    with hbyAge
  have hlength : byAge.length = m.len := byAge_perm.length_eq
  have hnodup : ((byAge.take n ++ byAge.drop n).map Sigma.fst).Nodup := by
    rw [List.take_append_drop]
    exact byAge_keys_nodup
  rw [List.map_append] at hnodup
  have hsorted : (byAge.take n ++ byAge.drop n).Pairwise fun a b => stamp a.2 ≤ stamp b.2 := by
    have htotal : Std.Total fun a b : Sigma fun _ : κ => ν => stamp a.2 ≤ stamp b.2 :=
      ⟨fun a b => Nat.le_total _ _⟩
    have htrans : IsTrans _ fun a b : Sigma fun _ : κ => ν => stamp a.2 ≤ stamp b.2 :=
      ⟨fun _ _ _ => Nat.le_trans⟩
    rw [List.take_append_drop]
    exact List.pairwise_insertionSort _ _
  obtain ⟨e, he, rfl⟩ := List.mem_map.mp h
  refine ⟨((byAge.drop n).map Sigma.fst).toFinset, ?_, e.2,
    lookup_of_mem_byAge (List.mem_of_mem_take he), ?_⟩
  · rw [List.toFinset_card_of_nodup (List.nodup_append.mp hnodup).2.1, List.length_map,
      List.length_drop, hlength]
  · intro k hk
    obtain ⟨e', he', rfl⟩ := List.mem_map.mp (List.mem_toFinset.mp hk)
    refine ⟨?_, e'.2, lookup_of_mem_byAge (List.mem_of_mem_drop he'), ?_⟩
    · intro heq
      exact (List.nodup_append.mp hnodup).2.2 _ (List.mem_map_of_mem he) _
        (List.mem_map_of_mem he') heq.symm
    · exact (List.pairwise_append.mp hsorted).2.2 e he e' he'

/-- The oldest entry is outlived by all the others. -/
theorem outlivedBy_argmin {e : Sigma fun _ : κ => ν}
    (h : (order.arrange m.entries).argmin (fun e => stamp e.2) = some e) :
    OutlivedBy stamp (m.len - 1) m e.1 := by
  have hentries : ∀ e', e' ∈ order.arrange m.entries ↔ e' ∈ m.entries :=
    fun e' => (order.perm m.entries).mem_iff
  have hmem : e ∈ m.entries := (hentries e).mp (List.argmin_mem h)
  refine ⟨m.keys.toFinset.erase e.1, ?_, e.2, AList.mem_lookup_iff.mpr hmem, ?_⟩
  · have hkeys : m.keys.length = m.len := List.length_map _
    have hin : e.1 ∈ m.keys.toFinset := List.mem_toFinset.mpr (List.mem_map_of_mem hmem)
    rw [Finset.card_erase_of_mem hin, List.toFinset_card_of_nodup m.keys_nodup, hkeys]
  · intro k hk
    obtain ⟨hne, hk⟩ := Finset.mem_erase.mp hk
    obtain ⟨e', he', rfl⟩ := List.mem_map.mp (List.mem_toFinset.mp hk)
    have hle : stamp e.2 ≤ stamp e'.2 :=
      List.le_of_mem_argmin (f := fun e => stamp e.2) ((hentries e').mpr he') h
    exact ⟨hne, e'.2, AList.mem_lookup_iff.mpr he', hle⟩

end Eviction

end SilverNetwork
