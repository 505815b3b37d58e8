import Mathlib.Algebra.BigOperators.Group.List.Basic
import Mathlib.Algebra.GroupWithZero.Nat
import Mathlib.Data.Finset.Card
import Mathlib.Data.List.AList

/-! Maps with unrelated keys, and totals taken over their entries.
The carrier is Mathlib's association list; only totals are added here. -/
namespace Library

universe u v

abbrev KeyedMap (K : Type u) (V : Type v) := AList (fun _ : K => V)

namespace KeyedMap

variable {K : Type u} {V : Type v}

/-- The sum of a weight over all entries. -/
def total (weight : K → V → Nat) (m : KeyedMap K V) : Nat :=
  (m.entries.map (fun e => weight e.1 e.2)).sum

def size (m : KeyedMap K V) : Nat := m.entries.length

/-- One of the orders in which the entries can be listed. -/
structure Iteration (m : KeyedMap K V) where
  entries : List (Sigma fun _ : K => V)
  perm : entries.Perm m.entries

@[simp] theorem total_empty (weight : K → V → Nat) : total weight (∅ : KeyedMap K V) = 0 := rfl

@[simp] theorem size_empty : size (∅ : KeyedMap K V) = 0 := rfl

theorem size_eq_total (m : KeyedMap K V) : size m = total (fun _ _ => 1) m := by
  simp [size, total]

theorem Iteration.nodupKeys {m : KeyedMap K V} (order : Iteration m) : order.entries.NodupKeys :=
  (List.perm_nodupKeys order.perm).mpr m.nodupKeys

variable [DecidableEq K]

theorem entries_perm_erase {m : KeyedMap K V} {k : K} {v : V} (found : m.lookup k = some v) :
    m.entries.Perm (⟨k, v⟩ :: (m.erase k).entries) := by
  have present : k ∈ m.entries.keys := AList.lookup_isSome.mp (by rw [found]; rfl)
  obtain ⟨w, before, after, fresh, split, erased⟩ := List.exists_of_kerase present
  have value : w = v := by
    have h := found
    rw [AList.lookup, split, List.dlookup_append,
      List.dlookup_eq_none.mpr fresh, Option.none_or, List.dlookup_cons_eq] at h
    exact Option.some.inj h
  change m.entries.Perm (⟨k, v⟩ :: List.kerase k m.entries)
  rw [erased, split, value]
  exact List.perm_middle

theorem erase_absent {m : KeyedMap K V} {k : K} (absent : m.lookup k = none) : m.erase k = m :=
  AList.ext (List.kerase_of_notMem_keys (AList.lookup_eq_none.mp absent))

theorem total_erase (weight : K → V → Nat) {m : KeyedMap K V} {k : K} {v : V}
    (found : m.lookup k = some v) :
    total weight m = weight k v + total weight (m.erase k) := by
  have h := ((entries_perm_erase found).map (fun e => weight e.1 e.2)).sum_eq
  simpa [total] using h

theorem total_insert (weight : K → V → Nat) (m : KeyedMap K V) (k : K) (v : V) :
    total weight (m.insert k v) = weight k v + total weight (m.erase k) := by
  rw [total, AList.entries_insert, List.map_cons, List.sum_cons]
  rfl

theorem size_erase {m : KeyedMap K V} {k : K} {v : V} (found : m.lookup k = some v) :
    size m = size (m.erase k) + 1 := by
  rw [size_eq_total, size_eq_total, total_erase _ found, Nat.add_comm]

theorem size_insert (m : KeyedMap K V) (k : K) (v : V) :
    size (m.insert k v) = size (m.erase k) + 1 := by
  rw [size_eq_total, size_eq_total, total_insert, Nat.add_comm]

theorem mem_entries_iff {m : KeyedMap K V} {k : K} {v : V} :
    ⟨k, v⟩ ∈ m.entries ↔ m.lookup k = some v :=
  (List.mem_dlookup_iff m.nodupKeys).symm

theorem contains_iff {m : KeyedMap K V} {k : K} : k ∈ m ↔ ∃ v, m.lookup k = some v := by
  rw [← AList.lookup_isSome, Option.isSome_iff_exists]

theorem lookup_erase_eq (m : KeyedMap K V) (k a : K) :
    (m.erase a).lookup k = if k = a then none else m.lookup k := by
  split
  · rename_i same
    rw [same, AList.lookup_erase]
  · rename_i other
    exact AList.lookup_erase_ne other

theorem lookup_insert_eq (m : KeyedMap K V) (k a : K) (v : V) :
    (m.insert a v).lookup k = if k = a then some v else m.lookup k := by
  split
  · rename_i same
    rw [same, AList.lookup_insert]
  · rename_i other
    exact AList.lookup_insert_ne other

/-- The keys of a map. -/
def domain (m : KeyedMap K V) : Finset K := m.keys.toFinset

theorem mem_domain {m : KeyedMap K V} {k : K} : k ∈ domain m ↔ ∃ v, m.lookup k = some v := by
  rw [domain, List.mem_toFinset, ← AList.mem_keys, contains_iff]

theorem card_domain (m : KeyedMap K V) : (domain m).card = size m := by
  rw [domain, List.toFinset_card_of_nodup m.keys_nodup, AList.keys, List.keys, List.length_map]
  rfl

theorem card_inter_domain_le (keys : Finset K) (m : KeyedMap K V) :
    (keys ∩ domain m).card ≤ size m := by
  rw [← card_domain]
  exact Finset.card_le_card Finset.inter_subset_right

/-- A map that only lost entries lost as many keys as its size fell. -/
theorem card_lost {before after : KeyedMap K V}
    (part : ∀ k v, after.lookup k = some v → before.lookup k = some v) :
    (domain before \ domain after).card + size after = size before := by
  have subset : domain after ⊆ domain before := by
    intro k member
    obtain ⟨v, found⟩ := mem_domain.mp member
    exact mem_domain.mpr ⟨v, part k v found⟩
  rw [← card_domain, ← card_domain]
  exact Finset.card_sdiff_add_card_eq_card subset

theorem Iteration.mem_iff {m : KeyedMap K V} (order : Iteration m) {k : K} {v : V} :
    ⟨k, v⟩ ∈ order.entries ↔ m.lookup k = some v := by
  rw [order.perm.mem_iff, mem_entries_iff]

theorem Iteration.dlookup {m : KeyedMap K V} (order : Iteration m) (k : K) :
    order.entries.dlookup k = m.lookup k :=
  List.perm_dlookup k order.nodupKeys order.perm

end KeyedMap

end Library
