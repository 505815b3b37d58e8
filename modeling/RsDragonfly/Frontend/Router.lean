import RsDragonfly.Common.Types
import RsDragonfly.Library.KeyedMap

/-! `common/hash.rs` and `frontend/router.rs`: the shard of a key, and the keys of
a command by shard. -/
namespace RsDragonfly
open Library

def crc16Bit (crc : UInt16) : UInt16 :=
  if crc &&& 0x8000 ≠ 0 then (crc <<< 1) ^^^ 0x1021 else crc <<< 1

def crc16 (data : Bytes) : UInt16 :=
  let feed (crc : UInt16) (byte : UInt8) : UInt16 := crc ^^^ (byte.toUInt16 <<< (8 : UInt16))
  data.foldl (fun crc byte => Nat.repeat crc16Bit 8 (feed crc byte)) 0

example : crc16 (utf8 "123456789") = 0x31C3 := by decide +kernel

def routeKey (key : Key) : ShardId :=
  ⟨UInt16.ofNat ((crc16 key).toNat &&& (shardCount - 1))⟩

/-- `entry(shard_id).or_insert_with(Vec::new).push(key)`. -/
def groupKey (grouped : KeyedMap ShardId (List Key)) (key : Key) : KeyedMap ShardId (List Key) :=
  grouped.insert (routeKey key) ((grouped.lookup (routeKey key)).getD [] ++ [key])

def routeKeys (keys : List Key) : KeyedMap ShardId (List Key) := keys.foldl groupKey ∅

/-- Where a vector with one element for each shard is indexed. No result: out of bounds. -/
def slot (id : ShardId) : Option (Fin shardCount) :=
  if h : id.id.toNat < shardCount then some ⟨id.id.toNat, h⟩ else none

theorem slot_injective {a b : ShardId} {i : Fin shardCount} (ha : slot a = some i)
    (hb : slot b = some i) : a = b := by
  unfold slot at ha hb
  split at ha
  · split at hb
    · cases ha
      have same := Fin.val_eq_of_eq (Option.some.inj hb)
      obtain ⟨a⟩ := a
      obtain ⟨b⟩ := b
      exact congrArg ShardId.mk (UInt16.toNat_inj.mp same.symm)
    · cases hb
  · cases ha

theorem routeKey_lt (key : Key) : (routeKey key).id.toNat < shardCount := by
  have masked : (crc16 key).toNat &&& (shardCount - 1) ≤ shardCount - 1 := Nat.and_le_right
  have fits : (crc16 key).toNat &&& (shardCount - 1) < UInt16.size :=
    Nat.lt_of_le_of_lt masked (by decide)
  unfold routeKey
  rw [UInt16.toNat_ofNat_of_lt' fits]
  exact Nat.lt_of_le_of_lt masked (by decide)

def keySlot (key : Key) : Fin shardCount := ⟨(routeKey key).id.toNat, routeKey_lt key⟩

@[simp] theorem slot_routeKey (key : Key) : slot (routeKey key) = some (keySlot key) :=
  dif_pos (routeKey_lt key)

theorem keySlot_eq_iff {key : Key} {id : ShardId} {i : Fin shardCount} (h : slot id = some i) :
    keySlot key = i ↔ routeKey key = id := by
  constructor
  · rintro rfl
    exact slot_injective (slot_routeKey key) h
  · rintro rfl
    rw [slot_routeKey] at h
    exact Option.some.inj h

/-- A group is the keys that one shard gets, in their order and with their repeats. -/
theorem lookup_routeKeys (keys : List Key) (id : ShardId) :
    (routeKeys keys).lookup id =
      if keys.filter (routeKey · = id) = [] then none else some (keys.filter (routeKey · = id)) := by
  induction keys using List.reverseRecOn with
  | nil => rfl
  | append_singleton keys key ih =>
    rw [routeKeys, List.foldl_append, List.foldl_cons, List.foldl_nil]
    change (groupKey (routeKeys keys) key).lookup id = _
    unfold groupKey
    rw [KeyedMap.lookup_insert_eq, List.filter_append]
    by_cases here : id = routeKey key
    · subst here
      have group : ((routeKeys keys).lookup (routeKey key)).getD [] =
          keys.filter (routeKey · = routeKey key) := by
        rw [ih]
        split
        · rename_i none_there
          rw [none_there]
          rfl
        · rfl
      simp [group]
    · have elsewhere : [key].filter (routeKey · = id) = [] := by
        simp [Ne.symm here]
      rw [if_neg here, ih, elsewhere, List.append_nil]

theorem mem_routeKeys {keys : List Key} {id : ShardId} :
    id ∈ routeKeys keys ↔ ∃ key ∈ keys, routeKey key = id := by
  rw [KeyedMap.contains_iff, lookup_routeKeys]
  constructor
  · rintro ⟨group, found⟩
    split at found
    · cases found
    · rename_i some_there
      obtain ⟨key, member⟩ := List.exists_mem_of_ne_nil _ some_there
      obtain ⟨named, here⟩ := List.mem_filter.mp member
      exact ⟨key, named, of_decide_eq_true here⟩
  · rintro ⟨key, named, here⟩
    refine ⟨keys.filter (routeKey · = id), if_neg ?_⟩
    exact List.ne_nil_of_mem (List.mem_filter.mpr ⟨named, decide_eq_true here⟩)

theorem group_of_lookup {keys : List Key} {id : ShardId} {group : List Key}
    (found : (routeKeys keys).lookup id = some group) : group = keys.filter (routeKey · = id) := by
  rw [lookup_routeKeys] at found
  split at found
  · cases found
  · exact (Option.some.inj found).symm

theorem routeKeys_lt {keys : List Key} {id : ShardId} (there : id ∈ routeKeys keys) :
    id.id.toNat < shardCount := by
  obtain ⟨key, _, rfl⟩ := mem_routeKeys.mp there
  exact routeKey_lt key

/-- The groups together are the keys, whatever order the map lists them in. -/
theorem groups_perm {keys : List Key} (order : KeyedMap.Iteration (routeKeys keys)) :
    (order.entries.flatMap Sigma.snd).Perm keys := by
  rw [List.perm_iff_count]
  intro key
  have counted : ∀ group ∈ order.entries,
      group.2.count key = if group.1 = routeKey key then keys.count key else 0 := by
    intro group member
    rw [group_of_lookup (order.mem_iff.mp member)]
    split
    · rename_i here
      exact List.count_filter (decide_eq_true here.symm)
    · rename_i elsewhere
      apply List.count_eq_zero_of_not_mem
      intro found
      exact elsewhere (of_decide_eq_true (List.mem_filter.mp found).2).symm
  have placed : (order.entries.map fun group => group.2.count key).sum =
      (order.entries.map Sigma.fst).count (routeKey key) * keys.count key := by
    have single := List.sum_map_eq_nsmul_single (l := order.entries.map Sigma.fst) (routeKey key)
      (fun id => if id = routeKey key then keys.count key else 0) fun _ other _ => if_neg other
    rw [List.map_map, if_pos rfl, Nat.nsmul_eq_mul] at single
    rw [List.map_congr_left counted]
    exact single
  rw [List.count_flatMap]
  refine placed.trans ?_
  by_cases named : key ∈ keys
  · have group := (AList.mem_keys).mp (mem_routeKeys.mpr ⟨key, named, rfl⟩)
    have listed : routeKey key ∈ order.entries.map Sigma.fst :=
      (order.perm.map Sigma.fst).mem_iff.mpr group
    have once := List.count_eq_one_of_mem order.nodupKeys listed
    change (order.entries.map Sigma.fst).count (routeKey key) = 1 at once
    rw [once, Nat.one_mul]
  · rw [List.count_eq_zero_of_not_mem named, Nat.mul_zero]

end RsDragonfly
