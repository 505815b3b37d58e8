import Mathlib.Logic.Relation
import RsDragonfly.Shard.History

/-! What holds of every shard a run reaches.
A command is a sequence of primitive writes, so an invariant is checked against
the writes and the sweep, and never against the commands. -/
namespace RsDragonfly
open Library

theorem toNat_sub_ofNat {a : UInt64} {n : Nat} (covered : n ≤ a.toNat) :
    (a - UInt64.ofNat n).toNat = a.toNat - n := by
  have whole : (UInt64.ofNat n).toNat = n :=
    UInt64.toNat_ofNat_of_lt' (Nat.lt_of_le_of_lt covered a.toNat_lt)
  have below : UInt64.ofNat n ≤ a := by rw [UInt64.le_iff_toNat_le, whole]; exact covered
  rw [UInt64.toNat_sub_of_le _ _ below, whole]

theorem toNat_add_ofNat {a : UInt64} {n : Nat} (fits : a.toNat + n ≤ usizeMax) :
    (a + UInt64.ofNat n).toNat = a.toNat + n := by
  unfold usizeMax at fits
  have whole : (UInt64.ofNat n).toNat = n :=
    UInt64.toNat_ofNat_of_lt' (by simp only [UInt64.size]; omega)
  rw [UInt64.toNat_add, whole]
  omega

namespace Shard

/-- The bytes of all entries: what `memory_bytes` stands for. -/
def storedBytes {Q : Type} [Layout] (s : Shard Q) : Nat :=
  KeyedMap.total (fun key entry => entrySizeBytes key entry.value) s.data

theorem entrySizeBytes_positive [Layout] (key : Key) (value : Value) :
    0 < entrySizeBytes key value :=
  Nat.lt_of_lt_of_le Layout.entry_positive (Nat.le_add_left _ _)

section
variable {Q : Type} [MaxQueue Q Expiry] [Layout]

/-- The ways a command changes the shard. -/
inductive Write : Shard Q → Shard Q → Prop where
  | store {s : Shard Q} {key : Key} {value : Value} (allowed : s.StoreAllowed key value)
      (expiry : Option Instant) : Write s (s.store key value expiry)
  | remove {s : Shard Q} {key : Key} {entry : Entry} (found : s.data.lookup key = some entry) :
      Write s (s.removeKeyUpdateMetrics key).1
  | redate {s : Shard Q} {key : Key} {entry : Entry} (found : s.data.lookup key = some entry)
      (expiryTime : Instant) : Write s (s.redate key entry expiryTime)
  | countExpired {s : Shard Q} : Write s s.countExpired
  | recorded {s : Shard Q} : Write s s.recorded

abbrev Writes : Shard Q → Shard Q → Prop := Relation.ReflTransGen Write

theorem remove_writes (s : Shard Q) (key : Key) : Writes s (s.removeKeyUpdateMetrics key).1 := by
  cases found : s.data.lookup key with
  | none =>
    have same : (s.removeKeyUpdateMetrics key).1 = s := by simp [removeKeyUpdateMetrics, found]
    rw [same]
  | some entry => exact .single (.remove found)

theorem expireLazily_writes (s : Shard Q) (key : Key) : Writes s (s.expireLazily key) :=
  (remove_writes s key).tail .countExpired

theorem delKeys_writes (s : Shard Q) (keys : List Key) (n : Int64) :
    Writes s (s.delKeys keys n).1 := by
  induction keys generalizing s n with
  | nil => exact .refl
  | cons key keys ih => exact (remove_writes s key).trans (ih _ _)

theorem execute_writes {s s' : Shard Q} {now : Instant} {c : Command} {r : Response}
    (h : s.execute now c = some (s', r)) : Writes s s' := by
  obtain ⟨next, hnext, rfl⟩ := execute_cases h
  refine Relation.ReflTransGen.tail ?_ .recorded
  cases c with
  | ping message =>
    cases message <;> cases hnext <;> exact .refl
  | set key value ttl =>
    rcases cmdSet_cases hnext with ⟨rfl, _⟩ | ⟨_, allowed, expiry, _, rfl⟩
    · exact .refl
    · exact .single (.store allowed expiry)
  | get key =>
    rcases cmdGet_cases (Option.some.inj hnext) with rfl | ⟨_, _, _, rfl⟩
    · exact .refl
    · exact expireLazily_writes s key
  | del keys =>
    cases hnext
    exact delKeys_writes s keys 0
  | expire key seconds =>
    rcases cmdExpire_cases hnext with ⟨_, rfl, _⟩ | ⟨entry, t, found, _, rfl, _⟩
    · exact .refl
    · exact .single (.redate found t)
  | ttl key =>
    rcases cmdTtl_cases (Option.some.inj hnext) with rfl | ⟨_, _, _, rfl⟩
    · exact .refl
    · exact expireLazily_writes s key
  | info section_ =>
    rw [dispatch_info hnext]

/-- What every primitive write keeps, every command keeps. -/
theorem Writes.keep {P : Shard Q → Prop} (write : ∀ s s', Write s s' → P s → P s')
    {s s' : Shard Q} (h : Writes s s') (hs : P s) : P s' := by
  induction h with
  | refl => exact hs
  | tail _ last ih => exact write _ _ last ih

theorem Write.id_eq {s s' : Shard Q} (h : Write s s') : s'.id = s.id := by
  cases h with
  | remove found => simp only [removeKeyUpdateMetrics, found]
  | _ => rfl

theorem execute_id {s s' : Shard Q} {now : Instant} {c : Command} {r : Response}
    (h : s.execute now c = some (s', r)) : s'.id = s.id := by
  refine (execute_writes h).keep (P := fun x => x.id = s.id) ?_ rfl
  intro a b write same
  exact write.id_eq.trans same

omit [Layout] in
@[simp] theorem id_expireKeys (s : Shard Q) (now : Instant) : (s.expireKeys now).id = s.id := by
  simp only [expireKeys]
  split <;> rfl

theorem Run.keep {P : Shard Q → Prop} (initial : ∀ id now, P (new id now))
    (write : ∀ s s', Write s s' → P s → P s') (sweep : ∀ s now, P s → P (s.expireKeys now))
    {past : List (Shard Q × Event)} {s : Shard Q} (run : Run Q past s) : P s := by
  refine System.Run.invariant P ?_ ?_ run
  · rintro _ ⟨id, now, rfl⟩
    exact initial id now
  · rintro before ⟨t, action⟩ after hs hP
    cases action with
    | command c r => exact (execute_writes hs).keep write hP
    | sweep =>
      cases hs
      exact sweep before t hP

end

/-! The sweep keeps every stored deadline in the queue, so it finds what is due. -/

section
variable {Q : Type} [MaxQueue Q Expiry]

/-- Every stored deadline has its element in the queue. -/
def Backed (data : KeyedMap Key Entry) (ttlQueue : Q) : Prop :=
  ∀ k entry d, data.lookup k = some entry → entry.expiry = some d →
    (⟨d, k⟩ : Expiry) ∈ MaxQueue.items ttlQueue

/-- Some stored entry has a deadline that has passed. -/
def HoldsDue (s : Shard Q) (now : Instant) : Prop :=
  ∃ k entry, s.data.lookup k = some entry ∧ entry.Dead now

/-- How far a sweep of `s` has come. -/
structure Swept [Layout] (s : Shard Q) (now : Instant) (w : Sweep Q) : Prop where
  backed : Backed w.data w.ttlQueue
  part : ∀ k entry, w.data.lookup k = some entry → s.data.lookup k = some entry
  counted : KeyedMap.size w.data + w.expiredCount = KeyedMap.size s.data
  freed : KeyedMap.total (fun key entry => entrySizeBytes key entry.value) w.data +
    w.expiredCount ≤ s.storedBytes
  untouched : w.expiredCount = 0 → w.data = s.data
  due : 0 < w.expiredCount → s.HoldsDue now

variable [Layout]

theorem expirePass_swept {s : Shard Q} {now : Instant} {w w' : Sweep Q}
    (pass : expirePass now w = some w') (h : Swept s now w) : Swept s now w' := by
  obtain ⟨expiry, rest, popped, passed, ⟨entry, found, current, rfl⟩ | ⟨stale, rfl⟩⟩ :=
    expirePass_cases pass
  · constructor
    · intro k other d hother hd
      rw [KeyedMap.lookup_erase_eq] at hother
      split at hother
      · cases hother
      · rename_i different
        rcases (MaxQueue.mem_of_pop popped).mp (h.backed k other d hother hd) with same | left
        · exact absurd (congrArg Expiry.key same) different
        · exact left
    · intro k other hother
      rw [KeyedMap.lookup_erase_eq] at hother
      split at hother
      · cases hother
      · exact h.part k other hother
    · have one := KeyedMap.size_erase found
      have counted := h.counted
      simp only
      omega
    · have bytes := KeyedMap.total_erase (fun key e => entrySizeBytes key e.value) found
      have positive := entrySizeBytes_positive expiry.key entry.value
      have freed := h.freed
      simp only
      omega
    · intro none_expired
      exact absurd none_expired (Nat.succ_ne_zero _)
    · intro _
      exact ⟨expiry.key, entry, h.part _ _ found, expiry.expiryTime, current, passed⟩
  · refine ⟨fun k entry d found hd => ?_, h.part, h.counted, h.freed, h.untouched, h.due⟩
    rcases (MaxQueue.mem_of_pop popped).mp (h.backed k entry d found hd) with same | left
    · subst same
      exact absurd hd (stale entry found)
    · exact left

theorem sweep_swept {s : Shard Q} (backed : Backed s.data s.ttlQueue) (now : Instant) :
    Swept s now (s.sweep now) := by
  refine expireLoop_rule (Swept s now) (fun w w' => expirePass_swept) _ _ ?_
  exact ⟨backed, fun _ _ found => found, rfl, Nat.le_refl _, fun _ => rfl,
    fun impossible => absurd impossible (Nat.lt_irrefl 0)⟩

/-- A sweep removes something exactly if something is due. -/
theorem sweep_expires_iff {s : Shard Q} (backed : Backed s.data s.ttlQueue) (now : Instant) :
    0 < (s.sweep now).expiredCount ↔ s.HoldsDue now := by
  have h := sweep_swept backed now
  constructor
  · exact h.due
  · rintro ⟨k, entry, found, d, hd, passed⟩
    rcases @expireLoop_exit _ _ now _ ⟨s.ttlQueue, s.data, 0⟩ (Nat.le_refl _) with full | clear
    · exact Nat.lt_of_lt_of_le (by decide) full
    · apply Nat.pos_of_ne_zero
      intro none_expired
      rw [← h.untouched none_expired] at found
      exact absurd passed (not_le.mpr (clear _ (h.backed k entry d found hd)))

end

/-! The key count and the queue follow the map. -/

section
variable {Q : Type} [MaxQueue Q Expiry]

/-- The counter tells the size of the map and the queue knows every deadline in it. -/
structure Indexed (s : Shard Q) : Prop where
  counted : s.metrics.keyCount = UInt64.ofNat (KeyedMap.size s.data)
  backed : Backed s.data s.ttlQueue

theorem indexed_new (id : ShardId) (now : Instant) : Indexed (new id now : Shard Q) := by
  refine ⟨rfl, ?_⟩
  intro k entry d found
  cases found

theorem Backed.insert {data : KeyedMap Key Entry} {ttlQueue : Q} (h : Backed data ttlQueue)
    (key : Key) (value : Value) (expiry : Option Instant) :
    Backed (data.insert key ⟨value, expiry⟩) (match expiry with
      | some expTime => MaxQueue.push ttlQueue (⟨expTime, key⟩ : Expiry)
      | none => ttlQueue) := by
  intro k entry d found hd
  rw [KeyedMap.lookup_insert_eq] at found
  split at found
  · rename_i same
    cases found
    cases hd
    rw [same]
    simp
  · have queued := h k entry d found hd
    cases expiry with
    | none => exact queued
    | some t => simp [queued]

theorem Indexed.redate {s : Shard Q} (h : s.Indexed) {key : Key} {entry : Entry}
    (found : s.data.lookup key = some entry) (t : Instant) : (s.redate key entry t).Indexed := by
  have size_kept : KeyedMap.size (s.redate key entry t).data = KeyedMap.size s.data := by
    have grown := KeyedMap.size_insert s.data key { entry with expiry := some t }
    have shrunk := KeyedMap.size_erase found
    exact grown.trans shrunk.symm
  constructor
  · rw [size_kept]
    exact h.counted
  · exact h.backed.insert key entry.value (some t)

variable [Layout]

theorem Indexed.remove {s : Shard Q} (h : s.Indexed) {key : Key} {entry : Entry}
    (found : s.data.lookup key = some entry) : (s.removeKeyUpdateMetrics key).1.Indexed := by
  constructor
  · simp only [removeKeyUpdateMetrics, found]
  · intro k other d hother hd
    have queue_kept : (s.removeKeyUpdateMetrics key).1.ttlQueue = s.ttlQueue := by
      simp only [removeKeyUpdateMetrics, found]
    rw [lookup_remove] at hother
    rw [queue_kept]
    split at hother
    · cases hother
    · exact h.backed k other d hother hd

theorem Indexed.write {s s' : Shard Q} (hw : Write s s') (h : s.Indexed) : s'.Indexed := by
  cases hw with
  | store _ expiry => exact ⟨rfl, h.backed.insert _ _ expiry⟩
  | remove found => exact h.remove found
  | redate found t => exact h.redate found t
  | countExpired => exact ⟨h.counted, h.backed⟩
  | recorded => exact ⟨h.counted, h.backed⟩

theorem Indexed.sweep {s : Shard Q} (h : s.Indexed) (now : Instant) :
    (s.expireKeys now).Indexed := by
  have swept := sweep_swept h.backed now
  simp only [expireKeys]
  split
  · exact ⟨rfl, swept.backed⟩
  · rename_i none_expired
    have same := swept.untouched (Nat.eq_zero_of_not_pos none_expired)
    refine ⟨?_, swept.backed⟩
    simp only [same]
    exact h.counted

end

/-! The invariant of the map, its limits and its queue. -/

section
variable {Q : Type} [MaxQueue Q Expiry]

structure WellFormed (s : Shard Q) : Prop where
  memory_limit : s.maxMemoryBytes = maxMemoryPerShard
  key_limit : s.maxKeys = maxKeysPerShard
  key_fits : ∀ k entry, s.data.lookup k = some entry → k.length ≤ maxKeySize
  value_fits : ∀ k entry, s.data.lookup k = some entry → entry.value.sizeBytes ≤ maxValueSize
  room : KeyedMap.size s.data ≤ s.maxKeys
  counted : s.metrics.keyCount = UInt64.ofNat (KeyedMap.size s.data)
  backed : Backed s.data s.ttlQueue

theorem WellFormed.indexed {s : Shard Q} (h : s.WellFormed) : s.Indexed := ⟨h.counted, h.backed⟩

theorem WellFormed.few {s : Shard Q} (h : s.WellFormed) :
    KeyedMap.size s.data ≤ maxKeysPerShard := by
  rw [← h.key_limit]
  exact h.room

theorem wellFormed_new (id : ShardId) (now : Instant) : WellFormed (new id now : Shard Q) := by
  have indexed := indexed_new id now (Q := Q)
  refine ⟨rfl, rfl, ?_, ?_, Nat.zero_le _, indexed.counted, indexed.backed⟩
  · intro k entry found
    cases found
  · intro k entry found
    cases found

theorem WellFormed.redate {s : Shard Q} (h : s.WellFormed) {key : Key} {entry : Entry}
    (found : s.data.lookup key = some entry) (t : Instant) : (s.redate key entry t).WellFormed := by
  have indexed := h.indexed.redate found t
  refine ⟨h.memory_limit, h.key_limit, ?_, ?_, ?_, indexed.counted, indexed.backed⟩
  · intro k e he
    rw [lookup_redate] at he
    split at he
    · rename_i same
      rw [same]
      exact h.key_fits key entry found
    · exact h.key_fits k e he
  · intro k e he
    rw [lookup_redate] at he
    split at he
    · cases he
      exact h.value_fits key entry found
    · exact h.value_fits k e he
  · have grown := KeyedMap.size_insert s.data key { entry with expiry := some t }
    have shrunk := KeyedMap.size_erase found
    have room := h.room
    change KeyedMap.size (s.data.insert key { entry with expiry := some t }) ≤ s.maxKeys
    omega

variable [Layout]

theorem WellFormed.store {s : Shard Q} (h : s.WellFormed) {key : Key} {value : Value}
    (allowed : s.StoreAllowed key value) (expiry : Option Instant) :
    (s.store key value expiry).WellFormed := by
  have indexed := h.indexed.write (.store allowed expiry)
  refine ⟨h.memory_limit, h.key_limit, ?_, ?_, ?_, indexed.counted, indexed.backed⟩
  · intro k entry found
    rw [lookup_store] at found
    split at found
    · rename_i same
      rw [same]
      exact allowed.key_fits
    · exact h.key_fits k entry found
  · intro k entry found
    rw [lookup_store] at found
    split at found
    · cases found
      exact allowed.value_fits
    · exact h.value_fits k entry found
  · have grown := KeyedMap.size_insert s.data key ⟨value, expiry⟩
    have room := h.room
    change KeyedMap.size (s.data.insert key ⟨value, expiry⟩) ≤ s.maxKeys
    cases found : s.data.lookup key with
    | some entry =>
      have shrunk := KeyedMap.size_erase found
      omega
    | none =>
      rw [KeyedMap.erase_absent found] at grown
      have below := allowed.room.resolve_left (AList.lookup_eq_none.mp found)
      omega

theorem WellFormed.remove {s : Shard Q} (h : s.WellFormed) {key : Key} {entry : Entry}
    (found : s.data.lookup key = some entry) : (s.removeKeyUpdateMetrics key).1.WellFormed := by
  have indexed := h.indexed.remove found
  have part : ∀ k e, (s.removeKeyUpdateMetrics key).1.data.lookup k = some e →
      s.data.lookup k = some e := by
    intro k e he
    rw [lookup_remove] at he
    split at he
    · cases he
    · exact he
  have erased : (s.removeKeyUpdateMetrics key).1 = { s with
      data := s.data.erase key
      metrics := { s.metrics with
        memoryBytes := s.metrics.memoryBytes - UInt64.ofNat (entrySizeBytes key entry.value)
        keyCount := UInt64.ofNat (KeyedMap.size (s.data.erase key)) } } := by
    simp only [removeKeyUpdateMetrics, found]
  rw [erased] at part indexed ⊢
  refine ⟨h.memory_limit, h.key_limit, fun k e he => h.key_fits k e (part k e he),
    fun k e he => h.value_fits k e (part k e he), ?_, indexed.counted, indexed.backed⟩
  have shrunk := KeyedMap.size_erase found
  have room := h.room
  simp only
  omega

theorem WellFormed.write {s s' : Shard Q} (hw : Write s s') (h : s.WellFormed) :
    s'.WellFormed := by
  cases hw with
  | store allowed expiry => exact h.store allowed expiry
  | remove found => exact h.remove found
  | redate found t => exact h.redate found t
  | countExpired => exact ⟨h.1, h.2, h.3, h.4, h.5, h.6, h.7⟩
  | recorded => exact ⟨h.1, h.2, h.3, h.4, h.5, h.6, h.7⟩

theorem WellFormed.sweep {s : Shard Q} (h : s.WellFormed) (now : Instant) :
    (s.expireKeys now).WellFormed := by
  have swept := sweep_swept h.backed now
  have indexed := h.indexed.sweep now
  have limits : (s.expireKeys now).maxMemoryBytes = s.maxMemoryBytes ∧
      (s.expireKeys now).maxKeys = s.maxKeys := by
    simp only [expireKeys]
    split <;> exact ⟨rfl, rfl⟩
  refine ⟨limits.1.trans h.memory_limit, limits.2.trans h.key_limit, ?_, ?_, ?_,
    indexed.counted, indexed.backed⟩
  · rw [data_expireKeys]
    exact fun k e he => h.key_fits k e (swept.part k e he)
  · rw [data_expireKeys]
    exact fun k e he => h.value_fits k e (swept.part k e he)
  · rw [data_expireKeys, limits.2]
    have counted := swept.counted
    have room := h.room
    omega

theorem wellFormed_run {past : List (Shard Q × Event)} {s : Shard Q} (run : Run Q past s) :
    s.WellFormed :=
  run.keep wellFormed_new (fun _ _ => WellFormed.write) (fun _ now h => h.sweep now)

end

end Shard

end RsDragonfly
