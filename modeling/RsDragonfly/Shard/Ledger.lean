import RsDragonfly.Shard.Effects

/-! What each step of a shard does to the number of its keys.
A key comes with a SET that finds it absent; it goes with a DEL that counts it,
or with an expiry that `keys_expired` counts. -/
namespace RsDragonfly
open Library

namespace Shard

section
variable {Q : Type}

def creates (s : Shard Q) (c : Command) (r : Response) : Bool :=
  match c, r with
  | .set key _ _, .ok => decide (key ∉ s.data)
  | _, _ => false

/-- `before` has lost `expired` keys to expiry and `deleted` to DEL, and has got `created`. -/
structure Moves (created deleted expired : Nat) (before after : Shard Q) : Prop where
  counted : after.metrics.keysExpired = before.metrics.keysExpired + UInt64.ofNat expired
  balance : KeyedMap.size before.data + created = KeyedMap.size after.data + deleted + expired

theorem Moves.none (s : Shard Q) : Moves 0 0 0 s s.recorded :=
  ⟨(UInt64.add_zero _).symm, rfl⟩

/-- What a DEL answers, as a number of keys. -/
def deletes (c : Command) (r : Response) : Nat :=
  match c, r with
  | .del _, .integer n => n.toInt.toNat
  | _, _ => 0

theorem redate_moves [MaxQueue Q Expiry] {s : Shard Q} {key : Key} {entry : Entry}
    (found : s.data.lookup key = some entry) (t : Instant) :
    Moves 0 0 0 s (s.redate key entry t).recorded := by
  have grown : KeyedMap.size (s.redate key entry t).recorded.data =
      KeyedMap.size (s.data.erase key) + 1 := KeyedMap.size_insert s.data key _
  have lost := KeyedMap.size_erase found
  constructor
  · exact (UInt64.add_zero _).symm
  · omega

variable [Layout]

theorem keysExpired_remove (s : Shard Q) (key : Key) :
    (s.removeKeyUpdateMetrics key).1.metrics.keysExpired = s.metrics.keysExpired := by
  unfold removeKeyUpdateMetrics
  cases s.data.lookup key <;> rfl

theorem keysExpired_delKeys (s : Shard Q) (keys : List Key) (n : Int64) :
    (s.delKeys keys n).1.metrics.keysExpired = s.metrics.keysExpired := by
  induction keys generalizing s n with
  | nil => rfl
  | cons key keys ih =>
    simp only [delKeys]
    rw [ih, keysExpired_remove]

theorem size_delKeys (s : Shard Q) (keys : List Key) (n : Int64) :
    KeyedMap.size (s.delKeys keys n).1.data + (keys.toFinset ∩ KeyedMap.domain s.data).card =
      KeyedMap.size s.data := by
  have left : KeyedMap.domain (s.delKeys keys n).1.data =
      KeyedMap.domain s.data \ keys.toFinset := by
    ext key
    rw [Finset.mem_sdiff, KeyedMap.mem_domain, KeyedMap.mem_domain, lookup_delKeys,
      List.mem_toFinset]
    by_cases named : key ∈ keys
    · simp [named]
    · simp [named]
  rw [← KeyedMap.card_domain, ← KeyedMap.card_domain, left, Finset.inter_comm]
  exact Finset.card_sdiff_add_card_inter _ _

theorem expireLazily_moves {s : Shard Q} {key : Key} {entry : Entry}
    (found : s.data.lookup key = some entry) :
    Moves 0 0 1 s (s.expireLazily key).recorded := by
  have lost := KeyedMap.size_erase found
  have data : (s.expireLazily key).recorded.data = s.data.erase key := by
    simp only [data_recorded, expireLazily, countExpired, removeKeyUpdateMetrics, found]
  constructor
  · exact congrArg (· + 1) (keysExpired_remove s key)
  · rw [data]
    exact lost

theorem del_moves (s : Shard Q) (keys : List Key) :
    Moves 0 (keys.toFinset ∩ KeyedMap.domain s.data).card 0 s (s.cmdDel keys).1.recorded := by
  constructor
  · exact (keysExpired_delKeys s keys 0).trans (UInt64.add_zero _).symm
  · exact (size_delKeys s keys 0).symm

variable [MaxQueue Q Expiry]

theorem store_moves (s : Shard Q) (key : Key) (value : Value) (expiry : Option Instant) :
    Moves (if key ∉ s.data then 1 else 0) 0 0 s (s.store key value expiry).recorded := by
  have grown : KeyedMap.size (s.store key value expiry).recorded.data =
      KeyedMap.size (s.data.erase key) + 1 := KeyedMap.size_insert s.data key _
  constructor
  · exact (UInt64.add_zero _).symm
  · cases found : s.data.lookup key with
    | none =>
      have absent : key ∉ s.data := by
        rw [KeyedMap.contains_iff, found]
        nofun
      rw [KeyedMap.erase_absent found] at grown
      rw [if_pos absent, grown]
    | some entry =>
      have present : key ∈ s.data := KeyedMap.contains_iff.mpr ⟨entry, found⟩
      have lost := KeyedMap.size_erase found
      rw [if_neg (not_not.mpr present)]
      omega

theorem execute_moves {s s' : Shard Q} {now : Instant} {c : Command} {r : Response}
    (h : s.execute now c = some (s', r)) (room : KeyedMap.size s.data ≤ maxKeysPerShard) :
    ∃ expired, Moves (if s.creates c r then 1 else 0) (deletes c r) expired s s' := by
  obtain ⟨next, dispatched, rfl⟩ := execute_cases h
  cases c with
  | ping message =>
    cases message <;> cases dispatched <;> exact ⟨0, Moves.none s⟩
  | set key value ttl =>
    rcases cmdSet_cases dispatched with ⟨rfl, msg, rfl⟩ | ⟨rfl, _, expiry, _, rfl⟩
    · exact ⟨0, Moves.none next⟩
    · refine ⟨0, ?_⟩
      simp only [creates, decide_eq_true_eq]
      exact store_moves s key value expiry
  | get key =>
    rcases cmdGet_cases (Option.some.inj dispatched) with rfl | ⟨entry, found, _, rfl⟩
    · exact ⟨0, Moves.none next⟩
    · exact ⟨1, expireLazily_moves found⟩
  | del keys =>
    have moves := del_moves s keys
    have few : (keys.toFinset ∩ KeyedMap.domain s.data).card < 2 ^ 63 := by
      have part := KeyedMap.card_inter_domain_le keys.toFinset s.data
      exact Nat.lt_of_le_of_lt (Nat.le_trans part room) (by decide)
    cases dispatched
    refine ⟨0, ?_⟩
    simp only [creates, deletes, delKeys_removed, Int64.zero_add, Int64.toInt_ofNat_of_lt few,
      Int.toNat_natCast]
    exact moves
  | expire key seconds =>
    rcases cmdExpire_cases dispatched with ⟨_, rfl, _⟩ | ⟨entry, t, found, _, rfl, _⟩
    · exact ⟨0, Moves.none next⟩
    · exact ⟨0, redate_moves found t⟩
  | ttl key =>
    rcases cmdTtl_cases (Option.some.inj dispatched) with rfl | ⟨entry, found, _, rfl⟩
    · exact ⟨0, Moves.none next⟩
    · exact ⟨1, expireLazily_moves found⟩
  | info section_ =>
    rw [dispatch_info dispatched]
    exact ⟨0, Moves.none s⟩

theorem sweep_moves {s : Shard Q} (backed : Backed s.data s.ttlQueue) (now : Instant) :
    Moves 0 0 (s.sweep now).expiredCount s (s.expireKeys now) := by
  have counted := (sweep_swept backed now).counted
  constructor
  · simp only [expireKeys]
    split
    · rfl
    · rename_i none_expired
      rw [Nat.eq_zero_of_not_pos none_expired]
      exact (UInt64.add_zero _).symm
  · rw [data_expireKeys]
    omega

end

end Shard

end RsDragonfly
