import RsDragonfly.Shard.Panics
import RsDragonfly.Shard.Unobserved

/-! What a command does to the entry of its key, as a function of that entry.
Away from the limits nothing else of the shard is looked at, so two shards that
store one entry under a key treat a command on it alike. -/
namespace RsDragonfly
open Library

/-- The new entry and the response, from the entry that was there. No result: a panic. -/
def Command.effect (now : Instant) : Command → Option Entry → Option (Option Entry × Response)
  | .set key value seconds, old =>
    if key.length > maxKeySize then some (old, .error "ERR key too large")
    else if value.sizeBytes > maxValueSize then some (old, .error "ERR value too large")
    else (Shard.setExpiry now seconds).map fun expiry => (some ⟨value, expiry⟩, .ok)
  | .get _, none => some (none, .value none)
  | .get _, some entry =>
    if entry.isExpired now then some (none, .value none)
    else some (some entry, .value (some entry.value))
  | .expire _ _, none => some (none, .integer 0)
  | .expire _ seconds, some entry =>
    (now.add (Duration.fromSecs seconds)).map fun t =>
      (some { entry with expiry := some t }, .integer 1)
  | .ttl _, none => some (none, .integer (-2))
  | .ttl _, some entry =>
    match entry.expiry with
    | none => some (some entry, .integer (-1))
    | some exp =>
      if now ≥ exp then some (none, .integer (-2))
      else some (some entry,
        .integer (Duration.asSecs (exp.saturatingDurationSince now)).toInt64)
  | _, old => some (old, .ok)

theorem Command.keyed_cases {c : Command} (keyed : c.isKeyed = true) :
    (∃ key, c.onKey = some key) ∨ ∃ keys, c = .del keys := by
  cases c with
  | ping message => cases keyed
  | info section_ => cases keyed
  | del keys => exact .inr ⟨keys, rfl⟩
  | _ => exact .inl ⟨_, rfl⟩

namespace Shard

section
variable {Q : Type}

/-- The entry of the key is as the effect says, and every other one is as it was. -/
structure Applied (c : Command) (key : Key) (now : Instant) (s s' : Shard Q) (r : Response) :
    Prop where
  entry : c.effect now (s.data.lookup key) = some (s'.data.lookup key, r)
  frame : ∀ k ≠ key, s'.data.lookup k = s.data.lookup k

theorem expire_applied [MaxQueue Q Expiry] {s s' : Shard Q} {now : Instant} {key : Key}
    {seconds : UInt64} {r : Response} (h : s.cmdExpire now key seconds = some (s', r)) :
    Applied (.expire key seconds) key now s s' r := by
  rcases cmdExpire_cases h with ⟨absent, rfl, rfl⟩ | ⟨entry, t, found, sum, rfl, rfl⟩
  · exact ⟨by rw [absent]; rfl, fun _ _ => rfl⟩
  · constructor
    · rw [found, lookup_redate, if_pos rfl, Command.effect, sum]
      rfl
    · intro k other
      rw [lookup_redate, if_neg other]

variable [Layout]

theorem get_applied (s : Shard Q) (now : Instant) (key : Key) :
    Applied (.get key) key now s (s.cmdGet now key).1 (s.cmdGet now key).2 := by
  unfold cmdGet
  cases found : s.data.lookup key with
  | none => exact ⟨by rw [found]; rfl, fun _ _ => rfl⟩
  | some entry =>
    by_cases dead : entry.isExpired now = true
    · simp only [if_pos dead]
      constructor
      · rw [found, lookup_expireLazily, if_pos rfl, Command.effect, if_pos dead]
      · intro k other
        rw [lookup_expireLazily, if_neg other]
    · simp only [if_neg dead]
      exact ⟨by rw [found, Command.effect, if_neg dead], fun _ _ => rfl⟩

theorem ttl_applied (s : Shard Q) (now : Instant) (key : Key) :
    Applied (.ttl key) key now s (s.cmdTtl now key).1 (s.cmdTtl now key).2 := by
  unfold cmdTtl
  cases found : s.data.lookup key with
  | none => exact ⟨by rw [found]; rfl, fun _ _ => rfl⟩
  | some entry =>
    cases dated : entry.expiry with
    | none =>
      simp only [dated]
      exact ⟨by simp only [found, Command.effect, dated], fun _ _ => rfl⟩
    | some exp =>
      by_cases dead : now ≥ exp
      · simp only [dated, if_pos dead]
        constructor
        · simp only [found, Command.effect, dated, if_pos dead, lookup_expireLazily, if_true]
        · intro k other
          rw [lookup_expireLazily, if_neg other]
      · simp only [dated, if_neg dead]
        exact ⟨by simp only [found, Command.effect, dated, if_neg dead], fun _ _ => rfl⟩

variable [MaxQueue Q Expiry]

theorem set_applied {s s' : Shard Q} {now : Instant} {key : Key} {value : Value}
    {ttl : Option UInt64} {r : Response} (h : s.cmdSet now key value ttl = some (s', r))
    (room : Event.reachesLimit ⟨now, .command (.set key value ttl) r⟩ = false) :
    Applied (.set key value ttl) key now s s' r := by
  have answer := cmdSet_response h room
  rcases cmdSet_cases h with ⟨rfl, msg, rfl⟩ | ⟨rfl, allowed, expiry, dated, rfl⟩
  · refine ⟨?_, fun _ _ => rfl⟩
    simp only [Command.effect]
    split_ifs at answer ⊢ with long_key long_value
    · rw [answer]
    · rw [answer]
  · constructor
    · simp only [Command.effect]
      rw [if_neg (Nat.not_lt.mpr allowed.key_fits), if_neg (Nat.not_lt.mpr allowed.value_fits),
        dated, lookup_store, if_pos rfl]
      rfl
    · intro k other
      rw [lookup_store, if_neg other]

theorem execute_effect {s s' : Shard Q} {now : Instant} {c : Command} {r : Response} {key : Key}
    (h : s.execute now c = some (s', r)) (on : c.onKey = some key)
    (room : Event.reachesLimit ⟨now, .command c r⟩ = false) : Applied c key now s s' r := by
  obtain ⟨next, dispatched, rfl⟩ := execute_cases h
  have recorded (applied : Applied c key now s next r) : Applied c key now s next.recorded r :=
    ⟨applied.entry, applied.frame⟩
  apply recorded
  cases c with
  | ping message => cases on
  | info section_ => cases on
  | del keys => cases on
  | set key value ttl =>
    cases on
    exact set_applied dispatched room
  | get key =>
    cases on
    have applied := get_applied s now key
    rwa [Option.some.inj dispatched] at applied
  | expire key seconds =>
    cases on
    exact expire_applied dispatched
  | ttl key =>
    cases on
    have applied := ttl_applied s now key
    rwa [Option.some.inj dispatched] at applied

theorem execute_error {s s' : Shard Q} {now : Instant} {c : Command} {text : String}
    (h : s.execute now c = some (s', .error text)) :
    text ∈ ["ERR key too large", "ERR value too large", "ERR shard full",
      "ERR OOM command not allowed when used memory > 'maxmemory'", "ERR unknown section"] := by
  obtain ⟨next, dispatched, rfl⟩ := execute_cases h
  cases c with
  | ping message => cases message <;> cases dispatched
  | del keys => cases dispatched
  | set key value ttl =>
    simp only [dispatch, cmdSet] at dispatched
    split at dispatched
    · cases dispatched
      simp
    · split at dispatched
      · cases dispatched
        simp
      · split at dispatched
        · cases dispatched
          simp
        · obtain ⟨_, _, dispatched⟩ := Option.bind_eq_some_iff.mp dispatched
          obtain ⟨_, _, dispatched⟩ := Option.bind_eq_some_iff.mp dispatched
          obtain ⟨_, _, dispatched⟩ := Option.bind_eq_some_iff.mp dispatched
          split at dispatched
          · cases dispatched
            simp
          · cases dispatched
  | get key =>
    have answered := cmdGet_response s now key
    rw [Option.some.inj dispatched] at answered
    cases answered
  | expire key seconds => cases cmdExpire_response dispatched
  | ttl key =>
    have answered := cmdTtl_response s now key
    rw [Option.some.inj dispatched] at answered
    cases answered
  | info section_ =>
    simp only [dispatch, cmdInfo, Option.some.injEq] at dispatched
    split at dispatched
    · cases dispatched
    · cases dispatched
    · cases dispatched
    · cases dispatched
    · cases dispatched
      simp

theorem execute_isSome_of_effect {s : Shard Q} {leaked : Nat} (accounted : s.Accounted leaked)
    {now : Instant} {c : Command} {key : Key} (on : c.onKey = some key)
    (defined : (c.effect now (s.data.lookup key)).isSome) :
    ∃ s' r, s.execute now c = some (s', r) := by
  rw [← Prod.exists (p := fun out : Shard Q × Response => s.execute now c = some out),
    ← Option.isSome_iff_exists, execute_isSome_iff accounted]
  intro overflow
  cases c with
  | ping message => cases on
  | info section_ => cases on
  | del keys => cases on
  | get key => exact overflow
  | ttl key => exact overflow
  | expire key seconds =>
    cases on
    obtain ⟨present, late⟩ := overflow
    obtain ⟨entry, found⟩ := KeyedMap.contains_iff.mp present
    rw [found, Command.effect, Option.isSome_map, add_isSome_iff] at defined
    exact defined late
  | set key value ttl =>
    cases on
    cases ttl with
    | none => exact overflow
    | some seconds =>
      obtain ⟨key_fits, value_fits, _, late⟩ := overflow
      simp only [Command.effect] at defined
      rw [if_neg (Nat.not_lt.mpr key_fits), if_neg (Nat.not_lt.mpr value_fits), Option.isSome_map,
        setExpiry_isSome_iff] at defined
      exact defined seconds rfl late

end

section
variable {Q : Type} [Layout]

theorem stored_before [MaxQueue Q Expiry] {s s' : Shard Q} {now : Instant} {c : Command}
    {r : Response} (h : s.execute now c = some (s', r)) {key : Key}
    (idle : keyOp key ⟨now, .command c r⟩ = .idle) (stored : key ∈ s'.data) : key ∈ s.data := by
  have dropped := cell_step (e := ⟨now, .command c r⟩) h key
  rw [idle] at dropped
  rcases Cell.idle_dropped dropped with same | ⟨gone, _⟩
  · rw [← AList.lookup_isSome, ← cell_isSome] at stored ⊢
    rwa [same] at stored
  · rw [← AList.lookup_isSome, ← cell_isSome, gone] at stored
    cases stored

theorem domain_remove (s : Shard Q) (key : Key) :
    KeyedMap.domain (s.removeKeyUpdateMetrics key).1.data = (KeyedMap.domain s.data).erase key := by
  ext k
  rw [Finset.mem_erase, KeyedMap.mem_domain, KeyedMap.mem_domain, lookup_remove]
  split
  · rename_i same
    simp [same]
  · rename_i other
    simp [other]

theorem remove_snd (s : Shard Q) (key : Key) :
    (s.removeKeyUpdateMetrics key).2 = decide (key ∈ KeyedMap.domain s.data) := by
  have stored := KeyedMap.mem_domain (m := s.data) (k := key)
  unfold removeKeyUpdateMetrics
  cases found : s.data.lookup key with
  | none => simp [stored, found]
  | some entry => simp [stored, found]

/-- A DEL counts each key it names once, and only if it is stored. -/
theorem delKeys_removed (s : Shard Q) (keys : List Key) (n : Int64) :
    (s.delKeys keys n).2 = n + Int64.ofNat (keys.toFinset ∩ KeyedMap.domain s.data).card := by
  induction keys generalizing s n with
  | nil => simp [delKeys]
  | cons key keys ih =>
    simp only [delKeys]
    rw [ih, domain_remove, remove_snd, List.toFinset_cons]
    by_cases stored : key ∈ KeyedMap.domain s.data
    · have one : (insert key keys.toFinset ∩ KeyedMap.domain s.data).card =
          1 + (keys.toFinset ∩ (KeyedMap.domain s.data).erase key).card := by
        have member : key ∈ insert key keys.toFinset ∩ KeyedMap.domain s.data :=
          Finset.mem_inter.mpr ⟨Finset.mem_insert_self _ _, stored⟩
        rw [← Finset.card_erase_add_one member, Nat.add_comm, Finset.inter_erase,
          ← Finset.erase_inter, Finset.erase_insert_eq_erase, Finset.erase_inter]
      rw [one, if_pos (decide_eq_true stored), Int64.ofNat_add, Int64.add_assoc]
      rfl
    · rw [if_neg (by simpa using stored), Finset.erase_eq_of_notMem stored,
        Finset.insert_inter_of_notMem stored]

end

end Shard

end RsDragonfly
