import RsDragonfly.Library.Transition
import RsDragonfly.Shard.Expiration

/-! What one command and one sweep can do to a shard.
Each inversion lemma names every outcome once; invariants and histories are
derived from these lemmas, not from the bodies of the commands. -/
namespace RsDragonfly
open Library

def Entry.Dead (now : Instant) (e : Entry) : Prop := ∃ d, e.expiry = some d ∧ d ≤ now

theorem Entry.isExpired_iff {e : Entry} {now : Instant} :
    e.isExpired now = true ↔ e.Dead now := by
  unfold Entry.isExpired Entry.Dead
  cases e.expiry with
  | none => simp
  | some d => simp

namespace Shard

section
variable {Q : Type} [MaxQueue Q Expiry] [Layout]

/-- The checks a SET passes before it writes. -/
structure StoreAllowed (s : Shard Q) (key : Key) (value : Value) : Prop where
  key_fits : key.length ≤ maxKeySize
  value_fits : value.sizeBytes ≤ maxValueSize
  room : key ∈ s.data ∨ KeyedMap.size s.data < s.maxKeys
  no_wrap : s.metrics.memoryBytes.toNat + entrySizeBytes key value ≤ usizeMax
  within : s.metrics.memoryBytes.toNat + entrySizeBytes key value ≤ s.maxMemoryBytes + s.oldSize key

theorem cmdSet_cases {s s' : Shard Q} {now : Instant} {key : Key} {value : Value}
    {ttl : Option UInt64} {r : Response} (h : s.cmdSet now key value ttl = some (s', r)) :
    (s' = s ∧ ∃ msg, r = .error msg) ∨
    (r = .ok ∧ s.StoreAllowed key value ∧
      ∃ expiry, setExpiry now ttl = some expiry ∧ s' = s.store key value expiry) := by
  unfold cmdSet at h
  split at h
  · cases h
    exact .inl ⟨rfl, _, rfl⟩
  · rename_i key_fits
    split at h
    · cases h
      exact .inl ⟨rfl, _, rfl⟩
    · rename_i value_fits
      split at h
      · cases h
        exact .inl ⟨rfl, _, rfl⟩
      · rename_i room
        simp only [Option.bind_eq_bind, Option.bind_eq_some_iff] at h
        obtain ⟨expiry, hexpiry, grown, hgrown, projected, hprojected, h⟩ := h
        unfold usizeAdd at hgrown
        unfold usizeSub at hprojected
        split at hgrown
        · rename_i no_wrap
          cases hgrown
          split at hprojected
          · cases hprojected
            split at h
            · cases h
              exact .inl ⟨rfl, _, rfl⟩
            · rename_i within
              cases h
              refine .inr ⟨rfl, ⟨?_, ?_, ?_, no_wrap, ?_⟩, expiry, hexpiry, rfl⟩
              · omega
              · omega
              · by_cases present : key ∈ s.data
                · exact .inl present
                · exact .inr (Nat.lt_of_not_ge fun full => room ⟨present, full⟩)
              · omega
          · cases hprojected
        · cases hgrown

omit [MaxQueue Q Expiry] in
/-- A GET leaves the shard as it is, or drops the dead entry that it found. -/
theorem cmdGet_cases {s s' : Shard Q} {now : Instant} {key : Key} {r : Response}
    (h : s.cmdGet now key = (s', r)) :
    s' = s ∨ ∃ entry, s.data.lookup key = some entry ∧ entry.Dead now ∧ s' = s.expireLazily key := by
  unfold cmdGet at h
  split at h
  · cases h
    exact .inl rfl
  · rename_i entry found
    split at h
    · rename_i expired
      cases h
      exact .inr ⟨entry, found, Entry.isExpired_iff.mp expired, rfl⟩
    · cases h
      exact .inl rfl

omit [MaxQueue Q Expiry] in
theorem cmdTtl_cases {s s' : Shard Q} {now : Instant} {key : Key} {r : Response}
    (h : s.cmdTtl now key = (s', r)) :
    s' = s ∨ ∃ entry, s.data.lookup key = some entry ∧ entry.Dead now ∧ s' = s.expireLazily key := by
  unfold cmdTtl at h
  split at h
  · cases h
    exact .inl rfl
  · rename_i entry found
    split at h
    · cases h
      exact .inl rfl
    · rename_i exp dated
      split at h
      · rename_i passed
        cases h
        exact .inr ⟨entry, found, ⟨exp, dated, passed⟩, rfl⟩
      · cases h
        exact .inl rfl

omit [Layout] in
theorem cmdExpire_cases {s s' : Shard Q} {now : Instant} {key : Key} {seconds : UInt64}
    {r : Response} (h : s.cmdExpire now key seconds = some (s', r)) :
    (s.data.lookup key = none ∧ s' = s ∧ r = .integer 0) ∨
      ∃ entry t, s.data.lookup key = some entry ∧ now.add (Duration.fromSecs seconds) = some t ∧
        s' = s.redate key entry t ∧ r = .integer 1 := by
  unfold cmdExpire at h
  split at h
  · rename_i entry found
    obtain ⟨t, sum, h⟩ := Option.bind_eq_some_iff.mp h
    cases h
    exact .inr ⟨entry, t, found, sum, rfl, rfl⟩
  · rename_i absent
    cases h
    exact .inl ⟨absent, rfl, rfl⟩

theorem execute_cases {s s' : Shard Q} {now : Instant} {c : Command} {r : Response}
    (h : s.execute now c = some (s', r)) :
    ∃ next, s.dispatch now c = some (next, r) ∧ s' = next.recorded := by
  simp only [execute, Option.bind_eq_bind, Option.bind_eq_some_iff] at h
  obtain ⟨out, hout, h⟩ := h
  cases h
  exact ⟨out.1, hout, rfl⟩

end

/-! Lookups after the primitive writes. -/

section
variable {Q : Type} [Layout]

@[simp] theorem lookup_remove (s : Shard Q) (key k : Key) :
    (s.removeKeyUpdateMetrics key).1.data.lookup k = if k = key then none else s.data.lookup k := by
  unfold removeKeyUpdateMetrics
  split
  · exact KeyedMap.lookup_erase_eq s.data k key
  · rename_i absent
    split
    · rename_i same
      rw [same, absent]
    · rfl

@[simp] theorem lookup_expireLazily (s : Shard Q) (key k : Key) :
    (s.expireLazily key).data.lookup k = if k = key then none else s.data.lookup k :=
  lookup_remove s key k

theorem lookup_delKeys (s : Shard Q) (keys : List Key) (n : Int64) (k : Key) :
    (s.delKeys keys n).1.data.lookup k = if k ∈ keys then none else s.data.lookup k := by
  induction keys generalizing s n with
  | nil => simp [delKeys]
  | cons key keys ih =>
    simp only [delKeys, ih, lookup_remove, List.mem_cons]
    by_cases hk : k = key <;> by_cases hks : k ∈ keys <;> simp [hk, hks]

end

section
variable {Q : Type} [MaxQueue Q Expiry]

@[simp] theorem lookup_store [Layout] (s : Shard Q) (key k : Key) (value : Value)
    (expiry : Option Instant) : (s.store key value expiry).data.lookup k =
      if k = key then some ⟨value, expiry⟩ else s.data.lookup k :=
  KeyedMap.lookup_insert_eq s.data k key _

@[simp] theorem lookup_redate (s : Shard Q) (key k : Key) (entry : Entry) (t : Instant) :
    (s.redate key entry t).data.lookup k =
      if k = key then some { entry with expiry := some t } else s.data.lookup k :=
  KeyedMap.lookup_insert_eq s.data k key _

end

theorem cmdInfo_fst {Q : Type} (s : Shard Q) (now : Instant) (section_ : Option String) :
    (s.cmdInfo now section_).1 = s := by
  unfold cmdInfo
  split <;> rfl

theorem dispatch_info {Q : Type} [MaxQueue Q Expiry] [Layout] {s s' : Shard Q} {now : Instant}
    {section_ : Option String} {r : Response} (h : s.dispatch now (.info section_) = some (s', r)) :
    s' = s := by
  have same := cmdInfo_fst s now section_
  rw [Option.some.inj h] at same
  exact same

@[simp] theorem data_recorded {Q : Type} (s : Shard Q) : s.recorded.data = s.data := rfl

end Shard

end RsDragonfly
