import RsDragonfly.Snapshot.Acceptance
import RsDragonfly.Shard.Invariant

/-! The life of a shard from a fresh or a loaded map, and what one sweep removes.
The queue hands out deadlines in order and holds every deadline that is stored,
so the sweep removes due keys, earliest first, until its bound or none is left. -/
namespace RsDragonfly
open Library

namespace Shard

section
variable {Q : Type} [MaxQueue Q Expiry]

/-- A shard starts as `Shard::new` makes it or as `deserialize_snapshot` returns it. -/
inductive Initial : Shard Q → Prop where
  | fresh (id : ShardId) (now : Instant) : Initial (new id now)
  | loaded {clock : Clock} {data : Bytes} {shard : Shard Q}
      (load : deserializeSnapshot clock data = some (.ok shard)) : Initial shard

theorem Backed.restore {shard : Shard Q} (h : Backed shard.data shard.ttlQueue) (key : Key)
    (value : Value) (expiry : Option Instant) :
    Backed (shard.restore key value expiry).data (shard.restore key value expiry).ttlQueue :=
  h.insert key value expiry

theorem put_all_backed (clock : Clock) (records : List Record) {shard : Shard Q}
    (h : Backed shard.data shard.ttlQueue) :
    Backed (records.foldl (put clock) shard).data (records.foldl (put clock) shard).ttlQueue := by
  induction records generalizing shard with
  | nil => exact h
  | cons record records ih =>
    rw [List.foldl_cons]
    apply ih
    unfold put
    split
    · exact h
    · exact h.restore _ _ _

theorem Initial.indexed {s : Shard Q} (h : Initial s) : s.Indexed := by
  cases h with
  | fresh id now => exact indexed_new id now
  | loaded load =>
    obtain ⟨header, records, _, rfl⟩ := deserializeSnapshot_accepts_iff.mp load
    exact ⟨rfl, put_all_backed _ records (indexed_new _ _).backed⟩

section
variable [Layout]

variable (Q) in
/-- The steps of `runs` from any initial shard. -/
def lives : System (Shard Q) Event where
  start := Initial
  step := step

theorem Run.life {past : List (Shard Q × Event)} {s : Shard Q} (run : Run Q past s) :
    (lives Q).Run past s := by
  induction run with
  | start fresh =>
    obtain ⟨id, now, rfl⟩ := fresh
    exact .start (.fresh id now)
  | step _ hs ih => exact .step ih hs

theorem indexed_life {past : List (Shard Q × Event)} {s : Shard Q}
    (life : (lives Q).Run past s) : s.Indexed := by
  refine System.Run.invariant Indexed (fun _ (first : Initial _) => first.indexed) ?_ life
  rintro before ⟨t, action⟩ after hs indexed
  cases action with
  | command c r => exact (execute_writes hs).keep (fun _ _ => Indexed.write) indexed
  | sweep =>
    cases hs
    exact indexed.sweep t

/-- No deadline is forgotten: what is stored is queued. -/
theorem deadline_queued {past : List (Shard Q × Event)} {s : Shard Q}
    (life : (lives Q).Run past s) (k : Key) (entry : Entry) (t : Instant)
    (found : s.data.lookup k = some entry) (dated : entry.expiry = some t) :
    ∃ expiry ∈ MaxQueue.items s.ttlQueue, expiry.key = k ∧ expiry.expiryTime = t :=
  ⟨⟨t, k⟩, (indexed_life life).backed k entry t found dated, rfl, rfl⟩

end

end

/- A deadline that has been replaced: the queue holds both. -/
def redated : List Event :=
  [⟨.ofSecs 1, .command (.expire (utf8 "k") 5) (.integer 1)⟩,
   ⟨.ofSecs 1, .command (.set (utf8 "k") (.string (utf8 "v")) (some 1)) .ok⟩]

theorem redated_queued :
    ∃ past s, (@lives (SortedQueue Expiry) _ linux64).Run past s ∧ past.map Prod.snd = redated ∧
      ∃ expiry ∈ MaxQueue.items s.ttlQueue,
        expiry.key = utf8 "k" ∧ expiry.expiryTime = .ofSecs 6 := by
  let _ := linux64
  obtain ⟨past, s, run, same, replayed⟩ :=
    replay_run (SortedQueue Expiry) ⟨0⟩ (.ofSecs 0) redated (by decide)
  have stored : ((replay (new ⟨0⟩ (.ofSecs 0) : Shard (SortedQueue Expiry)) redated).map
      fun out => out.2.data.lookup (utf8 "k")) =
        some (some ⟨.string (utf8 "v"), some (.ofSecs 6)⟩) := by decide
  rw [replayed] at stored
  exact ⟨past, s, run.life, same,
    deadline_queued run.life (utf8 "k") _ (.ofSecs 6) (Option.some.inj stored) rfl⟩

section
variable {Q : Type}

def dueKeys (s : Shard Q) (now : Instant) : Finset Key :=
  (KeyedMap.domain s.data).filter fun key => (s.data.lookup key).any (·.isExpired now) = true

theorem mem_dueKeys {s : Shard Q} {now : Instant} {key : Key} :
    key ∈ s.dueKeys now ↔ ∃ entry, s.data.lookup key = some entry ∧ entry.Dead now := by
  unfold dueKeys
  rw [Finset.mem_filter, KeyedMap.mem_domain]
  constructor
  · rintro ⟨⟨entry, found⟩, due⟩
    rw [found] at due
    exact ⟨entry, found, Entry.isExpired_iff.mp due⟩
  · rintro ⟨entry, found, dead⟩
    refine ⟨⟨entry, found⟩, ?_⟩
    rw [found]
    exact Entry.isExpired_iff.mpr dead

def removedKeys (before after : KeyedMap Key Entry) : Finset Key :=
  KeyedMap.domain before \ KeyedMap.domain after

theorem mem_removedKeys {before after : KeyedMap Key Entry} {key : Key} :
    key ∈ removedKeys before after ↔
      (∃ entry, before.lookup key = some entry) ∧ after.lookup key = none := by
  unfold removedKeys
  rw [Finset.mem_sdiff, KeyedMap.mem_domain, KeyedMap.mem_domain, not_exists,
    Option.eq_none_iff_forall_ne_some]

/-- What a sweep has removed so far was due, and no later than anything the
queue still holds. -/
structure Earliest [MaxQueue Q Expiry] (s : Shard Q) (now : Instant) (w : Sweep Q) : Prop where
  due : removedKeys s.data w.data ⊆ s.dueKeys now
  first : ∀ key ∈ removedKeys s.data w.data, ∀ entry deadline,
    s.data.lookup key = some entry → entry.expiry = some deadline →
      ∀ e ∈ MaxQueue.items w.ttlQueue, deadline ≤ e.expiryTime

variable [MaxQueue Q Expiry]

theorem expirePass_earliest [Layout] {s : Shard Q} {now : Instant} {w w' : Sweep Q}
    (pass : expirePass now w = some w') (swept : Swept s now w) (h : Earliest s now w) :
    Earliest s now w' := by
  obtain ⟨expiry, rest, popped, passed, ⟨entry, found, current, rfl⟩ | ⟨_, rfl⟩⟩ :=
    expirePass_cases pass
  · have split (key : Key) (removed : key ∈ removedKeys s.data (w.data.erase expiry.key)) :
        key = expiry.key ∨ key ∈ removedKeys s.data w.data := by
      obtain ⟨stored, gone⟩ := mem_removedKeys.mp removed
      rw [KeyedMap.lookup_erase_eq] at gone
      split at gone
      · rename_i same
        exact .inl same
      · exact .inr (mem_removedKeys.mpr ⟨stored, gone⟩)
    constructor
    · intro key removed
      rcases split key removed with rfl | earlier
      · exact mem_dueKeys.mpr ⟨entry, swept.part _ _ found, expiry.expiryTime, current, passed⟩
      · exact h.due earlier
    · intro key removed other deadline hother hdeadline e queued
      have still := (MaxQueue.mem_of_pop popped).mpr (.inr queued)
      rcases split key removed with rfl | earlier
      · cases hother.symm.trans (swept.part _ _ found)
        cases hdeadline.symm.trans current
        exact Expiry.le_iff.mp ((MaxQueue.pop_some _ _ _ popped).2 e still)
      · exact h.first key earlier other deadline hother hdeadline e still
  · refine ⟨h.due, fun key removed entry deadline hentry hdeadline e queued => ?_⟩
    exact h.first key removed entry deadline hentry hdeadline e
      ((MaxQueue.mem_of_pop popped).mpr (.inr queued))

theorem expireLoop_bound {now : Instant} (n : Nat) (w : Sweep Q)
    (below : w.expiredCount < ttlKeysPerCheck) :
    (expireLoop now n w).expiredCount ≤ ttlKeysPerCheck := by
  induction n generalizing w with
  | zero => exact Nat.le_of_lt below
  | succ n ih =>
    unfold expireLoop
    split
    · exact Nat.le_of_lt below
    · rename_i next hnext
      have one_more : next.expiredCount ≤ w.expiredCount + 1 := by
        obtain ⟨_, _, _, _, ⟨_, _, _, rfl⟩ | ⟨_, rfl⟩⟩ := expirePass_cases hnext
        · exact Nat.le_refl _
        · exact Nat.le_succ _
      split
      · omega
      · rename_i unbounded
        apply ih
        by_contra full
        exact unbounded ⟨by omega, Nat.not_lt.mp full⟩

variable [Layout]

theorem sweep_earliest {s : Shard Q} (backed : Backed s.data s.ttlQueue) (now : Instant) :
    Swept s now (s.sweep now) ∧ Earliest s now (s.sweep now) := by
  refine expireLoop_rule (fun w => Swept s now w ∧ Earliest s now w) ?_ _ _ ?_
  · intro w w' pass h
    exact ⟨expirePass_swept pass h.1, expirePass_earliest pass h.1 h.2⟩
  · refine ⟨⟨backed, fun _ _ found => found, rfl, Nat.le_refl _, fun _ => rfl,
      fun impossible => absurd impossible (Nat.lt_irrefl 0)⟩, ?_, ?_⟩
    · intro key removed
      obtain ⟨⟨entry, found⟩, gone⟩ := mem_removedKeys.mp removed
      exact absurd (gone.symm.trans found) (by simp)
    · intro key removed
      obtain ⟨⟨entry, found⟩, gone⟩ := mem_removedKeys.mp removed
      exact absurd (gone.symm.trans found) (by simp)

/-- What one sweep does. -/
structure SweepsExactly (s s' : Shard Q) (now : Instant) : Prop where
  count : (removedKeys s.data s'.data).card = min ttlKeysPerCheck (s.dueKeys now).card
  due : removedKeys s.data s'.data ⊆ s.dueKeys now
  earliest : ∀ key ∈ removedKeys s.data s'.data, ∀ left ∈ s.dueKeys now,
    left ∉ removedKeys s.data s'.data → ∀ entry other deadline later,
      s.data.lookup key = some entry → entry.expiry = some deadline →
      s.data.lookup left = some other → other.expiry = some later → deadline ≤ later
  kept : ∀ key ∉ removedKeys s.data s'.data, s'.data.lookup key = s.data.lookup key
  expired : s'.metrics.keysExpired =
    s.metrics.keysExpired + UInt64.ofNat (removedKeys s.data s'.data).card
  counted : s'.metrics.keyCount = UInt64.ofNat (KeyedMap.size s'.data)

theorem card_removedKeys {s : Shard Q} {now : Instant} {w : Sweep Q} (swept : Swept s now w) :
    (removedKeys s.data w.data).card = w.expiredCount := by
  have lost := KeyedMap.card_lost swept.part
  have counted := swept.counted
  unfold removedKeys
  omega

theorem Swept.kept {s : Shard Q} {now : Instant} {w : Sweep Q} (swept : Swept s now w) {key : Key}
    (left : key ∉ removedKeys s.data w.data) : w.data.lookup key = s.data.lookup key := by
  cases found : w.data.lookup key with
  | some entry => exact (swept.part key entry found).symm
  | none =>
    symm
    rw [Option.eq_none_iff_forall_ne_some]
    intro entry stored
    exact left (mem_removedKeys.mpr ⟨⟨entry, stored⟩, found⟩)

theorem Swept.queued {s : Shard Q} {now : Instant} {w : Sweep Q} (swept : Swept s now w) {key : Key}
    (left : key ∉ removedKeys s.data w.data) {entry : Entry} {deadline : Instant}
    (found : s.data.lookup key = some entry) (dated : entry.expiry = some deadline) :
    (⟨deadline, key⟩ : Expiry) ∈ MaxQueue.items w.ttlQueue :=
  swept.backed key entry deadline ((swept.kept left).trans found) dated

/-- The loop ends with its bound reached or with every due key removed. -/
theorem sweep_count {s : Shard Q} (backed : Backed s.data s.ttlQueue) (now : Instant) :
    (removedKeys s.data (s.sweep now).data).card = min ttlKeysPerCheck (s.dueKeys now).card := by
  obtain ⟨swept, earliest⟩ := sweep_earliest backed now
  have bound : (s.sweep now).expiredCount ≤ ttlKeysPerCheck :=
    expireLoop_bound _ ⟨s.ttlQueue, s.data, 0⟩ (Nat.succ_pos 19)
  have removed := card_removedKeys swept
  have within := Finset.card_le_card earliest.due
  rcases @expireLoop_exit _ _ now _ ⟨s.ttlQueue, s.data, 0⟩ (Nat.le_refl _) with full | clear
  · have reached : ttlKeysPerCheck ≤ (s.sweep now).expiredCount := full
    omega
  · have every : s.dueKeys now ⊆ removedKeys s.data (s.sweep now).data := by
      intro key due
      by_contra left
      obtain ⟨entry, found, deadline, dated, passed⟩ := mem_dueKeys.mp due
      exact absurd passed (not_le.mpr (clear _ (swept.queued left found dated)))
    have all := Finset.card_le_card every
    omega

theorem sweep_exact {past : List (Shard Q × Event)} {s : Shard Q} (life : (lives Q).Run past s)
    (now : Instant) : SweepsExactly s (s.expireKeys now) now := by
  have indexed := indexed_life life
  obtain ⟨swept, earliest⟩ := sweep_earliest indexed.backed now
  have count := sweep_count indexed.backed now
  constructor
  · rw [data_expireKeys]
    exact count
  · rw [data_expireKeys]
    exact earliest.due
  · rw [data_expireKeys]
    intro key removed other _ left entry stored deadline later hentry hdeadline hstored hlater
    exact earliest.first key removed entry deadline hentry hdeadline _
      (swept.queued left hstored hlater)
  · rw [data_expireKeys]
    exact fun key left => swept.kept left
  · rw [data_expireKeys, card_removedKeys swept]
    simp only [expireKeys]
    split
    · rfl
    · rename_i none_expired
      rw [Nat.eq_zero_of_not_pos none_expired]
      simp
  · exact (indexed.sweep now).counted

end

theorem redated_swept :
    ∃ past s, (@lives (SortedQueue Expiry) _ linux64).Run past s ∧ past.map Prod.snd = redated ∧
      SweepsExactly s (s.expireKeys (.ofSecs 3)) (.ofSecs 3) ∧
      SweepsExactly s (s.expireKeys (.ofSecs 8)) (.ofSecs 8) := by
  let _ := linux64
  obtain ⟨past, s, run, same, _⟩ :=
    replay_run (SortedQueue Expiry) ⟨0⟩ (.ofSecs 0) redated (by decide)
  exact ⟨past, s, run.life, same, sweep_exact run.life _, sweep_exact run.life _⟩

end Shard

end RsDragonfly
