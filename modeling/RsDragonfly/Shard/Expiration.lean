import RsDragonfly.Shard.Shard

/-! `shard/expiration.rs`: the active sweep. -/
namespace RsDragonfly
open Library

structure Sweep (Q : Type) where
  ttlQueue : Q
  data : KeyedMap Key Entry
  expiredCount : Nat

namespace Shard
variable {Q : Type} [MaxQueue Q Expiry]

/-- One pass of the loop. No result: the loop is left. The pass that reaches
`TTL_KEYS_PER_CHECK` still ends with its deletion; `expireLoop` stops after it. -/
def expirePass (now : Instant) (w : Sweep Q) : Option (Sweep Q) :=
  match MaxQueue.peek w.ttlQueue with
  | none => none
  | some expiry =>
    if expiry.expiryTime > now then none
    else
      match MaxQueue.pop w.ttlQueue with
      -- the unwrap of the source: a queue just peeked is not empty
      | none => none
      | some (expiry, ttlQueue) =>
        match w.data.lookup expiry.key with
        | some entry =>
          if entry.expiry = some expiry.expiryTime then
            some ⟨ttlQueue, w.data.erase expiry.key, w.expiredCount + 1⟩
          else some { w with ttlQueue := ttlQueue }
        | none => some { w with ttlQueue := ttlQueue }

/-- Every pass pops one element, so the queue's length bounds the number of passes. -/
def expireLoop (now : Instant) : Nat → Sweep Q → Sweep Q
  | 0, w => w
  | passes + 1, w =>
    match expirePass now w with
    | none => w
    | some next =>
      if next.expiredCount > w.expiredCount ∧ next.expiredCount ≥ ttlKeysPerCheck then next
      else expireLoop now passes next

theorem expirePass_cases {now : Instant} {w w' : Sweep Q} (h : expirePass now w = some w') :
    ∃ expiry rest, MaxQueue.pop w.ttlQueue = some (expiry, rest) ∧ expiry.expiryTime ≤ now ∧
      ((∃ entry, w.data.lookup expiry.key = some entry ∧ entry.expiry = some expiry.expiryTime ∧
          w' = ⟨rest, w.data.erase expiry.key, w.expiredCount + 1⟩) ∨
        ((∀ entry, w.data.lookup expiry.key = some entry →
            entry.expiry ≠ some expiry.expiryTime) ∧
          w' = { w with ttlQueue := rest })) := by
  unfold expirePass at h
  split at h
  · cases h
  · rename_i first seen
    split at h
    · cases h
    · rename_i due
      split at h
      · cases h
      · rename_i expiry rest popped
        have greatest : first ≤ expiry :=
          (MaxQueue.pop_some _ _ _ popped).2 first (MaxQueue.peek_some _ _ seen).1
        have passed : expiry.expiryTime ≤ now :=
          le_trans (Expiry.le_iff.mp greatest) (not_lt.mp due)
        refine ⟨expiry, rest, popped, passed, ?_⟩
        split at h
        · rename_i entry found
          split at h
          · rename_i current
            cases h
            exact .inl ⟨entry, found, current, rfl⟩
          · rename_i stale
            cases h
            refine .inr ⟨fun other hother => ?_, rfl⟩
            rw [found] at hother
            cases hother
            exact stale
        · rename_i absent
          cases h
          refine .inr ⟨fun other hother => ?_, rfl⟩
          rw [absent] at hother
          cases hother

theorem expirePass_none {now : Instant} {w : Sweep Q} (h : expirePass now w = none) :
    ∀ e ∈ MaxQueue.items w.ttlQueue, now < e.expiryTime := by
  intro e he
  unfold expirePass at h
  split at h
  · rename_i unseen
    rw [MaxQueue.peek_none _ unseen] at he
    exact absurd he (Multiset.notMem_zero e)
  · rename_i first seen
    split at h
    · rename_i future
      exact lt_of_lt_of_le future (Expiry.le_iff.mp ((MaxQueue.peek_some _ _ seen).2 e he))
    · obtain ⟨b, rest, popped⟩ := MaxQueue.pop_of_peek seen
      rw [popped] at h
      split at h
      · rename_i stuck
        cases stuck
      · split at h
        · split at h <;> cases h
        · cases h

/-- The rule of the sweep's loop: what every pass keeps holds at the end. -/
theorem expireLoop_rule {now : Instant} (P : Sweep Q → Prop)
    (pass : ∀ w w', expirePass now w = some w' → P w → P w') (n : Nat) (w : Sweep Q) (h : P w) :
    P (expireLoop now n w) := by
  induction n generalizing w with
  | zero => exact h
  | succ n ih =>
    unfold expireLoop
    split
    · exact h
    · rename_i next hnext
      split
      · exact pass w next hnext h
      · exact ih next (pass w next hnext h)

/-- With a pass for every element, the loop ends at its bound or with nothing due. -/
theorem expireLoop_exit {now : Instant} (n : Nat) (w : Sweep Q)
    (enough : Multiset.card (MaxQueue.items w.ttlQueue) ≤ n) :
    ttlKeysPerCheck ≤ (expireLoop now n w).expiredCount ∨
      ∀ e ∈ MaxQueue.items (expireLoop now n w).ttlQueue, now < e.expiryTime := by
  induction n generalizing w with
  | zero =>
    have none_left : MaxQueue.items w.ttlQueue = 0 :=
      Multiset.card_eq_zero.mp (Nat.le_zero.mp enough)
    refine .inr fun e he => ?_
    rw [expireLoop, none_left] at he
    exact absurd he (Multiset.notMem_zero e)
  | succ n ih =>
    unfold expireLoop
    split
    · rename_i stopped
      exact .inr (expirePass_none stopped)
    · rename_i next hnext
      split
      · rename_i bound
        exact .inl bound.2
      · apply ih
        obtain ⟨_, rest, popped, _, h⟩ := expirePass_cases hnext
        have shorter := MaxQueue.pop_card popped
        have queue : next.ttlQueue = rest := by
          rcases h with ⟨_, _, _, hw⟩ | ⟨_, hw⟩ <;> rw [hw]
        rw [queue]
        omega

def sweep (s : Shard Q) (now : Instant) : Sweep Q :=
  expireLoop now (Multiset.card (MaxQueue.items s.ttlQueue)) ⟨s.ttlQueue, s.data, 0⟩

def expireKeys (s : Shard Q) (now : Instant) : Shard Q :=
  let w := s.sweep now
  let swept := { s with data := w.data, ttlQueue := w.ttlQueue }
  if w.expiredCount > 0 then
    { swept with metrics := { s.metrics with
        keysExpired := s.metrics.keysExpired + UInt64.ofNat w.expiredCount
        keyCount := UInt64.ofNat (KeyedMap.size w.data) } }
  else swept

theorem data_expireKeys (s : Shard Q) (now : Instant) :
    (s.expireKeys now).data = (s.sweep now).data := by
  simp only [expireKeys]
  split <;> rfl

end Shard

end RsDragonfly
