import RsDragonfly.Shard.Sweeping

/-! How much of the queue one sweep takes.
The bound of the loop counts deletions only. An element that is stale when it is
handed out costs a pass and is not counted, so the bound on passes holds exactly
while no stale element comes among the first that are handed out. -/
namespace RsDragonfly
open Library

/-- The stored entry has the deadline of the queued element. -/
def Current (data : KeyedMap Key Entry) (e : Expiry) : Prop :=
  ∃ entry, data.lookup e.key = some entry ∧ entry.expiry = some e.expiryTime

/-- Every element is current, and none deletes the key of another. -/
structure AllCurrent (data : KeyedMap Key Entry) (es : List Expiry) : Prop where
  current : ∀ e ∈ es, Current data e
  apart : (es.map Expiry.key).Nodup

theorem allCurrent_nil (data : KeyedMap Key Entry) : AllCurrent data [] :=
  ⟨nofun, List.nodup_nil⟩

theorem allCurrent_cons {data : KeyedMap Key Entry} {e : Expiry} {es : List Expiry} :
    AllCurrent data (e :: es) ↔ Current data e ∧ AllCurrent (data.erase e.key) es := by
  constructor
  · rintro ⟨current, apart⟩
    rw [List.map_cons, List.nodup_cons] at apart
    refine ⟨current e List.mem_cons_self, fun other member => ?_, apart.2⟩
    obtain ⟨entry, found, dated⟩ := current other (List.mem_cons_of_mem _ member)
    have different : other.key ≠ e.key :=
      fun same => apart.1 (List.mem_map.mpr ⟨other, member, same⟩)
    refine ⟨entry, ?_, dated⟩
    rw [KeyedMap.lookup_erase_eq, if_neg different]
    exact found
  · rintro ⟨first, current, apart⟩
    have survives {other : Expiry} (member : other ∈ es) :
        other.key ≠ e.key ∧ Current data other := by
      obtain ⟨entry, found, dated⟩ := current other member
      rw [KeyedMap.lookup_erase_eq] at found
      split at found
      · cases found
      · rename_i different
        exact ⟨different, entry, found, dated⟩
    constructor
    · intro other member
      rcases List.mem_cons.mp member with rfl | later
      · exact first
      · exact (survives later).2
    · rw [List.map_cons, List.nodup_cons]
      refine ⟨fun member => ?_, apart⟩
      obtain ⟨other, later, same⟩ := List.mem_map.mp member
      exact (survives later).1 same

namespace Shard

variable {Q : Type} [MaxQueue Q Expiry]

def queued (q : Q) : Nat := Multiset.card (MaxQueue.items q)

/-- Those of them whose time has come. -/
def queuedDue (now : Instant) (q : Q) : Nat :=
  Multiset.card ((MaxQueue.items q).filter fun e => e.expiryTime ≤ now)

theorem queuedDue_pop {now : Instant} {q rest : Q} {e : Expiry}
    (popped : MaxQueue.pop q = some (e, rest)) (due : e.expiryTime ≤ now) :
    queuedDue now q = queuedDue now rest + 1 := by
  unfold queuedDue
  rw [(MaxQueue.pop_some q rest e popped).1,
    Multiset.filter_cons_of_pos (p := fun e : Expiry => e.expiryTime ≤ now) _ due,
    Multiset.card_cons]

/-- How many elements a sweep takes from the queue. It puts none back. -/
def popped (s : Shard Q) (now : Instant) : Nat :=
  queued s.ttlQueue - queued (s.expireKeys now).ttlQueue

/-- Few elements are due, or the first that the queue hands out are all current. -/
def Unclogged (s : Shard Q) (now : Instant) : Prop :=
  queuedDue now s.ttlQueue ≤ ttlKeysPerCheck ∨
    AllCurrent s.data (MaxQueue.handsOut ttlKeysPerCheck s.ttlQueue)

theorem ttlQueue_expireKeys (s : Shard Q) (now : Instant) :
    (s.expireKeys now).ttlQueue = (s.sweep now).ttlQueue := by
  simp only [expireKeys]
  split <;> rfl

/-- A pass takes the next element, and deletes its key if the element is current. -/
theorem expirePass_next {now : Instant} {w w' : Sweep Q} (pass : expirePass now w = some w') :
    ∃ e, MaxQueue.pop w.ttlQueue = some (e, w'.ttlQueue) ∧
      queued w.ttlQueue = queued w'.ttlQueue + 1 ∧
      queuedDue now w.ttlQueue = queuedDue now w'.ttlQueue + 1 ∧
      ((Current w.data e ∧ w'.data = w.data.erase e.key ∧ w'.expiredCount = w.expiredCount + 1) ∨
        (¬ Current w.data e ∧ w'.expiredCount = w.expiredCount)) := by
  obtain ⟨e, rest, popped, due, ⟨entry, found, dated, rfl⟩ | ⟨stale, rfl⟩⟩ := expirePass_cases pass
  · exact ⟨e, popped, MaxQueue.pop_card popped, queuedDue_pop popped due,
      .inl ⟨⟨entry, found, dated⟩, rfl, rfl⟩⟩
  · refine ⟨e, popped, MaxQueue.pop_card popped, queuedDue_pop popped due, .inr ⟨?_, rfl⟩⟩
    rintro ⟨entry, found, dated⟩
    exact stale entry found dated

theorem expireLoop_count_le (now : Instant) (n : Nat) (w : Sweep Q) :
    (expireLoop now n w).expiredCount + queued (expireLoop now n w).ttlQueue ≤
      w.expiredCount + queued w.ttlQueue := by
  refine expireLoop_rule (fun w' => w'.expiredCount + queued w'.ttlQueue ≤
    w.expiredCount + queued w.ttlQueue) ?_ n w (Nat.le_refl _)
  intro u u' pass below
  obtain ⟨e, _, shorter, _, ⟨_, _, counted⟩ | ⟨_, counted⟩⟩ := expirePass_next pass <;> omega

theorem expireLoop_due (now : Instant) (n : Nat) (w : Sweep Q) :
    queuedDue now (expireLoop now n w).ttlQueue + queued w.ttlQueue =
      queuedDue now w.ttlQueue + queued (expireLoop now n w).ttlQueue := by
  refine expireLoop_rule (fun w' => queuedDue now w'.ttlQueue + queued w.ttlQueue =
    queuedDue now w.ttlQueue + queued w'.ttlQueue) ?_ n w rfl
  intro u u' pass balanced
  obtain ⟨e, _, shorter, fewer, _⟩ := expirePass_next pass
  omega

/-- While current elements come, every pass deletes, and the bound ends the loop. -/
theorem expireLoop_current {now : Instant} (n : Nat) {k : Nat} {w : Sweep Q}
    (room : w.expiredCount + (k + 1) = ttlKeysPerCheck)
    (current : AllCurrent w.data (MaxQueue.handsOut (k + 1) w.ttlQueue)) :
    queued w.ttlQueue ≤ queued (expireLoop now n w).ttlQueue + (k + 1) := by
  induction n generalizing k w with
  | zero => exact Nat.le_add_right _ _
  | succ n ih =>
    unfold expireLoop
    split
    · exact Nat.le_add_right _ _
    · rename_i next hnext
      obtain ⟨e, popped, shorter, _, outcome⟩ := expirePass_next hnext
      rw [MaxQueue.handsOut_succ popped, allCurrent_cons] at current
      rcases outcome with ⟨_, erased, counted⟩ | ⟨stale, _⟩
      · split
        · omega
        · rename_i unbounded
          cases k with
          | zero => omega
          | succ k =>
            rw [← erased] at current
            have rest := ih (w := next) (by omega) current.2
            omega
      · exact absurd current.1 stale

theorem expireLoop_shrinks (now : Instant) (n : Nat) (w : Sweep Q) :
    queued (expireLoop now n w).ttlQueue ≤ queued w.ttlQueue := by
  refine expireLoop_rule (fun w' => queued w'.ttlQueue ≤ queued w.ttlQueue) ?_ n w (Nat.le_refl _)
  intro u u' pass below
  obtain ⟨e, _, shorter, _⟩ := expirePass_next pass
  omega

/-- After a pass the loop stops or goes on with fewer passes left. -/
theorem expireLoop_pass {now : Instant} {w next : Sweep Q} (pass : expirePass now w = some next)
    (n : Nat) : ∃ m ≤ n, expireLoop now (n + 1) w = expireLoop now m next := by
  rw [expireLoop, pass]
  dsimp only
  split
  · exact ⟨0, Nat.zero_le n, rfl⟩
  · exact ⟨n, Nat.le_refl n, rfl⟩

/-- If every pass deleted, the elements that left the queue were all current. -/
theorem expireLoop_all_deleted {now : Instant} (n : Nat) {w : Sweep Q}
    (every : w.expiredCount + queued w.ttlQueue ≤
      (expireLoop now n w).expiredCount + queued (expireLoop now n w).ttlQueue) :
    AllCurrent w.data (MaxQueue.handsOut
      (queued w.ttlQueue - queued (expireLoop now n w).ttlQueue) w.ttlQueue) := by
  induction n using Nat.strong_induction_on generalizing w with
  | h n ih =>
    cases n with
    | zero =>
      rw [expireLoop, Nat.sub_self]
      exact allCurrent_nil _
    | succ n =>
      cases pass : expirePass now w with
      | none =>
        have stays : expireLoop now (n + 1) w = w := by rw [expireLoop, pass]
        rw [stays, Nat.sub_self]
        exact allCurrent_nil _
      | some next =>
        obtain ⟨e, popped, shorter, _, outcome⟩ := expirePass_next pass
        obtain ⟨m, fewer, same⟩ := expireLoop_pass pass n
        rw [same] at every ⊢
        have counted := expireLoop_count_le now m next
        have shrinks := expireLoop_shrinks now m next
        rcases outcome with ⟨current, erased, one_more⟩ | ⟨_, uncounted⟩
        · have later := ih m (Nat.lt_succ_of_le fewer) (w := next) (by omega)
          have size : queued w.ttlQueue - queued (expireLoop now m next).ttlQueue =
              queued next.ttlQueue - queued (expireLoop now m next).ttlQueue + 1 := by omega
          rw [size, MaxQueue.handsOut_succ popped, allCurrent_cons, ← erased]
          exact ⟨current, later⟩
        · omega

theorem popped_eq (s : Shard Q) (now : Instant) :
    s.popped now = queued s.ttlQueue - queued (s.sweep now).ttlQueue := by
  rw [popped, ttlQueue_expireKeys]

theorem sweep_count_le (s : Shard Q) (now : Instant) :
    (s.sweep now).expiredCount + queued (s.sweep now).ttlQueue ≤ queued s.ttlQueue := by
  have counted := expireLoop_count_le now (queued s.ttlQueue) ⟨s.ttlQueue, s.data, 0⟩
  rwa [Nat.zero_add] at counted

theorem sweep_due (s : Shard Q) (now : Instant) :
    queuedDue now (s.sweep now).ttlQueue + queued s.ttlQueue =
      queuedDue now s.ttlQueue + queued (s.sweep now).ttlQueue :=
  expireLoop_due now (queued s.ttlQueue) ⟨s.ttlQueue, s.data, 0⟩

theorem sweep_exit (s : Shard Q) (now : Instant) :
    ttlKeysPerCheck ≤ (s.sweep now).expiredCount ∨ queuedDue now (s.sweep now).ttlQueue = 0 := by
  rcases @expireLoop_exit _ _ now _ ⟨s.ttlQueue, s.data, 0⟩ (Nat.le_refl _) with full | clear
  · exact .inl full
  · right
    rw [queuedDue, Multiset.card_eq_zero, Multiset.filter_eq_nil]
    exact fun e member => not_le.mpr (clear e member)

theorem sweep_all_deleted (s : Shard Q) (now : Instant)
    (every : queued s.ttlQueue ≤ (s.sweep now).expiredCount + queued (s.sweep now).ttlQueue) :
    AllCurrent s.data (MaxQueue.handsOut (s.popped now) s.ttlQueue) := by
  have initial : (0 : Nat) + queued s.ttlQueue ≤
      (s.sweep now).expiredCount + queued (s.sweep now).ttlQueue := by rwa [Nat.zero_add]
  rw [popped_eq]
  exact @expireLoop_all_deleted Q _ now (queued s.ttlQueue) ⟨s.ttlQueue, s.data, 0⟩ initial

/-- The bound on what is taken holds exactly while no stale element comes first. -/
theorem popped_le_iff (s : Shard Q) (now : Instant) :
    s.popped now ≤ ttlKeysPerCheck ↔ s.Unclogged now := by
  have taken := popped_eq s now
  have balance := sweep_due s now
  constructor
  · intro bounded
    rcases sweep_exit s now with full | clear
    · -- as many deletions as elements taken: none of them was stale
      have counted := sweep_count_le s now
      have current := sweep_all_deleted s now (by omega)
      have size : s.popped now = ttlKeysPerCheck := by omega
      rw [size] at current
      exact .inr current
    · exact .inl (by omega)
  · rintro (few | current)
    · omega
    · have bounded : queued s.ttlQueue ≤ queued (s.sweep now).ttlQueue + ttlKeysPerCheck :=
        expireLoop_current (w := ⟨s.ttlQueue, s.data, 0⟩) (queued s.ttlQueue) rfl current
      omega

/-- No sweep of a run takes more elements than the bound, as its queue before and after
the sweep shows. -/
def SweepsBounded : List (Shard Q × Event) → Shard Q → Prop
  | [], _ => True
  | (before, e) :: past, s =>
    (e.action = .sweep → queued before.ttlQueue ≤ queued s.ttlQueue + ttlKeysPerCheck) ∧
      SweepsBounded past before

/-- The work of one sweep is bounded, for the next sweep and in the whole run, exactly
where the queue is not clogged by stale elements. -/
theorem sweeps_bounded_iff [Layout] {past : List (Shard Q × Event)} {s : Shard Q}
    (life : (lives Q).Run past s) :
    (∀ now, s.popped now ≤ ttlKeysPerCheck ↔ s.Unclogged now) ∧
      (SweepsBounded past s ↔
        ∀ x ∈ past, x.2.action = .sweep → x.1.Unclogged x.2.time) := by
  refine ⟨popped_le_iff s, ?_⟩
  induction life with
  | start _ => exact ⟨fun _ => nofun, fun _ => trivial⟩
  | @step past before after e _ taken ih =>
    rw [SweepsBounded, ih, List.forall_mem_cons]
    refine and_congr_left fun _ => imp_congr_right fun swept => ?_
    have next : after = before.expireKeys e.time := by
      obtain ⟨t, action⟩ := e
      cases swept
      exact taken
    rw [next, ← popped_le_iff, popped, Nat.sub_le_iff_le_add, Nat.add_comm]

/- One key set again and again: each time the queue keeps the deadline. -/
def overwritten (n : Nat) : List Event :=
  List.replicate n ⟨.ofSecs 1, .command (.set (utf8 "k") (.string (utf8 "v")) (some 1)) .ok⟩

theorem sweeps_bounded_overwritten :
    ∃ past s, (@lives (SortedQueue Expiry) _ linux64).Run past s ∧
      past.map Prod.snd = ⟨.ofSecs 3, .sweep⟩ :: overwritten 2 ∧
      (∀ now, s.popped now ≤ ttlKeysPerCheck ↔ s.Unclogged now) ∧
      (SweepsBounded past s ↔
        ∀ x ∈ past, x.2.action = .sweep → x.1.Unclogged x.2.time) := by
  let _ := linux64
  obtain ⟨past, s, run, same, _⟩ := replay_run (SortedQueue Expiry) ⟨0⟩ (.ofSecs 0)
    (⟨.ofSecs 3, .sweep⟩ :: overwritten 2) (by decide +kernel)
  exact ⟨past, s, run.life, same, sweeps_bounded_iff run.life⟩

/-- Twenty-one elements for a single key, all taken by one sweep. -/
theorem sweep_unbounded :
    ¬ ∀ past s, (@lives (SortedQueue Expiry) _ linux64).Run past s →
      ∀ now, s.popped now ≤ ttlKeysPerCheck := by
  let _ := linux64
  intro bounded
  obtain ⟨past, s, run, _, replayed⟩ :=
    replay_run (SortedQueue Expiry) ⟨0⟩ (.ofSecs 0) (overwritten 21) (by decide +kernel)
  have taken : ((replay (new ⟨0⟩ (.ofSecs 0) : Shard (SortedQueue Expiry)) (overwritten 21)).map
      fun out => out.2.popped (.ofSecs 3)) = some 21 := by decide +kernel
  rw [replayed] at taken
  have count : s.popped (.ofSecs 3) = 21 := Option.some.inj taken
  have within := bounded past s run.life (.ofSecs 3)
  rw [count] at within
  exact absurd within (by decide)

end Shard

end RsDragonfly
