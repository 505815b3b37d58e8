import RsDragonfly.Shard.Backlog

/-! The TTL queue over a whole life.
An element is put in by a SET or an EXPIRE that sets a deadline and is taken out
by a sweep, once, when its time has come. Nothing else touches the queue: a key
that is deleted or written again leaves its elements where they are. -/
namespace RsDragonfly
open Library

def Event.queued? (e : Event) : Option Expiry :=
  match e.action with
  | .command (.set key _ ttl) response =>
    if response = .ok then
      ttl.bind fun secs => (e.time.add (Duration.fromSecs secs)).map (⟨·, key⟩)
    else none
  | .command (.expire key seconds) response =>
    if response = .integer 1 then
      (e.time.add (Duration.fromSecs seconds)).map (⟨·, key⟩)
    else none
  | _ => none

namespace Shard

section
variable {Q : Type}

def putIn (past : List (Shard Q × Event)) : Multiset Expiry := past.filterMap (·.2.queued?)

/-- The shard with which a life began. -/
def opening (past : List (Shard Q × Event)) (s : Shard Q) : Shard Q :=
  match past.getLast? with
  | some x => x.1
  | none => s

theorem opening_cons (x : Shard Q × Event) (past : List (Shard Q × Event)) (s : Shard Q) :
    opening (x :: past) s = opening past x.1 := by
  cases past with
  | nil => rfl
  | cons y past =>
    unfold opening
    rw [List.getLast?_cons_cons]
    cases last : (y :: past).getLast? with
    | none => cases List.getLast?_eq_none_iff.mp last
    | some z => rfl

theorem ttlQueue_remove [Layout] (s : Shard Q) (key : Key) :
    (s.removeKeyUpdateMetrics key).1.ttlQueue = s.ttlQueue := by
  unfold removeKeyUpdateMetrics
  split <;> rfl

theorem ttlQueue_delKeys [Layout] (s : Shard Q) (keys : List Key) (n : Int64) :
    (s.delKeys keys n).1.ttlQueue = s.ttlQueue := by
  induction keys generalizing s n with
  | nil => rfl
  | cons key keys ih => exact (ih _ _).trans (ttlQueue_remove s key)

variable [MaxQueue Q Expiry]

def takenBy (x : Shard Q × Event) : Multiset Expiry :=
  if x.2.isSweep then
    MaxQueue.items x.1.ttlQueue - MaxQueue.items (x.1.expireKeys x.2.time).ttlQueue
  else 0

/-- What a sweep takes was due, and was due first. -/
structure TakesDue (s : Shard Q) (now : Instant) (taken : Multiset Expiry) (left : Q) : Prop where
  balance : MaxQueue.items left + taken = MaxQueue.items s.ttlQueue
  due : ∀ e ∈ taken, e.expiryTime ≤ now
  first : ∀ e ∈ taken, ∀ later ∈ MaxQueue.items left, e.expiryTime ≤ later.expiryTime

theorem expirePass_takes {s : Shard Q} {now : Instant} {w w' : Sweep Q}
    (pass : expirePass now w = some w') (h : ∃ taken, TakesDue s now taken w.ttlQueue) :
    ∃ taken, TakesDue s now taken w'.ttlQueue := by
  obtain ⟨taken, balance, due, first⟩ := h
  obtain ⟨e, rest, popped, passed, outcome⟩ := expirePass_cases pass
  obtain ⟨split, greatest⟩ := MaxQueue.pop_some _ _ _ popped
  have next : w'.ttlQueue = rest := by rcases outcome with ⟨_, _, _, rfl⟩ | ⟨_, rfl⟩ <;> rfl
  rw [next]
  refine ⟨e ::ₘ taken, ?_, ?_, ?_⟩
  · rw [← balance, split, Multiset.add_cons, Multiset.cons_add]
  · intro x member
    rcases Multiset.mem_cons.mp member with rfl | before
    · exact passed
    · exact due x before
  · intro x member later left
    have still := (MaxQueue.mem_of_pop popped).mpr (.inr left)
    rcases Multiset.mem_cons.mp member with rfl | before
    · exact Expiry.le_iff.mp (greatest later still)
    · exact first x before later still

theorem sweep_takes (s : Shard Q) (now : Instant) :
    TakesDue s now (takenBy (s, ⟨now, .sweep⟩)) (s.expireKeys now).ttlQueue := by
  have taken : ∃ taken, TakesDue s now taken (s.sweep now).ttlQueue := by
    refine expireLoop_rule (fun w => ∃ taken, TakesDue s now taken w.ttlQueue)
      (fun _ _ => expirePass_takes) _ _ ⟨0, ?_, ?_, ?_⟩
    · exact Multiset.add_zero _
    · exact fun e member => absurd member (Multiset.notMem_zero e)
    · exact fun e member => absurd member (Multiset.notMem_zero e)
  rw [← ttlQueue_expireKeys] at taken
  obtain ⟨taken, h⟩ := taken
  have same : takenBy (s, ⟨now, .sweep⟩) = taken := by
    unfold takenBy
    rw [← h.balance, Multiset.add_comm]
    exact Multiset.add_sub_cancel_right
  rw [same]
  exact h

variable [Layout]

theorem queue_command {s s' : Shard Q} {t : Instant} {c : Command} {r : Response}
    (hs : step s ⟨t, .command c r⟩ s') :
    MaxQueue.items s'.ttlQueue =
      MaxQueue.items s.ttlQueue + ((⟨t, .command c r⟩ : Event).queued?.toList : Multiset Expiry) := by
  obtain ⟨next, dispatched, rfl⟩ := execute_cases hs
  have kept (silent : (⟨t, .command c r⟩ : Event).queued? = none)
      (same : next.ttlQueue = s.ttlQueue) : MaxQueue.items next.recorded.ttlQueue =
        MaxQueue.items s.ttlQueue + ((⟨t, .command c r⟩ : Event).queued?.toList : Multiset Expiry) := by
    rw [silent, show next.recorded.ttlQueue = s.ttlQueue from same]
    exact (Multiset.add_zero _).symm
  cases c with
  | ping message => cases message <;> cases dispatched <;> exact kept rfl rfl
  | set key value ttl =>
    rcases cmdSet_cases dispatched with ⟨rfl, msg, rfl⟩ | ⟨rfl, _, expiry, dated, rfl⟩
    · exact kept rfl rfl
    · cases ttl with
      | none =>
        cases dated
        exact kept rfl rfl
      | some secs =>
        obtain ⟨deadline, sum, rfl⟩ := Option.map_eq_some_iff.mp dated
        simp [Event.queued?, sum, recorded, store, ← Multiset.singleton_add, Multiset.add_comm]
  | get key =>
    rcases cmdGet_cases (Option.some.inj dispatched) with rfl | ⟨_, _, _, rfl⟩
    · exact kept rfl rfl
    · exact kept rfl (ttlQueue_remove s key)
  | del keys =>
    cases dispatched
    exact kept rfl (ttlQueue_delKeys s keys 0)
  | expire key seconds =>
    rcases cmdExpire_cases dispatched with ⟨_, rfl, rfl⟩ | ⟨entry, deadline, _, sum, rfl, rfl⟩
    · exact kept rfl rfl
    · simp [Event.queued?, sum, recorded, redate, ← Multiset.singleton_add, Multiset.add_comm]
  | ttl key =>
    rcases cmdTtl_cases (Option.some.inj dispatched) with rfl | ⟨_, _, _, rfl⟩
    · exact kept rfl rfl
    · exact kept rfl (ttlQueue_remove s key)
  | info section_ =>
    exact kept rfl (congrArg ttlQueue (dispatch_info dispatched))

/-- Whatever was queued and is not queued any more, a sweep took when it was due and nothing
earlier was waiting. -/
theorem queue_ledger {past : List (Shard Q × Event)} {s : Shard Q} (life : (lives Q).Run past s) :
    MaxQueue.items s.ttlQueue + (past.map takenBy).sum =
        MaxQueue.items (opening past s).ttlQueue + putIn past ∧
      ∀ x ∈ past, ∀ e ∈ takenBy x, e.expiryTime ≤ x.2.time ∧
        ∀ later ∈ MaxQueue.items (x.1.expireKeys x.2.time).ttlQueue,
          e.expiryTime ≤ later.expiryTime := by
  constructor
  · induction life with
    | start _ => rfl
    | @step past before after e life hs ih =>
      rw [opening_cons, List.map_cons, List.sum_cons]
      obtain ⟨t, action⟩ := e
      cases action with
      | command c r =>
        have grown : putIn ((before, ⟨t, .command c r⟩) :: past) =
            ((⟨t, .command c r⟩ : Event).queued?.toList : Multiset Expiry) + putIn past := by
          unfold putIn
          rw [List.filterMap_cons]
          cases (⟨t, .command c r⟩ : Event).queued? <;> rfl
        have untaken : takenBy (before, ⟨t, .command c r⟩) = 0 := rfl
        rw [queue_command hs, grown, untaken, Multiset.zero_add, Multiset.add_assoc,
          Multiset.add_comm _ (past.map takenBy).sum, ← Multiset.add_assoc, ih, Multiset.add_assoc,
          Multiset.add_comm (putIn past)]
      | sweep =>
        cases hs
        rw [← Multiset.add_assoc, (sweep_takes before t).balance, ih]
        rfl
  · rintro ⟨before, t, action⟩ _ e member
    cases action with
    | command c r => exact absurd member (Multiset.notMem_zero e)
    | sweep =>
      have takes := sweep_takes before t
      exact ⟨takes.due e member, takes.first e member⟩

end

/- A deadline that is replaced leaves its element to the sweep after it. -/
def redatedSwept : List Event := ⟨.ofSecs 3, .sweep⟩ :: redated

theorem queue_ledger_redated : ∃ past s, (@lives (SortedQueue Expiry) _ linux64).Run past s ∧
    past.map Prod.snd = redatedSwept ∧
    (MaxQueue.items s.ttlQueue + (past.map takenBy).sum =
        MaxQueue.items (opening past s).ttlQueue + putIn past ∧
      ∀ x ∈ past, ∀ e ∈ takenBy x, e.expiryTime ≤ x.2.time ∧
        ∀ later ∈ MaxQueue.items (x.1.expireKeys x.2.time).ttlQueue,
          e.expiryTime ≤ later.expiryTime) := by
  let _ := linux64
  obtain ⟨past, s, run, same, _⟩ :=
    replay_run (SortedQueue Expiry) ⟨0⟩ (.ofSecs 0) redatedSwept (by decide +kernel)
  exact ⟨past, s, run.life, same, queue_ledger run.life⟩

end Shard

end RsDragonfly
