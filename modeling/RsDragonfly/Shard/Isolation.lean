import RsDragonfly.Library.Views
import RsDragonfly.Shard.Unobserved

/-! Keys of one shard do not see each other.
What a command on a key answers depends on the commands that named this key and on
their clock readings, away from the limits that all keys share. Commands on other
keys, and sweeps, may come anywhere. A sweep shows in the answers that look at dead
entries: an EXPIRE of the key, and a DEL of it. -/
namespace RsDragonfly
open Library

/-- A command that names this key and no other. -/
def Command.isOnly (k : Key) : Command → Bool
  | .del keys => keys.contains k && keys.all (· == k)
  | c => c.onKey = some k

inductive KeyRequest where
  | alone (command : Command)
  /-- A DEL that names other keys too. -/
  | delAmong
deriving DecidableEq

def Event.touches? (k : Key) (e : Event) : Option (Instant × KeyRequest) :=
  match e.action with
  | .command (.del keys) _ =>
    if keys.contains k then
      some (e.time, if keys.all (· == k) then .alone (.del keys) else .delAmong)
    else none
  | .command c _ => if c.onKey = some k then some (e.time, .alone c) else none
  | .sweep => none

/-- The answer to a command on the key alone. A DEL among others counts these too. -/
def Event.keyResponse? (k : Key) (e : Event) : Option Response :=
  match e.action with
  | .command c response => if c.isOnly k then some response else none
  | .sweep => none

theorem Event.touches?_cases {k : Key} {e : Event} {t : Instant} {request : KeyRequest}
    (touches : e.touches? k = some (t, request)) :
    (∃ keys response, e = ⟨t, .command (.del keys) response⟩ ∧ k ∈ keys ∧
      (Command.del keys).isOnly k = false ∧ request = .delAmong) ∨
      ∃ c response, e = ⟨t, .command c response⟩ ∧ c.isOnly k = true ∧ request = .alone c := by
  obtain ⟨time, action⟩ := e
  cases action with
  | sweep => cases touches
  | command command response =>
    have single (on : (if command.onKey = some k then some (time, KeyRequest.alone command)
        else none) = some (t, request)) (same : command.isOnly k = decide (command.onKey = some k)) :
        ∃ c response', (⟨time, .command command response⟩ : Event) = ⟨t, .command c response'⟩ ∧
          c.isOnly k = true ∧ request = .alone c := by
      obtain ⟨here, same_time⟩ := Option.ite_none_right_eq_some.mp on
      cases same_time
      exact ⟨command, response, rfl, by rw [same]; exact decide_eq_true here, rfl⟩
    cases command with
    | del keys =>
      obtain ⟨named, same⟩ := Option.ite_none_right_eq_some.mp touches
      cases same
      cases every : keys.all (· == k) with
      | true => exact .inr ⟨_, response, rfl, by rw [Command.isOnly, named, every]; rfl, rfl⟩
      | false =>
        refine .inl ⟨keys, response, rfl, List.contains_iff_mem.mp named, ?_, rfl⟩
        rw [Command.isOnly, named, every]
        rfl
    | _ => exact .inr (single touches rfl)

namespace Shard

theorem untouched {k : Key} {e : Event} (touches : e.touches? k = none) :
    keyOp k e = .idle ∧ e.keyResponse? k = none := by
  obtain ⟨time, action⟩ := e
  cases action with
  | sweep => exact ⟨rfl, rfl⟩
  | command command response =>
    cases command with
    | ping message => exact ⟨rfl, rfl⟩
    | info section_ => exact ⟨rfl, rfl⟩
    | del keys =>
      have other : k ∉ keys := fun named => by simp [Event.touches?, named] at touches
      exact ⟨if_neg other, by simp [Event.keyResponse?, Command.isOnly, other]⟩
    | _ =>
      have other := touches
      simp only [Event.touches?, Command.onKey, Option.some.injEq, ite_eq_right_iff, reduceCtorEq,
        imp_false] at other
      simp [keyOp, Event.keyResponse?, Command.isOnly, Command.onKey, other]

/-- A DEL of the key alone does not find an entry whose deadline has passed. -/
def delMeetsLiving {Q : Type} (k : Key) (x : Shard Q × Event) : Bool :=
  match x.2.action with
  | .command (.del keys) _ =>
    !(Command.del keys).isOnly k || (x.1.data.lookup k).all (fun entry => !entry.isExpired x.2.time)
  | _ => true

/-- What is known of a run that is seen from a key: SETs of the key are not turned away by
the limits, and its EXPIREs and lone DELs find no entry whose deadline has passed. -/
structure Unlimited {Q : Type} (k : Key) (past : List (Shard Q × Event)) : Prop where
  clock : NonDecreasing (past.map Prod.snd)
  room : ∀ x ∈ past, (x.2.touches? k).isSome = true → x.2.reachesLimit = false
  living : ∀ x ∈ past, expireMeetsLiving k x = true
  counted : ∀ x ∈ past, delMeetsLiving k x = true

/-- Equal answers so far, and equal live contents of the key from now on. -/
def SameKey {Q : Type} (k : Key) (past₁ : List (Shard Q × Event)) (s₁ : Shard Q)
    (past₂ : List (Shard Q × Event)) (s₂ : Shard Q) : Prop :=
  past₁.filterMap (·.2.keyResponse? k) = past₂.filterMap (·.2.keyResponse? k) ∧
    ∀ now, (∀ x ∈ past₁, x.2.time ≤ now) → (∀ x ∈ past₂, x.2.time ≤ now) →
      Cell.live now (s₁.cell k) = Cell.live now (s₂.cell k)

section
variable {Q : Type} [MaxQueue Q Expiry] [Layout] {k : Key}

omit [Layout] in
theorem expire_response {s s' : Shard Q} {t : Instant} {seconds : UInt64} {r : Response}
    (h : s.cmdExpire t k seconds = some (s', r))
    (living : expireMeetsLiving k (s, ⟨t, .command (.expire k seconds) r⟩) = true) :
    r = .integer (if (Cell.live t (s.cell k)).isSome then 1 else 0) := by
  have alive : (s.data.lookup k).all (fun entry => !entry.isExpired t) = true := by
    simpa [expireMeetsLiving] using living
  rw [cmdExpire_response h, live_of_living alive, cell_isSome]

omit [MaxQueue Q Expiry] in
/-- A DEL that names one key tells whether it was stored. -/
theorem del_response {s₁ s₂ : Shard Q} {keys : List Key} (alone : (Command.del keys).isOnly k = true)
    (same : s₁.cell k = s₂.cell k) : (s₁.cmdDel keys).2 = (s₂.cmdDel keys).2 := by
  apply congrArg Response.integer
  apply delKeys_count
  intro key named
  obtain ⟨_, every⟩ := Bool.and_eq_true_iff.mp alone
  have here : key = k := eq_of_beq (List.all_eq_true.mp every key named)
  rw [here, ← cell_isSome, ← cell_isSome, same]

theorem same_key_response {s₁ s₁' s₂ s₂' : Shard Q} {t : Instant} {c : Command} {r₁ r₂ : Response}
    (alone : c.isOnly k = true) (h₁ : step s₁ ⟨t, .command c r₁⟩ s₁')
    (h₂ : step s₂ ⟨t, .command c r₂⟩ s₂')
    (same : Cell.live t (s₁.cell k) = Cell.live t (s₂.cell k))
    (room₁ : Event.reachesLimit ⟨t, .command c r₁⟩ = false)
    (room₂ : Event.reachesLimit ⟨t, .command c r₂⟩ = false)
    (living₁ : expireMeetsLiving k (s₁, ⟨t, .command c r₁⟩) = true)
    (living₂ : expireMeetsLiving k (s₂, ⟨t, .command c r₂⟩) = true)
    (counted₁ : delMeetsLiving k (s₁, ⟨t, .command c r₁⟩) = true)
    (counted₂ : delMeetsLiving k (s₂, ⟨t, .command c r₂⟩) = true) : r₁ = r₂ := by
  obtain ⟨n₁, d₁, _⟩ := execute_cases h₁
  obtain ⟨n₂, d₂, _⟩ := execute_cases h₂
  cases c with
  | set key value ttl => rw [cmdSet_response d₁ room₁, cmdSet_response d₂ room₂]
  | get key =>
    cases of_decide_eq_true alone
    have answers := cmdGet_same same
    rw [Option.some.inj d₁, Option.some.inj d₂] at answers
    exact answers
  | del keys =>
    have alive₁ : (s₁.data.lookup k).all (fun entry => !entry.isExpired t) = true := by
      simpa [delMeetsLiving, alone] using counted₁
    have alive₂ : (s₂.data.lookup k).all (fun entry => !entry.isExpired t) = true := by
      simpa [delMeetsLiving, alone] using counted₂
    have stored : s₁.cell k = s₂.cell k :=
      (live_of_living alive₁).symm.trans (same.trans (live_of_living alive₂))
    have answers := del_response alone stored
    rw [Option.some.inj d₁, Option.some.inj d₂] at answers
    exact answers
  | expire key seconds =>
    cases of_decide_eq_true alone
    rw [expire_response d₁ living₁, expire_response d₂ living₂, same]
  | ttl key =>
    cases of_decide_eq_true alone
    have answers := cmdTtl_same same
    rw [Option.some.inj d₁, Option.some.inj d₂] at answers
    exact answers
  | ping message => cases alone
  | info section_ => cases alone

theorem same_key_live {s₁ s₁' s₂ s₂' : Shard Q} {e₁ e₂ : Event} (h₁ : step s₁ e₁ s₁')
    (h₂ : step s₂ e₂ s₂') (time : e₁.time = e₂.time) (op : keyOp k e₁ = keyOp k e₂)
    (same : Cell.live e₁.time (s₁.cell k) = Cell.live e₁.time (s₂.cell k))
    (living : expireMeetsLiving k (s₁, e₁) = true) :
    Cell.live e₁.time (s₁'.cell k) = Cell.live e₁.time (s₂'.cell k) := by
  have c₂ := cell_step h₂ k
  rw [← time, ← op] at c₂
  apply Cell.live_step (cell_step h₁ k) c₂ same
  intro d redated x stored
  obtain ⟨seconds, response, haction⟩ := redate_expires redated
  have alive : (s₁.data.lookup k).all (fun entry => !entry.isExpired e₁.time) = true := by
    simpa [expireMeetsLiving, haction] using living
  have whole := live_of_living alive
  exact Cell.not_dead.mpr (Cell.live_eq_some.mp (whole.trans stored)).2

theorem sameKey_unwinding (k : Key) :
    Unwinding (runs Q) (Event.touches? k) (Unlimited k) (SameKey k) := by
  constructor
  · rintro _ _ ⟨_, _, rfl⟩ ⟨_, _, rfl⟩
    exact ⟨rfl, fun _ _ _ => rfl⟩
  · exact fun _ _ _ _ h => ⟨h.1.symm, fun now b₁ b₂ => (h.2 now b₂ b₁).symm⟩
  · intro x past h
    exact ⟨(List.pairwise_cons.mp h.clock).2, fun y hy => h.room y (List.mem_cons_of_mem _ hy),
      fun y hy => h.living y (List.mem_cons_of_mem _ hy),
      fun y hy => h.counted y (List.mem_cons_of_mem _ hy)⟩
  · -- a step that does not name the key may drop what is dead
    intro past₁ s₁ past₂ s₂ e s₁' related _ hs hidden
    obtain ⟨idle, silent⟩ := untouched hidden
    refine ⟨?_, fun now b₁ b₂ => ?_⟩
    · rw [List.filterMap_cons, silent]
      exact related.1
    · have moved := cell_step hs k
      rw [idle] at moved
      have dropped := Cell.dropped_live (Cell.idle_dropped moved)
      have earlier := related.2 now (fun x hx => b₁ x (List.mem_cons_of_mem _ hx)) b₂
      exact (Cell.live_later (b₁ _ List.mem_cons_self) dropped).trans earlier
  · intro past₁ s₁ past₂ s₂ e₁ s₁' e₂ s₂' ⟨t, request⟩ related good₁ good₂ hs₁ hs₂ shown₁ shown₂
    have before {past : List (Shard Q × Event)} {s : Shard Q} {e : Event}
        (good : Unlimited k ((s, e) :: past)) : ∀ x ∈ past, x.2.time ≤ e.time :=
      fun x member => (List.pairwise_cons.mp good.clock).1 x.2 (List.mem_map_of_mem member)
    have room₁ := good₁.room _ List.mem_cons_self (by rw [shown₁]; rfl)
    have room₂ := good₂.room _ List.mem_cons_self (by rw [shown₂]; rfl)
    have living₁ := good₁.living _ List.mem_cons_self
    have living₂ := good₂.living _ List.mem_cons_self
    have finish (time : e₁.time = e₂.time) (answer : e₁.keyResponse? k = e₂.keyResponse? k)
        (op : keyOp k e₁ = keyOp k e₂) :
        SameKey k ((s₁, e₁) :: past₁) s₁' ((s₂, e₂) :: past₂) s₂' := by
      have live := related.2 e₁.time (before good₁) (time ▸ before good₂)
      refine ⟨?_, fun now b₁ _ => ?_⟩
      · rw [List.filterMap_cons, List.filterMap_cons, answer, related.1]
      · exact Cell.live_later (b₁ _ List.mem_cons_self)
          (same_key_live hs₁ hs₂ time op live living₁)
    rcases Event.touches?_cases shown₁ with
      ⟨keys₁, r₁, rfl, named₁, others₁, rfl⟩ | ⟨c₁, r₁, rfl, alone, rfl⟩
    · rcases Event.touches?_cases shown₂ with ⟨keys₂, r₂, rfl, named₂, others₂, _⟩ | ⟨_, _, _, _, differ⟩
      · refine finish rfl ?_ ?_
        · simp [Event.keyResponse?, others₁, others₂]
        · simp [keyOp, named₁, named₂]
      · cases differ
    · rcases Event.touches?_cases shown₂ with ⟨_, _, _, _, _, differ⟩ | ⟨c₂, r₂, rfl, _, same⟩
      · cases differ
      · cases same
        have live := related.2 t (before good₁) (before good₂)
        cases same_key_response alone hs₁ hs₂ live room₁ room₂ living₁ living₂
          (good₁.counted _ List.mem_cons_self) (good₂.counted _ List.mem_cons_self)
        exact finish rfl rfl rfl

/-- In two runs in which the same was asked of a key at the same clock readings, the commands
on it alone get the same answers, whatever was asked of other keys and wherever sweeps came. -/
theorem keys_isolated {past₁ past₂ : List (Shard Q × Event)} {s₁ s₂ : Shard Q} (k : Key)
    (run₁ : Run Q past₁ s₁) (run₂ : Run Q past₂ s₂) (free₁ : Unlimited k past₁)
    (free₂ : Unlimited k past₂)
    (same : past₁.filterMap (·.2.touches? k) = past₂.filterMap (·.2.touches? k)) :
    past₁.filterMap (·.2.keyResponse? k) = past₂.filterMap (·.2.keyResponse? k) :=
  ((sameKey_unwinding k).related run₁ run₂ free₁ free₂ same).1

end

/- One key alone, and the same with another key and a sweep in between. -/
def aloneEvents : List Event :=
  [⟨.ofSecs 4, .command (.del [utf8 "a"]) (.integer 1)⟩,
   ⟨.ofSecs 3, .command (.get (utf8 "a")) (.value (some (.string (utf8 "v"))))⟩,
   ⟨.ofSecs 1, .command (.set (utf8 "a") (.string (utf8 "v")) (some 5)) .ok⟩]

def mixedEvents : List Event :=
  [⟨.ofSecs 4, .command (.del [utf8 "a"]) (.integer 1)⟩,
   ⟨.ofSecs 3, .command (.get (utf8 "a")) (.value (some (.string (utf8 "v"))))⟩,
   ⟨.ofSecs 3, .command (.del [utf8 "b", utf8 "c"]) (.integer 0)⟩,
   ⟨.ofSecs 3, .sweep⟩,
   ⟨.ofSecs 1, .command (.set (utf8 "b") (.string (utf8 "w")) (some 1)) .ok⟩,
   ⟨.ofSecs 1, .command (.set (utf8 "a") (.string (utf8 "v")) (some 5)) .ok⟩]

/-- The events of a replay, where the replay itself shows that nothing dead is found. -/
theorem unlimited_replay {events : List Event} {start : Shard (SortedQueue Expiry)}
    {past : List (Shard (SortedQueue Expiry) × Event)} {s : Shard (SortedQueue Expiry)}
    (replayed : @replay _ _ linux64 start events = some (past, s)) (same : past.map Prod.snd = events)
    (clock : NonDecreasing events) (room : ∀ e ∈ events, e.reachesLimit = false)
    (living : (@replay _ _ linux64 start events).map (fun out => out.1.all fun x =>
      expireMeetsLiving (utf8 "a") x && delMeetsLiving (utf8 "a") x) = some true) :
    Unlimited (utf8 "a") past := by
  subst same
  rw [replayed, Option.map_some, Option.some.injEq, List.all_eq_true] at living
  exact ⟨clock, fun x member _ => room x.2 (List.mem_map_of_mem member),
    fun x member => (Bool.and_eq_true_iff.mp (living x member)).1,
    fun x member => (Bool.and_eq_true_iff.mp (living x member)).2⟩

theorem keys_isolated_mixed : ∃ past₁ past₂ s₁ s₂, @Run (SortedQueue Expiry) _ linux64 past₁ s₁ ∧
    @Run (SortedQueue Expiry) _ linux64 past₂ s₂ ∧
    past₁.map Prod.snd = aloneEvents ∧ past₂.map Prod.snd = mixedEvents ∧
    past₁.filterMap (·.2.keyResponse? (utf8 "a")) =
      past₂.filterMap (·.2.keyResponse? (utf8 "a")) := by
  let _ := linux64
  obtain ⟨past₁, s₁, run₁, same₁, replayed₁⟩ :=
    replay_run (SortedQueue Expiry) ⟨0⟩ (.ofSecs 0) aloneEvents (by decide +kernel)
  obtain ⟨past₂, s₂, run₂, same₂, replayed₂⟩ :=
    replay_run (SortedQueue Expiry) ⟨0⟩ (.ofSecs 0) mixedEvents (by decide +kernel)
  have free₁ : Unlimited (utf8 "a") past₁ := by
    apply unlimited_replay replayed₁ same₁
    · unfold NonDecreasing
      decide
    · decide
    · decide +kernel
  have free₂ : Unlimited (utf8 "a") past₂ := by
    apply unlimited_replay replayed₂ same₂
    · unfold NonDecreasing
      decide
    · decide
    · decide +kernel
  refine ⟨past₁, past₂, s₁, s₂, run₁, run₂, same₁, same₂, ?_⟩
  apply keys_isolated (utf8 "a") run₁ run₂ free₁ free₂
  have seen (events : List Event) (past : List (Shard (SortedQueue Expiry) × Event))
      (same : past.map Prod.snd = events) : past.filterMap (·.2.touches? (utf8 "a")) =
        events.filterMap (Event.touches? (utf8 "a")) := by
    rw [← same, List.filterMap_map]
    rfl
  rw [seen _ _ same₁, seen _ _ same₂]
  decide

end Shard

end RsDragonfly
