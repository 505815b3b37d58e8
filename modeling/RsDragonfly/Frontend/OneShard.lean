import RsDragonfly.Frontend.Linearizable
import RsDragonfly.Frontend.Sharding

/-! Sixty-four shards under concurrent connections against one shard.
Without sweeps, ended workers and limits, the parts of commands on keys, in the order in
which they are executed, are commands that a single shard could have been given one after
the other. PING and INFO are left out: INFO tells of one shard only. -/
namespace RsDragonfly
open Library

theorem plans_group {keys : List Key} {i : Fin shardCount}
    (here : ∀ key ∈ keys, keySlot key = i) (some_there : keys ≠ []) :
    Plans (.del keys) [⟨i, .del keys⟩] := by
  obtain ⟨first, member⟩ := List.exists_mem_of_ne_nil keys some_there
  have at_slot : slot (routeKey first) = some i := by rw [slot_routeKey, here first member]
  have routed : ∀ key ∈ keys, routeKey key = routeKey first := by
    intro key named
    exact (keySlot_eq_iff at_slot).mp (here key named)
  have every : ∀ group ∈ (routeKeys keys).entries, group = ⟨routeKey first, keys⟩ := by
    rintro ⟨id, group⟩ listed
    have found := KeyedMap.mem_entries_iff.mp listed
    have only := group_of_lookup found
    have there : id ∈ routeKeys keys := KeyedMap.contains_iff.mpr ⟨group, found⟩
    obtain ⟨key, named, rfl⟩ := mem_routeKeys.mp there
    have whole : keys.filter (routeKey · = routeKey key) = keys := by
      apply List.filter_eq_self.mpr
      intro other named'
      rw [decide_eq_true_eq, routed other named', routed key named]
    rw [only, whole, routed key named]
  have single : (routeKeys keys).entries = [⟨routeKey first, keys⟩] := by
    have there := mem_routeKeys.mpr ⟨first, member, rfl⟩
    obtain ⟨group, found⟩ := KeyedMap.contains_iff.mp there
    have listed := KeyedMap.mem_entries_iff.mpr found
    have apart := (routeKeys keys).nodupKeys
    revert every listed apart
    generalize (routeKeys keys).entries = entries
    intro every listed apart
    cases entries with
    | nil => cases listed
    | cons head rest =>
      cases every head List.mem_cons_self
      cases rest with
      | nil => rfl
      | cons second rest =>
        cases every second (List.mem_cons_of_mem _ List.mem_cons_self)
        exact absurd List.mem_cons_self (List.nodupKeys_cons.mp apart).1
  apply Plans.del ⟨[⟨routeKey first, keys⟩], single ▸ .refl _⟩
  simp [at_slot]

theorem answer_single {Q : Type} [MaxQueue Q Expiry] [Layout] {s s' : Shard Q} {now : Instant}
    {command : Command} {response : Response} (keyed : command.isKeyed = true)
    (executed : s.execute now command = some (s', response)) :
    answer command [.replied response] = response := by
  rcases Command.keyed_cases keyed with ⟨key, on⟩ | ⟨keys, rfl⟩
  · exact (Command.keys_onKey on).2.2 _
  · obtain ⟨next, dispatched, _⟩ := Shard.execute_cases executed
    cases dispatched
    simp [answer, Outcome.part, joinDel, tally]

namespace Traffic

section
variable {ι Q : Type}

/-- No sweep, and no worker that ends. -/
def calm : Act ι → Bool
  | .tick _ _ | .stop _ | .panic _ _ _ => false
  | _ => true

def workers (σ : Traffic ι Q) : Workers Q := fun i => shardOf (σ.nodes i).worker

def eventOf : Act ι → Option Event
  | .execute _ now m response => some ⟨now, .command m.command response⟩
  | _ => none

/-- The executed commands with their clock readings, newest first. -/
def executedInputs (acts : List (Act ι)) : List (Option (Instant × Command)) :=
  (acts.filterMap eventOf).map Event.timedCommand?

theorem served_events {one : List (Shard Q × Event)} {acts : List (Act ι)}
    (same : one.map Prod.snd = acts.filterMap eventOf) :
    Shard.served one = (acts.filterMap effectOf).map Prod.snd := by
  have listed : Shard.served one = (one.map Prod.snd).filterMap Event.served? := by
    rw [List.filterMap_map]
    rfl
  have each (act : Act ι) : (eventOf act).bind Event.served? = (effectOf act).map Prod.snd := by
    cases act <;> rfl
  rw [listed, same, List.filterMap_filterMap, List.map_filterMap]
  exact congrArg (List.filterMap · acts) (funext each)

theorem workers_setNode (σ : Traffic ι Q) (i : Fin shardCount) (node : Node ι Q) :
    workers (σ.setNode i node) = Function.update (workers σ) i (shardOf node.worker) := by
  funext j
  unfold workers
  rw [nodes_setNode, Function.update_apply]
  split <;> rfl

/-- What a shard has accepted of a keyed command is a command that goes to that shard alone. -/
theorem Sound.plans_alone {acts : List (Act ι)} {σ : Traffic ι Q} (sound : Sound acts σ) {i : Fin shardCount}
    {m : CommandMessage ι} (member : m ∈ accepted i acts σ)
    (keyed : ∀ t command parts, .issue t command parts ∈ acts → command.isKeyed = true) :
    m.command.isKeyed = true ∧ Plans m.command [⟨i, m.command⟩] := by
  obtain ⟨_, _, command, parts, origin, part⟩ := sound.accepts i m member
  have plan := (sound.issues _ command parts origin).2.1
  have keyed_one := keyed _ command parts origin
  cases goes : target command with
  | some id =>
    obtain ⟨shard, rfl, _⟩ := plan.single_eq goes
    cases List.mem_singleton.mp part
    exact ⟨keyed_one, plan⟩
  | none =>
    cases command with
    | del keys =>
      obtain ⟨named, some_there⟩ := plan.del_part part
      rw [show m.command = .del (keys.filter (keySlot · = i)) from named]
      refine ⟨rfl, plans_group ?_ some_there⟩
      intro key listed
      exact of_decide_eq_true (List.mem_filter.mp listed).2
    | _ => cases goes

variable [DecidableEq ι] [MaxQueue Q Expiry] [Layout] {past : List (Traffic ι Q × Act ι)}
  {σ : Traffic ι Q}

theorem processes_alone {i : Fin shardCount} {w : Workers Q} {shard shard' : Shard Q}
    {now : Instant} {command : Command} {response : Response} (keyed : command.isKeyed = true)
    (plan : Plans command [⟨i, command⟩]) (found : w i = some shard)
    (executed : shard.execute now command = some (shard', response)) :
    Processes now w command response (Function.update w i (some shard')) := by
  constructor
  have served : Serves now (w i) command (.replied response) (some shard') := by
    rw [found]
    exact .replied executed
  exact ⟨_, plan, [.replied response], rfl, (answer_single keyed executed).symm, _, .refl _,
    .cons served .nil⟩

/-- The concurrent shards, seen as shards that process one part after the other. -/
theorem sharded_run (run : (traffic ι Q).Run past σ) (quiet : ∀ act ∈ acts past, calm act = true)
    (keyed : ∀ t command parts, .issue t command parts ∈ acts past → command.isKeyed = true) :
    ∃ own, (sharded Q).Run own (workers σ) ∧ own.map Prod.snd = (acts past).filterMap eventOf ∧
      ∀ i, (workers σ i).isSome = true := by
  induction run with
  | @start σ first =>
    obtain ⟨_, now, fresh⟩ := first
    have each (i : Fin shardCount) : workers σ i = some (.new ⟨UInt16.ofNat i⟩ (now i)) := by
      rw [workers, fresh i]
      rfl
    exact ⟨[], .start ⟨now, each⟩, rfl, fun i => by rw [each i]; rfl⟩
  | @step past σ σ' act before hs ih =>
    rw [acts, List.map_cons, List.forall_mem_cons] at quiet
    obtain ⟨own, reached, same, alive⟩ := ih quiet.2 fun t command parts there =>
      keyed t command parts (List.mem_cons_of_mem _ there)
    have still (kept : workers σ' = workers σ) (silent : eventOf act = none) :
        ∃ own, (sharded Q).Run own (workers σ') ∧
          own.map Prod.snd = (acts ((σ, act) :: past)).filterMap eventOf ∧
          ∀ i, (workers σ' i).isSome = true := by
      refine ⟨own, kept ▸ reached, ?_, kept ▸ alive⟩
      rw [acts, List.map_cons, List.filterMap_cons, silent]
      exact same
    cases hs with
    | @send c task part sent current member phase accepted =>
      apply still ?_ rfl
      rw [workers_setNode]
      exact Function.update_eq_self part.shard (workers σ)
    | @work i _ node works =>
      cases works with
      | @receive shard message channel waiting received =>
        apply still ?_ rfl
        have at_node : workers σ i = some shard := by rw [workers, waiting]; rfl
        rw [workers_setNode]
        exact Function.update_eq_self_iff.mpr at_node.symm
      | @execute shard shard' message now response executing executed =>
        have at_node : workers σ i = some shard := by rw [workers, executing]; rfl
        have taken : message ∈ accepted i (acts past) σ := by
          apply List.mem_append_left
          simp [Node.pending, WorkerState.current, executing]
        obtain ⟨keyed_one, plan⟩ := (sound_run before).plans_alone taken
          fun t command parts there => keyed t command parts (List.mem_cons_of_mem _ there)
        have processed := processes_alone keyed_one plan at_node executed
        have stepped : (sharded Q).step (workers σ) ⟨now, .command message.command response⟩
            (Function.update (workers σ) i (some shard')) := ⟨_, _, rfl, keyed_one, processed⟩
        rw [workers_setNode]
        refine ⟨_, reached.step stepped, ?_, ?_⟩
        · rw [List.map_cons, same]
          rfl
        · intro j
          rw [Function.update_apply]
          split
          · rfl
          · exact alive j
      | panic executing panics => cases quiet.1
      | stop waiting => cases quiet.1
      | tick waiting => cases quiet.1
    | _ => exact still rfl rfl

/-- Without sweeps, ended workers, limits and commands on no key, concurrent connections see
one shard: there is one order of the executed parts in which a single shard gives all the
replies, and which keeps the order of parts that do not overlap. -/
theorem linearizable_as_one (run : (traffic ι Q).Run past σ)
    (quiet : ∀ act ∈ acts past, calm act = true)
    (keyed : ∀ t command parts, .issue t command parts ∈ acts past → command.isKeyed = true)
    (room : ∀ i now m response, .execute i now m response ∈ acts past →
      Event.reachesLimit ⟨now, .command m.command response⟩ = false)
    (room_one : ∀ one s, Shard.Run Q one s → inputs one <:+ executedInputs (acts past) →
      ∀ x ∈ one, x.2.reachesLimit = false) :
    ∃ order, (parts ι).Linearizes
      (fun order => ∃ one s, Shard.Run Q one s ∧ Shard.served one = order.map Prod.snd)
      (acts past) order := by
  refine ⟨_, (points_run run).linearizes ?_⟩
  obtain ⟨own, reached, same, alive⟩ := sharded_run run quiet keyed
  have room_own : ∀ x ∈ own, x.2.reachesLimit = false := by
    intro x member
    have listed := List.mem_map_of_mem (f := Prod.snd) member
    rw [same, List.mem_filterMap] at listed
    obtain ⟨act, there, event⟩ := listed
    cases act with
    | execute i now m response =>
      rw [← Option.some.inj event]
      exact room i now m response there
    | _ => cases event
  have fed : inputs own = executedInputs (acts past) := by
    rw [executedInputs, ← same, List.map_map]
    rfl
  obtain ⟨one, s, run_one, part, whole⟩ := run_exists reached room_own alive
  rw [fed] at part
  have free := room_one one s run_one part
  have all : inputs one = inputs own := by
    rcases whole with all | ⟨x, member, full⟩
    · exact all
    · rw [free x member] at full
      cases full
  obtain ⟨events, _⟩ := same_events reached room_own run_one all free
  exact ⟨one, s, run_one, served_events (events.trans same)⟩

end

theorem overlapping_room {one : List (Shard (SortedQueue Expiry) × Event)}
    {s : Shard (SortedQueue Expiry)} (run : @Shard.Run (SortedQueue Expiry) _ linux64 one s)
    (part : inputs one <:+ executedInputs overlapping) : ∀ x ∈ one, x.2.reachesLimit = false := by
  let _ := linux64
  have first {s s' : Shard (SortedQueue Expiry)} {e : Event} (fresh : ∃ id now, s = .new id now)
      (hs : (Shard.runs (SortedQueue Expiry)).step s e s')
      (input : e.timedCommand? = some (.ofSecs 1, aSet)) : e.reachesLimit = false := by
    obtain ⟨id, now, rfl⟩ := fresh
    obtain ⟨time, _ | _⟩ := e
    · cases input
      cases hs
      rfl
    · cases input
  have second {s s' : Shard (SortedQueue Expiry)} {e : Event}
      (hs : (Shard.runs (SortedQueue Expiry)).step s e s')
      (input : e.timedCommand? = some (.ofSecs 2, aGet)) : e.reachesLimit = false := by
    obtain ⟨time, _ | _⟩ := e
    · cases input
      obtain ⟨next, dispatched, _⟩ := Shard.execute_cases hs
      simp only [aGet, Shard.dispatch, Shard.cmdGet, Option.some.injEq] at dispatched
      split at dispatched
      · cases dispatched
        rfl
      · split at dispatched <;> cases dispatched <;> rfl
    · cases input
  rcases List.suffix_cons_iff.mp part with two | shorter
  · cases run with
    | start _ => cases two
    | step before hs =>
      obtain ⟨input, rest⟩ := List.cons.inj two
      cases before with
      | start _ => cases rest
      | step before hs' =>
        obtain ⟨input', rest⟩ := List.cons.inj rest
        cases before with
        | start fresh => simp [second hs input, first fresh hs' input']
        | step _ _ => cases rest
  · rcases List.suffix_cons_iff.mp shorter with one_left | none_left
    · cases run with
      | start _ => cases one_left
      | step before hs =>
        obtain ⟨input, rest⟩ := List.cons.inj one_left
        cases before with
        | start fresh => simp [first fresh hs input]
        | step _ _ => cases rest
    · have empty := List.suffix_nil.mp none_left
      rw [List.map_eq_nil_iff.mp empty]
      simp

theorem linearizable_as_one_overlapping : ∃ past σ,
    (@traffic Bool (SortedQueue Expiry) _ _ linux64).Run past σ ∧ acts past = overlapping ∧
    ∃ order, (parts Bool).Linearizes
      (fun order => ∃ one s, @Shard.Run (SortedQueue Expiry) _ linux64 one s ∧
        Shard.served one = order.map Prod.snd) (acts past) order := by
  let _ := linux64
  obtain ⟨past, σ, run, same⟩ := run_overlapping
  refine ⟨past, σ, run, same, linearizable_as_one run ?_ ?_ ?_ ?_⟩
  · rw [same]
    decide
  · rw [same]
    intro t command parts member
    simp only [overlapping, List.mem_cons, List.not_mem_nil, reduceCtorEq, false_or, or_false]
      at member
    rcases member with here | here <;> cases here <;> rfl
  · rw [same]
    intro i now m response member
    simp only [overlapping, List.mem_cons, List.not_mem_nil, reduceCtorEq, false_or, or_false]
      at member
    rcases member with here | here <;> cases here <;> rfl
  · rw [same]
    exact fun one s run_one part => overlapping_room run_one part

end Traffic

end RsDragonfly
