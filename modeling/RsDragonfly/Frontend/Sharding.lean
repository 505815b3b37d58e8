import Mathlib.Algebra.BigOperators.Group.Finset.Basic
import RsDragonfly.Frontend.Handler
import RsDragonfly.Shard.Effects

/-! Sixty-four shards against one.
Commands are processed one at a time. Each shard is a part of the single shard's
map, so a command on one key finds the same entry on both sides, and a DEL
removes the same keys in parts that have none in common. -/
namespace RsDragonfly
open Library

theorem keyOp_idle {key : Key} {command : Command} (unnamed : key ∉ command.keys) (now : Instant)
    (response : Response) : Shard.keyOp key ⟨now, .command command response⟩ = .idle := by
  cases command with
  | set other value ttl =>
    simp only [Command.keys, List.mem_singleton] at unnamed
    simp [Shard.keyOp, Ne.symm unnamed]
  | expire other seconds =>
    simp only [Command.keys, List.mem_singleton] at unnamed
    simp [Shard.keyOp, Ne.symm unnamed]
  | del keys => exact if_neg unnamed
  | _ => rfl

theorem sum_parts {keys : List Key} {parts : List Part} (plan : Plans (.del keys) parts)
    (stored : Finset Key) :
    (parts.map fun part => ((keys.toFinset ∩ stored).filter (keySlot · = part.shard)).card).sum =
      (keys.toFinset ∩ stored).card := by
  have mapped : ∀ key ∈ keys.toFinset ∩ stored, keySlot key ∈ (parts.map Part.shard).toFinset := by
    intro key member
    obtain ⟨part, there, at_slot⟩ :=
      plan.del_covers (List.mem_toFinset.mp (Finset.mem_inter.mp member).1)
    rw [List.mem_toFinset, ← at_slot]
    exact List.mem_map_of_mem there
  rw [Finset.card_eq_sum_card_fiberwise mapped, List.sum_toFinset _ plan.shards_nodup,
    List.map_map]
  rfl

section
variable {Q : Type}

/-- The shards of the workers that have not panicked. -/
abbrev Workers (Q : Type) := Fin shardCount → Option (Shard Q)

/-- The shards store, each for its own keys, what one shard stores for all of them. -/
structure Agrees (σ : Workers Q) (s : Shard Q) : Prop where
  alive : ∀ i, (σ i).isSome = true
  same : ∀ key, ∀ shard ∈ σ (keySlot key), shard.data.lookup key = s.data.lookup key

theorem Agrees.part {σ : Workers Q} {s : Shard Q} (agrees : Agrees σ s) (keys : List Key)
    {i : Fin shardCount} {shard : Shard Q} (found : σ i = some shard) :
    (keys.filter (keySlot · = i)).toFinset ∩ KeyedMap.domain shard.data =
      (keys.toFinset ∩ KeyedMap.domain s.data).filter (keySlot · = i) := by
  ext key
  simp only [Finset.mem_inter, List.mem_toFinset, List.mem_filter, decide_eq_true_eq,
    Finset.mem_filter, KeyedMap.mem_domain]
  constructor
  · rintro ⟨⟨named, rfl⟩, stored⟩
    rw [agrees.same key shard found] at stored
    exact ⟨⟨named, stored⟩, rfl⟩
  · rintro ⟨⟨named, stored⟩, rfl⟩
    rw [← agrees.same key shard found] at stored
    exact ⟨⟨named, rfl⟩, stored⟩

end

section
variable {Q : Type} [MaxQueue Q Expiry] [Layout]

/-- How a worker serves one message. After a panic a message finds the channel
closed, or is dropped with it. -/
inductive Serves (now : Instant) :
    Option (Shard Q) → Command → Outcome → Option (Shard Q) → Prop where
  | replied {s s' : Shard Q} {command : Command} {response : Response}
      (executed : s.execute now command = some (s', response)) :
      Serves now (some s) command (.replied response) (some s')
  | panicked {s : Shard Q} {command : Command} (panics : s.execute now command = none) :
      Serves now (some s) command .disconnected none
  | closed {command : Command} : Serves now none command .closed none
  | dropped {command : Command} : Serves now none command .disconnected none

/-- The parts of a command, in the order in which they are executed. -/
inductive Executes (now : Instant) : Workers Q → List (Part × Outcome) → Workers Q → Prop where
  | nil {σ : Workers Q} : Executes now σ [] σ
  | cons {σ σ' : Workers Q} {part : Part} {outcome : Outcome} {after : Option (Shard Q)}
      {more : List (Part × Outcome)}
      (first : Serves now (σ part.shard) part.command outcome after)
      (rest : Executes now (Function.update σ part.shard after) more σ') :
      Executes now σ ((part, outcome) :: more) σ'

/-- `process_command` with no timeout. The outcomes are joined in the order of the
parts, whatever the order in which these are executed. -/
structure Processes (now : Instant) (σ : Workers Q) (command : Command) (response : Response)
    (σ' : Workers Q) : Prop where
  parts : ∃ parts, Plans command parts ∧ ∃ outcomes : List Outcome,
    outcomes.length = parts.length ∧ response = answer command outcomes ∧
    ∃ executed, executed.Perm (parts.zip outcomes) ∧ Executes now σ executed σ'

variable (Q) in
/-- All runs of keyed commands, one after another, from new shards. -/
def sharded : System (Workers Q) Event where
  start σ := ∃ now : Fin shardCount → Instant,
    ∀ i, σ i = some (.new ⟨UInt16.ofNat i⟩ (now i))
  step σ e σ' := ∃ command response, e.action = .command command response ∧
    command.isKeyed = true ∧ Processes e.time σ command response σ'

theorem Executes.each {now : Instant} {σ σ' : Workers Q} {executed : List (Part × Outcome)}
    (h : Executes now σ executed σ') (apart : (executed.map (·.1.shard)).Nodup) :
    (∀ x ∈ executed, Serves now (σ x.1.shard) x.1.command x.2 (σ' x.1.shard)) ∧
      ∀ i ∉ executed.map (·.1.shard), σ' i = σ i := by
  induction h with
  | nil => exact ⟨nofun, fun _ _ => rfl⟩
  | @cons σ σ' part outcome after more first rest ih =>
    rw [List.map_cons, List.nodup_cons] at apart
    obtain ⟨alone, apart⟩ := apart
    obtain ⟨served, kept⟩ := ih apart
    constructor
    · intro x member
      rcases List.mem_cons.mp member with rfl | member
      · rw [kept part.shard alone, Function.update_self]
        exact first
      · have other : x.1.shard ≠ part.shard := by
          intro same
          exact alone (same ▸ List.mem_map_of_mem (f := fun x => x.1.shard) member)
        have at_x := served x member
        rwa [Function.update_of_ne other] at at_x
    · intro i outside
      rw [List.map_cons, List.mem_cons, not_or] at outside
      rw [kept i outside.2, Function.update_of_ne outside.1]

theorem Processes.each {now : Instant} {σ σ' : Workers Q} {command : Command}
    {response : Response} (h : Processes now σ command response σ') :
    ∃ parts, Plans command parts ∧ ∃ outcomes : List Outcome,
      outcomes.length = parts.length ∧ response = answer command outcomes ∧
      (∀ x ∈ parts.zip outcomes, Serves now (σ x.1.shard) x.1.command x.2 (σ' x.1.shard)) ∧
      ∀ i ∉ parts.map Part.shard, σ' i = σ i := by
  obtain ⟨parts, plan, outcomes, lengths, answered, executed, order, executes⟩ := h.parts
  have shards : (parts.zip outcomes).map (·.1.shard) = parts.map Part.shard := by
    rw [← Function.comp_def Part.shard Prod.fst, ← List.map_map,
      List.map_fst_zip (Nat.le_of_eq lengths.symm)]
  have listed := order.map (·.1.shard)
  rw [shards] at listed
  obtain ⟨served, kept⟩ := executes.each (listed.nodup_iff.mpr plan.shards_nodup)
  refine ⟨parts, plan, outcomes, lengths, answered, ?_, ?_⟩
  · intro x member
    exact served x (order.mem_iff.mpr member)
  · intro i outside
    exact kept i fun inside => outside (listed.mem_iff.mp inside)

/-- A worker's shard is left alone, or serves the one part that is its own. -/
theorem Processes.at {now : Instant} {σ σ' : Workers Q} {command : Command}
    {response : Response} (h : Processes now σ command response σ') (i : Fin shardCount) :
    σ' i = σ i ∨ ∃ parts, Plans command parts ∧ ∃ part ∈ parts, part.shard = i ∧
      ∃ outcome, Serves now (σ i) part.command outcome (σ' i) := by
  obtain ⟨parts, plan, outcomes, lengths, _, served, kept⟩ := h.each
  by_cases inside : i ∈ parts.map Part.shard
  · obtain ⟨part, member, rfl⟩ := List.mem_map.mp inside
    have paired := member
    rw [← List.map_fst_zip (Nat.le_of_eq lengths.symm)] at paired
    obtain ⟨x, there, rfl⟩ := List.mem_map.mp paired
    exact .inr ⟨parts, plan, x.1, member, rfl, x.2, served x there⟩
  · exact .inl (kept i inside)

/-- The shard is one that runs reach, and all its keys are routed to it. -/
structure Housed (i : Fin shardCount) (s : Shard Q) : Prop where
  reached : ∃ past, Shard.Run Q past s
  routed : ∀ key ∈ s.data, keySlot key = i

theorem Serves.housed {now : Instant} {i : Fin shardCount} {w w' : Option (Shard Q)}
    {command : Command} {outcome : Outcome} (h : Serves now w command outcome w')
    (here : ∀ key ∈ command.keys, keySlot key = i) (before : ∀ s ∈ w, Housed i s) :
    ∀ s ∈ w', Housed i s := by
  cases h with
  | panicked panics => exact nofun
  | closed => exact nofun
  | dropped => exact nofun
  | @replied s s' _ response executed =>
    intro x found
    cases found
    obtain ⟨⟨past, run⟩, routed⟩ := before s rfl
    have stepped : (Shard.runs Q).step s ⟨now, .command command response⟩ s' := executed
    refine ⟨⟨_, run.step stepped⟩, ?_⟩
    intro key stored
    by_cases named : key ∈ command.keys
    · exact here key named
    · exact routed key (Shard.stored_before executed (keyOp_idle named _ _) stored)

theorem housed_run {past : List (Workers Q × Event)} {σ : Workers Q}
    (run : (sharded Q).Run past σ) : ∀ i, ∀ s ∈ σ i, Housed i s := by
  refine System.Run.invariant (fun σ => ∀ i, ∀ s ∈ σ i, Housed i s) ?_ ?_ run
  · rintro σ ⟨now, fresh⟩ i s stored
    rw [fresh i] at stored
    cases stored
    exact ⟨⟨[], .start ⟨_, _, rfl⟩⟩, nofun⟩
  · rintro σ e σ' ⟨command, response, _, _, processed⟩ before i
    rcases processed.at i with same | ⟨parts, plan, part, member, rfl, outcome, served⟩
    · rw [same]
      exact before i
    · exact served.housed (fun key named => (plan.keys_here member key named).2) (before _)

theorem Processes.onKey {now : Instant} {σ σ' : Workers Q} {command : Command}
    {response : Response} (h : Processes now σ command response σ') {key : Key}
    (on : command.onKey = some key) :
    (∃ outcome, Serves now (σ (keySlot key)) command outcome (σ' (keySlot key)) ∧
      response = outcome.single) ∧ ∀ i ≠ keySlot key, σ' i = σ i := by
  obtain ⟨keys, goes, answers⟩ := Command.keys_onKey on
  obtain ⟨parts, plan, outcomes, lengths, answered, served, kept⟩ := h.each
  obtain ⟨shard, rfl, here⟩ := plan.single_eq goes
  have at_key := here key (by rw [keys]; exact List.mem_singleton_self key)
  obtain ⟨outcome, rfl⟩ := List.length_eq_one_iff.mp lengths
  rw [at_key]
  constructor
  · exact ⟨outcome, served _ List.mem_cons_self, answered.trans (answers outcome)⟩
  · intro i other
    exact kept i (by simpa using other)

theorem Agrees.onKey {σ σ' : Workers Q} {s s' : Shard Q} (agrees : Agrees σ s)
    (housed : ∀ i, ∀ shard ∈ σ i, Housed i shard) {now : Instant} {command : Command}
    {key : Key} (on : command.onKey = some key) {response r : Response}
    (processed : Processes now σ command response σ')
    (executed : s.execute now command = some (s', r))
    (room : Event.reachesLimit ⟨now, .command command response⟩ = false)
    (room_one : Event.reachesLimit ⟨now, .command command r⟩ = false) :
    r = response ∧ Agrees σ' s' := by
  obtain ⟨⟨outcome, served, answered⟩, kept⟩ := processed.onKey on
  obtain ⟨shard, found⟩ := Option.isSome_iff_exists.mp (agrees.alive (keySlot key))
  have same := agrees.same key shard found
  obtain ⟨effect_one, frame_one⟩ := Shard.execute_effect executed on room_one
  rw [found] at served
  generalize left : σ' (keySlot key) = w at served
  cases served with
  | panicked panics =>
    obtain ⟨⟨past, run⟩, _⟩ := housed _ shard found
    obtain ⟨leaked, accounted, _⟩ := Shard.accounted_run run
    obtain ⟨after, answer, returns⟩ : ∃ after answer,
        shard.execute now command = some (after, answer) := by
      apply Shard.execute_isSome_of_effect accounted on
      rw [same, effect_one]
      rfl
    rw [panics] at returns
    cases returns
  | @replied _ after _ answer returns =>
    cases answered
    obtain ⟨effect, frame⟩ := Shard.execute_effect returns on room
    rw [same, effect_one] at effect
    obtain ⟨entries, responses⟩ := Prod.mk.inj (Option.some.inj effect)
    refine ⟨responses, ?_, ?_⟩
    · intro i
      by_cases at_key : i = keySlot key
      · rw [at_key, left]
        rfl
      · rw [kept i at_key]
        exact agrees.alive i
    · intro k x stored
      by_cases at_key : keySlot k = keySlot key
      · rw [at_key, left] at stored
        cases stored
        by_cases named : k = key
        · rw [named, entries]
        · rw [frame k named, frame_one k named]
          exact agrees.same k shard (by rw [at_key]; exact found)
      · rw [kept _ at_key] at stored
        have other : k ≠ key := fun named => at_key (congrArg keySlot named)
        rw [frame_one k other]
        exact agrees.same k x stored

theorem Serves.del {now : Instant} {s : Shard Q} {keys : List Key} {outcome : Outcome}
    {w : Option (Shard Q)} (h : Serves now (some s) (.del keys) outcome w) :
    outcome = .replied (.integer (Int64.ofNat (keys.toFinset ∩ KeyedMap.domain s.data).card)) ∧
      ∃ after, w = some after ∧
        ∀ k, after.data.lookup k = if k ∈ keys then none else s.data.lookup k := by
  cases h with
  | panicked panics => cases panics
  | replied executed =>
    cases executed
    refine ⟨?_, _, rfl, Shard.lookup_delKeys s keys 0⟩
    rw [Shard.delKeys_removed, Int64.zero_add]

/-- Each part of a DEL answers what one shard stores of its keys, and removes them. -/
theorem Agrees.del_parts {σ σ' : Workers Q} {s : Shard Q} (agrees : Agrees σ s) {now : Instant}
    {keys : List Key} {parts : List Part} (plan : Plans (.del keys) parts)
    {outcomes : List Outcome} (served : ∀ x ∈ parts.zip outcomes,
      Serves now (σ x.1.shard) x.1.command x.2 (σ' x.1.shard)) :
    ∀ x ∈ parts.zip outcomes, x.2 = .replied (.integer (Int64.ofNat
      ((keys.toFinset ∩ KeyedMap.domain s.data).filter (keySlot · = x.1.shard)).card)) ∧
      ∃ after, σ' x.1.shard = some after ∧ ∀ k, keySlot k = x.1.shard →
        after.data.lookup k = if k ∈ keys then none else s.data.lookup k := by
  intro x member
  have at_x := served x member
  obtain ⟨shard, found⟩ := Option.isSome_iff_exists.mp (agrees.alive x.1.shard)
  rw [found, (plan.del_part (List.of_mem_zip member).1).1] at at_x
  obtain ⟨outcome, after, stored, lookups⟩ := at_x.del
  rw [agrees.part keys found] at outcome
  refine ⟨outcome, after, stored, ?_⟩
  intro k here
  rw [lookups, agrees.same k shard (by rw [here]; exact found)]
  simp [here]

omit [MaxQueue Q Expiry] in
theorem answer_del {s : Shard Q} {keys : List Key} {parts : List Part}
    (plan : Plans (.del keys) parts) {outcomes : List Outcome}
    (lengths : outcomes.length = parts.length)
    (each : ∀ x ∈ parts.zip outcomes, x.2 = .replied (.integer (Int64.ofNat
      ((keys.toFinset ∩ KeyedMap.domain s.data).filter (keySlot · = x.1.shard)).card))) :
    answer (.del keys) outcomes = (s.cmdDel keys).2 := by
  have listed : outcomes = parts.map fun part => .replied (.integer (Int64.ofNat
      ((keys.toFinset ∩ KeyedMap.domain s.data).filter (keySlot · = part.shard)).card)) := by
    rw [← List.map_snd_zip (Nat.le_of_eq lengths)]
    conv_rhs => rw [← List.map_fst_zip (Nat.le_of_eq lengths.symm), List.map_map]
    exact List.map_congr_left each
  have counts : outcomes.map Outcome.part = (parts.map fun part =>
      ((keys.toFinset ∩ KeyedMap.domain s.data).filter (keySlot · = part.shard)).card).map
        fun n => .integer (Int64.ofNat n) := by
    rw [listed, List.map_map, List.map_map]
    rfl
  simp only [answer, counts, joinDel_integers, sum_parts plan, Shard.cmdDel,
    Shard.delKeys_removed, Int64.zero_add]

theorem Agrees.del {σ σ' : Workers Q} {s : Shard Q} (agrees : Agrees σ s) {now : Instant}
    {keys : List Key} {response : Response} (processed : Processes now σ (.del keys) response σ') :
    response = (s.cmdDel keys).2 ∧ Agrees σ' (s.cmdDel keys).1 := by
  obtain ⟨parts, plan, outcomes, lengths, answered, served, kept⟩ := processed.each
  have each := agrees.del_parts plan served
  have lookups : ∀ k, (s.cmdDel keys).1.data.lookup k =
      if k ∈ keys then none else s.data.lookup k := Shard.lookup_delKeys s keys 0
  have inside : ∀ i ∈ parts.map Part.shard, ∃ after, σ' i = some after ∧ ∀ k, keySlot k = i →
      after.data.lookup k = if k ∈ keys then none else s.data.lookup k := by
    intro i member
    rw [← List.map_fst_zip (Nat.le_of_eq lengths.symm), List.map_map] at member
    obtain ⟨x, there, rfl⟩ := List.mem_map.mp member
    exact (each x there).2
  refine ⟨answered.trans (answer_del plan lengths fun x member => (each x member).1), ?_, ?_⟩
  · intro i
    by_cases member : i ∈ parts.map Part.shard
    · obtain ⟨after, stored, _⟩ := inside i member
      rw [stored]
      rfl
    · rw [kept i member]
      exact agrees.alive i
  · intro k x stored
    rw [lookups]
    by_cases member : keySlot k ∈ parts.map Part.shard
    · obtain ⟨after, stored', at_k⟩ := inside _ member
      rw [stored] at stored'
      cases stored'
      exact at_k k rfl
    · have unnamed : k ∉ keys := by
        intro named
        obtain ⟨part, there, at_slot⟩ := plan.del_covers named
        exact member (at_slot ▸ List.mem_map_of_mem there)
      rw [if_neg unnamed]
      rw [kept _ member] at stored
      exact agrees.same k x stored

theorem Agrees.returns {σ σ' : Workers Q} {past : List (Shard Q × Event)} {s : Shard Q}
    (agrees : Agrees σ s) (run : Shard.Run Q past s) {now : Instant} {command : Command}
    (keyed : command.isKeyed = true) {response : Response}
    (processed : Processes now σ command response σ') (alive : ∀ i, (σ' i).isSome = true)
    (room : Event.reachesLimit ⟨now, .command command response⟩ = false) :
    ∃ s' r, s.execute now command = some (s', r) := by
  rcases Command.keyed_cases keyed with ⟨key, on⟩ | ⟨keys, rfl⟩
  · obtain ⟨⟨outcome, served, answered⟩, _⟩ := processed.onKey on
    obtain ⟨shard, found⟩ := Option.isSome_iff_exists.mp (agrees.alive (keySlot key))
    obtain ⟨after, left⟩ := Option.isSome_iff_exists.mp (alive (keySlot key))
    rw [found, left] at served
    cases served with
    | replied returns =>
      cases answered
      obtain ⟨effect, _⟩ := Shard.execute_effect returns on room
      obtain ⟨leaked, accounted, _⟩ := Shard.accounted_run run
      apply Shard.execute_isSome_of_effect accounted on
      rw [← agrees.same key shard found, effect]
      rfl
  · exact ⟨_, _, rfl⟩

theorem Agrees.step {σ σ' : Workers Q} {s s' : Shard Q} (agrees : Agrees σ s)
    (housed : ∀ i, ∀ shard ∈ σ i, Housed i shard) {now : Instant} {command : Command}
    (keyed : command.isKeyed = true) {response r : Response}
    (processed : Processes now σ command response σ')
    (executed : s.execute now command = some (s', r))
    (room : Event.reachesLimit ⟨now, .command command response⟩ = false)
    (room_one : Event.reachesLimit ⟨now, .command command r⟩ = false) :
    r = response ∧ Agrees σ' s' := by
  rcases Command.keyed_cases keyed with ⟨key, on⟩ | ⟨keys, rfl⟩
  · exact agrees.onKey housed on processed executed room room_one
  · obtain ⟨answered, after⟩ := agrees.del processed
    obtain ⟨next, dispatched, rfl⟩ := Shard.execute_cases executed
    cases dispatched
    exact ⟨answered.symm, after.alive, after.same⟩

theorem agrees_new {σ : Workers Q} (start : (sharded Q).start σ) (id : ShardId) (now : Instant) :
    Agrees σ (Shard.new id now) := by
  obtain ⟨each, fresh⟩ := start
  constructor
  · intro i
    rw [fresh i]
    rfl
  · intro key shard found
    rw [fresh (keySlot key)] at found
    cases found
    rfl

theorem alive_before {σ σ' : Workers Q} {e : Event}
    (step : (sharded Q).step σ e σ') (alive : ∀ i, (σ' i).isSome = true) :
    ∀ i, (σ i).isSome = true := by
  intro i
  obtain ⟨command, response, _, _, processed⟩ := step
  have after := alive i
  rcases processed.at i with same | ⟨parts, plan, part, member, here, outcome, served⟩
  · rwa [same] at after
  · generalize σ i = w at served
    generalize σ' i = w' at served after
    cases served with
    | replied executed => rfl
    | panicked panics => cases after
    | closed => cases after
    | dropped => cases after

/-- The commands of a run with their clock readings, newest first. -/
def inputs {S : Type} (past : List (S × Event)) : List (Option (Instant × Command)) :=
  past.map fun x => x.2.timedCommand?

theorem same_events {past : List (Workers Q × Event)} {σ : Workers Q}
    (run : (sharded Q).Run past σ) (room : ∀ x ∈ past, x.2.reachesLimit = false)
    {one : List (Shard Q × Event)} {s : Shard Q} (run_one : Shard.Run Q one s)
    (same : inputs one = inputs past) (room_one : ∀ x ∈ one, x.2.reachesLimit = false) :
    one.map Prod.snd = past.map Prod.snd ∧ Agrees σ s := by
  induction run generalizing one s with
  | start fresh =>
    cases run_one with
    | start h =>
      obtain ⟨id, now, rfl⟩ := h
      exact ⟨rfl, agrees_new fresh id now⟩
    | step before hs => cases same
  | @step past σ σ' e before step ih =>
    cases run_one with
    | start h => cases same
    | @step one s s' e₁ before_one step_one =>
      obtain ⟨same_input, same⟩ := List.cons.inj same
      obtain ⟨room_head, room⟩ := List.forall_mem_cons.mp room
      obtain ⟨room_head_one, room_one⟩ := List.forall_mem_cons.mp room_one
      obtain ⟨events, agrees⟩ := ih room before_one same room_one
      obtain ⟨time, action⟩ := e
      obtain ⟨command, response, rfl, keyed, processed⟩ := step
      obtain ⟨time₁, action₁⟩ := e₁
      cases action₁ with
      | sweep => cases same_input
      | command command₁ r =>
        cases same_input
        obtain ⟨rfl, after⟩ := agrees.step (housed_run before) keyed processed step_one room_head
          room_head_one
        exact ⟨by rw [List.map_cons, List.map_cons, events], after⟩

/-- As long as no worker panics, one shard runs on the same commands, up to its limits. -/
theorem run_exists {past : List (Workers Q × Event)} {σ : Workers Q}
    (run : (sharded Q).Run past σ) (room : ∀ x ∈ past, x.2.reachesLimit = false)
    (alive : ∀ i, (σ i).isSome = true) :
    ∃ one s, Shard.Run Q one s ∧ inputs one <:+ inputs past ∧
      (inputs one = inputs past ∨ ∃ x ∈ one, x.2.reachesLimit = true) := by
  induction run with
  | start fresh => exact ⟨[], _, .start ⟨⟨0⟩, .ofSecs 0, rfl⟩, List.suffix_refl _, .inl rfl⟩
  | @step past σ σ' e before step ih =>
    obtain ⟨room_head, room⟩ := List.forall_mem_cons.mp room
    obtain ⟨one, s, run_one, part, whole | full⟩ := ih room (alive_before step alive)
    · by_cases room_one : ∀ x ∈ one, x.2.reachesLimit = false
      · obtain ⟨_, agrees⟩ := same_events before room run_one whole room_one
        obtain ⟨time, action⟩ := e
        obtain ⟨command, response, rfl, keyed, processed⟩ := step
        obtain ⟨s', r, executed⟩ := agrees.returns run_one keyed processed alive room_head
        have step_one : (Shard.runs Q).step s ⟨time, .command command r⟩ s' := executed
        have grown : inputs ((s, ⟨time, .command command r⟩) :: one) =
            inputs ((σ, ⟨time, .command command response⟩) :: past) :=
          congrArg (List.cons (some (time, command))) whole
        exact ⟨_, s', run_one.step step_one, grown ▸ List.suffix_refl _, .inl grown⟩
      · push Not at room_one
        obtain ⟨x, member, full⟩ := room_one
        exact ⟨one, s, run_one, part.trans (List.suffix_cons _ _),
          .inr ⟨x, member, by simpa using full⟩⟩
    · exact ⟨one, s, run_one, part.trans (List.suffix_cons _ _), .inr full⟩

/-- Sixty-four shards answer as one, and store each key where it is routed. The single
shard takes the same commands, unless one would pass its limits. -/
theorem sharding_transparent {past : List (Workers Q × Event)} {σ : Workers Q}
    (run : (sharded Q).Run past σ) (room : ∀ x ∈ past, x.2.reachesLimit = false) :
    (∀ i, ∀ shard ∈ σ i, ∀ key ∈ shard.data, keySlot key = i) ∧
    (∀ one s, Shard.Run Q one s → inputs one = inputs past →
      (∀ x ∈ one, x.2.reachesLimit = false) →
        responses (one.map Prod.snd) = responses (past.map Prod.snd) ∧
          ∀ i, (σ i).isSome = true) ∧
    ((∀ i, (σ i).isSome = true) →
      ∃ one s, Shard.Run Q one s ∧ inputs one <:+ inputs past ∧
        (inputs one = inputs past ∨ ∃ x ∈ one, x.2.reachesLimit = true)) := by
  refine ⟨fun i shard found => (housed_run run i shard found).routed, ?_, run_exists run room⟩
  intro one s run_one same room_one
  obtain ⟨events, agrees⟩ := same_events run room run_one same room_one
  exact ⟨by rw [events], agrees.alive⟩

end

/- A DEL that names two keys of different shards, one of them twice and the other not stored. -/
def delAcross : List Event :=
  [⟨.ofSecs 2, .command (.del [utf8 "a", utf8 "b", utf8 "a"]) (.integer 1)⟩,
   ⟨.ofSecs 1, .command (.set (utf8 "a") (.string (utf8 "v")) none) .ok⟩]

def slotA : Fin shardCount := (7 : Fin 64)

def slotB : Fin shardCount := (36 : Fin 64)

def partsAcross : List Part := [⟨slotA, .del [utf8 "a", utf8 "a"]⟩, ⟨slotB, .del [utf8 "b"]⟩]

theorem plans_across : Plans (.del [utf8 "a", utf8 "b", utf8 "a"]) partsAcross :=
  .del ⟨_, .refl _⟩ (by decide +kernel)

theorem sharding_transparent_del : ∃ past σ one s,
    (@sharded (SortedQueue Expiry) _ linux64).Run past σ ∧ past.map Prod.snd = delAcross ∧
    @Shard.Run (SortedQueue Expiry) _ linux64 one s ∧ one.map Prod.snd = delAcross ∧
    responses (one.map Prod.snd) = responses (past.map Prod.snd) := by
  let _ := linux64
  let σ : Workers (SortedQueue Expiry) := fun i => some (.new ⟨UInt16.ofNat i⟩ (.ofSecs 0))
  let held : Shard (SortedQueue Expiry) :=
    ((Shard.new ⟨7⟩ (.ofSecs 0)).store (utf8 "a") (.string (utf8 "v")) none).recorded
  have at_a : slot (routeKey (utf8 "a")) = some slotA := by decide +kernel
  have first : Processes (.ofSecs 1) σ (.set (utf8 "a") (.string (utf8 "v")) none) .ok
      (Function.update σ slotA (some held)) :=
    ⟨[⟨slotA, _⟩], .single rfl at_a, [.replied .ok], rfl, rfl, _, .refl _,
      .cons (.replied rfl) .nil⟩
  have emptied : held.execute (.ofSecs 2) (.del [utf8 "a", utf8 "a"]) =
      some ((held.cmdDel [utf8 "a", utf8 "a"]).1.recorded, .integer 1) := by
    have counted : (held.cmdDel [utf8 "a", utf8 "a"]).2 = .integer 1 := by decide
    rw [← counted]
    rfl
  have second : ∃ σ', Processes (.ofSecs 2) (Function.update σ slotA (some held))
      (.del [utf8 "a", utf8 "b", utf8 "a"]) (.integer 1) σ' :=
    ⟨_, partsAcross, plans_across, [.replied (.integer 1), .replied (.integer 0)], rfl, rfl, _,
      .swap _ _ _, .cons (.replied (s := .new ⟨36⟩ (.ofSecs 0)) rfl)
        (.cons (.replied (s := held) emptied) .nil)⟩
  obtain ⟨σ', second⟩ := second
  have run : (sharded (SortedQueue Expiry)).Run [] σ := .start ⟨fun _ => .ofSecs 0, fun _ => rfl⟩
  have run := run.step (l := ⟨.ofSecs 1, .command _ _⟩) ⟨_, _, rfl, rfl, first⟩
  have run := run.step (l := ⟨.ofSecs 2, .command _ _⟩) ⟨_, _, rfl, rfl, second⟩
  obtain ⟨one, s, run_one, same, _⟩ :=
    Shard.replay_run (SortedQueue Expiry) ⟨0⟩ (.ofSecs 0) delAcross (by decide)
  have room : ∀ e ∈ delAcross, e.reachesLimit = false := by decide
  refine ⟨_, σ', one, s, run, rfl, run_one, same, ?_⟩
  refine ((sharding_transparent run ?_).2.1 one s run_one ?_ ?_).1
  · exact fun x member => room x.2 (List.mem_map_of_mem member)
  · exact List.map_map.symm.trans (congrArg (List.map Event.timedCommand?) same)
  · exact fun x member => room x.2 (same ▸ List.mem_map_of_mem member)

end RsDragonfly
