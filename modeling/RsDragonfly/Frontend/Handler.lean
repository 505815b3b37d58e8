import RsDragonfly.Frontend.Router
import RsDragonfly.Protocol.Command

/-! `process_command`: which shards a command goes to, and what is answered.
Every call of a shard ends in an outcome; the texts for it differ between
`send_to_shard` and `process_multi_key_del`. -/
namespace RsDragonfly
open Library

inductive Outcome where
  | replied (response : Response)
  | disconnected
  | timedOut
  | closed
  | overloaded
deriving DecidableEq

/-- What `send_to_shard` returns. -/
def Outcome.single : Outcome → Response
  | .replied response => response
  | .disconnected => .error "ERR shard disconnected"
  | .timedOut => .error "ERR shard timeout"
  | .closed => .error "ERR shard channel closed"
  | .overloaded => .error "ERR shard overloaded"

/-- What one future of `process_multi_key_del` returns. -/
def Outcome.part : Outcome → Response
  | .replied response => response
  | .disconnected => .error "ERR disconnected"
  | .timedOut => .error "ERR timeout"
  | .closed => .error "ERR shard closed"
  | .overloaded => .error "ERR shard overloaded"

/-- The loop over the responses of the shards: the total and the errors. The sum on `i64` wraps, as
in a release build; a dev build panics past `i64::MAX`, which no counts of stored keys reach. -/
def tally (responses : List Response) : Int64 × List String :=
  responses.foldl (fun (total, errors) response =>
    match response with
    | .integer n => (total + n, errors)
    | .error e => (total, errors ++ [e])
    | _ => (total, errors)) (0, [])

def joinDel (responses : List Response) : Response :=
  let (totalDeleted, errors) := tally responses
  if errors = [] then .integer totalDeleted
  else .error ("ERR partial failure: " ++ ", ".intercalate errors)

def Response.errorText : Response → Option String
  | .error e => some e
  | _ => none

theorem tally_concat (responses : List Response) (last : Response) :
    tally (responses ++ [last]) =
      match last with
      | .integer n => ((tally responses).1 + n, (tally responses).2)
      | .error e => ((tally responses).1, (tally responses).2 ++ [e])
      | _ => tally responses := by
  unfold tally
  rw [List.foldl_append]
  cases last <;> rfl

theorem tally_integers (counts : List Nat) :
    tally (counts.map fun n => .integer (Int64.ofNat n)) = (Int64.ofNat counts.sum, []) := by
  induction counts using List.reverseRecOn with
  | nil => rfl
  | append_singleton counts n ih =>
    rw [List.map_append, List.map_singleton, tally_concat, ih, List.sum_append,
      List.sum_singleton, Int64.ofNat_add]

theorem tally_errors (responses : List Response) :
    (tally responses).2 = responses.filterMap Response.errorText := by
  induction responses using List.reverseRecOn with
  | nil => rfl
  | append_singleton responses last ih =>
    rw [List.filterMap_append, ← ih, tally_concat]
    cases last <;> simp [Response.errorText]

theorem joinDel_replied {outcomes : List Outcome} {n : Int64}
    (joined : joinDel (outcomes.map Outcome.part) = .integer n) :
    ∃ replies : List Response, outcomes = replies.map .replied := by
  have clean : ∀ e, .error e ∉ outcomes.map Outcome.part := by
    intro e member
    simp only [joinDel, tally_errors] at joined
    split at joined
    · rename_i none_there
      have listed : e ∈ (outcomes.map Outcome.part).filterMap Response.errorText :=
        List.mem_filterMap.mpr ⟨_, member, rfl⟩
      rw [none_there] at listed
      cases listed
    · cases joined
  clear joined
  induction outcomes with
  | nil => exact ⟨[], rfl⟩
  | cons outcome outcomes ih =>
    obtain ⟨replies, rfl⟩ := ih fun e member => clean e (List.mem_cons_of_mem _ member)
    cases outcome with
    | replied response => exact ⟨response :: replies, rfl⟩
    | _ => exact absurd List.mem_cons_self (clean _)

/-- The text of a failed DEL is none of those of `send_to_shard`. -/
theorem joinDel_text {responses : List Response} {text : String}
    (joined : joinDel responses = .error text) :
    text ≠ "ERR shard overloaded" ∧ text ≠ "ERR shard channel closed" := by
  simp only [joinDel] at joined
  split at joined
  · cases joined
  · cases joined
    constructor
    · intro same
      have letters := congrArg (fun text => text.toList[4]?) same
      simp at letters
    · intro same
      have letters := congrArg (fun text => text.toList[4]?) same
      simp at letters

theorem joinDel_integers (counts : List Nat) :
    joinDel (counts.map fun n => .integer (Int64.ofNat n)) = .integer (Int64.ofNat counts.sum) := by
  simp only [joinDel, tally_integers, if_true]

/-- What a shard is asked to do for a command. -/
structure Part where
  shard : Fin shardCount
  command : Command
deriving DecidableEq

def target : Command → Option ShardId
  | .ping _ | .info _ => some ⟨0⟩
  | .get key | .set key _ _ | .expire key _ | .ttl key => some (routeKey key)
  | .del _ => none

/-- The shards a command is sent to, and with what. The groups of a DEL come in
the order of the hash map. -/
inductive Plans : Command → List Part → Prop where
  | single {command : Command} {id : ShardId} {shard : Fin shardCount}
      (goes : target command = some id) (found : slot id = some shard) :
      Plans command [⟨shard, command⟩]
  | invalid {command : Command} {id : ShardId} (goes : target command = some id)
      (outside : slot id = none) : Plans command []
  | del {keys : List Key} (order : KeyedMap.Iteration (routeKeys keys)) {parts : List Part}
      (indexed : order.entries.map (fun group => (slot group.1, Command.del group.2)) =
        parts.map fun part => (some part.shard, part.command)) :
      Plans (.del keys) parts

def answer (command : Command) (outcomes : List Outcome) : Response :=
  match command with
  | .del _ => joinDel (outcomes.map Outcome.part)
  | _ =>
    match outcomes with
    | [outcome] => outcome.single
    | _ => .error "ERR invalid shard id"

def Command.keys : Command → List Key
  | .ping _ | .info _ => []
  | .get key | .set key _ _ | .expire key _ | .ttl key => [key]
  | .del keys => keys

theorem Command.keys_onKey {command : Command} {key : Key} (on : command.onKey = some key) :
    command.keys = [key] ∧ target command = some (routeKey key) ∧
      ∀ outcome, answer command [outcome] = outcome.single := by
  cases command with
  | ping message => cases on
  | info section_ => cases on
  | del keys => cases on
  | _ =>
    cases on
    exact ⟨rfl, rfl, fun _ => rfl⟩

theorem target_slot {command : Command} {id : ShardId} (goes : target command = some id) :
    ∃ shard, slot id = some shard ∧ ∀ key ∈ command.keys, keySlot key = shard := by
  cases command with
  | del keys => cases goes
  | ping message =>
    cases goes
    exact ⟨⟨0, by decide⟩, rfl, nofun⟩
  | info section_ =>
    cases goes
    exact ⟨⟨0, by decide⟩, rfl, nofun⟩
  | _ =>
    cases goes
    exact ⟨_, slot_routeKey _, fun key member => by rw [List.mem_singleton.mp member]⟩

theorem Plans.single_eq {command : Command} {parts : List Part} (plan : Plans command parts)
    {id : ShardId} (goes : target command = some id) :
    ∃ shard, parts = [⟨shard, command⟩] ∧ ∀ key ∈ command.keys, keySlot key = shard := by
  obtain ⟨shard, found, here⟩ := target_slot goes
  cases plan with
  | single goes' found' =>
    cases goes.symm.trans goes'
    cases found.symm.trans found'
    exact ⟨shard, rfl, here⟩
  | invalid goes' outside =>
    cases goes.symm.trans goes'
    cases found.symm.trans outside
  | del order indexed => cases goes

/-- A group is what the router gave its shard. -/
theorem group_eq {keys : List Key} (order : KeyedMap.Iteration (routeKeys keys))
    {group : Sigma fun _ : ShardId => List Key} (member : group ∈ order.entries)
    {shard : Fin shardCount} (indexed : slot group.1 = some shard) :
    group.2 = keys.filter (keySlot · = shard) ∧ group.2 ≠ [] := by
  obtain ⟨id, part⟩ := group
  have found := (KeyedMap.Iteration.mem_iff order).mp member
  rw [lookup_routeKeys] at found
  have same : keys.filter (keySlot · = shard) = keys.filter (routeKey · = id) := by
    apply List.filter_congr
    intro key _
    rw [decide_eq_decide]
    exact keySlot_eq_iff indexed
  rw [same]
  split at found
  · cases found
  · rename_i some_there
    cases found
    exact ⟨rfl, some_there⟩

theorem Plans.del_part {keys : List Key} {parts : List Part} (plan : Plans (.del keys) parts)
    {part : Part} (member : part ∈ parts) :
    part.command = .del (keys.filter (keySlot · = part.shard)) ∧
      keys.filter (keySlot · = part.shard) ≠ [] := by
  cases plan with
  | single goes found => cases goes
  | invalid goes outside => cases goes
  | del order indexed =>
    have listed : (some part.shard, part.command) ∈
        order.entries.map (fun group => (slot group.1, Command.del group.2)) := by
      rw [indexed]
      exact List.mem_map_of_mem member
    obtain ⟨group, there, same⟩ := List.mem_map.mp listed
    obtain ⟨at_slot, command⟩ := Prod.mk.inj same
    obtain ⟨keys_eq, some_there⟩ := group_eq order there at_slot
    rw [← command, ← keys_eq]
    exact ⟨rfl, some_there⟩

theorem Plans.del_covers {keys : List Key} {parts : List Part} (plan : Plans (.del keys) parts)
    {key : Key} (named : key ∈ keys) : ∃ part ∈ parts, part.shard = keySlot key := by
  cases plan with
  | single goes found => cases goes
  | invalid goes outside => cases goes
  | @del _ order parts indexed =>
    have some_there : keys.filter (routeKey · = routeKey key) ≠ [] :=
      List.ne_nil_of_mem (List.mem_filter.mpr ⟨named, by simp⟩)
    have found := lookup_routeKeys keys (routeKey key)
    rw [if_neg some_there] at found
    have there := (KeyedMap.Iteration.mem_iff order).mpr found
    have listed := List.mem_map_of_mem (f := fun group : Sigma fun _ : ShardId => List Key =>
      (slot group.1, Command.del group.2)) there
    rw [indexed] at listed
    obtain ⟨part, member, same⟩ := List.mem_map.mp listed
    refine ⟨part, member, ?_⟩
    have at_slot := (Prod.mk.inj same).1
    rw [slot_routeKey] at at_slot
    exact Option.some.inj at_slot

theorem Plans.shards_nodup {command : Command} {parts : List Part} (plan : Plans command parts) :
    (parts.map Part.shard).Nodup := by
  cases plan with
  | single goes found => exact List.nodup_singleton _
  | invalid goes outside => exact List.nodup_nil
  | @del keys order parts indexed =>
    have slots : (order.entries.map Sigma.fst).map slot = (parts.map Part.shard).map some := by
      have firsts := congrArg (List.map Prod.fst) indexed
      simpa only [List.map_map, Function.comp_def] using firsts
    have within {id : ShardId} (member : id ∈ order.entries.map Sigma.fst) :
        ∃ shard, slot id = some shard := by
      have listed := List.mem_map_of_mem (f := slot) member
      rw [slots] at listed
      obtain ⟨shard, _, same⟩ := List.mem_map.mp listed
      exact ⟨shard, same.symm⟩
    apply List.Nodup.of_map some
    rw [← slots]
    refine List.Nodup.map_on ?_ order.nodupKeys
    intro a ha b _ same
    obtain ⟨shard, found⟩ := within ha
    exact slot_injective found (same.symm.trans found)

theorem Plans.keys_here {command : Command} {parts : List Part} (plan : Plans command parts)
    {part : Part} (member : part ∈ parts) :
    ∀ key ∈ part.command.keys, key ∈ command.keys ∧ keySlot key = part.shard := by
  intro key named
  cases goes : target command with
  | some id =>
    obtain ⟨shard, rfl, here⟩ := plan.single_eq goes
    rw [List.mem_singleton.mp member] at named ⊢
    exact ⟨named, here key named⟩
  | none =>
    cases command with
    | del keys =>
      rw [(plan.del_part member).1] at named
      obtain ⟨there, here⟩ := List.mem_filter.mp named
      exact ⟨there, of_decide_eq_true here⟩
    | _ => cases goes

end RsDragonfly
