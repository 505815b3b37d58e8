import RsDragonfly.Frontend.Handler
import RsDragonfly.Library.JoinAll

/-! The two implementations of a DEL over several shards: `process_multi_key_del`
of the handler, and `multi_key.rs` with `error_handling.rs`.
Both build one future for each group of the router and join them. They read the
same two waits, for the send and for the reply, in their own ways. -/
namespace RsDragonfly
open Library

/-- How `timeout(SEND_TIMEOUT, sender.send(msg))` ends. -/
inductive Sent where
  | accepted
  | refused
  | elapsed
deriving DecidableEq

/-- How `timeout(SHARD_TIMEOUT, reply_rx)` ends. -/
inductive Received where
  | response (response : Response)
  | dropped
  | elapsed
deriving DecidableEq

/-- The call of one shard. A send that is refused drops the message, and with it the
sender that `reply_rx` waits for. -/
structure ShardCall where
  sent : Sent
  received : Received
  refused_drops : sent = .refused → received = .dropped

namespace ShardCall

def outcome (call : ShardCall) : Outcome :=
  match call.sent with
  | .refused => .closed
  | .elapsed => .overloaded
  | .accepted =>
    match call.received with
    | .response response => .replied response
    | .dropped => .disconnected
    | .elapsed => .timedOut

/-- How the executor reads it: only a send that times out is noticed. -/
def result (call : ShardCall) : Except String Int64 :=
  match call.sent with
  | .elapsed => .error "Shard overloaded (Send timeout)"
  | _ =>
    match call.received with
    | .response (.integer n) => .ok n
    | .response (.error e) => .error e
    | .dropped => .error "Shard disconnected"
    | .elapsed => .error "Shard response timeout"
    | _ => .error "Unexpected response type"

/-- The integer that the shard answered with. No answer: the call has failed. -/
def answer (call : ShardCall) : Option Int64 :=
  match call.outcome with
  | .replied (.integer n) => some n
  | _ => none

end ShardCall

/-- A future before it runs: the shard, its channel and the command for it. -/
structure Contact (Sender : Type) where
  shard : ShardId
  sender : Sender
  command : Command
deriving DecidableEq

section
variable {Sender : Type}

/-- `channels[shard_id.as_usize()]`. No result: the index is out of bounds and panics. -/
def contact (channels : List Sender) (group : Sigma fun _ : ShardId => List Key) :
    Option (Contact Sender) :=
  channels[group.1.id.toNat]?.map fun sender => ⟨group.1, sender, .del group.2⟩

def contacts (channels : List Sender) (grouped : List (Sigma fun _ : ShardId => List Key)) :
    Option (List (Contact Sender)) :=
  grouped.mapM (contact channels)

def processMultiKeyDel (join : JoinAll) (channels : List Sender) {keys : List Key}
    (order : KeyedMap.Iteration (routeKeys keys)) (calls : Contact Sender → ShardCall)
    (ready : Nat → Nat) : Option Response := do
  let futures ← contacts channels order.entries
  let responses := join.run (futures.map fun future => (calls future).outcome.part) ready
  return joinDel responses

inductive MultiKeyResult where
  | success (n : Int64)
  | partialFailure (succeeded : Int64) (failedShards : List ShardId) (errors : List String)
  | totalFailure (message : String)
deriving DecidableEq

def debugShards (ids : List ShardId) : String :=
  "[" ++ ", ".intercalate (ids.map fun id => "ShardId(" ++ toString id.id.toNat ++ ")") ++ "]"

def MultiKeyResult.toResponse : MultiKeyResult → Response
  | .success n => .integer n
  | .partialFailure succeeded failedShards errors =>
    .error ("ERR partial failure: " ++ toString succeeded.toInt ++ " succeeded, " ++
      toString failedShards.length ++ " failed on shards " ++ debugShards failedShards ++ ": " ++
      ", ".intercalate errors)
  | .totalFailure message => .error message

def shardError (id : ShardId) (e : String) : String :=
  "Shard " ++ toString id.id.toNat ++ ": " ++ e

/-- The loop over the results: the total, on `i64` of a release build as in `tally`, the shards
that failed and their errors. -/
def gather (results : List (ShardId × Except String Int64)) :
    Int64 × List ShardId × List String :=
  results.foldl (fun (total, failedShards, errors) (id, result) =>
    match result with
    | .ok n => (total + n, failedShards, errors)
    | .error e => (total, failedShards ++ [id], errors ++ [shardError id e])) (0, [], [])

theorem gather_concat (results : List (ShardId × Except String Int64)) (id : ShardId)
    (last : Except String Int64) :
    gather (results ++ [(id, last)]) =
      match last with
      | .ok n => ((gather results).1 + n, (gather results).2)
      | .error e => ((gather results).1, (gather results).2.1 ++ [id],
          (gather results).2.2 ++ [shardError id e]) := by
  unfold gather
  rw [List.foldl_append]
  cases last <;> rfl

def aggregate (results : List (ShardId × Except String Int64)) : MultiKeyResult :=
  let (totalDeleted, failedShards, errors) := gather results
  if errors = [] then .success totalDeleted
  else if totalDeleted > 0 then .partialFailure totalDeleted failedShards errors
  else .totalFailure ("; ".intercalate errors)

def executeDel (join : JoinAll) (channels : List Sender) {keys : List Key}
    (order : KeyedMap.Iteration (routeKeys keys)) (calls : Contact Sender → ShardCall)
    (ready : Nat → Nat) : Option MultiKeyResult :=
  if KeyedMap.size (routeKeys keys) = 0 then some (.success 0)
  else do
    let futures ← contacts channels order.entries
    let results := join.run (futures.map fun future => (future.shard, (calls future).result)) ready
    return aggregate results

theorem mapM_filterMap {α β : Type} {f : α → Option β} {xs : List α}
    (total : ∀ a ∈ xs, ∃ b, f a = some b) : xs.mapM f = some (xs.filterMap f) := by
  induction xs with
  | nil => rfl
  | cons a xs ih =>
    obtain ⟨b, found⟩ := total a List.mem_cons_self
    rw [List.mapM_cons, found, ih fun x member => total x (List.mem_cons_of_mem _ member),
      List.filterMap_cons_some found]
    rfl

theorem map_filterMap_total {α β γ : Type} {f : α → Option β} {g : β → γ} {h : α → γ}
    {xs : List α} (total : ∀ a ∈ xs, ∃ b, f a = some b ∧ g b = h a) :
    (xs.filterMap f).map g = xs.map h := by
  induction xs with
  | nil => rfl
  | cons a xs ih =>
    obtain ⟨b, found, same⟩ := total a List.mem_cons_self
    rw [List.filterMap_cons_some found, List.map_cons, List.map_cons, same,
      ih fun x member => total x (List.mem_cons_of_mem _ member)]

theorem group_lt {keys : List Key} (order : KeyedMap.Iteration (routeKeys keys))
    {group : Sigma fun _ : ShardId => List Key} (member : group ∈ order.entries) :
    group.1.id.toNat < shardCount :=
  routeKeys_lt (KeyedMap.contains_iff.mpr ⟨group.2, order.mem_iff.mp member⟩)

theorem contact_some {channels : List Sender} (full : channels.length = shardCount)
    {keys : List Key} (order : KeyedMap.Iteration (routeKeys keys))
    {group : Sigma fun _ : ShardId => List Key} (member : group ∈ order.entries) :
    ∃ sender, contact channels group = some ⟨group.1, sender, .del group.2⟩ := by
  have inside : group.1.id.toNat < channels.length := full ▸ group_lt order member
  refine ⟨channels[group.1.id.toNat], ?_⟩
  rw [contact, List.getElem?_eq_getElem inside]
  rfl

theorem contacts_eq {channels : List Sender} (full : channels.length = shardCount)
    {keys : List Key} (order : KeyedMap.Iteration (routeKeys keys)) :
    contacts channels order.entries = some (order.entries.filterMap (contact channels)) :=
  mapM_filterMap fun _ member => (contact_some full order member).imp' _ fun _ found => found

theorem processMultiKeyDel_eq (join : JoinAll) {channels : List Sender} {keys : List Key}
    {order : KeyedMap.Iteration (routeKeys keys)} {futures : List (Contact Sender)}
    (built : contacts channels order.entries = some futures) (calls : Contact Sender → ShardCall)
    (ready : Nat → Nat) : processMultiKeyDel join channels order calls ready =
      some (joinDel (futures.map fun future => (calls future).outcome.part)) := by
  rw [processMultiKeyDel, built]
  exact congrArg (fun replies => some (joinDel replies)) (join.in_order _ ready)

/-- The futures are the parts that the handler plans, and their outcomes give its answer. -/
theorem processMultiKeyDel_answer (join : JoinAll) {channels : List Sender}
    (full : channels.length = shardCount) {keys : List Key}
    (order : KeyedMap.Iteration (routeKeys keys)) (calls : Contact Sender → ShardCall)
    (ready : Nat → Nat) :
    ∃ futures parts, contacts channels order.entries = some futures ∧ Plans (.del keys) parts ∧
      futures.map (fun future => (slot future.shard, future.command)) =
        parts.map (fun part => (some part.shard, part.command)) ∧
      processMultiKeyDel join channels order calls ready =
        some (answer (.del keys) (futures.map fun future => (calls future).outcome)) := by
  have built := contacts_eq full order
  have futures_eq : (order.entries.filterMap (contact channels)).map
      (fun future => (slot future.shard, future.command)) =
        order.entries.map fun group => (slot group.1, .del group.2) := by
    apply map_filterMap_total
    intro group member
    obtain ⟨sender, found⟩ := contact_some full order member
    exact ⟨_, found, rfl⟩
  have parts_eq : (order.entries.filterMap fun group =>
      (slot group.1).map fun shard => Part.mk shard (.del group.2)).map
        (fun part => (some part.shard, part.command)) =
      order.entries.map fun group => (slot group.1, .del group.2) := by
    apply map_filterMap_total
    intro group member
    have found : slot group.1 = some ⟨_, group_lt order member⟩ := dif_pos (group_lt order member)
    rw [found]
    exact ⟨_, rfl, rfl⟩
  refine ⟨_, _, built, .del order parts_eq.symm, futures_eq.trans parts_eq.symm, ?_⟩
  rw [processMultiKeyDel_eq join built, answer, List.map_map]
  rfl

theorem executeDel_eq (join : JoinAll) {channels : List Sender} {keys : List Key}
    {order : KeyedMap.Iteration (routeKeys keys)} {futures : List (Contact Sender)}
    (built : contacts channels order.entries = some futures) (calls : Contact Sender → ShardCall)
    (ready : Nat → Nat) : executeDel join channels order calls ready =
      some (aggregate (futures.map fun future => (future.shard, (calls future).result))) := by
  unfold executeDel
  split
  · rename_i empty
    have none_there : order.entries = [] :=
      List.eq_nil_of_length_eq_zero (order.perm.length_eq.trans empty)
    rw [none_there] at built
    cases built
    rfl
  · rw [built]
    exact congrArg (fun results => some (aggregate results)) (join.in_order _ ready)

/-- The router splits the keys of a DEL into one group for each shard that has some, and no
group is out of the range of the channels, in either implementation. -/
theorem routeKeys_partition (join : JoinAll) (channels : List Sender)
    (full : channels.length = shardCount) (keys : List Key) :
    (∀ id, id ∈ routeKeys keys ↔ ∃ key ∈ keys, routeKey key = id) ∧
      (∀ id group, (routeKeys keys).lookup id = some group →
        group = keys.filter (routeKey · = id)) ∧
      (∀ order : KeyedMap.Iteration (routeKeys keys), (order.entries.map Sigma.fst).Nodup ∧
        (order.entries.flatMap Sigma.snd).Perm keys) ∧
      (∀ id ∈ routeKeys keys, id.id.toNat < shardCount) ∧
      ∀ (order : KeyedMap.Iteration (routeKeys keys)) (calls : Contact Sender → ShardCall)
        (ready : Nat → Nat),
        (processMultiKeyDel join channels order calls ready).isSome = true ∧
          (executeDel join channels order calls ready).isSome = true := by
  refine ⟨fun _ => mem_routeKeys, fun _ _ => group_of_lookup,
    fun order => ⟨order.nodupKeys, groups_perm order⟩, fun _ => routeKeys_lt, ?_⟩
  intro order calls ready
  have built := contacts_eq full order
  rw [processMultiKeyDel_eq join built, executeDel_eq join built]
  exact ⟨rfl, rfl⟩

end

theorem routeKeys_partition_repeated :
    let keys := [utf8 "a", utf8 "b", utf8 "a"]
    let channels := List.replicate shardCount ()
    (∀ id, id ∈ routeKeys keys ↔ ∃ key ∈ keys, routeKey key = id) ∧
      (∀ id group, (routeKeys keys).lookup id = some group →
        group = keys.filter (routeKey · = id)) ∧
      (∀ order : KeyedMap.Iteration (routeKeys keys), (order.entries.map Sigma.fst).Nodup ∧
        (order.entries.flatMap Sigma.snd).Perm keys) ∧
      (∀ id ∈ routeKeys keys, id.id.toNat < shardCount) ∧
      ∀ (order : KeyedMap.Iteration (routeKeys keys)) (calls : Contact Unit → ShardCall)
        (ready : Nat → Nat),
        (processMultiKeyDel .places channels order calls ready).isSome = true ∧
          (executeDel .places channels order calls ready).isSome = true :=
  routeKeys_partition .places _ List.length_replicate _

end RsDragonfly
