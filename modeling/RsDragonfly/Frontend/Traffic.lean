import RsDragonfly.Frontend.Handler
import RsDragonfly.Library.Channel
import RsDragonfly.Shard.History

/-! Connections and shard workers, step by step.
Each connection processes its commands one at a time, and waits for the parts of
a command together. A step is one thing that one party does, so a run is any
interleaving. Timeouts may fire at any moment.
The snapshot tick of a worker is left out: one that returns changes no shard and no
reply, and one in which `serialize_shard` panics ends the worker as `stop` does. -/
namespace RsDragonfly
open Library

def commandChannelCapacity : Nat := 1024

/-- A command of a connection, by the order in which the connection issued it. -/
structure Ticket (ι : Type) where
  client : ι
  number : Nat
deriving DecidableEq

/-- The reply sender is known by the command it is for: each part of a command goes
to a shard of its own, so a shard sees a ticket once. -/
structure CommandMessage (ι : Type) where
  command : Command
  replyTx : Ticket ι

inductive Oneshot where
  | empty
  | sent (response : Response)
  | dropped

inductive Phase where
  | sending
  | awaiting
  | done (outcome : Outcome)

structure Task where
  number : Nat
  command : Command
  parts : List Part
  phases : Fin shardCount → Phase

structure Client where
  issued : Nat
  task : Option Task

inductive WorkerState (ι Q : Type) where
  | waiting (shard : Shard Q)
  | executing (shard : Shard Q) (message : CommandMessage ι)
  | ended

structure Node (ι Q : Type) where
  channel : Channel (CommandMessage ι)
  worker : WorkerState ι Q
  replies : Ticket ι → Oneshot

structure Traffic (ι Q : Type) where
  clients : ι → Client
  nodes : Fin shardCount → Node ι Q

inductive Act (ι : Type) where
  | issue (ticket : Ticket ι) (command : Command) (parts : List Part)
  | send (ticket : Ticket ι) (part : Part)
  | done (ticket : Ticket ι) (shard : Fin shardCount) (outcome : Outcome)
  | answer (ticket : Ticket ι) (command : Command) (response : Response)
  | receive (shard : Fin shardCount)
  | execute (shard : Fin shardCount) (now : Instant) (message : CommandMessage ι)
      (response : Response)
  | panic (shard : Fin shardCount) (now : Instant) (message : CommandMessage ι)
  | stop (shard : Fin shardCount)
  | tick (shard : Fin shardCount) (now : Instant)

def Task.setPhase (task : Task) (i : Fin shardCount) (phase : Phase) : Task :=
  { task with phases := Function.update task.phases i phase }

@[simp] theorem Task.phases_setPhase (task : Task) (i j : Fin shardCount) (phase : Phase) :
    (task.setPhase i phase).phases j = if j = i then phase else task.phases j :=
  Function.update_apply task.phases i phase j

def Client.issue (client : Client) (command : Command) (parts : List Part) : Client :=
  ⟨client.issued + 1, some ⟨client.issued, command, parts, fun _ => .sending⟩⟩

def Client.answered (client : Client) : Client := { client with task := none }

section
variable {ι Q : Type}

def WorkerState.current : WorkerState ι Q → List (CommandMessage ι)
  | .executing _ message => [message]
  | _ => []

/-- Accepted and not yet executed, newest first. -/
def Node.pending (node : Node ι Q) : List (CommandMessage ι) :=
  node.channel.queue.reverse ++ node.worker.current

/-- The worker is gone. Its channel and the reply senders it held are dropped. -/
def Node.ended (node : Node ι Q) : Node ι Q where
  channel := node.channel.abandon
  worker := .ended
  replies ticket :=
    match node.replies ticket with
    | .empty => .dropped
    | reply => reply

/-- How the call of a shard ends, from the phase it is in. -/
inductive Node.Ends (node : Node ι Q) (ticket : Ticket ι) : Phase → Outcome → Prop where
  | overloaded : Ends node ticket .sending .overloaded
  | closed (gone : node.channel.receiving = false) : Ends node ticket .sending .closed
  | replied {response : Response} (sent : node.replies ticket = .sent response) :
      Ends node ticket .awaiting (.replied response)
  | disconnected (dropped : node.replies ticket = .dropped) :
      Ends node ticket .awaiting .disconnected
  | timedOut : Ends node ticket .awaiting .timedOut

variable [DecidableEq ι]

/-- `reply_tx.send(response)`. -/
def Node.reply (node : Node ι Q) (shard : Shard Q) (ticket : Ticket ι) (response : Response) :
    Node ι Q :=
  { node with
    worker := .waiting shard
    replies := Function.update node.replies ticket (.sent response) }

@[simp] theorem Node.replies_reply (node : Node ι Q) (shard : Shard Q) (ticket other : Ticket ι)
    (response : Response) : (node.reply shard ticket response).replies other =
      if other = ticket then .sent response else node.replies other :=
  Function.update_apply node.replies ticket (.sent response) other

def Traffic.setClient (σ : Traffic ι Q) (c : ι) (client : Client) : Traffic ι Q :=
  { σ with clients := Function.update σ.clients c client }

def Traffic.setNode (σ : Traffic ι Q) (i : Fin shardCount) (node : Node ι Q) : Traffic ι Q :=
  { σ with nodes := Function.update σ.nodes i node }

def Traffic.setPhase (σ : Traffic ι Q) (c : ι) (task : Task) (i : Fin shardCount) (phase : Phase) :
    Traffic ι Q :=
  σ.setClient c { σ.clients c with task := some (task.setPhase i phase) }

@[simp] theorem Traffic.clients_setClient (σ : Traffic ι Q) (c d : ι) (client : Client) :
    (σ.setClient c client).clients d = if d = c then client else σ.clients d :=
  Function.update_apply σ.clients c client d

@[simp] theorem Traffic.clients_setPhase (σ : Traffic ι Q) (c d : ι) (task : Task)
    (i : Fin shardCount) (phase : Phase) : (σ.setPhase c task i phase).clients d =
      if d = c then { σ.clients c with task := some (task.setPhase i phase) } else σ.clients d :=
  Traffic.clients_setClient σ c d _

@[simp] theorem Traffic.nodes_setClient (σ : Traffic ι Q) (c : ι) (client : Client) :
    (σ.setClient c client).nodes = σ.nodes := rfl

@[simp] theorem Traffic.nodes_setPhase (σ : Traffic ι Q) (c : ι) (task : Task)
    (i : Fin shardCount) (phase : Phase) : (σ.setPhase c task i phase).nodes = σ.nodes := rfl

omit [DecidableEq ι] in
@[simp] theorem Traffic.clients_setNode (σ : Traffic ι Q) (i : Fin shardCount) (node : Node ι Q) :
    (σ.setNode i node).clients = σ.clients := rfl

omit [DecidableEq ι] in
@[simp] theorem Traffic.nodes_setNode (σ : Traffic ι Q) (i j : Fin shardCount) (node : Node ι Q) :
    (σ.setNode i node).nodes j = if j = i then node else σ.nodes j :=
  Function.update_apply σ.nodes i node j

variable [MaxQueue Q Expiry] [Layout]

/-- One pass of the loop of `run_shard_worker`, cut where it takes a message. -/
inductive Node.Works (i : Fin shardCount) (node : Node ι Q) : Act ι → Node ι Q → Prop where
  | receive {shard : Shard Q} {message : CommandMessage ι} {channel : Channel (CommandMessage ι)}
      (waiting : node.worker = .waiting shard)
      (received : node.channel.recv = some (some message, channel)) :
      Works i node (.receive i) { node with channel, worker := .executing shard message }
  | execute {shard shard' : Shard Q} {message : CommandMessage ι} {now : Instant}
      {response : Response} (executing : node.worker = .executing shard message)
      (executed : shard.execute now message.command = some (shard', response)) :
      Works i node (.execute i now message response) (node.reply shard' message.replyTx response)
  | panic {shard : Shard Q} {message : CommandMessage ι} {now : Instant}
      (executing : node.worker = .executing shard message)
      (panics : shard.execute now message.command = none) :
      Works i node (.panic i now message) node.ended
  /-- The channel is closed, or a snapshot panics. -/
  | stop {shard : Shard Q} (waiting : node.worker = .waiting shard) :
      Works i node (.stop i) node.ended
  | tick {shard : Shard Q} {now : Instant} (waiting : node.worker = .waiting shard) :
      Works i node (.tick i now) { node with worker := .waiting (shard.expireKeys now) }

inductive Traffic.Step (σ : Traffic ι Q) : Act ι → Traffic ι Q → Prop where
  | issue {c : ι} {command : Command} {parts : List Part} (idle : (σ.clients c).task = none)
      (plan : Plans command parts) :
      Step σ (.issue ⟨c, (σ.clients c).issued⟩ command parts)
        (σ.setClient c ((σ.clients c).issue command parts))
  | send {c : ι} {task : Task} {part : Part} {sent : Channel (CommandMessage ι)}
      (current : (σ.clients c).task = some task) (member : part ∈ task.parts)
      (phase : task.phases part.shard = .sending)
      (accepted :
        (σ.nodes part.shard).channel.trySend ⟨part.command, ⟨c, task.number⟩⟩ = .ok sent) :
      Step σ (.send ⟨c, task.number⟩ part)
        ((σ.setPhase c task part.shard .awaiting).setNode part.shard
          { σ.nodes part.shard with channel := sent })
  | done {c : ι} {task : Task} {part : Part} {outcome : Outcome}
      (current : (σ.clients c).task = some task) (member : part ∈ task.parts)
      (ends : (σ.nodes part.shard).Ends ⟨c, task.number⟩ (task.phases part.shard) outcome) :
      Step σ (.done ⟨c, task.number⟩ part.shard outcome)
        (σ.setPhase c task part.shard (.done outcome))
  | answer {c : ι} {task : Task} {outcomes : List Outcome}
      (current : (σ.clients c).task = some task) (lengths : outcomes.length = task.parts.length)
      (finished : ∀ x ∈ task.parts.zip outcomes, task.phases x.1.shard = .done x.2) :
      Step σ (.answer ⟨c, task.number⟩ task.command (RsDragonfly.answer task.command outcomes))
        (σ.setClient c (σ.clients c).answered)
  | work {i : Fin shardCount} {act : Act ι} {node : Node ι Q}
      (works : (σ.nodes i).Works i act node) :
      Step σ act (σ.setNode i node)

variable (ι Q) in
/-- All interleavings, from idle connections and new shards. -/
def traffic : System (Traffic ι Q) (Act ι) where
  start σ := (∀ c, σ.clients c = ⟨0, none⟩) ∧ ∃ now : Fin shardCount → Instant,
    ∀ i, σ.nodes i = ⟨.new commandChannelCapacity, .waiting (.new ⟨UInt16.ofNat i⟩ (now i)),
      fun _ => .empty⟩
  step := Traffic.Step

end

end RsDragonfly
