import RsDragonfly.Frontend.Pipelining
import RsDragonfly.Frontend.Replies

/-! All connections and all shards together: `handle_connection` over `process_command`.
A connection issues the command that its reader processes, and the answer moves both
sides. Each side keeps its own runs, so what is known of one side holds here. -/
namespace RsDragonfly
open Library

namespace Traffic

section
variable {ι Q : Type} [DecidableEq ι]

/-- The commands of a connection that are over. -/
def settled (client : Client) : Nat :=
  match client.task with
  | some task => task.number
  | none => client.issued

variable [MaxQueue Q Expiry] [Layout]

end

end Traffic

structure Service (ι Q : Type) where
  connections : ι → Connection
  shards : Traffic ι Q

namespace Service

inductive Move (ι : Type) where
  | connection (client : ι) (move : Connection.Move)
  | traffic (act : Act ι)
  | answer (ticket : Ticket ι) (command : Command) (response : Response)

section
variable {ι Q : Type} [DecidableEq ι]

def setConnection (σ : Service ι Q) (c : ι) (connection : Connection) : Service ι Q :=
  { σ with connections := Function.update σ.connections c connection }

@[simp] theorem connections_setConnection (σ : Service ι Q) (c d : ι) (connection : Connection) :
    (σ.setConnection c connection).connections d =
      if d = c then connection else σ.connections d :=
  Function.update_apply σ.connections c connection d

@[simp] theorem shards_setConnection (σ : Service ι Q) (c : ι) (connection : Connection) :
    (σ.setConnection c connection).shards = σ.shards := rfl

variable (toUppercase : String → String) (debug : CommandError → String)
  [MaxQueue Q Expiry] [Layout]

inductive Step (σ : Service ι Q) : Move ι → Service ι Q → Prop where
  | connection {c : ι} {move : Connection.Move} {connection : Connection}
      (own : ∀ response, move ≠ .answer response)
      (moves : Connection.Step toUppercase debug (σ.connections c) move connection) :
      Step σ (.connection c move) (σ.setConnection c connection)
  | traffic {act : Act ι} {shards : Traffic ι Q}
      (own : ∀ ticket command response, act ≠ .answer ticket command response)
      (asked : ∀ ticket command parts, act = .issue ticket command parts →
        (σ.connections ticket.client).reader = .processing command)
      (moves : Traffic.Step σ.shards act shards) :
      Step σ (.traffic act) { σ with shards := shards }
  | answer {ticket : Ticket ι} {command : Command} {response : Response} {shards : Traffic ι Q}
      {connection : Connection}
      (answered : Traffic.Step σ.shards (.answer ticket command response) shards)
      (received : Connection.Step toUppercase debug (σ.connections ticket.client)
        (.answer response) connection) :
      Step σ (.answer ticket command response)
        { σ.setConnection ticket.client connection with shards := shards }

variable (ι Q) in
/-- All interleavings, from new connections and new shards. -/
def runs : System (Service ι Q) (Move ι) where
  start σ := (∀ c, σ.connections c = .new) ∧ (traffic ι Q).start σ.shards
  step := Step toUppercase debug

end

section
variable {ι Q : Type} [DecidableEq ι] [MaxQueue Q Expiry] [Layout]
  {toUppercase : String → String} {debug : CommandError → String}

theorem processing_stays {c c' : Connection} {move : Connection.Move} {command : Command}
    (own : ∀ response, move ≠ .answer response)
    (moves : Connection.Step toUppercase debug c move c') (waits : c.reader = .processing command) :
    c'.reader = .processing command := by
  cases moves with
  | answer _ => exact absurd rfl (own _)
  | read other => simp [waits] at other
  | endOfFile other => simp [waits] at other
  | readFails other => simp [waits] at other
  | parse other => simp [waits] at other
  | send other => simp [waits] at other
  | sendFails other => simp [waits] at other
  | joined other => simp [waits] at other
  | _ => exact waits

/-- A connection's task is the command its reader is at. -/
def Asking (σ : Service ι Q) : Prop :=
  ∀ c task, (σ.shards.clients c).task = some task →
    (σ.connections c).reader = .processing task.command

theorem Asking.step {σ σ' : Service ι Q} {move : Move ι} (asking : Asking σ)
    (hs : Step toUppercase debug σ move σ') : Asking σ' := by
  intro c after current
  cases hs with
  | @connection client move connection own moves =>
    have before := asking c after current
    rw [connections_setConnection]
    split
    · rename_i here
      subst here
      exact processing_stays own moves before
    · exact before
  | @traffic act shards own asked moves =>
    rcases moves.task_cases current with ⟨task, was, _, _, same, _⟩ | ⟨_, _, _, _, issued⟩
    · rw [same]
      exact asking c task was
    · exact asked ⟨c, after.number⟩ after.command after.parts issued
  | @answer ticket command response shards connection answered received =>
    cases answered with
    | @answer client task outcomes was lengths finished =>
      simp only [Traffic.clients_setClient] at current
      split at current
      · cases current
      · rename_i elsewhere
        simp only [connections_setConnection, if_neg elsewhere]
        exact asking c after current
    | work works => cases works

end

end Service

namespace Connection

end Connection

namespace Service

section
variable {ι Q : Type} [DecidableEq ι] [MaxQueue Q Expiry] [Layout]
  {toUppercase debugString : String → String}

end

end Service

end RsDragonfly
