import RsDragonfly.Frontend.Connection
import RsDragonfly.Persistence.Generations

/-! `Server::run` and `shutdown`, `ConnectionHandler::run`, and who holds the command channels.
A worker takes its final snapshot when the last sender of its channel is dropped. The
server drops its own senders and then waits, but the handler in `Server::run` has a
second set, and so has every connection until `handle_connection` returns. -/
namespace RsDragonfly
open Library

/-- Where `Server::run` stands, and then `main`. -/
inductive RunPhase where
  | binding
  | serving
  /-- The first wait of `shutdown`. -/
  | draining
  /-- The second wait, after `drop(self.shard_channels)`. -/
  | waiting
  | returned
  /-- The runtime is gone, and with it every task. -/
  | exited
deriving DecidableEq

structure ServerRun (ι Q : Type) where
  server : Server Q
  phase : RunPhase
  /-- `self.shard_channels` is alive. -/
  shardChannels : Bool
  /-- The handler in `run` is alive. -/
  handler : Bool
  connections : ι → Option Connection

namespace ServerRun

inductive Deed (ι : Type) where
  | bind
  | bindFails
  | accept (client : ι)
  | interrupt
  | closeChannels
  | finish
  | exit
  | client (client : ι) (move : Connection.Move)
  | task (n : Fin shardCount) (turn : Turn)

section
variable {ι Q : Type}

/-- No sender of the command channels is left: every shard has one of each holder. -/
structure Closed (σ : ServerRun ι Q) : Prop where
  server : σ.shardChannels = false
  handler : σ.handler = false
  clients : ∀ c connection, σ.connections c = some connection → connection.reader = .returned

variable [DecidableEq ι]

def withClient (σ : ServerRun ι Q) (c : ι) (connection : Connection) : ServerRun ι Q :=
  { σ with connections := Function.update σ.connections c (some connection) }

@[simp] theorem client_withClient (σ : ServerRun ι Q) (c : ι) (connection : Connection) :
    (σ.withClient c connection).connections c = some connection :=
  Function.update_self (f := σ.connections) ..

theorem connections_withClient {σ : ServerRun ι Q} {c d : ι} {connection found : Connection}
    (at_d : (σ.withClient c connection).connections d = some found) :
    (d = c ∧ found = connection) ∨ σ.connections d = some found := by
  have updated : Function.update σ.connections c (some connection) d = some found := at_d
  rw [Function.update_apply] at updated
  split at updated
  · rename_i same
    exact .inl ⟨same, (Option.some.inj updated).symm⟩
  · exact .inr updated

end

section
variable {ι Q : Type} [DecidableEq ι] [MaxQueue Q Expiry] [Layout]
variable (toUppercase : String → String) (debug : CommandError → String) (codec : Codec Q)

inductive Step : ServerRun ι Q → Deed ι → ServerRun ι Q → Prop where
  | bind {σ : ServerRun ι Q} (starts : σ.phase = .binding) :
      Step σ .bind { σ with phase := .serving, handler := true }
  /-- The error leaves `run` before there is a handler. -/
  | bindFails {σ : ServerRun ι Q} (starts : σ.phase = .binding) :
      Step σ .bindFails { σ with phase := .returned, shardChannels := false }
  | accept {σ : ServerRun ι Q} {c : ι} (serves : σ.phase = .serving) (new : σ.connections c = none) :
      Step σ (.accept c) (σ.withClient c .new)
  | interrupt {σ : ServerRun ι Q} (serves : σ.phase = .serving) :
      Step σ .interrupt { σ with phase := .draining }
  | closeChannels {σ : ServerRun ι Q} (drains : σ.phase = .draining) :
      Step σ .closeChannels { σ with phase := .waiting, shardChannels := false }
  | finish {σ : ServerRun ι Q} (waits : σ.phase = .waiting) :
      Step σ .finish { σ with phase := .returned, handler := false }
  | exit {σ : ServerRun ι Q} (returned : σ.phase = .returned) : Step σ .exit { σ with phase := .exited }
  | client {σ : ServerRun ι Q} {c : ι} {connection next : Connection} {move : Connection.Move}
      (alive : σ.phase ≠ .exited) (joined : σ.connections c = some connection)
      (moves : Connection.Step toUppercase debug connection move next) :
      Step σ (.client c move) (σ.withClient c next)
  /-- The worker of a shard ends when it receives nothing from a channel without senders. -/
  | task {σ : ServerRun ι Q} {n : Fin shardCount} {turn : Turn} {server : Server Q}
      (alive : σ.phase ≠ .exited) (closing : turn.move = .close → σ.Closed)
      (moves : Server.Step codec σ.server (n, turn) server) :
      Step σ (.task n turn) { σ with server := server }

/-- One life of the process on the directory it finds. -/
def life (found : Directory) (clocks : Fin shardCount → Clock) :
    System (ServerRun ι Q) (Deed ι) where
  start σ := σ = ⟨.new found clocks, .binding, true, false, fun _ => none⟩
  step := Step toUppercase debug codec

end

def Deed.turn? {ι : Type} : Deed ι → Option (Fin shardCount × Turn)
  | .task n turn => some (n, turn)
  | _ => none

section
variable {ι Q : Type} [DecidableEq ι] [MaxQueue Q Expiry] [Layout]
variable {toUppercase : String → String} {debug : CommandError → String} {codec : Codec Q}
  {found : Directory} {clocks : Fin shardCount → Clock} {past : List (ServerRun ι Q × Deed ι)}
  {σ σ' : ServerRun ι Q}

omit [DecidableEq ι] [MaxQueue Q Expiry] in
theorem returned_stays {c c' : Connection} {move : Connection.Move}
    (hs : Connection.Step toUppercase debug c move c') (returned : c.reader = .returned) :
    c'.reader = .returned := by
  cases hs with
  | receive => exact returned
  | write => exact returned
  | flush => exact returned
  | writeFails => exact returned
  | writerReturns => exact returned
  | read waits => cases returned.symm.trans waits
  | endOfFile waits => cases returned.symm.trans waits
  | readFails waits => cases returned.symm.trans waits
  | parse waits => cases returned.symm.trans waits
  | answer waits => cases returned.symm.trans waits
  | send waits => cases returned.symm.trans waits
  | sendFails waits => cases returned.symm.trans waits
  | joined waits => cases returned.symm.trans waits

/-- Until `Server::run` returns, the server or its handler has senders. -/
def Holds (σ : ServerRun ι Q) : Prop :=
  match σ.phase with
  | .binding => σ.shardChannels = true
  | .serving | .draining | .waiting => σ.handler = true
  | .returned | .exited => True

theorem holds_run (run : (life toUppercase debug codec found clocks).Run past σ) : σ.Holds := by
  refine run.invariant Holds ?_ ?_
  · rintro _ rfl
    rfl
  · intro σ deed σ' hs holds
    cases hs with
    | bind starts => rfl
    | bindFails starts => trivial
    | accept serves new => exact holds
    | interrupt serves =>
      unfold Holds at holds
      rw [serves] at holds
      exact holds
    | closeChannels drains =>
      unfold Holds at holds
      rw [drains] at holds
      exact holds
    | finish waits => trivial
    | exit returned => trivial
    | client alive joined moves => exact holds
    | task alive closing moves => exact holds

theorem closed_step {deed : Deed ι} (hs : Step toUppercase debug codec σ deed σ') (holds : σ.Holds)
    (closed : σ.Closed) : σ'.Closed := by
  have not_binding (starts : σ.phase = .binding) : False := by
    unfold Holds at holds
    rw [starts] at holds
    exact Bool.false_ne_true (closed.server.symm.trans holds)
  cases hs with
  | bind starts => exact (not_binding starts).elim
  | bindFails starts => exact (not_binding starts).elim
  | accept serves new =>
    unfold Holds at holds
    rw [serves] at holds
    exact absurd (closed.handler.symm.trans holds) Bool.false_ne_true
  | interrupt serves => exact ⟨closed.server, closed.handler, closed.clients⟩
  | closeChannels drains => exact ⟨rfl, closed.handler, closed.clients⟩
  | finish waits => exact ⟨closed.server, rfl, closed.clients⟩
  | exit returned => exact ⟨closed.server, closed.handler, closed.clients⟩
  | client alive joined moves =>
    refine ⟨closed.server, closed.handler, fun d other at_d => ?_⟩
    rcases connections_withClient at_d with ⟨rfl, rfl⟩ | before
    · exact returned_stays moves (closed.clients _ _ joined)
    · exact closed.clients d other before
  | task alive closing moves => exact ⟨closed.server, closed.handler, closed.clients⟩

/-- A worker that has ended, or begun to, saw its channel closed. -/
theorem closed_run (run : (life toUppercase debug codec found clocks).Run past σ) :
    (∀ n, (σ.server.tasks n).worker.returned = true → σ.Closed) ∧
      ∀ σ₀ n clock, (σ₀, .task n ⟨clock, .close⟩) ∈ past → σ.Closed := by
  induction run with
  | start first =>
    cases first
    refine ⟨fun n returned => ?_, fun _ _ _ member => ?_⟩
    · cases returned
    · cases member
  | @step past σ σ' deed before hs ih =>
    have stays := closed_step hs (holds_run before)
    constructor
    · intro n returned
      cases hs with
      | @task m turn server alive closing moves =>
        obtain ⟨moves⟩ := moves
        rename_i p
        apply stays
        by_cases same : n = m
        · subst same
          have tasks : (σ.server.withPipeline n p).tasks n = p.toTasks := Function.update_self ..
          simp only [tasks] at returned
          cases was : (σ.server.tasks n).worker.returned with
          | true => exact ih.1 n was
          | false =>
            by_cases closes : turn.move = .close
            · exact closing closes
            · have running := Pipeline.running_step moves was closes
              exact absurd (running.symm.trans returned) Bool.false_ne_true
        · simp only [Server.tasks_withPipeline same] at returned
          exact ih.1 n returned
      | _ => exact stays (ih.1 n returned)
    · intro σ₀ n clock member
      rcases List.mem_cons.mp member with here | there
      · cases here
        cases hs with
        | task alive closing moves => exact stays (closing rfl)
      · exact stays (ih.2 σ₀ n clock there)

theorem server_run (run : (life toUppercase debug codec found clocks).Run past σ) :
    (Server.life codec found clocks).Run
      (past.filterMap fun x => x.2.turn?.map fun turn => (x.1.server, turn)) σ.server := by
  apply System.Run.project (P := fun _ => True) server Deed.turn? _ _ _ run (fun _ _ => trivial)
  · rintro _ rfl
    rfl
  · intro past σ deed σ' _ _ hs turn is_turn
    cases hs with
    | task alive closing moves =>
      cases is_turn
      exact moves
    | _ => cases is_turn
  · intro σ deed σ' _ hs no_turn
    cases hs with
    | task => cases no_turn
    | _ => rfl

/-- The worker of the shard runs, and its file is as it was found or the whole of a snapshot
of a tick: the final snapshot has not been taken. -/
structure Unsaved (codec : Codec Q) (found : Directory) (past : List (ServerRun ι Q × Deed ι))
    (σ : ServerRun ι Q) (n : Fin shardCount) : Prop where
  running : (σ.server.tasks n).worker.returned = false
  file : σ.server.snapshotDir (finalPath (shardIdOf n)) = found (finalPath (shardIdOf n)) ∨
    ∃ bytes, σ.server.snapshotDir (finalPath (shardIdOf n)) = some bytes ∧
      ∃ σ₀ clock, (σ₀, .task n ⟨clock, .snapshotTick⟩) ∈ past ∧
        ∃ order, codec.serializeShard clock (σ₀.server.tasks n).worker.shard order = some bytes

theorem unsaved_of_open (run : (life toUppercase debug codec found clocks).Run past σ)
    (open_ : ¬ σ.Closed) (n : Fin shardCount) : Unsaved codec found past σ n := by
  obtain ⟨ended, began⟩ := closed_run run
  constructor
  · apply Bool.eq_false_of_not_eq_true
    exact fun returned => open_ (ended n returned)
  · rcases (Server.fileOf_life (server_run run) n).file with ⟨_, same⟩ | ⟨_, bytes, file, taken⟩
    · exact .inl same
    · obtain ⟨s, clock, move, member, triggers, order, serialized⟩ := taken
      obtain ⟨⟨σ₀, deed⟩, there, same⟩ := List.mem_filterMap.mp member
      obtain ⟨turn, is_turn, same⟩ := Option.map_eq_some_iff.mp same
      cases same
      cases deed with
      | task m turn =>
        cases is_turn
        rcases triggers with rfl | rfl
        · exact .inr ⟨bytes, file, σ₀, clock, there, order, serialized⟩
        · exact absurd (began σ₀ n clock there) open_
      | _ => cases is_turn

theorem open_of_phase (run : (life toUppercase debug codec found clocks).Run past σ)
    (in_run : σ.phase ≠ .returned ∧ σ.phase ≠ .exited) : ¬ σ.Closed := by
  have holds := holds_run run
  intro closed
  unfold Holds at holds
  split at holds
  · exact Bool.false_ne_true (closed.server.symm.trans holds)
  · exact Bool.false_ne_true (closed.handler.symm.trans holds)
  · exact Bool.false_ne_true (closed.handler.symm.trans holds)
  · exact Bool.false_ne_true (closed.handler.symm.trans holds)
  · rename_i returned
    exact in_run.1 returned
  · rename_i exited
    exact in_run.2 exited

/-- While `Server::run` has not returned, and so during all of `shutdown`, or while some
connection is open, no worker has taken its final snapshot. -/
theorem no_final_snapshot (run : (life toUppercase debug codec found clocks).Run past σ)
    (held : (σ.phase ≠ .returned ∧ σ.phase ≠ .exited) ∨
      ∃ c connection, σ.connections c = some connection ∧ connection.reader ≠ .returned)
    (n : Fin shardCount) : Unsaved codec found past σ n := by
  apply unsaved_of_open run
  rcases held with in_run | ⟨c, connection, joined, unreturned⟩
  · exact open_of_phase run in_run
  · exact fun closed => unreturned (closed.clients c connection joined)

end

/- A client that connects and closes, and then Ctrl+C. -/
abbrev smallLife :=
  @life Unit (SortedQueue Expiry) _ _ linux64 String.toUpper Connection.debugPlain .source
    (fun _ => none) fun _ => clockAt 0

def started : ServerRun Unit (SortedQueue Expiry) :=
  ⟨.new (fun _ => none) fun _ => clockAt 0, .binding, true, false, fun _ => none⟩

def goneClient : Connection := { Connection.new with reader := .joining }

def abandoned : ServerRun Unit (SortedQueue Expiry) :=
  ((({ started with phase := .serving, handler := true }).withClient () .new).withClient ()
    goneClient)

theorem abandoned_run : ∃ past, smallLife.Run past abandoned := by
  let _ := linux64
  have run : smallLife.Run [] started := .start rfl
  have run := run.step (Step.bind rfl)
  have run := run.step (Step.accept (c := ()) rfl rfl)
  have leaves : Connection.Step String.toUpper Connection.debugPlain .new .endOfFile goneClient :=
    .endOfFile rfl
  have joined : (({ started with phase := .serving, handler := true }).withClient () .new).connections
      () = some .new := client_withClient ..
  exact ⟨_, run.step (Step.client (by simp [withClient]) joined leaves)⟩

theorem no_final_snapshot_draining : ∃ past σ, smallLife.Run past σ ∧ σ.phase = .waiting ∧
    Unsaved Codec.source (fun _ => none) past σ Server.shard0 := by
  let _ := linux64
  obtain ⟨past, run⟩ := abandoned_run
  have run := run.step (Step.interrupt rfl)
  have run := run.step (Step.closeChannels rfl)
  exact ⟨_, _, run, rfl, no_final_snapshot run (.inl ⟨by simp, by simp⟩) _⟩

end ServerRun

end RsDragonfly
