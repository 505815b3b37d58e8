import RsDragonfly.Library.Transition
import RsDragonfly.Library.Channel
import RsDragonfly.Protocol.Command
import RsDragonfly.Protocol.Serializer

/-! The two tasks of `handle_connection` and the response channel between them.
Any response can come back from `process_command`, the client sends any bytes and
closes whenever it likes, and reads and writes can fail. The socket takes a reply in
pieces of any size, so a write that fails can leave a part of one behind. A panic of the
parser drops what the reader owns, as an early return does. -/
namespace RsDragonfly
open Library

namespace Connection

inductive Reader where
  | reading
  | parsing
  | processing (command : Command)
  /-- In `response_tx.send`; `replying` if a closed channel ends the inner loop. -/
  | sending (response : Response) (replying : Bool)
  /-- Awaits `writer_handle`. -/
  | joining
  | returned

inductive Writer where
  | receiving
  /-- In `write_all` or `flush`, with the bytes that are not on the socket yet. -/
  | writing (left : Bytes)
  | returned

inductive Move where
  | read (chunk : Bytes)
  | endOfFile
  | readFails
  | parse
  | answer (response : Response)
  | send
  | sendFails
  | joined
  | receive
  | write (count : Nat)
  | flush
  | writeFails
  | writerReturns
deriving DecidableEq

end Connection

structure Connection where
  parser : RespParser
  reader : Connection.Reader
  responses : Channel Response
  writer : Connection.Writer

namespace Connection

def bufferSize : Nat := 8 * 1024
def responseCapacity : Nat := 32

def new : Connection := ⟨.new, .reading, .new responseCapacity, .receiving⟩

/-- The end of the reader's scope drops `response_tx`. -/
def leave (c : Connection) : Connection :=
  { c with reader := .returned, responses := c.responses.dropSender }

/-- The end of the writer's task drops `response_rx`. -/
def abandon (c : Connection) : Connection :=
  { c with writer := .returned, responses := c.responses.dropReceiver }

section
variable (toUppercase : String → String) (debug : CommandError → String)

/-- What the reader does with a parsed value. -/
def received (value : RespValue) : Reader :=
  match Command.fromResp toUppercase value with
  | .ok command => .processing command
  | .error e => .sending (.error ("ERR " ++ debug e)) false

def parsed [Layout] (c : Connection) : Connection :=
  match c.parser.parse with
  | (.ok (some value), parser) =>
    { c with parser := parser, reader := received toUppercase debug value }
  | (.ok none, parser) => { c with parser := parser.compact, reader := .reading }
  | (.error _, parser) => leave { c with parser := parser }

variable [Layout]

inductive Step : Connection → Move → Connection → Prop where
  | read {c : Connection} {chunk : Bytes} (waits : c.reader = .reading) (some_bytes : chunk ≠ [])
      (fits : chunk.length ≤ bufferSize) :
      Step c (.read chunk) { c with parser := c.parser.feed chunk, reader := .parsing }
  | endOfFile {c : Connection} (waits : c.reader = .reading) :
      Step c .endOfFile { c with reader := .joining }
  | readFails {c : Connection} (waits : c.reader = .reading) : Step c .readFails c.leave
  | parse {c : Connection} (at_parse : c.reader = .parsing) :
      Step c .parse (parsed toUppercase debug c)
  | answer {c : Connection} {command : Command} {response : Response}
      (waits : c.reader = .processing command) :
      Step c (.answer response) { c with reader := .sending response true }
  | send {c : Connection} {response : Response} {replying : Bool} {responses : Channel Response}
      (waits : c.reader = .sending response replying)
      (sent : c.responses.trySend response = .ok responses) :
      Step c .send { c with reader := .parsing, responses := responses }
  | sendFails {c : Connection} {response : Response} {replying : Bool}
      (waits : c.reader = .sending response replying)
      (closed : c.responses.trySend response = .error (.closed response)) :
      Step c .sendFails
        (if replying then { c with parser := c.parser.compact, reader := .reading }
          else { c with reader := .parsing })
  | joined {c : Connection} (waits : c.reader = .joining) (ended : c.writer = .returned) :
      Step c .joined c.leave
  | receive {c : Connection} {response : Response} {responses : Channel Response}
      (waits : c.writer = .receiving)
      (received : c.responses.recv = some (some response, responses)) :
      Step c .receive
        { c with
          responses := responses
          writer := .writing (serializeResp2 (responseToResp response)) }
  | write {c : Connection} {left : Bytes} {count : Nat} (at_write : c.writer = .writing left)
      (some_bytes : 0 < count) (fits : count ≤ left.length) :
      Step c (.write count) { c with writer := .writing (left.drop count) }
  | flush {c : Connection} (all_written : c.writer = .writing []) :
      Step c .flush { c with writer := .receiving }
  | writeFails {c : Connection} {left : Bytes} (busy : c.writer = .writing left) :
      Step c .writeFails c.abandon
  | writerReturns {c : Connection} {responses : Channel Response} (waits : c.writer = .receiving)
      (closed : c.responses.recv = some (none, responses)) :
      Step c .writerReturns { c with responses := responses }.abandon

def runs : System Connection Move where
  start c := c = new
  step := Step toUppercase debug

end

/-- The reader waits for the writer, and the writer for a sender that the reader holds. -/
structure Deadlocked (c : Connection) : Prop where
  reader : c.reader = .joining
  writer : c.writer = .receiving
  empty : c.responses.queue = []
  sender : c.responses.senders ≠ 0

/-- A read of an end of file while the writer has not ended. -/
def MeetsWriter (x : Connection × Move) : Prop := x.2 = .endOfFile ∧ x.1.writer ≠ .returned

section
variable {toUppercase : String → String} {debug : CommandError → String} [Layout]

theorem joining_step {c c' : Connection} {move : Move} (hs : Step toUppercase debug c move c')
    (clean : ¬ MeetsWriter (c, move)) (ended : c.reader = .joining → c.writer = .returned)
    (joins : c'.reader = .joining) : c'.writer = .returned := by
  cases hs with
  | endOfFile waits =>
    by_contra running
    exact clean ⟨rfl, running⟩
  | parse at_parse =>
    exfalso
    unfold parsed at joins
    split at joins
    · rename_i value _ _
      simp only [received] at joins
      split at joins <;> cases joins
    · cases joins
    · cases joins
  | @sendFails response replying waits closed =>
    exfalso
    cases replying <;> cases joins
  | receive waits received => exact absurd (ended joins) (by rw [waits]; nofun)
  | write at_write some_bytes fits => exact absurd (ended joins) (by rw [at_write]; nofun)
  | flush all_written => exact absurd (ended joins) (by rw [all_written]; nofun)
  | writeFails busy => rfl
  | writerReturns waits closed => rfl
  | _ => cases joins

theorem joining_run {past : List (Connection × Move)} {c : Connection}
    (run : (runs toUppercase debug).Run past c) (clean : ∀ x ∈ past, ¬ MeetsWriter x) :
    c.reader = .joining → c.writer = .returned := by
  induction run with
  | start first =>
    cases first
    nofun
  | step before hs ih =>
    rw [List.forall_mem_cons] at clean
    exact joining_step hs clean.1 (ih clean.2)

/-- The reader owns the sender until it returns. -/
theorem senders_step {c c' : Connection} {move : Move} (hs : Step toUppercase debug c move c')
    (owned : c.reader ≠ .returned → c.responses.senders ≠ 0) (running : c'.reader ≠ .returned) :
    c'.responses.senders ≠ 0 := by
  cases hs with
  | readFails waits => exact absurd rfl running
  | joined waits ended => exact absurd rfl running
  | parse at_parse =>
    have before := owned (by rw [at_parse]; nofun)
    unfold parsed at running ⊢
    split at running
    · exact before
    · exact before
    · exact absurd rfl running
  | send waits sent =>
    obtain ⟨_, _, _, _, senders, _⟩ := Channel.trySend_ok sent
    rw [senders]
    exact owned (by rw [waits]; nofun)
  | @sendFails response replying waits closed =>
    have before := owned (by rw [waits]; nofun)
    cases replying <;> exact before
  | receive waits received =>
    obtain ⟨_, _, senders, _⟩ := Channel.recv_message received
    rw [senders]
    exact owned running
  | writerReturns waits closed =>
    obtain ⟨rfl, _⟩ := Channel.recv_closed closed
    exact owned running
  | read waits some_bytes fits => exact owned (by rw [waits]; nofun)
  | endOfFile waits => exact owned (by rw [waits]; nofun)
  | answer waits => exact owned (by rw [waits]; nofun)
  | _ => exact owned running

theorem senders_run {past : List (Connection × Move)} {c : Connection}
    (run : (runs toUppercase debug).Run past c) :
    c.reader ≠ .returned → c.responses.senders ≠ 0 := by
  refine run.invariant (fun c => c.reader ≠ .returned → c.responses.senders ≠ 0) ?_ ?_
  · rintro _ rfl _
    exact Nat.one_ne_zero
  · intro before move after hs owned
    exact senders_step hs owned

/-- What is left of a reply can go out in one piece. -/
theorem writing_receives {c : Connection} {left : Bytes} (at_write : c.writer = .writing left) :
    ∃ more, (runs toUppercase debug).Path c more { c with writer := .receiving } := by
  cases left with
  | nil => exact ⟨_, .step .refl (.flush at_write)⟩
  | cons b left =>
    have write : Step toUppercase debug c (.write (b :: left).length) { c with
        writer := .writing ((b :: left).drop (b :: left).length) } :=
      .write at_write (Nat.succ_pos _) (Nat.le_refl _)
    rw [List.drop_length] at write
    have flush : Step toUppercase debug _ .flush { c with writer := .receiving } :=
      .flush (c := { c with writer := .writing [] }) rfl
    exact ⟨_, .step (.step .refl write) flush⟩

theorem receiving_deadlocks (queue : List Response) {c : Connection} (joins : c.reader = .joining)
    (waits : c.writer = .receiving) (sender : c.responses.senders ≠ 0)
    (queued : c.responses.queue = queue) :
    ∃ more c', (runs toUppercase debug).Path c more c' ∧ c'.Deadlocked := by
  induction queue generalizing c with
  | nil => exact ⟨[], c, .refl, joins, waits, queued, sender⟩
  | cons response queue ih =>
    obtain ⟨responses, received, rest⟩ := Channel.recv_isSome queued
    obtain ⟨_, _, senders, _⟩ := Channel.recv_message received
    have receive : Step toUppercase debug c _ _ := .receive waits received
    have writes : ∃ written, (runs toUppercase debug).Path
        { c with
          responses := responses
          writer := .writing (serializeResp2 (responseToResp response)) }
        written { c with responses := responses, writer := .receiving } := writing_receives rfl
    obtain ⟨written, writes⟩ := writes
    obtain ⟨more, last, path, deadlocked⟩ :=
      ih (c := { c with responses := responses, writer := .receiving }) joins rfl
        (by rw [senders]; exact sender) rest
    exact ⟨_, last, .trans (.trans (.step .refl receive) writes) path, deadlocked⟩

theorem joining_deadlocks {c : Connection} (joins : c.reader = .joining)
    (running : c.writer ≠ .returned) (sender : c.responses.senders ≠ 0) :
    ∃ more c', (runs toUppercase debug).Path c more c' ∧ c'.Deadlocked := by
  cases writer : c.writer with
  | returned => exact absurd writer running
  | receiving => exact receiving_deadlocks _ joins writer sender rfl
  | writing left =>
    obtain ⟨written, writes⟩ := writing_receives writer
    have settles : ∃ more c', (runs toUppercase debug).Path { c with writer := .receiving } more c' ∧
        c'.Deadlocked := receiving_deadlocks _ joins rfl sender rfl
    obtain ⟨more, last, path, deadlocked⟩ := settles
    exact ⟨_, last, .trans writes path, deadlocked⟩

/-- No deadlock without an end of file that meets a running writer; and from every
such end of file the tasks can come to one. -/
theorem deadlock_free_iff {past : List (Connection × Move)} {c : Connection}
    (run : (runs toUppercase debug).Run past c) :
    ((∀ x ∈ past, ¬ MeetsWriter x) → ¬ c.Deadlocked) ∧
      ∀ c', Step toUppercase debug c .endOfFile c' → MeetsWriter (c, .endOfFile) →
        ∃ more last, (runs toUppercase debug).Path c' more last ∧ last.Deadlocked := by
  constructor
  · intro clean deadlocked
    have ended := joining_run run clean deadlocked.reader
    rw [deadlocked.writer] at ended
    cases ended
  · intro c' hs meets
    cases hs with
    | endOfFile waits =>
      have sender := senders_run run (by rw [waits]; nofun)
      exact joining_deadlocks rfl meets.2 sender

end

/-- `Debug` of an error whose name needs no escapes. -/
def debugPlain : CommandError → String
  | .invalidFormat => "InvalidFormat"
  | .emptyCommand => "EmptyCommand"
  | .unknownCommand name => "UnknownCommand(\"" ++ name ++ "\")"
  | .wrongArgCount => "WrongArgCount"
  | .invalidArgument => "InvalidArgument"

theorem deadlock_free_refused :
    ∃ past c, (@runs String.toUpper debugPlain linux64).Run past c ∧
      past.map Prod.snd = [.parse, .read (utf8 "x")] ∧ ¬ c.Deadlocked := by
  let _ := linux64
  have start : (runs String.toUpper debugPlain).Run [] new := .start rfl
  have read : Step String.toUpper debugPlain new (.read (utf8 "x")) _ :=
    .read rfl (by decide) (by decide)
  have run := (start.step read).step (.parse rfl)
  refine ⟨_, _, run, rfl, (deadlock_free_iff run).1 ?_⟩
  simp only [List.forall_mem_cons, List.not_mem_nil, false_implies, implies_true, and_true]
  constructor
  · rintro ⟨closes, _⟩
    cases closes
  · rintro ⟨closes, _⟩
    cases closes

theorem close_deadlocks :
    ∃ c, (@runs String.toUpper debugPlain linux64).Run [(new, .endOfFile)] c ∧ c.Deadlocked := by
  let _ := linux64
  exact ⟨_, .step (.start rfl) (.endOfFile rfl), rfl, rfl, rfl, Nat.one_ne_zero⟩

end Connection

end RsDragonfly
