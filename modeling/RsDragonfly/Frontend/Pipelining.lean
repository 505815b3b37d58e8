import RsDragonfly.Frontend.Connection
import RsDragonfly.Protocol.Reparse

/-! Requests and replies of one connection, in every interleaving of its tasks.
What is read is cut into frames, each frame has one reply, and the writer puts the
replies on the socket in the order of the frames, the next one only after the whole of
the last. Lists of a history are newest first, streams of bytes oldest first. -/
namespace RsDragonfly
open Library

namespace Connection

section
variable [Layout]

/-- The frame that a step parses. -/
def frameOf (x : Connection × Move) : Option RespValue :=
  match x.2 with
  | .parse =>
    match x.1.parser.parse with
    | (.ok value, _) => value
    | _ => none
  | _ => none

def requests (past : List (Connection × Move)) : List RespValue := past.filterMap frameOf

def replyOf (toUppercase : String → String) (debug : CommandError → String)
    (x : Connection × Move) : Option Response :=
  match x.2 with
  | .answer response => some response
  | .parse =>
    match (frameOf x).map (received toUppercase debug) with
    | some (.sending response _) => some response
    | _ => none
  | _ => none

def replies (toUppercase : String → String) (debug : CommandError → String)
    (past : List (Connection × Move)) : List Response :=
  past.filterMap (replyOf toUppercase debug)

end

def answerOf (x : Connection × Move) : Option (Command × Response) :=
  match x.2 with
  | .answer response =>
    match x.1.reader with
    | .processing command => some (command, response)
    | _ => none
  | _ => none

/-- The commands that were processed, with their answers. -/
def answers (past : List (Connection × Move)) : List (Command × Response) :=
  past.filterMap answerOf

def Reader.held : Reader → Option Response
  | .sending response _ => some response
  | _ => none

def sentOf (x : Connection × Move) : Option Response :=
  match x.2 with
  | .send => x.1.reader.held
  | _ => none

/-- What the reader has put into the response channel. -/
def sent (past : List (Connection × Move)) : List Response := past.filterMap sentOf

def takenOf (x : Connection × Move) : Option Response :=
  match x.2 with
  | .receive => x.1.responses.queue.head?
  | _ => none

/-- What the writer has taken from it. -/
def taken (past : List (Connection × Move)) : List Response := past.filterMap takenOf

def readOf (x : Connection × Move) : Bytes :=
  match x.2 with
  | .read chunk => chunk
  | _ => []

def input (past : List (Connection × Move)) : Bytes := past.reverse.flatMap readOf

def Writer.left : Writer → Bytes
  | .writing left => left
  | _ => []

def writtenOf (x : Connection × Move) : Bytes :=
  match x.2 with
  | .write count => x.1.writer.left.take count
  | _ => []

def written (past : List (Connection × Move)) : Bytes := past.reverse.flatMap writtenOf

/-- The bytes of replies, given newest first. -/
def encoded (replies : List Response) : Bytes :=
  replies.reverse.flatMap fun response => serializeResp2 (responseToResp response)

@[simp] theorem input_cons (x : Connection × Move) (past : List (Connection × Move)) :
    input (x :: past) = input past ++ readOf x := by
  simp [input]

@[simp] theorem written_cons (x : Connection × Move) (past : List (Connection × Move)) :
    written (x :: past) = written past ++ writtenOf x := by
  simp [written]

@[simp] theorem encoded_cons (response : Response) (replies : List Response) :
    encoded (response :: replies) =
      encoded replies ++ serializeResp2 (responseToResp response) := by
  simp [encoded]

/-- One reply for each request: the text of the decoding error, or the answer to the command. -/
inductive Replies (toUppercase : String → String) (debug : CommandError → String) :
    List RespValue → List (Command × Response) → List Response → Prop where
  | nil : Replies toUppercase debug [] [] []
  | refused {value : RespValue} {values : List RespValue} {answers : List (Command × Response)}
      {replies : List Response} {e : CommandError}
      (refused : Command.fromResp toUppercase value = .error e)
      (before : Replies toUppercase debug values answers replies) :
      Replies toUppercase debug (value :: values) answers (.error ("ERR " ++ debug e) :: replies)
  | answered {value : RespValue} {values : List RespValue} {answers : List (Command × Response)}
      {replies : List Response} {command : Command} {response : Response}
      (decoded : Command.fromResp toUppercase value = .ok command)
      (before : Replies toUppercase debug values answers replies) :
      Replies toUppercase debug (value :: values) ((command, response) :: answers)
        (response :: replies)

/-- The replies to the requests so far; a command that is being processed has none yet. -/
def Serving (toUppercase : String → String) (debug : CommandError → String) (reader : Reader)
    (values : List RespValue) (answers : List (Command × Response)) (replies : List Response) :
    Prop :=
  match reader with
  | .processing command => ∃ value before, values = value :: before ∧
      Command.fromResp toUppercase value = .ok command ∧
      Replies toUppercase debug before answers replies
  | _ => Replies toUppercase debug values answers replies

/-- Replies that were written whole, and what was written of the next one. -/
def CutAt (replies before : List Response) (part : Bytes) : Prop :=
  before <:+ replies ∧ (part = [] ∨ ∃ next rest, next :: before <:+ replies ∧ rest ≠ [] ∧
    serializeResp2 (responseToResp next) = part ++ rest)

/-- What the writer has written, from what it has taken. -/
def Writes (writer : Writer) (taken : List Response) (written : Bytes) : Prop :=
  match writer with
  | .receiving => written = encoded taken
  | .writing left => ∃ response before put, taken = response :: before ∧
      serializeResp2 (responseToResp response) = put ++ left ∧ written = encoded before ++ put
  | .returned => ∃ before part, CutAt taken before part ∧ written = encoded before ++ part

theorem CutAt.more {replies all before : List Response} {part : Bytes}
    (cut : CutAt replies before part) (inside : replies <:+ all) : CutAt all before part := by
  refine ⟨cut.1.trans inside, cut.2.imp_right ?_⟩
  rintro ⟨next, rest, among, missing, split⟩
  exact ⟨next, rest, among.trans inside, missing, split⟩

theorem Writes.cut {writer : Writer} {taken : List Response} {written : Bytes}
    (h : Writes writer taken written) :
    ∃ before part, CutAt taken before part ∧ written = encoded before ++ part := by
  cases writer with
  | receiving => exact ⟨taken, [], ⟨List.suffix_refl _, .inl rfl⟩, h.trans (List.append_nil _).symm⟩
  | returned => exact h
  | writing left =>
    obtain ⟨response, before, put, rfl, split, whole⟩ := h
    by_cases done : left = []
    · refine ⟨response :: before, [], ⟨List.suffix_refl _, .inl rfl⟩, ?_⟩
      rw [done, List.append_nil] at split
      rw [encoded_cons, split, List.append_nil]
      exact whole
    · refine ⟨before, put, ⟨List.suffix_cons _ _, .inr ?_⟩, whole⟩
      exact ⟨response, left, List.suffix_refl _, done, split⟩

section
variable {toUppercase : String → String} {debug : CommandError → String}

theorem Replies.origin {values : List RespValue} {answers : List (Command × Response)}
    {replies : List Response} (h : Replies toUppercase debug values answers replies)
    {response : Response} (member : response ∈ replies) :
    (∃ e, response = .error ("ERR " ++ debug e)) ∨
      ∃ value command, value ∈ values ∧ Command.fromResp toUppercase value = .ok command ∧
        (command, response) ∈ answers := by
  induction h with
  | nil => cases member
  | @refused value values answers replies e refused before ih =>
    rcases List.mem_cons.mp member with rfl | earlier
    · exact .inl ⟨e, rfl⟩
    · refine (ih earlier).imp_right ?_
      rintro ⟨value, command, there, decoded, answered⟩
      exact ⟨value, command, List.mem_cons_of_mem _ there, decoded, answered⟩
  | @answered value values answers replies command response decoded before ih =>
    rcases List.mem_cons.mp member with rfl | earlier
    · exact .inr ⟨value, command, List.mem_cons_self, decoded, List.mem_cons_self⟩
    · refine (ih earlier).imp_right ?_
      rintro ⟨value, command, there, decoded, answered⟩
      exact ⟨value, command, List.mem_cons_of_mem _ there, decoded,
        List.mem_cons_of_mem _ answered⟩

theorem Serving.origin {reader : Reader} {values : List RespValue}
    {answers : List (Command × Response)} {replies : List Response}
    (h : Serving toUppercase debug reader values answers replies) {response : Response}
    (member : response ∈ replies) : (∃ e, response = .error ("ERR " ++ debug e)) ∨
      ∃ value command, value ∈ values ∧ Command.fromResp toUppercase value = .ok command ∧
        (command, response) ∈ answers := by
  cases reader with
  | processing command =>
    obtain ⟨asked, before, rfl, _, paired⟩ := h
    refine (paired.origin member).imp_right ?_
    rintro ⟨value, command, there, decoded, answered⟩
    exact ⟨value, command, List.mem_cons_of_mem _ there, decoded, answered⟩
  | _ => exact Replies.origin h member

end

section
variable {toUppercase : String → String} {debug : CommandError → String} [Layout]

/-- What one call of the parser comes to: a frame that is a command, a frame that is
none, or no frame. -/
inductive Parses (toUppercase : String → String) (debug : CommandError → String)
    (past : List (Connection × Move)) (c : Connection) : Connection → Prop where
  | command {value : RespValue} {rest : Bytes} {command : Command}
      (read : parseValue c.parser.pending.length c.parser.pending = .ok (value, rest))
      (decoded : Command.fromResp toUppercase value = .ok command)
      (asked : requests ((c, .parse) :: past) = value :: requests past)
      (settled : replies toUppercase debug ((c, .parse) :: past) =
        replies toUppercase debug past) :
      Parses toUppercase debug past c
        { c with parser := c.parser.advance rest, reader := .processing command }
  | refused {value : RespValue} {rest : Bytes} {e : CommandError}
      (read : parseValue c.parser.pending.length c.parser.pending = .ok (value, rest))
      (refused : Command.fromResp toUppercase value = .error e)
      (asked : requests ((c, .parse) :: past) = value :: requests past)
      (settled : replies toUppercase debug ((c, .parse) :: past) =
        .error ("ERR " ++ debug e) :: replies toUppercase debug past) :
      Parses toUppercase debug past c { c with
        parser := c.parser.advance rest
        reader := .sending (.error ("ERR " ++ debug e)) false }
  | nothing {c' : Connection} (asked : requests ((c, .parse) :: past) = requests past)
      (settled : replies toUppercase debug ((c, .parse) :: past) =
        replies toUppercase debug past)
      (stays : c' = { c with parser := c.parser.compact, reader := .reading } ∨ c' = c.leave) :
      Parses toUppercase debug past c c'

theorem parses (past : List (Connection × Move)) (c : Connection) :
    Parses toUppercase debug past c (parsed toUppercase debug c) := by
  cases read : parseValue c.parser.pending.length c.parser.pending with
  | ok out =>
    obtain ⟨value, rest⟩ := out
    have parses := RespParser.parse_ok read
    have frame : frameOf (c, .parse) = some value := by simp only [frameOf, parses]
    have asked : requests ((c, .parse) :: past) = value :: requests past := by
      simp only [requests, List.filterMap_cons, frame]
    simp only [parsed, parses]
    cases decoded : Command.fromResp toUppercase value with
    | ok command =>
      have taken_up : received toUppercase debug value = .processing command := by
        simp only [received, decoded]
      rw [taken_up]
      refine .command read decoded asked ?_
      simp only [replies, List.filterMap_cons, replyOf, frame, Option.map_some, taken_up]
    | error e =>
      have refused : received toUppercase debug value =
          .sending (.error ("ERR " ++ debug e)) false := by
        simp only [received, decoded]
      rw [refused]
      refine .refused read decoded asked ?_
      simp only [replies, List.filterMap_cons, replyOf, frame, Option.map_some, refused]
  | error e =>
    have parses := RespParser.parse_error read
    have frame : frameOf (c, .parse) = none := by
      cases failed : failureOf e <;> rw [failed] at parses <;> simp only [frameOf, parses]
    refine .nothing ?_ ?_ ?_
    · simp only [requests, List.filterMap_cons, frame]
    · simp only [replies, List.filterMap_cons, replyOf, frame, Option.map_none]
    · cases failed : failureOf e with
      | none =>
        rw [failed] at parses
        exact .inl (by simp only [parsed, parses])
      | some f =>
        rw [failed] at parses
        exact .inr (by simp only [parsed, parses])

/-- What was read is the frames so far and what the parser still holds. -/
def Reads (past : List (Connection × Move)) (c : Connection) : Prop :=
  ∃ consumed, input past = consumed ++ c.parser.pending ∧ Frames consumed (requests past).reverse

theorem Reads.step {past : List (Connection × Move)} {c c' : Connection} {move : Move}
    (hs : Step toUppercase debug c move c') (h : Reads past c) : Reads ((c, move) :: past) c' := by
  obtain ⟨consumed, split, frames⟩ := h
  have same (other : requests ((c, move) :: past) = requests past)
      (left : c.parser.pending ++ readOf (c, move) = c'.parser.pending) :
      Reads ((c, move) :: past) c' := by
    refine ⟨consumed, ?_, other ▸ frames⟩
    rw [input_cons, split, List.append_assoc, left]
  have grown {value : RespValue} {rest : Bytes}
      (read : parseValue c.parser.pending.length c.parser.pending = .ok (value, rest))
      (asked : requests ((c, .parse) :: past) = value :: requests past) :
      ∃ consumed, input ((c, .parse) :: past) = consumed ++ (c.parser.advance rest).pending ∧
        Frames consumed (requests ((c, .parse) :: past)).reverse := by
    obtain ⟨bytes, left, one⟩ := parse_frames _ _ _ _ read
    refine ⟨consumed ++ bytes, ?_, ?_⟩
    · rw [RespParser.pending_advance left, input_cons, split, left]
      simp [readOf]
    · rw [asked, List.reverse_cons]
      exact frames.append one
  cases hs with
  | read waits some_bytes fits => exact same rfl (RespParser.pending_feed _ _).symm
  | parse at_parse =>
    have parses := @parses toUppercase debug _ past c
    generalize parsed toUppercase debug c = c' at parses same
    cases parses with
    | command read _ asked _ => exact grown read asked
    | refused read _ asked _ => exact grown read asked
    | nothing asked _ stays => rcases stays with rfl | rfl <;> exact same asked (List.append_nil _)
  | @sendFails response replying waits closed =>
    refine same rfl ?_
    cases replying <;> exact List.append_nil _
  | _ => exact same rfl (List.append_nil _)

theorem Serving.step {past : List (Connection × Move)} {c c' : Connection} {move : Move}
    (hs : Step toUppercase debug c move c')
    (h : Serving toUppercase debug c.reader (requests past) (answers past)
      (replies toUppercase debug past)) :
    Serving toUppercase debug c'.reader (requests ((c, move) :: past))
      (answers ((c, move) :: past)) (replies toUppercase debug ((c, move) :: past)) := by
  cases hs with
  | parse at_parse =>
    rw [at_parse] at h
    have parses := @parses toUppercase debug _ past c
    generalize parsed toUppercase debug c = c' at parses
    cases parses with
    | command _ decoded asked settled =>
      rw [asked, settled]
      exact ⟨_, _, rfl, decoded, h⟩
    | refused _ refused asked settled =>
      rw [asked, settled]
      exact .refused refused h
    | nothing asked settled stays =>
      rw [asked, settled]
      rcases stays with rfl | rfl <;> exact h
  | @answer command response waits =>
    rw [waits] at h
    obtain ⟨value, before, asked, decoded, paired⟩ := h
    have answered : answers ((c, .answer response) :: past) =
        (command, response) :: answers past := by
      simp only [answers, List.filterMap_cons, answerOf, waits]
    rw [answered, show requests ((c, .answer response) :: past) = requests past from rfl, asked]
    exact .answered decoded paired
  | @sendFails response replying waits closed =>
    rw [waits] at h
    cases replying <;> exact h
  | read waits some_bytes fits =>
    rw [waits] at h
    exact h
  | endOfFile waits =>
    rw [waits] at h
    exact h
  | readFails waits =>
    rw [waits] at h
    exact h
  | send waits sent =>
    rw [waits] at h
    exact h
  | joined waits ended =>
    rw [waits] at h
    exact h
  | _ => exact h

/-- The reader hands on every reply, as long as there is a writer. -/
structure HandsOn (past : List (Connection × Move)) (c : Connection) (replies : List Response) :
    Prop where
  all : c.responses.receiving = true → replies = c.reader.held.toList ++ sent past
  part : sent past <:+ replies

theorem HandsOn.step {past : List (Connection × Move)} {c c' : Connection} {move : Move}
    (hs : Step toUppercase debug c move c')
    (h : HandsOn past c (replies toUppercase debug past)) :
    HandsOn ((c, move) :: past) c' (replies toUppercase debug ((c, move) :: past)) := by
  obtain ⟨all, part⟩ := h
  cases hs with
  | parse at_parse =>
    rw [at_parse] at all
    have parses := @parses toUppercase debug _ past c
    generalize parsed toUppercase debug c = c' at parses
    cases parses with
    | command _ _ _ settled =>
      rw [settled]
      exact ⟨all, part⟩
    | refused _ _ _ settled =>
      rw [settled]
      exact ⟨fun receiving => congrArg _ (all receiving), part.trans (List.suffix_cons _ _)⟩
    | nothing _ settled stays =>
      rw [settled]
      rcases stays with rfl | rfl <;> exact ⟨all, part⟩
  | @answer command response waits =>
    rw [waits] at all
    exact ⟨fun receiving => congrArg _ (all receiving), part.trans (List.suffix_cons _ _)⟩
  | @send response replying responses waits accepted =>
    have before := all (Channel.trySend_ok accepted).1
    have grown : sent ((c, .send) :: past) = response :: sent past := by
      simp only [sent, List.filterMap_cons, sentOf, waits, Reader.held]
    rw [waits] at before
    refine ⟨fun _ => ?_, ?_⟩
    · rw [grown]
      exact before
    · rw [grown]
      exact before ▸ List.suffix_refl _
  | @sendFails response replying waits closed =>
    have gone := Channel.trySend_closed closed
    refine ⟨fun receiving => absurd receiving ?_, part⟩
    cases replying <;> exact Bool.not_eq_true _ ▸ gone
  | read waits some_bytes fits =>
    rw [waits] at all
    exact ⟨all, part⟩
  | endOfFile waits =>
    rw [waits] at all
    exact ⟨all, part⟩
  | readFails waits =>
    rw [waits] at all
    exact ⟨all, part⟩
  | joined waits ended =>
    rw [waits] at all
    exact ⟨all, part⟩
  | receive waits received =>
    have kept := (Channel.recv_message received).2.2.2
    exact ⟨fun receiving => all (kept.symm.trans receiving), part⟩
  | writeFails busy => exact ⟨fun receiving => absurd receiving Bool.false_ne_true, part⟩
  | writerReturns waits closed => exact ⟨fun receiving => absurd receiving Bool.false_ne_true, part⟩
  | _ => exact ⟨all, part⟩

/-- The writer works off the channel, one reply after the other. -/
structure WorksOff (past : List (Connection × Move)) (c : Connection) : Prop where
  queued : sent past = c.responses.queue.reverse ++ taken past
  writes : Writes c.writer (taken past) (written past)
  stays : c.writer ≠ .returned → c.responses.receiving = true

theorem WorksOff.step {past : List (Connection × Move)} {c c' : Connection} {move : Move}
    (hs : Step toUppercase debug c move c') (h : WorksOff past c) :
    WorksOff ((c, move) :: past) c' := by
  obtain ⟨queued, writes, stays⟩ := h
  have unwritten (none_written : writtenOf (c, move) = []) :
      written ((c, move) :: past) = written past := by
    rw [written_cons, none_written, List.append_nil]
  cases hs with
  | @send response replying responses waits accepted =>
    obtain ⟨_, _, queue, _, _, kept⟩ := Channel.trySend_ok accepted
    have grown : sent ((c, .send) :: past) = response :: sent past := by
      simp only [sent, List.filterMap_cons, sentOf, waits, Reader.held]
    refine ⟨?_, (unwritten rfl) ▸ writes, fun running => kept.trans (stays running)⟩
    rw [grown, queued, queue, List.reverse_append]
    rfl
  | @sendFails response replying waits closed =>
    refine ⟨?_, ?_, ?_⟩
    · cases replying <;> exact queued
    · rw [unwritten rfl]
      cases replying <;> exact writes
    · cases replying <;> exact stays
  | @receive response responses waits received =>
    obtain ⟨queue, _, _, kept⟩ := Channel.recv_message received
    have grown : taken ((c, .receive) :: past) = response :: taken past := by
      simp only [taken, List.filterMap_cons, takenOf, queue, List.head?_cons]
    rw [waits] at writes
    refine ⟨?_, ?_, fun _ => kept.trans (stays (by simp [waits]))⟩
    · rw [grown, show sent ((c, .receive) :: past) = sent past from rfl, queued, queue]
      simp
    · rw [grown, unwritten rfl]
      exact ⟨response, taken past, [], rfl, rfl, writes.trans (List.append_nil _).symm⟩
  | @write left count at_write some_bytes fits =>
    rw [at_write] at writes
    obtain ⟨response, before, put, first, split, whole⟩ := writes
    refine ⟨queued, ?_, fun _ => stays (by simp [at_write])⟩
    refine ⟨response, before, put ++ left.take count, first, ?_, ?_⟩
    · rw [List.append_assoc, List.take_append_drop, split]
    · rw [written_cons, whole, List.append_assoc]
      simp only [writtenOf, at_write, Writer.left]
  | flush all_written =>
    rw [all_written] at writes
    obtain ⟨response, before, put, first, split, whole⟩ := writes
    refine ⟨queued, ?_, fun _ => stays (by simp [all_written])⟩
    rw [List.append_nil] at split
    rw [unwritten rfl, show taken ((c, .flush) :: past) = taken past from rfl, first]
    simp only [Writes, encoded_cons, split, whole]
  | writeFails busy =>
    refine ⟨queued, ?_, fun running => absurd rfl running⟩
    rw [unwritten rfl]
    exact writes.cut
  | writerReturns waits closed =>
    obtain ⟨rfl, _⟩ := Channel.recv_closed closed
    refine ⟨queued, ?_, fun running => absurd rfl running⟩
    rw [unwritten rfl]
    exact writes.cut
  | parse at_parse =>
    have parses := @parses toUppercase debug _ past c
    generalize parsed toUppercase debug c = c' at parses
    cases parses with
    | nothing _ _ stands =>
      rcases stands with rfl | rfl <;> exact ⟨queued, (unwritten rfl) ▸ writes, stays⟩
    | _ => exact ⟨queued, (unwritten rfl) ▸ writes, stays⟩
  | _ => exact ⟨queued, (unwritten rfl) ▸ writes, stays⟩

end

end Connection

end RsDragonfly
