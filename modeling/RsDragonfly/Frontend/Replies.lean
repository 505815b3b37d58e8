import RsDragonfly.Frontend.Connection
import RsDragonfly.Frontend.Books
import RsDragonfly.Protocol.Documented
import RsDragonfly.Protocol.Reparse

/-! One reply for each frame.
Client bytes come back in bulk strings, which carry their length, and in the text of
a decoding error, which is a line. A reply parses as itself if its text is one line
and its data is within the limit of the parser. -/
namespace RsDragonfly
open Library

/-- `Debug` as it is derived, given the one of a string. -/
def CommandError.debug (debugString : String → String) : CommandError → String
  | .invalidFormat => "InvalidFormat"
  | .emptyCommand => "EmptyCommand"
  | .unknownCommand name => "UnknownCommand(" ++ debugString name ++ ")"
  | .wrongArgCount => "WrongArgCount"
  | .invalidArgument => "InvalidArgument"

theorem CommandError.debug_one_line {debugString : String → String}
    (escapes : ∀ s, '\n' ∉ (debugString s).toList) (e : CommandError) :
    '\n' ∉ (e.debug debugString).toList := by
  have one_line : ∀ text ∈ ["InvalidFormat", "EmptyCommand", "WrongArgCount", "InvalidArgument"],
      '\n' ∉ text.toList := by decide
  cases e with
  | unknownCommand name =>
    change '\n' ∉ ("UnknownCommand(" ++ debugString name ++ ")").toList
    simp only [String.toList_append, List.mem_append, not_or]
    exact ⟨⟨by decide, escapes name⟩, by decide⟩
  | invalidFormat => exact one_line "InvalidFormat" (by simp)
  | emptyCommand => exact one_line "EmptyCommand" (by simp)
  | wrongArgCount => exact one_line "WrongArgCount" (by simp)
  | invalidArgument => exact one_line "InvalidArgument" (by simp)

/-! The texts of the handler. -/

/-- A response whose bytes parse as itself. -/
def Response.Sendable [Layout] (response : Response) : Prop :=
  RsDragonfly.Sendable (responseToResp response)

section
variable [Layout]

theorem Response.sendable_error {text : String} :
    (Response.error text).Sendable ↔ '\n' ∉ text.toList := by
  constructor
  · intro h
    cases h with
    | error one_line => exact one_line
  · exact .error

theorem Outcome.single_sendable {outcome : Outcome}
    (reply : ∀ response, outcome = .replied response → response.Sendable) :
    outcome.single.Sendable := by
  cases outcome with
  | replied response => exact reply response rfl
  | _ => exact Response.sendable_error.mpr (by decide)

theorem Outcome.part_sendable {outcome : Outcome}
    (reply : ∀ response, outcome = .replied response → response.Sendable) :
    outcome.part.Sendable := by
  cases outcome with
  | replied response => exact reply response rfl
  | _ => exact Response.sendable_error.mpr (by decide)

omit [Layout] in
theorem not_mem_intercalate {c : Char} {separator : String} (clear : c ∉ separator.toList)
    {texts : List String} (each : ∀ text ∈ texts, c ∉ text.toList) :
    c ∉ (separator.intercalate texts).toList := by
  induction texts with
  | nil => simp
  | cons text texts ih =>
    rw [List.forall_mem_cons] at each
    cases texts with
    | nil =>
      rw [String.intercalate_singleton]
      exact each.1
    | cons next texts =>
      rw [String.intercalate_cons_cons, String.toList_append, String.toList_append]
      simp only [List.mem_append, not_or]
      exact ⟨⟨each.1, clear⟩, ih each.2⟩

theorem joinDel_sendable {responses : List Response}
    (each : ∀ response ∈ responses, response.Sendable) : (joinDel responses).Sendable := by
  simp only [joinDel]
  split
  · exact .integer _
  · have one_line : ∀ e ∈ (tally responses).2, '\n' ∉ e.toList := by
      intro e member
      rw [tally_errors] at member
      obtain ⟨response, listed, text⟩ := List.mem_filterMap.mp member
      cases response with
      | error e' =>
        cases text
        exact Response.sendable_error.mp (each _ listed)
      | _ => cases text
    rw [Response.sendable_error, String.toList_append, List.mem_append, not_or]
    exact ⟨by decide, not_mem_intercalate (by decide) one_line⟩

theorem answer_sendable (command : Command) {outcomes : List Outcome}
    (replies : ∀ response, .replied response ∈ outcomes → response.Sendable) :
    (answer command outcomes).Sendable := by
  unfold answer
  split
  · apply joinDel_sendable
    rw [List.forall_mem_map]
    intro outcome member
    exact outcome.part_sendable fun response same => replies response (same ▸ member)
  · split
    · rename_i outcome
      exact outcome.single_sendable fun response same =>
        replies response (same ▸ List.mem_cons_self)
    · exact Response.sendable_error.mpr (by decide)

end

/-! The replies of a shard. -/

theorem length_utf8_append (s t : String) :
    (utf8 (s ++ t)).length = (utf8 s).length + (utf8 t).length := by
  simp only [utf8, Library.Utf8.bytes_of_string, String.toList_append, List.flatMap_append,
    List.length_append]

theorem length_utf8_toString {n : Nat} (small : n < 2 ^ 64) : (utf8 (toString n)).length ≤ 80 := by
  have chars (cs : List Char) : (cs.flatMap String.utf8EncodeChar).length ≤ 4 * cs.length := by
    induction cs with
    | nil => exact Nat.le_refl _
    | cons c cs ih =>
      have one := c.utf8Size_le_four
      rw [List.flatMap_cons, List.length_append, String.length_utf8EncodeChar, List.length_cons]
      omega
  have digits : (Nat.toDigits 10 n).length ≤ 20 :=
    (Nat.length_toDigits_le_iff (by decide) (by decide)).mpr (Nat.lt_trans small (by decide))
  have shown : (toString n).toList = Nat.toDigits 10 n := Nat.toList_repr
  have bytes := chars (toString n).toList
  rw [utf8, Library.Utf8.bytes_of_string]
  rw [shown] at bytes ⊢
  omega

namespace Shard

section
variable {Q : Type} [MaxQueue Q Expiry] [Layout]

omit [MaxQueue Q Expiry] [Layout] in
theorem cmdInfo_fits {s s' : Shard Q} {now : Instant} {section_ : Option String} {value : Value}
    (h : s.cmdInfo now section_ = (s', .value (some value))) : value.sizeBytes ≤ maxValueSize := by
  have fits (title first second : String) {m n : Nat} (hm : m < 2 ^ 64) (hn : n < 2 ^ 64)
      (short : (utf8 title).length + (utf8 first).length + (utf8 second).length ≤ 1000) :
      (utf8 (title ++ (first ++ toString m ++ "\r\n") ++ (second ++ toString n ++ "\r\n"))).length ≤
        maxValueSize := by
    have number := length_utf8_toString hm
    have number' := length_utf8_toString hn
    have ending : (utf8 "\r\n").length = 2 := rfl
    simp only [length_utf8_append, maxValueSize]
    omega
  have id_fits : s.id.id.toNat < 2 ^ 64 := Nat.lt_trans s.id.id.toNat_lt (by decide)
  unfold cmdInfo at h
  split at h
  · cases h
    exact fits _ _ _ id_fits (UInt64.toNat_lt _) (by decide)
  · cases h
    exact fits _ _ _ id_fits (UInt64.toNat_lt _) (by decide)
  · cases h
    exact fits _ _ _ (UInt64.toNat_lt _) (UInt64.toNat_lt _) (by decide)
  · cases h
    exact fits _ _ _ (UInt64.toNat_lt _) (UInt64.toNat_lt _) (by decide)
  · cases h

/-- A value is within the limit of the parser, for a PING if its message is. -/
theorem execute_value_fits {past : List (Shard Q × Event)} {s s' : Shard Q} (run : Run Q past s)
    {now : Instant} {c : Command} {value : Value}
    (h : s.execute now c = some (s', .value (some value)))
    (message_fits : ∀ message, c = .ping (some message) → message.length ≤ maxValueSize) :
    value.sizeBytes ≤ maxValueSize := by
  obtain ⟨next, dispatched, rfl⟩ := execute_cases h
  cases c with
  | ping message =>
    cases message with
    | none =>
      cases dispatched
      decide
    | some message =>
      cases dispatched
      exact message_fits message rfl
  | set key value ttl =>
    rcases cmdSet_cases dispatched with ⟨_, _, failed⟩ | ⟨done, _⟩
    · cases failed
    · cases done
  | get key =>
    have answered := cmdGet_response s now key
    rw [Option.some.inj dispatched] at answered
    obtain ⟨x, live, same⟩ := Option.map_eq_some_iff.mp (Response.value.inj answered).symm
    obtain ⟨entry, found, rfl, _⟩ := lookup_of_live live
    cases same
    exact (wellFormed_run run).value_fits key entry found
  | del keys => cases dispatched
  | expire key seconds => cases cmdExpire_response dispatched
  | ttl key =>
    have answered := cmdTtl_response s now key
    rw [Option.some.inj dispatched] at answered
    cases answered
  | info section_ => exact cmdInfo_fits (Option.some.inj dispatched)

theorem execute_sendable {past : List (Shard Q × Event)} {s s' : Shard Q} (run : Run Q past s)
    {now : Instant} {c : Command} {response : Response}
    (h : s.execute now c = some (s', response))
    (message_fits : ∀ message, c = .ping (some message) → message.length ≤ maxValueSize) :
    response.Sendable := by
  cases response with
  | value found =>
    cases found with
    | none => exact .nullBulk
    | some value =>
      have fits := execute_value_fits run h message_fits
      cases value
      exact .bulk fits
  | integer n => exact .integer n
  | ok => exact .simpleString (by decide)
  | error text =>
    have one_line : ∀ text ∈ ["ERR key too large", "ERR value too large", "ERR shard full",
        "ERR OOM command not allowed when used memory > 'maxmemory'", "ERR unknown section"],
        '\n' ∉ text.toList := by decide
    exact Response.sendable_error.mpr (one_line text (execute_error h))

end

end Shard

/-! The answers of the handler. -/

/-- What a connection sends for a frame: the text of a decoding error, or what came back
for the command in the frame. -/
inductive Answered {ι : Type} (toUppercase debugString : String → String) (acts : List (Act ι))
    (value : RespValue) : Response → Prop where
  | refused {response : Response} (replying : Bool)
      (received : Connection.received toUppercase (CommandError.debug debugString) value =
        .sending response replying) : Answered toUppercase debugString acts value response
  | processed {t : Ticket ι} {command : Command} {response : Response}
      (received : Connection.received toUppercase (CommandError.debug debugString) value =
        .processing command)
      (answered : .answer t command response ∈ acts) :
      Answered toUppercase debugString acts value response

theorem received_processing {toUppercase : String → String} {debug : CommandError → String}
    {value : RespValue} {command : Command}
    (received : Connection.received toUppercase debug value = .processing command) :
    Command.fromResp toUppercase value = .ok command := by
  unfold Connection.received at received
  split at received
  · cases received
    assumption
  · cases received

theorem received_sending {toUppercase : String → String} {debug : CommandError → String}
    {value : RespValue} {response : Response} {replying : Bool}
    (received : Connection.received toUppercase debug value = .sending response replying) :
    ∃ e, response = .error ("ERR " ++ debug e) := by
  unfold Connection.received at received
  split at received
  · cases received
  · cases received
    exact ⟨_, rfl⟩

theorem ping_message_fits [Layout] {toUppercase : String → String} {value : RespValue}
    {message : Bytes} (sendable : Sendable value)
    (decoded : Command.fromResp toUppercase value = .ok (.ping (some message))) :
    message.length ≤ maxValueSize := by
  obtain ⟨_, _, _, rfl, _, arguments⟩ := fromResp_ok_iff.mp decoded
  cases arguments
  cases sendable with
  | array _ members =>
    cases members (.bulkString (some message)) (by simp) with
    | bulk fits => exact fits

theorem Plans.ping_part {command : Command} {parts : List Part} (plan : Plans command parts)
    {part : Part} (member : part ∈ parts) {message : Option Bytes}
    (ping : part.command = .ping message) : command = .ping message := by
  cases goes : target command with
  | some id =>
    obtain ⟨shard, rfl, _⟩ := plan.single_eq goes
    rw [← ping, List.mem_singleton.mp member]
  | none =>
    cases command with
    | del keys =>
      rw [(plan.del_part member).1] at ping
      cases ping
    | _ => cases goes

namespace Traffic

section
variable {ι Q : Type} [DecidableEq ι] [MaxQueue Q Expiry] [Layout]
  {past : List (Traffic ι Q × Act ι)} {σ : Traffic ι Q}

theorem reply_sendable (run : (traffic ι Q).Run past σ) {t : Ticket ι} {command : Command}
    {parts : List Part} (origin : .issue t command parts ∈ acts past)
    (message_fits : ∀ message, command = .ping (some message) → message.length ≤ maxValueSize)
    {i : Fin shardCount} {response : Response}
    (replied : .done t i (.replied response) ∈ acts past) : response.Sendable := by
  have sound := sound_run run
  obtain ⟨m, executed, rfl⟩ := sound.delivers t i response replied
  have plan := (sound.issues _ command parts origin).2.1
  have planned := sound.planned origin (mem_executionsOf executed)
  obtain ⟨now, member⟩ := mem_executions_iff.mp executed
  obtain ⟨_, σ₁, σ₂, before, step, _⟩ := taken_of_mem run member
  cases step with
  | work works =>
    cases works with
    | @execute shard _ _ _ _ executing returned =>
      obtain ⟨earlier, reached⟩ := reached_run before i shard (by rw [executing]; rfl)
      refine Shard.execute_sendable reached returned ?_
      intro message ping
      exact message_fits message (plan.ping_part planned ping)

theorem response_sendable (run : (traffic ι Q).Run past σ) {t : Ticket ι} {command : Command}
    (message_fits : ∀ message, command = .ping (some message) → message.length ≤ maxValueSize)
    {response : Response} (answered : .answer t command response ∈ acts past) :
    response.Sendable := by
  obtain ⟨parts, outcomes, origin, lengths, rfl, ended⟩ :=
    (sound_run run).answers t command response answered
  apply answer_sendable
  intro reply member
  have zipped : (parts.zip outcomes).map Prod.snd = outcomes :=
    List.map_snd_zip (Nat.le_of_eq lengths)
  rw [← zipped] at member
  obtain ⟨⟨part, outcome⟩, listed, same⟩ := List.mem_map.mp member
  cases same
  exact reply_sendable run origin message_fits (ended _ listed)

/-- Whatever a client sends and whatever becomes of it, the bytes written for one frame
are one value, and that value is the response. -/
theorem no_response_splitting {toUppercase debugString : String → String}
    (escapes : ∀ s, '\n' ∉ (debugString s).toList) (run : (traffic ι Q).Run past σ)
    {p : RespParser} {value : RespValue} {n : Nat} (accepted : p.Accepts value n)
    {response : Response}
    (answered : Answered toUppercase debugString (acts past) value response) :
    (RespParser.new.feed (serializeResp2 (responseToResp response))).Accepts
      (responseToResp response) (serializeResp2 (responseToResp response)).length := by
  apply Sendable.accepts
  cases answered with
  | refused _ received =>
    obtain ⟨e, rfl⟩ := received_sending received
    rw [← Response.Sendable, Response.sendable_error, String.toList_append, List.mem_append,
      not_or]
    exact ⟨by decide, e.debug_one_line escapes⟩
  | processed received answered =>
    have decoded := received_processing received
    refine response_sendable run ?_ answered
    rintro message rfl
    exact ping_message_fits accepted.sendable decoded

end

/-- `Debug` of a string of printable ASCII characters and line ends. -/
def debugText (s : String) : String :=
  String.ofList ('"' :: s.toList.flatMap (fun
    | '\n' => ['\\', 'n']
    | '\r' => ['\\', 'r']
    | '"' => ['\\', '"']
    | '\\' => ['\\', '\\']
    | c => [c]) ++ ['"'])

theorem debugText_one_line (s : String) : '\n' ∉ (debugText s).toList := by
  rw [debugText, String.toList_ofList]
  simp only [List.cons_append, List.mem_cons, List.mem_append, List.mem_flatMap, List.not_mem_nil,
    or_false, not_or, not_exists, not_and]
  refine ⟨by decide, ?_, by decide⟩
  intro c _ member
  split at member <;> simp at member
  exact absurd member.symm (by assumption)

theorem two_line_name_not_split :
    (@RespParser.parse linux64 (RespParser.new.feed (utf8 "*1\r\n$3\r\nx\ny\r\n"))).1 =
      .ok (some (.array (some [.bulkString (some (utf8 "x\ny"))]))) ∧
    @RespParser.Accepts linux64
      (RespParser.new.feed (utf8 "-ERR UnknownCommand(\"X\\nY\")\r\n"))
      (.error "ERR UnknownCommand(\"X\\nY\")") 29 := by
  let _ := linux64
  have accepted : (RespParser.new.feed (utf8 "*1\r\n$3\r\nx\ny\r\n")).Accepts
      (.array (some [.bulkString (some (utf8 "x\ny"))])) 13 := ⟨_, rfl, rfl, rfl⟩
  have run : (traffic Unit (SortedQueue Expiry)).Run [] ⟨fun _ => ⟨0, none⟩, fun i =>
      ⟨.new commandChannelCapacity, .waiting (.new ⟨UInt16.ofNat i⟩ (.ofSecs 0)),
        fun _ => .empty⟩⟩ :=
    .start ⟨fun _ => rfl, fun _ => .ofSecs 0, fun _ => rfl⟩
  have decoded : fromUtf8Lossy (utf8 "x\ny") = "x\ny" := by decide
  have name : String.toUpper (fromUtf8Lossy (utf8 "x\ny")) = "X\nY" := by
    rw [decoded, toUpper_eq]
    decide
  have received : Connection.received String.toUpper (CommandError.debug debugText)
      (.array (some [.bulkString (some (utf8 "x\ny"))])) =
      .sending (.error "ERR UnknownCommand(\"X\\nY\")") false := by
    simp only [Connection.received, Command.fromResp, name]
    rfl
  exact ⟨rfl, no_response_splitting debugText_one_line run accepted (.refused false received)⟩

end Traffic

end RsDragonfly
