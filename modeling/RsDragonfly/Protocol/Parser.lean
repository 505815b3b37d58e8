import RsDragonfly.Protocol.Resp

/-! `protocol/parser.rs`, and how `handle_connection` drives the parser.
Reads take the bytes not yet read and give back the rest. The call stack is taken
to be deep enough and memory to be there, but a capacity beyond the address space
panics as it does in the source. -/
namespace RsDragonfly

inductive ParseError where
  | incomplete
  | invalidType (byte : UInt8)
  | invalidInteger
  | invalidLength
  | invalidFormat
deriving DecidableEq

inductive ParseFailure where
  | error (e : ParseError)
  | panic
deriving DecidableEq

def crlf : Bytes := [13, 10]

/-- `read_until(b'\n')`: up to and with the first line feed, or everything. -/
def readUntilLf : Bytes → Bytes × Bytes
  | [] => ([], [])
  | b :: rest =>
    if b = 10 then ([b], rest)
    else
      let (line, rest) := readUntilLf rest
      (b :: line, rest)

def readCrlfLine (input : Bytes) : Except ParseFailure (Bytes × Bytes) :=
  let (line, rest) := readUntilLf input
  if line.length = 0 then .error (.error .incomplete)
  else if line.length < 2 ∨ line.drop (line.length - 2) ≠ crlf then .error (.error .invalidFormat)
  else .ok (line.take (line.length - 2), rest)

def readExactOrIncomplete (n : Nat) (input : Bytes) : Except ParseFailure (Bytes × Bytes) :=
  if n ≤ input.length then .ok (input.take n, input.drop n) else .error (.error .incomplete)

/-- The decimal number of a line. -/
def lineInteger (line : Bytes) : Except ParseFailure Int64 :=
  match fromUtf8 line >>= parseI64 with
  | some n => .ok n
  | none => .error (.error .invalidInteger)

def parseSimpleString (input : Bytes) : Except ParseFailure (RespValue × Bytes) := do
  let (line, rest) ← readCrlfLine input
  return (.simpleString (fromUtf8Lossy line), rest)

def parseError (input : Bytes) : Except ParseFailure (RespValue × Bytes) := do
  let (line, rest) ← readCrlfLine input
  return (.error (fromUtf8Lossy line), rest)

def parseInteger (input : Bytes) : Except ParseFailure (RespValue × Bytes) := do
  let (line, rest) ← readCrlfLine input
  let n ← lineInteger line
  return (.integer n, rest)

def parseBulkString (input : Bytes) : Except ParseFailure (RespValue × Bytes) := do
  let (line, rest) ← readCrlfLine input
  let len ← lineInteger line
  if len = -1 then return (.bulkString none, rest)
  else if len < -1 then throw (.error .invalidLength)
  else if len.toNatClampNeg > maxValueSize then throw (.error .invalidLength)
  else
    let (data, rest) ← readExactOrIncomplete len.toNatClampNeg rest
    let (ends, rest) ← readExactOrIncomplete 2 rest
    if ends ≠ crlf then throw (.error .invalidFormat)
    else return (.bulkString (some data), rest)

section
variable (parseValue : Bytes → Except ParseFailure (RespValue × Bytes))

/-- The loop of `parse_array` over the elements that are left. -/
def parseElements : Nat → Bytes → Except ParseFailure (List RespValue × Bytes)
  | 0, input => .ok ([], input)
  | count + 1, input => do
    let (element, rest) ← parseValue input
    let (elements, rest) ← parseElements count rest
    return (element :: elements, rest)

variable [Layout]

def parseArray (input : Bytes) : Except ParseFailure (RespValue × Bytes) := do
  let (line, rest) ← readCrlfLine input
  let count ← lineInteger line
  if count = -1 then return (.array none, rest)
  else if count < -1 then throw (.error .invalidLength)
  else if count.toNatClampNeg * Layout.sizeOfRespValue > isizeMax then throw .panic
  else
    let (elements, rest) ← parseElements parseValue count.toNatClampNeg rest
    return (.array (some elements), rest)

end

/-- Each nested value starts with a byte of its own, so the length of the input
bounds the depth of the recursion. -/
def parseValue [Layout] : Nat → Bytes → Except ParseFailure (RespValue × Bytes)
  | 0, _ => .error (.error .incomplete)
  | depth + 1, input =>
    match input with
    | [] => .error (.error .incomplete)
    | 43 :: rest => parseSimpleString rest
    | 45 :: rest => parseError rest
    | 58 :: rest => parseInteger rest
    | 36 :: rest => parseBulkString rest
    | 42 :: rest => parseArray (parseValue depth) rest
    | other :: _ => .error (.error (.invalidType other))

structure RespParser where
  buffer : Bytes
  cursor : Nat
  inside : cursor ≤ buffer.length

namespace RespParser

def new : RespParser := ⟨[], 0, Nat.le_refl 0⟩

/-- The bytes fed and not yet consumed. -/
def pending (p : RespParser) : Bytes := p.buffer.drop p.cursor

def feed (p : RespParser) (data : Bytes) : RespParser where
  buffer := p.buffer ++ data
  cursor := p.cursor
  inside := by
    rw [List.length_append]
    exact Nat.le_add_right_of_le p.inside

def compact (p : RespParser) : RespParser := ⟨p.buffer.drop p.cursor, 0, Nat.zero_le _⟩

/-- The cursor moves to where the reader stopped. -/
def advance (p : RespParser) (rest : Bytes) : RespParser where
  buffer := p.buffer
  cursor := p.cursor + (p.pending.length - rest.length)
  inside := by
    have inside := p.inside
    simp only [pending, List.length_drop]
    omega

def parse [Layout] (p : RespParser) : Except ParseFailure (Option RespValue) × RespParser :=
  if p.cursor ≥ p.buffer.length then (.ok none, p)
  else
    match parseValue p.pending.length p.pending with
    | .ok (value, rest) => (.ok (some value), p.advance rest)
    | .error (.error .incomplete) => (.ok none, p)
    | .error e => (.error e, p)

end RespParser

section
variable [Layout]

/-- The inner loop of `handle_connection`: the values parsed, and the failure it
stopped at, if any. Each value takes a byte, so the buffer bounds the rounds. -/
def drainLoop : Nat → RespParser → List RespValue × Option ParseFailure × RespParser
  | 0, p => ([], none, p)
  | rounds + 1, p =>
    match p.parse with
    | (.ok none, next) => ([], none, next)
    | (.error e, next) => ([], some e, next)
    | (.ok (some value), next) =>
      let (values, failure, last) := drainLoop rounds next
      (value :: values, failure, last)

def drain (p : RespParser) : List RespValue × Option ParseFailure × RespParser :=
  drainLoop (p.pending.length + 1) p

/-- The reader loop of `handle_connection` over the chunks that arrive. -/
def drive (p : RespParser) : List Bytes → List RespValue × Option ParseFailure
  | [] => ([], none)
  | chunk :: chunks =>
    let (values, failure, next) := drain (p.feed chunk)
    match failure with
    | some e => (values, some e)
    | none =>
      let (more, outcome) := drive next.compact chunks
      (values ++ more, outcome)

end

end RsDragonfly
