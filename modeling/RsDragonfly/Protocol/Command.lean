import RsDragonfly.Protocol.Resp

/-! `protocol/command.rs`: from a RESP value to a command.
`str::to_uppercase` follows the Unicode tables of the compiler's version; it is
a parameter here, so that nothing rests on a particular table. -/
namespace RsDragonfly

inductive Command where
  | ping (message : Option Bytes)
  | set (key : Key) (value : Value) (ttl : Option UInt64)
  | get (key : Key)
  | del (keys : List Key)
  | expire (key : Key) (seconds : UInt64)
  | ttl (key : Key)
  | info (section_ : Option String)
deriving DecidableEq

inductive CommandError where
  | invalidFormat
  | emptyCommand
  | unknownCommand (name : String)
  | wrongArgCount
  | invalidArgument
deriving DecidableEq

def extractBulkString : RespValue → Except CommandError Bytes
  | .bulkString (some bytes) => .ok bytes
  | .bulkString none => .error .invalidArgument
  | _ => .error .invalidFormat

def extractInteger : RespValue → Except CommandError Int64
  | .integer n => .ok n
  | .bulkString (some bytes) =>
    match parseI64 (fromUtf8Lossy bytes) with
    | some n => .ok n
    | none => .error .invalidArgument
  | .bulkString none => .error .invalidArgument
  | _ => .error .invalidFormat

/-- The range check of `parse_set` and `parse_expire`, with the cast to `u64`. -/
def nonNegativeSeconds (seconds : Int64) : Except CommandError UInt64 :=
  if seconds < 0 then .error .invalidArgument else .ok seconds.toUInt64

/-- The key of a command on one key. -/
def Command.onKey : Command → Option Key
  | .set key _ _ | .get key | .expire key _ | .ttl key => some key
  | _ => none

namespace Command

def parsePing : List RespValue → Except CommandError Command
  | [] => .ok (.ping none)
  | [arg] => do
    let msg ← extractBulkString arg
    return .ping (some msg)
  | _ => .error .wrongArgCount

section
variable (toUppercase : String → String)

/-- The option loop of `parse_set` on the options not yet read, with the TTL found so far. -/
def parseSetOptions : List RespValue → Option UInt64 → Except CommandError (Option UInt64)
  | [], found => .ok found
  | arg :: rest, _ => do
    let option ← extractBulkString arg
    match toUppercase (fromUtf8Lossy option), rest with
    | "EX", [] => .error .wrongArgCount
    | "EX", arg :: rest => do
      let seconds ← extractInteger arg
      let seconds ← nonNegativeSeconds seconds
      parseSetOptions rest (some seconds)
    | _, _ => .error .invalidArgument

def parseSet : List RespValue → Except CommandError Command
  | keyArg :: valueArg :: options => do
    let key ← extractBulkString keyArg
    let value ← extractBulkString valueArg
    let found ← parseSetOptions toUppercase options none
    return .set key (.string value) found
  | _ => .error .wrongArgCount

def parseGet : List RespValue → Except CommandError Command
  | [arg] => do
    let key ← extractBulkString arg
    return .get key
  | _ => .error .wrongArgCount

def parseDel : List RespValue → Except CommandError Command
  | [] => .error .wrongArgCount
  | args => do
    let keys ← args.mapM extractBulkString
    return .del keys

def parseExpire : List RespValue → Except CommandError Command
  | [keyArg, secondsArg] => do
    let key ← extractBulkString keyArg
    let seconds ← extractInteger secondsArg
    let seconds ← nonNegativeSeconds seconds
    return .expire key seconds
  | _ => .error .wrongArgCount

def parseTtl : List RespValue → Except CommandError Command
  | [arg] => do
    let key ← extractBulkString arg
    return .ttl key
  | _ => .error .wrongArgCount

def parseInfo : List RespValue → Except CommandError Command
  | [] => .ok (.info none)
  | arg :: _ => do
    let s ← extractBulkString arg
    return .info (some (fromUtf8Lossy s))

def fromResp : RespValue → Except CommandError Command
  | .array (some (.bulkString (some bytes) :: args)) =>
    let cmdName := toUppercase (fromUtf8Lossy bytes)
    match cmdName with
    | "PING" => parsePing args
    | "SET" => parseSet toUppercase args
    | "GET" => parseGet args
    | "DEL" => parseDel args
    | "EXPIRE" => parseExpire args
    | "TTL" => parseTtl args
    | "INFO" => parseInfo args
    | _ => .error (.unknownCommand cmdName)
  | .array (some (_ :: _)) => .error .invalidFormat
  | .array _ => .error .emptyCommand
  | _ => .error .invalidFormat

end

end Command

end RsDragonfly
