import Mathlib.Algebra.Group.Int.Defs
import RsDragonfly.Common.Types
import RsDragonfly.Library.Utf8

/-! `protocol/resp.rs`, `protocol/response.rs` and the string functions of `std`
that the protocol layer calls. -/
namespace RsDragonfly

inductive RespValue where
  | simpleString (s : String)
  | error (s : String)
  | integer (n : Int64)
  | bulkString (bytes : Option Bytes)
  | array (elements : Option (List RespValue))

inductive Response where
  | value (v : Option Value)
  | integer (n : Int64)
  | ok
  | error (msg : String)
deriving DecidableEq

def fromUtf8Lossy (bytes : Bytes) : String := Library.Utf8.lossy bytes

def fromUtf8 (bytes : Bytes) : Option String := Library.Utf8.strict bytes

def parseDigits : List Char → Option Nat
  | [] => none
  | digits => digits.foldlM (fun n c => if c.isDigit then some (10 * n + (c.toNat - 48)) else none) 0

/-- `str::parse::<i64>`: an optional sign, then decimal digits within range. -/
def parseI64 (s : String) : Option Int64 :=
  let inRange (n : Int) : Option Int64 :=
    if -(2 ^ 63) ≤ n ∧ n < 2 ^ 63 then some (Int64.ofInt n) else none
  match s.toList with
  | '-' :: digits => parseDigits digits >>= fun n => inRange (-n)
  | '+' :: digits => parseDigits digits >>= fun n => inRange n
  | digits => parseDigits digits >>= fun n => inRange n

end RsDragonfly
