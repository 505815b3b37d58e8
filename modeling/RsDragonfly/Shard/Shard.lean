import RsDragonfly.Common.Time
import RsDragonfly.Library.KeyedMap
import RsDragonfly.Library.MaxQueue
import RsDragonfly.Protocol.Command

/-! `shard/entry.rs`, `shard/expiry.rs` and `shard/shard.rs`.
A command reads the clock once here: the readings the source makes within one
command decide together. Access times kept for later eviction are left out, as
nothing reads them. A result of `none` is a panic. -/
namespace RsDragonfly
open Library

structure Entry where
  value : Value
  expiry : Option Instant
deriving DecidableEq

def Entry.isExpired (e : Entry) (now : Instant) : Bool :=
  match e.expiry with
  | none => false
  | some exp => decide (now ≥ exp)

structure Expiry where
  expiryTime : Instant
  key : Key
deriving DecidableEq

/- The reversed comparison of `Ord for Expiry`: the greatest is the earliest. -/
instance : LE Expiry := ⟨fun a b => b.expiryTime ≤ a.expiryTime⟩

instance : DecidableLE Expiry :=
  fun a b => inferInstanceAs (Decidable (b.expiryTime ≤ a.expiryTime))

theorem Expiry.le_iff {a b : Expiry} : a ≤ b ↔ b.expiryTime ≤ a.expiryTime := Iff.rfl

instance : @Std.Total Expiry (· ≥ ·) := ⟨fun a b => le_total a.expiryTime b.expiryTime⟩

instance : IsTrans Expiry (· ≥ ·) := ⟨fun _ _ _ hab hbc => le_trans (α := Instant) hab hbc⟩

structure ShardMetrics where
  commandsProcessed : UInt64
  keysExpired : UInt64
  keyCount : UInt64
  memoryBytes : UInt64
  startTime : Instant

def ShardMetrics.new (now : Instant) : ShardMetrics := ⟨0, 0, 0, 0, now⟩

def ShardMetrics.uptimeSeconds (m : ShardMetrics) (now : Instant) : UInt64 :=
  Duration.asSecs (now.saturatingDurationSince m.startTime)

def ShardMetrics.recordCommand (m : ShardMetrics) : ShardMetrics :=
  { m with commandsProcessed := m.commandsProcessed + 1 }

/-- `Q` is the `BinaryHeap`, any queue that hands out an earliest deadline. -/
structure Shard (Q : Type) where
  id : ShardId
  data : KeyedMap Key Entry
  ttlQueue : Q
  metrics : ShardMetrics
  maxMemoryBytes : Nat
  maxKeys : Nat

def entrySizeBytes [Layout] (key : Key) (value : Value) : Nat :=
  key.length + value.sizeBytes + Layout.sizeOfEntry

namespace Shard
variable {Q : Type} [MaxQueue Q Expiry] [Layout]

def new (id : ShardId) (now : Instant) : Shard Q where
  id := id
  data := ∅
  ttlQueue := MaxQueue.empty
  metrics := .new now
  maxMemoryBytes := maxMemoryPerShard
  maxKeys := maxKeysPerShard

def cmdPing (s : Shard Q) (message : Option Bytes) : Shard Q × Response :=
  match message with
  | none => (s, .value (some (.string (utf8 "PONG"))))
  | some msg => (s, .value (some (.string msg)))

/-- The expiry of a SET: absent without a TTL, else the clock plus the TTL. -/
def setExpiry (now : Instant) : Option UInt64 → Option (Option Instant)
  | none => some none
  | some secs => (now.add (Duration.fromSecs secs)).map some

def oldSize (s : Shard Q) (key : Key) : Nat :=
  match s.data.lookup key with
  | some e => entrySizeBytes key e.value
  | none => 0

def store (s : Shard Q) (key : Key) (value : Value) (expiry : Option Instant) : Shard Q :=
  let data := s.data.insert key ⟨value, expiry⟩
  let freed :=
    if s.oldSize key > 0 then s.metrics.memoryBytes - UInt64.ofNat (s.oldSize key)
    else s.metrics.memoryBytes
  { s with
    data := data
    ttlQueue := match expiry with
      | some expTime => MaxQueue.push s.ttlQueue ⟨expTime, key⟩
      | none => s.ttlQueue
    metrics := { s.metrics with
      memoryBytes := freed + UInt64.ofNat (entrySizeBytes key value)
      keyCount := UInt64.ofNat (KeyedMap.size data) } }

def cmdSet (s : Shard Q) (now : Instant) (key : Key) (value : Value) (ttl : Option UInt64) :
    Option (Shard Q × Response) :=
  if key.length > maxKeySize then some (s, .error "ERR key too large")
  else if value.sizeBytes > maxValueSize then some (s, .error "ERR value too large")
  else if key ∉ s.data ∧ KeyedMap.size s.data ≥ s.maxKeys then some (s, .error "ERR shard full")
  else do
    let expiry ← setExpiry now ttl
    let grown ← usizeAdd s.metrics.memoryBytes.toNat (entrySizeBytes key value)
    let projected ← usizeSub grown (s.oldSize key)
    if projected > s.maxMemoryBytes then
      return (s, .error "ERR OOM command not allowed when used memory > 'maxmemory'")
    else return (s.store key value expiry, .ok)

def removeKeyUpdateMetrics (s : Shard Q) (key : Key) : Shard Q × Bool :=
  match s.data.lookup key with
  | some old =>
    let data := s.data.erase key
    ({ s with
      data := data
      metrics := { s.metrics with
        memoryBytes := s.metrics.memoryBytes - UInt64.ofNat (entrySizeBytes key old.value)
        keyCount := UInt64.ofNat (KeyedMap.size data) } }, true)
  | none => (s, false)

def countExpired (s : Shard Q) : Shard Q :=
  { s with metrics := { s.metrics with keysExpired := s.metrics.keysExpired + 1 } }

/-- Lazy expiry, shared by GET and TTL. -/
def expireLazily (s : Shard Q) (key : Key) : Shard Q :=
  (s.removeKeyUpdateMetrics key).1.countExpired

def cmdGet (s : Shard Q) (now : Instant) (key : Key) : Shard Q × Response :=
  match s.data.lookup key with
  | none => (s, .value none)
  | some entry =>
    if entry.isExpired now then (s.expireLazily key, .value none)
    else (s, .value (some entry.value))

def delKeys (s : Shard Q) : List Key → Int64 → Shard Q × Int64
  | [], deleted => (s, deleted)
  | key :: keys, deleted =>
    let (next, removed) := s.removeKeyUpdateMetrics key
    delKeys next keys (if removed then deleted + 1 else deleted)

def cmdDel (s : Shard Q) (keys : List Key) : Shard Q × Response :=
  let (next, deleted) := s.delKeys keys 0
  (next, .integer deleted)

def redate (s : Shard Q) (key : Key) (entry : Entry) (expiryTime : Instant) : Shard Q :=
  { s with
    data := s.data.insert key { entry with expiry := some expiryTime }
    ttlQueue := MaxQueue.push s.ttlQueue ⟨expiryTime, key⟩ }

def cmdExpire (s : Shard Q) (now : Instant) (key : Key) (seconds : UInt64) :
    Option (Shard Q × Response) :=
  match s.data.lookup key with
  | some entry => do
    let expiryTime ← now.add (Duration.fromSecs seconds)
    return (s.redate key entry expiryTime, .integer 1)
  | none => some (s, .integer 0)

def cmdTtl (s : Shard Q) (now : Instant) (key : Key) : Shard Q × Response :=
  match s.data.lookup key with
  | none => (s, .integer (-2))
  | some entry =>
    match entry.expiry with
    | none => (s, .integer (-1))
    | some exp =>
      if now ≥ exp then (s.expireLazily key, .integer (-2))
      else (s, .integer (Duration.asSecs (exp.saturatingDurationSince now)).toInt64)

def cmdInfo (s : Shard Q) (now : Instant) (section_ : Option String) : Shard Q × Response :=
  let info (text : String) : Shard Q × Response := (s, .value (some (.string (utf8 text))))
  match section_ with
  | none | some "server" =>
    info ("# Server\r\n" ++ s!"shard_id:{s.id.id}\r\n"
      ++ s!"uptime_seconds:{s.metrics.uptimeSeconds now}\r\n")
  | some "stats" =>
    info ("# Stats\r\n" ++ s!"total_commands_processed:{s.metrics.commandsProcessed}\r\n"
      ++ s!"keys_expired:{s.metrics.keysExpired}\r\n")
  | some "memory" =>
    info ("# Memory\r\n" ++ s!"used_memory:{s.metrics.memoryBytes}\r\n"
      ++ s!"key_count:{s.metrics.keyCount}\r\n")
  | some _ => (s, .error "ERR unknown section")

/-- The `match` of `execute`. -/
def dispatch (s : Shard Q) (now : Instant) : Command → Option (Shard Q × Response)
  | .ping message => some (s.cmdPing message)
  | .set key value ttl => s.cmdSet now key value ttl
  | .get key => some (s.cmdGet now key)
  | .del keys => some (s.cmdDel keys)
  | .expire key seconds => s.cmdExpire now key seconds
  | .ttl key => some (s.cmdTtl now key)
  | .info section_ => some (s.cmdInfo now section_)

def recorded (s : Shard Q) : Shard Q := { s with metrics := s.metrics.recordCommand }

def execute (s : Shard Q) (now : Instant) (command : Command) : Option (Shard Q × Response) := do
  let (next, response) ← s.dispatch now command
  return (next.recorded, response)

end Shard

end RsDragonfly
