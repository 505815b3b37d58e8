import RsDragonfly.Library.Channel
import RsDragonfly.Persistence.Loader
import RsDragonfly.Shard.Invariant

/-! The tasks of one shard: `shard/worker.rs`, `shard/persistence/writer.rs` and
the snapshot channel between them.
Worker and writer take turns in any order, and the writer can fail at any step.
A panic ends the worker without a return and has no step. -/
namespace RsDragonfly
open Library

structure SnapshotRequest where
  shardId : ShardId
  data : Bytes

def snapshotChannel : Channel SnapshotRequest := .new snapshotChannelCapacity

structure Worker (Q : Type) where
  shard : Shard Q
  returned : Bool

inductive Writer where
  | receiving
  | creating (request : SnapshotRequest)
  /-- In `write_all`, with the number of bytes written. -/
  | writing (request : SnapshotRequest) (written : Nat)
  | synced (request : SnapshotRequest)
  | returned

/-- The request the writer has taken from the channel and not finished. -/
def Writer.request : Writer → Option SnapshotRequest
  | receiving | returned => none
  | creating request | writing request _ | synced request => some request

structure Tasks (Q : Type) where
  worker : Worker Q
  channel : Channel SnapshotRequest
  writer : Writer

structure Pipeline (Q : Type) extends Tasks Q where
  snapshotDir : Directory

inductive Move where
  | execute (command : Command) (response : Response)
  | ttlTick
  | snapshotTick
  /-- The command channel is closed: the final snapshot, and the return. -/
  | close
  | receive
  | create
  | write (count : Nat)
  | sync
  | rename
  | fail
  | writerReturns
deriving DecidableEq

structure Turn where
  clock : Clock
  move : Move

section
variable {Q : Type}

def triggerSnapshot (codec : Codec Q) (clock : Clock) (shard : Shard Q)
    (order : KeyedMap.Iteration shard.data) (snapshotTx : Channel SnapshotRequest) :
    Option (Channel SnapshotRequest) := do
  let snapshotData ← codec.serializeShard clock shard order
  match snapshotTx.trySend ⟨shard.id, snapshotData⟩ with
  | .ok sent => return sent
  | .error (.full _) => return snapshotTx
  | .error (.closed _) => return snapshotTx

theorem triggerSnapshot_isSome {codec : Codec Q} {clock : Clock} {shard : Shard Q}
    {order : KeyedMap.Iteration shard.data} {data : Bytes}
    (serialized : codec.serializeShard clock shard order = some data)
    (channel : Channel SnapshotRequest) :
    ∃ sent, triggerSnapshot codec clock shard order channel = some sent := by
  unfold triggerSnapshot
  rw [serialized, Option.bind_eq_bind, Option.bind_some]
  split <;> exact ⟨_, rfl⟩

/-- A snapshot is taken whatever happens to it: a free slot takes it, and behind
a waiting request it is dropped. -/
theorem triggerSnapshot_cases {codec : Codec Q} {clock : Clock} {shard : Shard Q}
    {order : KeyedMap.Iteration shard.data} {channel sent : Channel SnapshotRequest}
    (capacity : channel.capacity = snapshotChannelCapacity) (receiving : channel.receiving = true)
    (h : triggerSnapshot codec clock shard order channel = some sent) :
    ∃ data, codec.serializeShard clock shard order = some data ∧
      ((channel.queue = [] ∧ sent.queue = [⟨shard.id, data⟩] ∧ sent.capacity = channel.capacity ∧
          sent.senders = channel.senders ∧ sent.receiving = channel.receiving) ∨
        ∃ waiting, channel.queue = [waiting] ∧ sent = channel) := by
  obtain ⟨data, serialized, h⟩ := Option.bind_eq_some_iff.mp h
  refine ⟨data, serialized, ?_⟩
  cases hq : channel.queue with
  | nil =>
    have room : channel.queue.length < channel.capacity := by
      rw [hq, capacity]
      exact Nat.one_pos
    obtain ⟨accepted, hsend, queue, rest⟩ :=
      Channel.trySend_room (⟨shard.id, data⟩ : SnapshotRequest) receiving room
    rw [hsend] at h
    cases h
    rw [hq] at queue
    exact .inl ⟨rfl, queue, rest⟩
  | cons waiting others =>
    have full : channel.capacity ≤ channel.queue.length := by
      rw [hq, capacity]
      exact Nat.succ_le_succ (Nat.zero_le _)
    have alone : others = [] := by
      have within := channel.within
      rw [hq, capacity, List.length_cons] at within
      exact List.eq_nil_of_length_eq_zero (Nat.le_zero.mp (Nat.le_of_succ_le_succ within))
    rw [Channel.trySend_full _ receiving full] at h
    cases h
    exact .inr ⟨waiting, by rw [alone], rfl⟩

theorem triggerSnapshot_first {codec : Codec Q} {clock : Clock} {shard : Shard Q}
    {order : KeyedMap.Iteration shard.data} {data : Bytes}
    (serialized : codec.serializeShard clock shard order = some data) :
    ∃ sent, triggerSnapshot codec clock shard order snapshotChannel = some sent ∧
      sent.queue = [⟨shard.id, data⟩] ∧ sent.capacity = snapshotChannelCapacity ∧
      sent.receiving = true := by
  unfold triggerSnapshot
  rw [serialized]
  exact ⟨_, rfl, rfl, rfl, rfl⟩

namespace Pipeline

def TempAgrees : Writer → Option Bytes → Prop
  | .writing request written, temp => temp = some (request.data.take written)
  | .synced request, temp => temp = some request.data
  | _, _ => True

/-- What holds between the tasks of a shard and its temporary file. -/
structure Wired (shardId : ShardId) (p : Pipeline Q) : Prop where
  worker_id : p.worker.shard.id = shardId
  capacity : p.channel.capacity = snapshotChannelCapacity
  queued : ∀ request ∈ p.channel.queue, request.shardId = shardId
  held : ∀ request, p.writer.request = some request → request.shardId = shardId
  temp : TempAgrees p.writer (p.snapshotDir (tempPath shardId))
  sender : p.worker.returned = false → p.channel.senders ≠ 0
  receiver : p.worker.returned = false → p.channel.receiving = true

theorem Wired.renamed {shardId : ShardId} {p : Pipeline Q} (wired : Wired shardId p)
    {request : SnapshotRequest} {snapshotDir : Directory} (at_rename : p.writer = .synced request)
    (renamed : p.snapshotDir.rename (tempPath request.shardId) (finalPath request.shardId) =
      some snapshotDir) : snapshotDir (finalPath shardId) = some request.data := by
  have id := wired.held request (by rw [at_rename]; rfl)
  have temp := wired.temp
  rw [at_rename] at temp
  subst id
  obtain ⟨contents, found, rfl⟩ := Option.map_eq_some_iff.mp renamed
  have whole : contents = request.data := Option.some.inj (found.symm.trans temp)
  rw [whole]
  exact Function.update_self ..

theorem Wired.trigger {codec : Codec Q} {shardId : ShardId} {p : Pipeline Q} (h : Wired shardId p)
    {clock : Clock} {order : KeyedMap.Iteration p.worker.shard.data}
    {sent : Channel SnapshotRequest} (running : p.worker.returned = false)
    (triggered : triggerSnapshot codec clock p.worker.shard order p.channel = some sent) :
    sent.capacity = p.channel.capacity ∧ sent.senders = p.channel.senders ∧
      sent.receiving = p.channel.receiving ∧
      ∀ request ∈ sent.queue, request.shardId = shardId := by
  obtain ⟨data, _, ⟨_, queue, capacity, senders, receiving⟩ | ⟨_, _, rfl⟩⟩ :=
    triggerSnapshot_cases h.capacity (h.receiver running) triggered
  · refine ⟨capacity, senders, receiving, fun request queued => ?_⟩
    rw [queue] at queued
    cases List.mem_singleton.mp queued
    exact h.worker_id
  · exact ⟨rfl, rfl, rfl, h.queued⟩

theorem Wired.on {shardId : ShardId} {p : Pipeline Q} (h : Wired shardId p)
    {snapshotDir : Directory}
    (same : snapshotDir (tempPath shardId) = p.snapshotDir (tempPath shardId)) :
    Wired shardId ⟨p.toTasks, snapshotDir⟩ := by
  refine ⟨h.worker_id, h.capacity, h.queued, h.held, ?_, h.sender, h.receiver⟩
  simp only [same]
  exact h.temp

end Pipeline

variable [MaxQueue Q Expiry]

def Tasks.new (shardId : ShardId) (now : Instant) : Tasks Q :=
  ⟨⟨.new shardId now, false⟩, snapshotChannel, .receiving⟩

namespace Pipeline

theorem wired_new (shardId : ShardId) (now : Instant) (snapshotDir : Directory) :
    Wired shardId (⟨.new shardId now, snapshotDir⟩ : Pipeline Q) := by
  refine ⟨rfl, rfl, ?_, ?_, trivial, fun _ => Nat.one_ne_zero, fun _ => rfl⟩
  · intro request queued
    cases queued
  · intro request held
    cases held

variable [Layout]

inductive Step (codec : Codec Q) : Pipeline Q → Turn → Pipeline Q → Prop where
  | execute {p : Pipeline Q} {clock : Clock} {command : Command} {shard : Shard Q}
      {response : Response} (running : p.worker.returned = false)
      (executed : p.worker.shard.execute clock.instant command = some (shard, response)) :
      Step codec p ⟨clock, .execute command response⟩ { p with worker := ⟨shard, false⟩ }
  | ttlTick {p : Pipeline Q} {clock : Clock} (running : p.worker.returned = false) :
      Step codec p ⟨clock, .ttlTick⟩
        { p with worker := ⟨p.worker.shard.expireKeys clock.instant, false⟩ }
  | snapshotTick {p : Pipeline Q} {clock : Clock}
      {order : KeyedMap.Iteration p.worker.shard.data} {channel : Channel SnapshotRequest}
      (running : p.worker.returned = false)
      (triggered : triggerSnapshot codec clock p.worker.shard order p.channel = some channel) :
      Step codec p ⟨clock, .snapshotTick⟩ { p with channel := channel }
  | close {p : Pipeline Q} {clock : Clock} {order : KeyedMap.Iteration p.worker.shard.data}
      {channel : Channel SnapshotRequest} (running : p.worker.returned = false)
      (triggered : triggerSnapshot codec clock p.worker.shard order p.channel = some channel) :
      Step codec p ⟨clock, .close⟩
        { p with worker := ⟨p.worker.shard, true⟩, channel := channel.dropSender }
  | receive {p : Pipeline Q} {clock : Clock} {request : SnapshotRequest}
      {channel : Channel SnapshotRequest} (idle : p.writer = .receiving)
      (received : p.channel.recv = some (some request, channel)) :
      Step codec p ⟨clock, .receive⟩ { p with channel := channel, writer := .creating request }
  | create {p : Pipeline Q} {clock : Clock} {request : SnapshotRequest}
      (at_create : p.writer = .creating request) :
      Step codec p ⟨clock, .create⟩
        { p with
          writer := .writing request 0
          snapshotDir := p.snapshotDir.create (tempPath request.shardId) }
  | write {p : Pipeline Q} {clock : Clock} {request : SnapshotRequest} {written count : Nat}
      (at_write : p.writer = .writing request written) (progress : 0 < count)
      (fits : written + count ≤ request.data.length) :
      Step codec p ⟨clock, .write count⟩
        { p with
          writer := .writing request (written + count)
          snapshotDir := p.snapshotDir.append (tempPath request.shardId)
            ((request.data.drop written).take count) }
  | sync {p : Pipeline Q} {clock : Clock} {request : SnapshotRequest}
      (all_written : p.writer = .writing request request.data.length) :
      Step codec p ⟨clock, .sync⟩ { p with writer := .synced request }
  | rename {p : Pipeline Q} {clock : Clock} {request : SnapshotRequest} {snapshotDir : Directory}
      (at_rename : p.writer = .synced request)
      (renamed : p.snapshotDir.rename (tempPath request.shardId) (finalPath request.shardId) =
        some snapshotDir) :
      Step codec p ⟨clock, .rename⟩ { p with writer := .receiving, snapshotDir := snapshotDir }
  /-- An error of any file operation is logged and the request given up. -/
  | fail {p : Pipeline Q} {clock : Clock} {request : SnapshotRequest}
      (busy : p.writer.request = some request) :
      Step codec p ⟨clock, .fail⟩ { p with writer := .receiving }
  | writerReturns {p : Pipeline Q} {clock : Clock} {channel : Channel SnapshotRequest}
      (idle : p.writer = .receiving) (closed : p.channel.recv = some (none, channel)) :
      Step codec p ⟨clock, .writerReturns⟩
        { p with channel := channel.dropReceiver, writer := .returned }

/-- One shard from the start of its tasks, on any directory. -/
def runs (codec : Codec Q) (shardId : ShardId) : System (Pipeline Q) Turn where
  start p := ∃ now snapshotDir, p = ⟨.new shardId now, snapshotDir⟩
  step := Step codec

abbrev Run (codec : Codec Q) (shardId : ShardId) (past : List (Pipeline Q × Turn))
    (p : Pipeline Q) : Prop :=
  (runs codec shardId).Run past p

theorem Wired.step {codec : Codec Q} {shardId : ShardId} {p p' : Pipeline Q} {turn : Turn}
    (hs : Step codec p turn p') (h : Wired shardId p) : Wired shardId p' := by
  cases hs with
  | execute running executed =>
    exact ⟨(Shard.execute_id executed).trans h.worker_id, h.capacity, h.queued, h.held, h.temp,
      fun _ => h.sender running, fun _ => h.receiver running⟩
  | ttlTick running =>
    exact ⟨(Shard.id_expireKeys _ _).trans h.worker_id, h.capacity, h.queued, h.held, h.temp,
      fun _ => h.sender running, fun _ => h.receiver running⟩
  | snapshotTick running triggered =>
    obtain ⟨capacity, senders, receiving, queued⟩ := h.trigger running triggered
    exact ⟨h.worker_id, capacity.trans h.capacity, queued, h.held, h.temp,
      fun _ => senders ▸ h.sender running, fun _ => receiving ▸ h.receiver running⟩
  | close running triggered =>
    obtain ⟨capacity, _, _, queued⟩ := h.trigger running triggered
    exact ⟨h.worker_id, capacity.trans h.capacity, queued, h.held, h.temp,
      nofun, nofun⟩
  | receive idle received =>
    obtain ⟨queue, capacity, senders, receiving⟩ := Channel.recv_message received
    refine ⟨h.worker_id, capacity.trans h.capacity, fun request queued => ?_, ?_, trivial,
      fun running => senders ▸ h.sender running, fun running => receiving ▸ h.receiver running⟩
    · exact h.queued request (by rw [queue]; exact List.mem_cons_of_mem _ queued)
    · rintro request held
      cases held
      exact h.queued _ (by rw [queue]; exact List.mem_cons_self)
  | @create _ request at_create =>
    have id := h.held request (by rw [at_create]; rfl)
    subst id
    refine ⟨h.worker_id, h.capacity, h.queued, ?_, ?_, h.sender, h.receiver⟩
    · rintro _ held
      cases held
      rfl
    · simp [TempAgrees, Directory.create]
  | @write _ request written count at_write progress fits =>
    have id := h.held request (by rw [at_write]; rfl)
    have temp := h.temp
    rw [at_write] at temp
    subst id
    refine ⟨h.worker_id, h.capacity, h.queued, ?_, ?_, h.sender, h.receiver⟩
    · rintro _ held
      cases held
      rfl
    · have grown : (p.snapshotDir.append (tempPath request.shardId)
          ((request.data.drop written).take count)) (tempPath request.shardId) =
          some (request.data.take (written + count)) := by
        rw [Directory.append, Function.update_self, temp, Option.map_some, List.take_add]
      exact grown
  | @sync _ request all_written =>
    have temp := h.temp
    rw [all_written] at temp
    refine ⟨h.worker_id, h.capacity, h.queued, ?_, ?_, h.sender, h.receiver⟩
    · rintro _ held
      cases held
      exact h.held request (by rw [all_written]; rfl)
    · exact temp.trans (congrArg some List.take_length)
  | rename at_rename renamed =>
    exact ⟨h.worker_id, h.capacity, h.queued, nofun, trivial, h.sender,
      h.receiver⟩
  | fail busy =>
    exact ⟨h.worker_id, h.capacity, h.queued, nofun, trivial, h.sender,
      h.receiver⟩
  | writerReturns idle closed =>
    obtain ⟨rfl, _, no_sender⟩ := Channel.recv_closed closed
    exact ⟨h.worker_id, h.capacity, h.queued, nofun, trivial, h.sender,
      fun running => absurd no_sender (h.sender running)⟩

/-- The tasks of a shard touch no file but their own two. -/
theorem Wired.frame {codec : Codec Q} {shardId : ShardId} {p p' : Pipeline Q} {turn : Turn}
    (hs : Step codec p turn p') (h : Wired shardId p) {path : String}
    (not_temp : path ≠ tempPath shardId) (not_final : path ≠ finalPath shardId) :
    p'.snapshotDir path = p.snapshotDir path := by
  cases hs with
  | create at_create =>
    rw [← h.held _ (by rw [at_create]; rfl)] at not_temp
    exact Function.update_of_ne not_temp ..
  | write at_write progress fits =>
    rw [← h.held _ (by rw [at_write]; rfl)] at not_temp
    exact Function.update_of_ne not_temp ..
  | rename at_rename renamed =>
    have id := h.held _ (by rw [at_rename]; rfl)
    rw [← id] at not_temp not_final
    obtain ⟨contents, _, rfl⟩ := Option.map_eq_some_iff.mp renamed
    simp only [Function.update_of_ne not_final, Function.update_of_ne not_temp]
  | _ => rfl

/-- The turns of a writer that publishes a request of this size at once, newest first. -/
def publication (clock : Clock) (size : Nat) : List Turn :=
  [⟨clock, .rename⟩, ⟨clock, .sync⟩, ⟨clock, .write size⟩, ⟨clock, .create⟩, ⟨clock, .receive⟩]

theorem publishes (codec : Codec Q) (shardId : ShardId) (clock : Clock) {p : Pipeline Q}
    {request : SnapshotRequest} {rest : List SnapshotRequest} (idle : p.writer = .receiving)
    (queued : p.channel.queue = request :: rest) (some_bytes : 0 < request.data.length) :
    ∃ past p', (runs codec shardId).Path p past p' ∧
      past.map Prod.snd = publication clock request.data.length ∧ p'.worker = p.worker ∧
      p'.channel.queue = rest ∧ p'.writer = .receiving ∧
      p'.snapshotDir (finalPath request.shardId) = some request.data := by
  obtain ⟨channel, received, hrest⟩ := Channel.recv_isSome queued
  let temp := tempPath request.shardId
  let created := p.snapshotDir.create temp
  let written := created.append temp ((request.data.drop 0).take request.data.length)
  let published := Function.update (Function.update written temp none)
    (finalPath request.shardId) (some request.data)
  have whole : written temp = some request.data := by simp [written, created, Directory.append,
    Directory.create]
  have receive : Step codec p ⟨clock, .receive⟩
      { p with channel := channel, writer := .creating request } := .receive idle received
  have create : Step codec { p with channel := channel, writer := .creating request }
      ⟨clock, .create⟩
      ⟨⟨p.worker, channel, .writing request 0⟩, created⟩ := .create rfl
  have write : Step codec ⟨⟨p.worker, channel, .writing request 0⟩, created⟩
      ⟨clock, .write request.data.length⟩
      ⟨⟨p.worker, channel, .writing request (0 + request.data.length)⟩, written⟩ :=
    .write rfl some_bytes (Nat.le_of_eq (Nat.zero_add _))
  have sync : Step codec
      ⟨⟨p.worker, channel, .writing request (0 + request.data.length)⟩, written⟩ ⟨clock, .sync⟩
      ⟨⟨p.worker, channel, .synced request⟩, written⟩ :=
    .sync (congrArg (Writer.writing request) (Nat.zero_add _))
  have rename : Step codec ⟨⟨p.worker, channel, .synced request⟩, written⟩ ⟨clock, .rename⟩
      ⟨⟨p.worker, channel, .receiving⟩, published⟩ :=
    .rename rfl (congrArg (Option.map _) whole)
  exact ⟨_, _, .step (.step (.step (.step (.step .refl receive) create) write) sync) rename, rfl,
    rfl, hrest, rfl, Function.update_self ..⟩

theorem wired_run {codec : Codec Q} {shardId : ShardId} {past : List (Pipeline Q × Turn)}
    {p : Pipeline Q} (run : Run codec shardId past p) : Wired shardId p := by
  refine run.invariant (Wired shardId) ?_ (fun _ _ _ hs h => h.step hs)
  rintro _ ⟨now, snapshotDir, rfl⟩
  exact wired_new shardId now snapshotDir

end Pipeline

end

end RsDragonfly
