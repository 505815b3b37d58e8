import RsDragonfly.Persistence.Pipeline

/-! The snapshot taken at shutdown.
What the file will hold is decided when a request enters the channel: the writer
only carries it there. -/
namespace RsDragonfly
open Library

namespace Pipeline

section
variable {Q : Type}

/-- What the file holds once the writer has drained the channel. -/
def settles (shardId : ShardId) (p : Pipeline Q) : Option Bytes :=
  match p.channel.queue.getLast? with
  | some request => some request.data
  | none =>
    match p.writer.request with
    | some request => some request.data
    | none => p.snapshotDir (finalPath shardId)

theorem settles_queued {shardId : ShardId} {p : Pipeline Q} {request : SnapshotRequest}
    (queued : p.channel.queue = [request]) : p.settles shardId = some request.data := by
  simp [settles, queued]

/-- The worker has returned and the writer is done with all it was sent. -/
structure Drained (p : Pipeline Q) : Prop where
  returned : p.worker.returned = true
  received : p.channel.queue = []
  written : p.writer.request = none

/-- The bytes are a snapshot that the run took, and `shard` has the same bytes at the
reading of the clocks at which they were taken. -/
def SavedIn (codec : Codec Q) (past : List (Pipeline Q × Turn)) (shard : Shard Q) (bytes : Bytes) :
    Prop :=
  ∃ x ∈ past, (x.2.move = .snapshotTick ∨ x.2.move = .close) ∧
    (∃ order, codec.serializeShard x.2.clock x.1.worker.shard order = some bytes) ∧
    ∃ order, codec.serializeShard x.2.clock shard order = some bytes

/-- A request that waits where the command channel closes is saved by then. -/
def WaitingSaved (codec : Codec Q) (past : List (Pipeline Q × Turn)) : Prop :=
  ∀ later x earlier, past = later ++ x :: earlier → x.2.move = .close →
    ∀ request ∈ x.1.channel.queue, SavedIn codec (x :: earlier) x.1.worker.shard request.data

theorem savedIn_cons {codec : Codec Q} {past : List (Pipeline Q × Turn)} {x : Pipeline Q × Turn}
    (no_snapshot : x.2.move ≠ .snapshotTick) (open_ : x.2.move ≠ .close) (shard : Shard Q)
    (bytes : Bytes) : SavedIn codec (x :: past) shard bytes ↔ SavedIn codec past shard bytes := by
  unfold SavedIn
  rw [List.exists_mem_cons_iff]
  exact or_iff_right fun here => here.1.elim no_snapshot open_

theorem waitingSaved_cons {codec : Codec Q} {past : List (Pipeline Q × Turn)}
    {x : Pipeline Q × Turn} : WaitingSaved codec (x :: past) ↔
      (x.2.move = .close → ∀ request ∈ x.1.channel.queue,
        SavedIn codec (x :: past) x.1.worker.shard request.data) ∧ WaitingSaved codec past := by
  constructor
  · intro all
    exact ⟨all [] x past rfl, fun later y earlier split => all (x :: later) y earlier (by rw [split]; rfl)⟩
  · rintro ⟨here, all⟩ later y earlier split
    rcases List.cons_eq_append_iff.mp split with ⟨_, first⟩ | ⟨before, _, rest⟩
    · cases first
      exact here
    · exact all before y earlier rest

theorem waitingSaved_of_open {codec : Codec Q} {past : List (Pipeline Q × Turn)}
    (unclosed : ∀ x ∈ past, x.2.move ≠ .close) : WaitingSaved codec past := by
  rintro later x earlier rfl closes
  exact absurd closes (unclosed x (List.mem_append_right _ List.mem_cons_self))

theorem Drained.settles {shardId : ShardId} {p : Pipeline Q} (h : p.Drained) :
    p.settles shardId = p.snapshotDir (finalPath shardId) := by
  simp [Pipeline.settles, h.received, h.written]

variable [MaxQueue Q Expiry] [Layout] {codec : Codec Q} {shardId : ShardId}

/-- The writer never changes what the file will hold, unless it fails. -/
theorem settles_step {p p' : Pipeline Q} {turn : Turn} (hs : Step codec p turn p')
    (wired : Wired shardId p) (no_snapshot : turn.move ≠ .snapshotTick)
    (open_ : turn.move ≠ .close) (succeeds : turn.move ≠ .fail) :
    p'.settles shardId = p.settles shardId := by
  cases hs with
  | execute running executed => rfl
  | ttlTick running => rfl
  | snapshotTick running triggered => exact absurd rfl no_snapshot
  | close running triggered => exact absurd rfl open_
  | receive idle received =>
    obtain ⟨queue, _⟩ := Channel.recv_message received
    unfold settles
    rw [queue, idle]
    simp only [Writer.request, List.getLast?_cons]
    cases List.getLast? _ <;> rfl
  | create at_create => simp [settles, at_create, Writer.request]
  | write at_write progress fits => simp [settles, at_write, Writer.request]
  | sync all_written => simp [settles, all_written, Writer.request]
  | @rename _ request snapshotDir at_rename renamed =>
    have published := wired.renamed at_rename renamed
    simp [settles, at_rename, Writer.request, published]
  | fail busy => exact absurd rfl succeeds
  | writerReturns idle closed =>
    obtain ⟨rfl, empty, _⟩ := Channel.recv_closed closed
    simp [settles, idle, Writer.request, Channel.dropReceiver]

theorem returned_step {p p' : Pipeline Q} {turn : Turn} (hs : Step codec p turn p')
    (returned : p.worker.returned = true) :
    p'.worker = p.worker ∧ turn.move ≠ .snapshotTick ∧ turn.move ≠ .close := by
  cases hs with
  | execute running => exact absurd (returned.symm.trans running) (by decide)
  | ttlTick running => exact absurd (returned.symm.trans running) (by decide)
  | snapshotTick running => exact absurd (returned.symm.trans running) (by decide)
  | close running => exact absurd (returned.symm.trans running) (by decide)
  | _ => exact ⟨rfl, by simp, by simp⟩

theorem running_step {p p' : Pipeline Q} {turn : Turn} (hs : Step codec p turn p')
    (running : p.worker.returned = false) (open_ : turn.move ≠ .close) :
    p'.worker.returned = false := by
  cases hs with
  | close => exact absurd rfl open_
  | execute => rfl
  | ttlTick => rfl
  | _ => exact running

/-- The closing step: the final snapshot enters an empty channel, and behind a
waiting request it is dropped. -/
theorem close_step (past : List (Pipeline Q × Turn)) {p p' : Pipeline Q} {clock : Clock}
    (hs : Step codec p ⟨clock, .close⟩ p') (wired : Wired shardId p) :
    p.worker.returned = false ∧ p'.worker = ⟨p.worker.shard, true⟩ ∧
      ((∃ contents, p'.settles shardId = some contents ∧
          SavedIn codec ((p, ⟨clock, .close⟩) :: past) p.worker.shard contents) ↔
        ∀ request ∈ p.channel.queue,
          SavedIn codec ((p, ⟨clock, .close⟩) :: past) p.worker.shard request.data) := by
  cases hs with
  | @close _ order channel running triggered =>
    refine ⟨running, rfl, ?_⟩
    have last {request : SnapshotRequest} (queue : channel.queue = [request]) :
        settles shardId { p with
          worker := ⟨p.worker.shard, true⟩, channel := channel.dropSender } = some request.data :=
      settles_queued queue
    obtain ⟨data, serialized, ⟨free, queue, _⟩ | ⟨waiting, queue, rfl⟩⟩ :=
      triggerSnapshot_cases wired.capacity (wired.receiver running) triggered
    · rw [last queue, free]
      refine ⟨fun _ _ none_waits => (List.not_mem_nil none_waits).elim, fun _ => ?_⟩
      exact ⟨data, rfl, _, List.mem_cons_self, .inr rfl, ⟨order, serialized⟩, order, serialized⟩
    · rw [last queue, queue]
      simp

theorem settled_run {past : List (Pipeline Q × Turn)} {p : Pipeline Q}
    (run : Run codec shardId past p) (succeed : ∀ x ∈ past, x.2.move ≠ .fail) :
    (p.worker.returned = false → ∀ x ∈ past, x.2.move ≠ .close) ∧
    (p.worker.returned = true →
      ((∃ contents, p.settles shardId = some contents ∧
          SavedIn codec past p.worker.shard contents) ↔ WaitingSaved codec past)) := by
  induction run with
  | start h =>
    obtain ⟨now, snapshotDir, rfl⟩ := h
    exact ⟨fun _ _ none_there => (List.not_mem_nil none_there).elim, nofun⟩
  | @step past p p' turn before hs ih =>
    obtain ⟨success, succeed⟩ := List.forall_mem_cons.mp succeed
    obtain ⟨unclosed, settled⟩ := ih succeed
    have wired := wired_run before
    rw [List.forall_mem_cons, waitingSaved_cons]
    by_cases closing : turn.move = .close
    · obtain ⟨clock, move⟩ := turn
      cases closing
      obtain ⟨running, worker, outcome⟩ := close_step past hs wired
      rw [worker]
      refine ⟨nofun, fun _ => outcome.trans ?_⟩
      constructor
      · intro waiting
        exact ⟨fun _ => waiting, waitingSaved_of_open (unclosed running)⟩
      · intro all
        exact all.1 rfl
    · cases hreturned : p.worker.returned with
      | false =>
        have still := running_step hs hreturned closing
        rw [still]
        exact ⟨fun _ => ⟨closing, unclosed hreturned⟩, nofun⟩
      | true =>
        obtain ⟨worker, no_snapshot, _⟩ := returned_step hs hreturned
        simp only [worker, hreturned, settles_step hs wired no_snapshot closing success,
          savedIn_cons (x := (p, turn)) no_snapshot closing]
        refine ⟨nofun, fun _ => (settled hreturned).trans ?_⟩
        constructor
        · intro all
          exact ⟨fun closed => absurd closed closing, all⟩
        · intro all
          exact all.2

/-- Once everything is drained, the file is a snapshot of the final shard if and
only if the request that waited at the close, if any, already was one. -/
theorem final_snapshot_iff {past : List (Pipeline Q × Turn)} {p : Pipeline Q}
    (run : Run codec shardId past p) (succeed : ∀ x ∈ past, x.2.move ≠ .fail)
    (drained : p.Drained) :
    (∃ contents, p.snapshotDir (finalPath shardId) = some contents ∧
        SavedIn codec past p.worker.shard contents) ↔
      ∀ later x earlier, past = later ++ x :: earlier → x.2.move = .close →
        ∀ request ∈ x.1.channel.queue,
          SavedIn codec (x :: earlier) x.1.worker.shard request.data := by
  rw [← drained.settles]
  exact (settled_run run succeed).2 drained.returned

end

end Pipeline

/- A SET and the close, with or without a snapshot tick before them. -/

def firstShard : Shard (SortedQueue Expiry) := .new ⟨0⟩ (.ofSecs 0)

def storedShard : Shard (SortedQueue Expiry) :=
  (@Shard.store _ _ linux64 firstShard (utf8 "k") (.string (utf8 "v")) none).recorded

def clockAt (n : UInt32) : Clock := ⟨.ofSecs n, .ofSecs (1700000000 + n)⟩

def firstSet : Turn := ⟨clockAt 1, .execute (.set (utf8 "k") (.string (utf8 "v")) none) .ok⟩

def firstTasks : Pipeline (SortedQueue Expiry) := ⟨.new ⟨0⟩ (.ofSecs 0), fun _ => none⟩

theorem firstShard_serializes :
    ∃ bytes, serializeShard (clockAt 0) firstShard ⟨[], .refl _⟩ = some bytes ∧
      bytes.length = 64 := by
  have size : (serializeShard (clockAt 0) firstShard ⟨[], .refl _⟩).map List.length = some 64 := by
    decide +kernel
  exact Option.map_eq_some_iff.mp size

theorem storedShard_serializes :
    ∃ bytes, serializeShard (clockAt 2) storedShard ⟨storedShard.data.entries, .refl _⟩ =
      some bytes ∧ bytes.length = 75 := by
  have size : (serializeShard (clockAt 2) storedShard
      ⟨storedShard.data.entries, .refl _⟩).map List.length = some 75 := by
    decide +kernel
  exact Option.map_eq_some_iff.mp size

namespace Pipeline

theorem firstSet_step (codec : Codec (SortedQueue Expiry)) (channel : Channel SnapshotRequest)
    (writer : Writer) (snapshotDir : Directory) :
    @Step _ _ linux64 codec ⟨⟨⟨firstShard, false⟩, channel, writer⟩, snapshotDir⟩ firstSet
      ⟨⟨⟨storedShard, false⟩, channel, writer⟩, snapshotDir⟩ :=
  @Step.execute _ _ linux64 codec
    ⟨⟨⟨firstShard, false⟩, channel, writer⟩, snapshotDir⟩ (clockAt 1) _ _ _ rfl rfl

theorem closed_publishes {past : List (Pipeline (SortedQueue Expiry) × Turn)}
    {shard : Shard (SortedQueue Expiry)} {channel : Channel SnapshotRequest}
    {snapshotDir : Directory} {request : SnapshotRequest} {size : Nat}
    (run : @Run _ _ linux64 Codec.source ⟨0⟩ past
      ⟨⟨⟨shard, true⟩, channel, .receiving⟩, snapshotDir⟩)
    (queued : channel.queue = [request]) (length : request.data.length = size)
    (some_bytes : 0 < size) :
    ∃ more p, @Run _ _ linux64 Codec.source ⟨0⟩ (more ++ past) p ∧
      more.map Prod.snd = publication (clockAt 3) size ∧ p.Drained ∧ p.worker.shard = shard ∧
      p.snapshotDir (finalPath request.shardId) = some request.data := by
  let _ := linux64
  subst length
  obtain ⟨more, p, path, turns, worker, emptied, idle, contents⟩ := publishes Codec.source ⟨0⟩
    (clockAt 3) (p := ⟨⟨⟨shard, true⟩, channel, .receiving⟩, snapshotDir⟩) rfl queued some_bytes
  refine ⟨more, p, run.extend path, turns, ⟨?_, emptied, ?_⟩, ?_, contents⟩
  · rw [worker]
  · rw [idle]
    rfl
  · rw [worker]

/-- With a free channel the SET is in the file. -/
theorem final_snapshot_saved :
    ∃ past p, @Run _ _ linux64 Codec.source ⟨0⟩ past p ∧
      past.map Prod.snd = publication (clockAt 3) 75 ++ [⟨clockAt 2, .close⟩, firstSet] ∧
      p.worker.shard = storedShard ∧
      ∃ contents, p.snapshotDir (finalPath ⟨0⟩) = some contents ∧
        SavedIn Codec.source past p.worker.shard contents := by
  let _ := linux64
  obtain ⟨bytes, serialized, size⟩ := storedShard_serializes
  obtain ⟨sent, triggered, queue, _⟩ := triggerSnapshot_first
    (show (Codec.source : Codec (SortedQueue Expiry)).serializeShard _ _ _ = _ from serialized)
  have start : Run Codec.source ⟨0⟩ [] firstTasks := .start ⟨_, _, rfl⟩
  have stored := start.step (firstSet_step _ snapshotChannel .receiving fun _ => none)
  have closed := stored.step (Step.close rfl triggered)
  obtain ⟨more, p, run, turns, drained, shard, _⟩ :=
    closed_publishes closed queue size (by decide)
  have quiet : ∀ x ∈ more, x.2.move ≠ .fail ∧ x.2.move ≠ .close := by
    rw [← List.forall_mem_map (f := Prod.snd)
      (P := fun t : Turn => t.move ≠ .fail ∧ t.move ≠ .close),
      turns]
    decide
  refine ⟨_, p, run, ?_, shard, (final_snapshot_iff run ?_ drained).mpr ?_⟩
  · rw [List.map_append, turns]
    rfl
  · rw [List.forall_mem_append]
    exact ⟨fun x member => (quiet x member).1, by simp [firstSet]⟩
  · intro later x earlier split closes request waits
    have member := List.mem_append_right later (List.mem_cons_self (a := x) (l := earlier))
    rw [← split, List.mem_append, List.mem_cons, List.mem_singleton] at member
    rcases member with there | rfl | rfl
    · exact absurd closes (quiet x there).2
    · cases waits
    · cases closes

/-- Behind the first periodic snapshot it is lost. -/
theorem final_snapshot_dropped :
    ∃ past p, @Run _ _ linux64 Codec.source ⟨0⟩ past p ∧
      past.map Prod.snd = publication (clockAt 3) 64 ++
        [⟨clockAt 2, .close⟩, firstSet, ⟨clockAt 0, .snapshotTick⟩] ∧
      p.Drained ∧ p.worker.shard = storedShard ∧
      ¬ ∃ contents, p.snapshotDir (finalPath ⟨0⟩) = some contents ∧
        SavedIn Codec.source past p.worker.shard contents := by
  let _ := linux64
  obtain ⟨bytes, serialized, size⟩ := firstShard_serializes
  obtain ⟨sent, triggered, queue, capacity, receiving⟩ := triggerSnapshot_first
    (show (Codec.source : Codec (SortedQueue Expiry)).serializeShard _ _ _ = _ from serialized)
  obtain ⟨_, final, _⟩ := storedShard_serializes
  obtain ⟨sent', triggered'⟩ := triggerSnapshot_isSome
    (show (Codec.source : Codec (SortedQueue Expiry)).serializeShard _ _ _ = _ from final) sent
  obtain ⟨_, _, ⟨free, _⟩ | ⟨_, _, rfl⟩⟩ :=
    triggerSnapshot_cases capacity receiving triggered'
  · rw [queue] at free
    cases free
  have start : Run Codec.source ⟨0⟩ [] firstTasks := .start ⟨_, _, rfl⟩
  have ticked := start.step (Step.snapshotTick rfl triggered)
  have stored := ticked.step (firstSet_step _ _ .receiving fun _ => none)
  have closed := stored.step (Step.close rfl triggered')
  obtain ⟨more, p, run, turns, drained, shard, contents⟩ :=
    closed_publishes closed queue size (by decide)
  refine ⟨_, p, run, ?_, drained, shard, ?_⟩
  · rw [List.map_append, turns]
    rfl
  · rintro ⟨found, hfound, _, _, _, _, order, saved⟩
    cases contents.symm.trans hfound
    have short := length_serializeShard saved
    rw [shard, size] at short
    exact absurd (show 65 ≤ 64 from short) (by decide)

end Pipeline

end RsDragonfly
