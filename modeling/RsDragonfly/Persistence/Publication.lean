import RsDragonfly.Persistence.FinalSnapshot

/-! The snapshot file over one process life.
A run may end anywhere, so what holds after every run holds at a crash. Snapshots
pass from the worker through the channel and the writer to the file in the order
in which they were taken; on the way some are dropped, and none overtakes another. -/
namespace RsDragonfly
open Library

namespace Pipeline

section
variable {Q : Type}

/-- The snapshots the worker took in a run, newest first. -/
inductive Taken (codec : Codec Q) : List (Pipeline Q × Turn) → List Bytes → Prop where
  | start : Taken codec [] []
  | trigger {past : List (Pipeline Q × Turn)} {taken : List Bytes} {p : Pipeline Q}
      {clock : Clock} {move : Move} {order : KeyedMap.Iteration p.worker.shard.data}
      {data : Bytes} (triggers : move = .snapshotTick ∨ move = .close)
      (serialized : codec.serializeShard clock p.worker.shard order = some data)
      (before : Taken codec past taken) : Taken codec ((p, ⟨clock, move⟩) :: past) (data :: taken)
  | other {past : List (Pipeline Q × Turn)} {taken : List Bytes} {p : Pipeline Q} {turn : Turn}
      (no_trigger : turn.move ≠ .snapshotTick ∧ turn.move ≠ .close)
      (before : Taken codec past taken) : Taken codec ((p, turn) :: past) taken

/-- The contents of the snapshot file at the start and after each rename, newest first. -/
def successiveContents (shardId : ShardId) :
    List (Pipeline Q × Turn) → Pipeline Q → List (Option Bytes)
  | [], p => [p.snapshotDir (finalPath shardId)]
  | (before, turn) :: past, p =>
    if turn.move = .rename then
      p.snapshotDir (finalPath shardId) :: successiveContents shardId past before
    else successiveContents shardId past before

def origin : List (Pipeline Q × Turn) → Pipeline Q → Pipeline Q
  | [], p => p
  | (before, _) :: past, _ => origin past before

/-- The snapshots that are taken and not yet published, newest first. -/
def inFlight (t : Tasks Q) : List Bytes :=
  (t.channel.queue.map (·.data)).reverse ++ (t.writer.request.map (·.data)).toList

theorem inFlight_trigger {codec : Codec Q} {shardId : ShardId} {p : Pipeline Q} {clock : Clock}
    {order : KeyedMap.Iteration p.worker.shard.data} {sent : Channel SnapshotRequest}
    (wired : Wired shardId p) (running : p.worker.returned = false)
    (triggered : triggerSnapshot codec clock p.worker.shard order p.channel = some sent)
    (worker : Worker Q) :
    ∃ data, codec.serializeShard clock p.worker.shard order = some data ∧
      (inFlight ⟨worker, sent, p.writer⟩).Sublist (data :: inFlight p.toTasks) := by
  obtain ⟨data, serialized, ⟨empty, queue, _⟩ | ⟨_, _, rfl⟩⟩ :=
    triggerSnapshot_cases wired.capacity (wired.receiver running) triggered
  · refine ⟨data, serialized, ?_⟩
    simp [inFlight, empty, queue]
  · exact ⟨data, serialized, List.sublist_cons_self _ _⟩

theorem inFlight_receive {p : Pipeline Q} {request : SnapshotRequest}
    {channel : Channel SnapshotRequest} (idle : p.writer = .receiving)
    (received : p.channel.recv = some (some request, channel)) :
    inFlight ⟨p.worker, channel, .creating request⟩ = inFlight p.toTasks := by
  obtain ⟨queue, _⟩ := Channel.recv_message received
  simp [inFlight, idle, queue, Writer.request]

variable [MaxQueue Q Expiry] [Layout]

/-- Only a rename changes the snapshot file, and it publishes what the writer holds. -/
theorem Step.final_cases {codec : Codec Q} {shardId : ShardId} {p p' : Pipeline Q} {turn : Turn}
    (hs : Step codec p turn p') (wired : Wired shardId p) :
    (turn.move ≠ .rename ∧
      p'.snapshotDir (finalPath shardId) = p.snapshotDir (finalPath shardId)) ∨
    ∃ request, turn.move = .rename ∧ p.writer = .synced request ∧ p'.worker = p.worker ∧
      p'.channel = p.channel ∧ p'.writer = .receiving ∧
      p'.snapshotDir (finalPath shardId) = some request.data := by
  cases hs with
  | @create _ request at_create =>
    refine .inl ⟨nofun, ?_⟩
    exact Function.update_of_ne (tempPath_ne_finalPath _ _).symm ..
  | @write _ request written count at_write progress fits =>
    refine .inl ⟨nofun, ?_⟩
    exact Function.update_of_ne (tempPath_ne_finalPath _ _).symm ..
  | @rename _ request snapshotDir at_rename renamed =>
    exact .inr ⟨request, rfl, at_rename, rfl, rfl, rfl, wired.renamed at_rename renamed⟩
  | _ => exact .inl ⟨nofun, rfl⟩

/-- What the temporary file holds after a step, it held before, or the writer has just put it
there: the file comes into being with a create. -/
theorem Step.temp_cases {codec : Codec Q} {shardId : ShardId} {p p' : Pipeline Q} {turn : Turn}
    (hs : Step codec p turn p') (wired : Wired shardId p) {bytes : Bytes}
    (found : p'.snapshotDir (tempPath shardId) = some bytes) :
    p.snapshotDir (tempPath shardId) = some bytes ∨ ∃ request, p.writer.request = some request ∧
      bytes <+: request.data ∧
      (turn.move = .create ∨ ∃ before, p.snapshotDir (tempPath shardId) = some before) := by
  cases hs with
  | @create _ request at_create =>
    have held : p.writer.request = some request := by rw [at_create]; rfl
    have own : tempPath shardId = tempPath request.shardId := by rw [wired.held request held]
    simp only [Directory.create, own, Function.update_self, Option.some.injEq] at found
    exact .inr ⟨request, held, found ▸ List.nil_prefix, .inl rfl⟩
  | @write _ request written count at_write progress fits =>
    have held : p.writer.request = some request := by rw [at_write]; rfl
    have own : tempPath request.shardId = tempPath shardId := by rw [wired.held request held]
    have temp := wired.temp
    rw [at_write] at temp
    simp only [Directory.append, own, Function.update_self, show p.snapshotDir _ = _ from temp,
      Option.map_some, Option.some.injEq] at found
    refine .inr ⟨request, held, ?_, .inr ⟨_, temp⟩⟩
    rw [← found, ← List.take_add]
    exact List.take_prefix _ _
  | @rename _ request snapshotDir at_rename renamed =>
    have held : p.writer.request = some request := by rw [at_rename]; rfl
    have own : tempPath shardId = tempPath request.shardId := by rw [wired.held request held]
    obtain ⟨contents, _, rfl⟩ := Option.map_eq_some_iff.mp renamed
    simp only [own, Function.update_of_ne (tempPath_ne_finalPath request.shardId request.shardId),
      Function.update_self, reduceCtorEq] at found
  | _ => exact .inl found

/-- What was in flight stays in flight, is published by a rename or is given up. -/
theorem Step.inFlight_cases {codec : Codec Q} {shardId : ShardId} {p p' : Pipeline Q} {turn : Turn}
    (hs : Step codec p turn p') (wired : Wired shardId p) :
    ((turn.move = .snapshotTick ∨ turn.move = .close) ∧
      ∃ order data, codec.serializeShard turn.clock p.worker.shard order = some data ∧
        (inFlight p'.toTasks).Sublist (data :: inFlight p.toTasks)) ∨
    ((turn.move ≠ .snapshotTick ∧ turn.move ≠ .close) ∧
      (inFlight p'.toTasks).Sublist (inFlight p.toTasks)) := by
  cases hs with
  | snapshotTick running triggered =>
    obtain ⟨data, serialized, fewer⟩ := inFlight_trigger wired running triggered p.worker
    exact .inl ⟨.inl rfl, _, data, serialized, fewer⟩
  | @close clock order channel running triggered =>
    obtain ⟨data, serialized, fewer⟩ := inFlight_trigger wired running triggered p.worker
    exact .inl ⟨.inr rfl, _, data, serialized, fewer⟩
  | receive idle received =>
    refine .inr ⟨by simp, ?_⟩
    rw [inFlight_receive idle received]
  | create at_create =>
    refine .inr ⟨by simp, ?_⟩
    simp [inFlight, at_create, Writer.request]
  | write at_write progress fits =>
    refine .inr ⟨by simp, ?_⟩
    simp [inFlight, at_write, Writer.request]
  | sync all_written =>
    refine .inr ⟨by simp, ?_⟩
    simp [inFlight, all_written, Writer.request]
  | rename at_rename renamed =>
    refine .inr ⟨by simp, ?_⟩
    simp [inFlight, Writer.request]
  | fail busy =>
    refine .inr ⟨by simp, ?_⟩
    simp [inFlight, Writer.request]
  | writerReturns idle closed =>
    obtain ⟨rfl, empty, _⟩ := Channel.recv_closed closed
    refine .inr ⟨by simp, ?_⟩
    simp [inFlight, Channel.dropReceiver, empty, Writer.request]
  | _ => exact .inr ⟨by simp, List.Sublist.refl _⟩

theorem inFlight_run {codec : Codec Q} {shardId : ShardId} {past : List (Pipeline Q × Turn)}
    {p : Pipeline Q} (run : Run codec shardId past p) :
    ∃ taken, ∃ published : List Bytes, Taken codec past taken ∧
      (inFlight p.toTasks ++ published).Sublist taken ∧
      successiveContents shardId past p =
        published.map some ++ [(origin past p).snapshotDir (finalPath shardId)] ∧
      (successiveContents shardId past p).head? = some (p.snapshotDir (finalPath shardId)) := by
  induction run with
  | start first =>
    obtain ⟨now, snapshotDir, rfl⟩ := first
    exact ⟨[], [], .start, List.Sublist.refl _, rfl, rfl⟩
  | @step past before p turn run hs ih =>
    obtain ⟨taken, published, htaken, ordered, contents, newest⟩ := ih
    have wired := wired_run run
    have later : ∃ taken', Taken codec ((before, turn) :: past) taken' ∧ taken.Sublist taken' ∧
        (inFlight p.toTasks ++ published).Sublist taken' := by
      rcases hs.inFlight_cases wired with
        ⟨triggers, order, data, serialized, fewer⟩ | ⟨no_trigger, fewer⟩
      · have grown := (fewer.append_right published).trans (ordered.cons_cons data)
        exact ⟨data :: taken, .trigger triggers serialized htaken, List.sublist_cons_self _ _,
          grown⟩
      · exact ⟨taken, .other no_trigger htaken, .refl _,
          (fewer.append_right published).trans ordered⟩
    obtain ⟨taken', htaken', more, unpublished⟩ := later
    rcases hs.final_cases wired with
      ⟨no_rename, same⟩ | ⟨request, renames, held, _, queue, idle, new⟩
    · have unchanged : successiveContents shardId ((before, turn) :: past) p =
          successiveContents shardId past before := if_neg no_rename
      refine ⟨taken', published, htaken', unpublished, ?_, ?_⟩
      · rw [unchanged]
        exact contents
      · rw [unchanged, same]
        exact newest
    · have changed : successiveContents shardId ((before, turn) :: past) p =
          some request.data :: successiveContents shardId past before := by
        rw [← new]
        exact if_pos renames
      refine ⟨taken', request.data :: published, htaken', ?_, ?_, ?_⟩
      · have moved : inFlight p.toTasks ++ request.data :: published =
            inFlight before.toTasks ++ published := by
          simp [inFlight, queue, idle, held, Writer.request]
        rw [moved]
        exact ordered.trans more
      · rw [changed, contents]
        rfl
      · rw [changed, new]
        rfl

/-- At the end of every run, and so at a crash anywhere, the snapshot file is as
it was at the start or holds one whole snapshot of the run; the snapshots it has
held were taken in the order in which it held them. -/
theorem publication_ordered {codec : Codec Q} {shardId : ShardId}
    {past : List (Pipeline Q × Turn)} {p : Pipeline Q} (run : Run codec shardId past p) :
    ∃ taken, ∃ published : List Bytes, Taken codec past taken ∧ published.Sublist taken ∧
      successiveContents shardId past p =
        published.map some ++ [(origin past p).snapshotDir (finalPath shardId)] ∧
      (successiveContents shardId past p).head? = some (p.snapshotDir (finalPath shardId)) := by
  obtain ⟨taken, published, htaken, ordered, contents, newest⟩ := inFlight_run run
  exact ⟨taken, published, htaken, (List.sublist_append_right _ _).trans ordered, contents, newest⟩

end

/-- The first tick is published, and after a SET so is the final snapshot. -/
theorem publication_ordered_stored :
    ∃ past, ∃ p : Pipeline (SortedQueue Expiry), @Run _ _ linux64 Codec.source ⟨0⟩ past p ∧
      past.map Prod.snd = publication (clockAt 3) 75 ++ ([⟨clockAt 2, .close⟩, firstSet] ++
        (publication (clockAt 0) 64 ++ [⟨clockAt 0, .snapshotTick⟩])) ∧
      ∃ taken, ∃ published : List Bytes, Taken Codec.source past taken ∧
        published.Sublist taken ∧
        successiveContents ⟨0⟩ past p =
          published.map some ++ [(origin past p).snapshotDir (finalPath ⟨0⟩)] ∧
        (successiveContents ⟨0⟩ past p).head? = some (p.snapshotDir (finalPath ⟨0⟩)) := by
  let _ := linux64
  obtain ⟨bytes, first, size⟩ := firstShard_serializes
  obtain ⟨sent, triggered, queue, _⟩ := triggerSnapshot_first
    (show (Codec.source : Codec (SortedQueue Expiry)).serializeShard _ _ _ = _ from first)
  have start : Run Codec.source ⟨0⟩ [] firstTasks := .start ⟨_, _, rfl⟩
  have ticked := start.step (Step.snapshotTick rfl triggered)
  obtain ⟨more, p, path, turns, worker, emptied, idle, _⟩ := publishes Codec.source ⟨0⟩
    (clockAt 0) (p := ⟨⟨⟨firstShard, false⟩, sent, .receiving⟩, fun _ => none⟩) rfl queue
    (size.symm ▸ by decide)
  rw [size] at turns
  obtain ⟨⟨at_worker, channel, writer⟩, snapshotDir⟩ := p
  cases worker
  cases idle
  have stored := (ticked.extend path).step (firstSet_step _ channel .receiving snapshotDir)
  obtain ⟨data, final, length⟩ := storedShard_serializes
  have wired := wired_run stored
  obtain ⟨sent', triggered'⟩ := triggerSnapshot_isSome
    (show (Codec.source : Codec (SortedQueue Expiry)).serializeShard _ _ _ = _ from final) channel
  obtain ⟨data', final', ⟨_, queue', _⟩ | ⟨_, waits, _⟩⟩ :=
    triggerSnapshot_cases wired.capacity (wired.receiver rfl) triggered'
  · have closed := stored.step (Step.close rfl triggered')
    cases final.symm.trans final'
    obtain ⟨last, p, run, turns', _⟩ := closed_publishes closed queue' length (by decide)
    refine ⟨_, p, run, ?_, publication_ordered run⟩
    simp only [List.map_append, List.map_cons, turns, turns']
    rfl
  · rw [emptied] at waits
    cases waits

end Pipeline

end RsDragonfly
