import RsDragonfly.Persistence.FinalSnapshot
import RsDragonfly.Persistence.Server

/-! A second life of the server on the directory the first one left.
`Server::new` never calls the loader, so every worker starts empty, and until a
command arrives every snapshot it publishes is that of an empty shard. -/
namespace RsDragonfly
open Library

section
variable {Q : Type}

/-- The bytes are a snapshot of some shard without keys. -/
def Hollow (codec : Codec Q) (bytes : Bytes) : Prop :=
  ∃ shard : Shard Q, KeyedMap.size shard.data = 0 ∧
    ∃ clock order, codec.serializeShard clock shard order = some bytes

/-- The tasks of a shard no command has reached. -/
structure Untouched (codec : Codec Q) (tasks : Tasks Q) : Prop where
  empty : KeyedMap.size tasks.worker.shard.data = 0
  queued : ∀ request ∈ tasks.channel.queue, Hollow codec request.data
  held : ∀ request, tasks.writer.request = some request → Hollow codec request.data

theorem Untouched.trigger {codec : Codec Q} {shardId : ShardId} {p : Pipeline Q}
    (h : Untouched codec p.toTasks) (wired : p.Wired shardId)
    (running : p.worker.returned = false) {clock : Clock}
    {order : KeyedMap.Iteration p.worker.shard.data} {sent : Channel SnapshotRequest}
    (triggered : triggerSnapshot codec clock p.worker.shard order p.channel = some sent) :
    ∀ request ∈ sent.queue, Hollow codec request.data := by
  obtain ⟨data, serialized, ⟨_, queue, _⟩ | ⟨_, _, rfl⟩⟩ :=
    triggerSnapshot_cases wired.capacity (wired.receiver running) triggered
  · intro request queued
    rw [queue] at queued
    cases List.mem_singleton.mp queued
    exact ⟨p.worker.shard, h.empty, clock, order, serialized⟩
  · exact h.queued

variable [MaxQueue Q Expiry]

theorem untouched_new (codec : Codec Q) (shardId : ShardId) (now : Instant) :
    Untouched codec (.new shardId now : Tasks Q) := by
  refine ⟨rfl, ?_, nofun⟩
  intro request queued
  cases queued

variable [Layout]

theorem expireKeys_empty {s : Shard Q} (empty : KeyedMap.size s.data = 0) (now : Instant) :
    KeyedMap.size (s.expireKeys now).data = 0 := by
  have nothing : s.data = ∅ := AList.ext (List.eq_nil_of_length_eq_zero empty)
  have backed : Shard.Backed s.data s.ttlQueue := by
    intro k entry d found
    rw [nothing] at found
    cases found
  have counted := (Shard.sweep_swept backed now).counted
  rw [Shard.data_expireKeys]
  omega

theorem Untouched.step {codec : Codec Q} {shardId : ShardId} {p p' : Pipeline Q} {turn : Turn}
    (hs : Pipeline.Step codec p turn p') (wired : p.Wired shardId)
    (no_command : ∀ command response, turn.move ≠ .execute command response)
    (h : Untouched codec p.toTasks) : Untouched codec p'.toTasks := by
  cases hs with
  | execute running executed => exact absurd rfl (no_command _ _)
  | ttlTick running => exact ⟨expireKeys_empty h.empty _, h.queued, h.held⟩
  | snapshotTick running triggered => exact ⟨h.empty, h.trigger wired running triggered, h.held⟩
  | close running triggered =>
    have queued := h.trigger wired running triggered
    exact ⟨h.empty, queued, h.held⟩
  | receive idle received =>
    obtain ⟨queue, _⟩ := Channel.recv_message received
    refine ⟨h.empty, fun request queued => ?_, ?_⟩
    · exact h.queued request (by rw [queue]; exact List.mem_cons_of_mem _ queued)
    · rintro request held
      cases held
      exact h.queued _ (by rw [queue]; exact List.mem_cons_self)
  | create at_create =>
    exact ⟨h.empty, h.queued, fun _ held => h.held _ (by rw [at_create]; exact held)⟩
  | write at_write =>
    exact ⟨h.empty, h.queued, fun _ held => h.held _ (by rw [at_write]; exact held)⟩
  | sync all_written =>
    exact ⟨h.empty, h.queued, fun _ held => h.held _ (by rw [all_written]; exact held)⟩
  | rename => exact ⟨h.empty, h.queued, nofun⟩
  | fail => exact ⟨h.empty, h.queued, nofun⟩
  | writerReturns idle closed =>
    obtain ⟨rfl, _⟩ := Channel.recv_closed closed
    exact ⟨h.empty, h.queued, nofun⟩

namespace Server

def NoCommand (n : Fin shardCount) (past : List (Server Q × (Fin shardCount × Turn))) : Prop :=
  ∀ x ∈ past, x.2.1 = n → ∀ command response, x.2.2.move ≠ .execute command response

theorem untouched_life {codec : Codec Q} {snapshotDir : Directory}
    {clocks : Fin shardCount → Clock} {past : List (Server Q × (Fin shardCount × Turn))}
    {s : Server Q} (run : (life codec snapshotDir clocks).Run past s) {n : Fin shardCount}
    (unreached : NoCommand n past) : Untouched codec (s.tasks n) := by
  induction run with
  | start h =>
    cases h
    exact untouched_new codec _ _
  | @step past s s' l before hs ih =>
    obtain ⟨here, before_it⟩ := List.forall_mem_cons.mp unreached
    obtain ⟨hs⟩ := hs
    rename_i m turn p
    by_cases same : m = n
    · subst same
      have kept := Untouched.step hs (wired_life before m) (here rfl) (ih before_it)
      have tasks : (s.withPipeline m p).tasks m = p.toTasks := Function.update_self ..
      rw [tasks]
      exact kept
    · rw [tasks_withPipeline (Ne.symm same)]
      exact ih before_it

/-- The writer of shard `n` publishes the bytes at this time, and no command has
reached the shard before. -/
def PublishesFirst (n : Fin shardCount) (past : List (Server Q × (Fin shardCount × Turn)))
    (clock : Clock) (bytes : Bytes) : Prop :=
  ∃ later s earlier, past = later ++ (s, (n, ⟨clock, .rename⟩)) :: earlier ∧
    NoCommand n earlier ∧ s.snapshotDir (tempPath (shardIdOf n)) = some bytes

theorem publishesFirst_hollow {codec : Codec Q} {snapshotDir : Directory}
    {clocks : Fin shardCount → Clock} {past : List (Server Q × (Fin shardCount × Turn))}
    {s : Server Q} (run : (life codec snapshotDir clocks).Run past s) {n : Fin shardCount}
    {clock : Clock} {bytes : Bytes} (first : PublishesFirst n past clock bytes) :
    Hollow codec bytes := by
  obtain ⟨later, s, earlier, rfl, unreached, published⟩ := first
  obtain ⟨before, _, hs⟩ := run.at
  have untouched := untouched_life before unreached
  have temp := (wired_life before n).temp
  obtain ⟨hs⟩ := hs
  cases hs with
  | rename at_rename renamed =>
    rw [at_rename] at temp
    cases published.symm.trans temp
    exact untouched.held _ (by rw [show (s.tasks n).writer = _ from at_rename]; rfl)

/-- What a restart owes shard `n`, on the directory it finds: the contents of its
file at the start, and in each first publication what has not expired since. -/
structure Durable (codec : Codec Q) (unreadable : String → Bool) (n : Fin shardCount)
    (snapshotDir : Directory) (clock : Clock) (first : Server Q) (past : List (Server Q × (Fin shardCount × Turn))) :
    Prop where
  hydrated : ∀ saved, loadSnapshot codec unreadable clock snapshotDir (shardIdOf n) = some (.ok saved) →
    ∀ key, (first.tasks n).worker.shard.data.lookup key = saved.data.lookup key
  kept : ∀ later bytes, PublishesFirst n past later bytes →
    ∀ saved unexpired, loadSnapshot codec unreadable clock snapshotDir (shardIdOf n) = some (.ok saved) →
      loadSnapshot codec unreadable later snapshotDir (shardIdOf n) = some (.ok unexpired) →
      ∀ key ∈ saved.data, key ∈ unexpired.data →
        ∃ shown, codec.deserializeSnapshot later bytes = some (.ok shown) ∧ key ∈ shown.data

/-- The file of shard `n` holds no key that is unexpired at this time. -/
def NothingToKeep (codec : Codec Q) (unreadable : String → Bool) (n : Fin shardCount)
    (snapshotDir : Directory) (clock : Clock) : Prop :=
  ∀ saved, loadSnapshot codec unreadable clock snapshotDir (shardIdOf n) = some (.ok saved) →
    ∀ key, key ∉ saved.data

/-- A restart is durable for a shard if and only if its file has nothing left to
keep: the shard starts empty, and what it publishes before its first command
loads empty. -/
theorem restart_durable_iff {codec : Codec Q} (unreadable : String → Bool) {snapshotDir : Directory}
    {clocks clocks' : Fin shardCount → Clock}
    {past past' : List (Server Q × (Fin shardCount × Turn))} {s s' : Server Q}
    (_first_life : (life codec snapshotDir clocks).Run past s)
    (second_life : (life codec s.snapshotDir clocks').Run past' s') (n : Fin shardCount) :
    (Durable codec unreadable n s.snapshotDir (clocks' n) (new s.snapshotDir clocks') past' ↔
      NothingToKeep codec unreadable n s.snapshotDir (clocks' n)) ∧
    ∀ clock bytes, PublishesFirst n past' clock bytes →
      ∀ load shown, codec.deserializeSnapshot load bytes = some (.ok shown) →
        ∀ key, key ∉ shown.data := by
  constructor
  · constructor
    · intro durable saved loads key present
      have absent := durable.hydrated saved loads key
      obtain ⟨entry, found⟩ := KeyedMap.contains_iff.mp present
      rw [found] at absent
      cases absent
    · intro gone
      refine ⟨fun saved loads key => ?_, ?_⟩
      · exact (AList.lookup_eq_none.mpr (gone saved loads key)).symm
      · intro _ _ _ saved _ loads _ key present
        exact absurd present (gone saved loads key)
  · intro clock bytes first load shown accepted key present
    obtain ⟨shard, empty, _, _, serialized⟩ := publishesFirst_hollow second_life first
    have nothing := codec.empty_stays empty serialized accepted
    have no_keys : shown.data.entries = [] := List.eq_nil_of_length_eq_zero nothing
    obtain ⟨entry, found⟩ := KeyedMap.contains_iff.mp present
    have listed := KeyedMap.mem_entries_iff.mpr found
    rw [no_keys] at listed
    cases listed

end Server

end

/- A key that is saved before a crash, with or without a deadline. -/

abbrev QueueShard := Shard (SortedQueue Expiry)

def datedSet : Turn :=
  ⟨clockAt 1, .execute (.set (utf8 "k") (.string (utf8 "v")) (some 10)) .ok⟩

def datedShard : QueueShard :=
  (@Shard.store _ _ linux64 firstShard (utf8 "k") (.string (utf8 "v"))
    (some (.ofSecs 11))).recorded

def loadedKeys (loaded : Option (Except SnapshotError QueueShard)) : Option (List Key) :=
  match loaded with
  | some (.ok shard) => some (shard.data.entries.map Sigma.fst)
  | _ => none

theorem loads_of_loadedKeys {loaded : Option (Except SnapshotError QueueShard)} {keys : List Key}
    (h : loadedKeys loaded = some keys) :
    ∃ shard, loaded = some (.ok shard) ∧ ∀ key, key ∈ shard.data ↔ key ∈ keys := by
  unfold loadedKeys at h
  split at h
  · rename_i shard
    cases h
    exact ⟨shard, rfl, fun key => Iff.rfl⟩
  · cases h

theorem tick_publishes {shard : QueueShard} {order : KeyedMap.Iteration shard.data}
    {clock : Clock} {bytes : Bytes} (serialized : serializeShard clock shard order = some bytes)
    (some_bytes : 0 < bytes.length) (snapshotDir : Directory) :
    ∃ past p, (@Pipeline.runs _ _ linux64 Codec.unchecked ⟨0⟩).Path
        ⟨⟨⟨shard, false⟩, snapshotChannel, .receiving⟩, snapshotDir⟩ past p ∧
      past.map Prod.snd = Pipeline.publication clock bytes.length ++ [⟨clock, .snapshotTick⟩] ∧
      p.snapshotDir (finalPath shard.id) = some bytes := by
  let _ := linux64
  obtain ⟨sent, triggered, queue, _⟩ := triggerSnapshot_first
    (show (Codec.unchecked : Codec (SortedQueue Expiry)).serializeShard _ _ _ = _ from serialized)
  have ticked : (Pipeline.runs Codec.unchecked ⟨0⟩).Path
      ⟨⟨⟨shard, false⟩, snapshotChannel, .receiving⟩, snapshotDir⟩ [_]
      ⟨⟨⟨shard, false⟩, sent, .receiving⟩, snapshotDir⟩ :=
    .step .refl (Pipeline.Step.snapshotTick rfl triggered)
  obtain ⟨more, p, path, turns, _, _, _, contents⟩ := Pipeline.publishes Codec.unchecked ⟨0⟩ clock
    (p := ⟨⟨⟨shard, false⟩, sent, .receiving⟩, snapshotDir⟩) rfl queue some_bytes
  refine ⟨_, p, ticked.trans path, ?_, contents⟩
  rw [List.map_append, turns]
  rfl

namespace Server

def shard0 : Fin shardCount := ⟨0, by decide⟩

abbrev lifeAt (snapshotDir : Directory) (clock : Clock) :=
  @life (SortedQueue Expiry) _ linux64 .unchecked snapshotDir fun _ => clock

abbrev startAt (snapshotDir : Directory) (clock : Clock) : Server (SortedQueue Expiry) :=
  new snapshotDir fun _ => clock

theorem life_of_path (snapshotDir : Directory) (clock : Clock)
    {past : List (Pipeline (SortedQueue Expiry) × Turn)} {p : Pipeline (SortedQueue Expiry)}
    (path : (@Pipeline.runs _ _ linux64 Codec.unchecked ⟨0⟩).Path
      ⟨.new ⟨0⟩ clock.instant, cleanupTempFiles snapshotDir⟩ past p) :
    ∃ past' s, (lifeAt snapshotDir clock).Run past' s ∧
      past'.map Prod.snd = (past.map Prod.snd).map (fun turn => (shard0, turn)) ∧
      s.snapshotDir = p.snapshotDir := by
  let _ := linux64
  obtain ⟨past', lifted, turns⟩ := lift_path snapshotDir (fun _ => clock)
    (startAt snapshotDir clock) shard0 path
  have run := System.Run.extend (.start rfl) lifted
  rw [List.append_nil] at run
  exact ⟨past', _, run, turns, rfl⟩

theorem life_saves {set : Turn} {shard : QueueShard} {bytes : Bytes}
    {order : KeyedMap.Iteration shard.data}
    (stored : ∀ snapshotDir, @Pipeline.Step _ _ linux64 Codec.unchecked
      ⟨⟨⟨firstShard, false⟩, snapshotChannel, .receiving⟩, snapshotDir⟩ set
      ⟨⟨⟨shard, false⟩, snapshotChannel, .receiving⟩, snapshotDir⟩)
    (serialized : serializeShard (clockAt 2) shard order = some bytes)
    (some_bytes : 0 < bytes.length) :
    ∃ past s, (lifeAt (fun _ => none) (clockAt 0)).Run past s ∧
      past.map Prod.snd = (Pipeline.publication (clockAt 2) bytes.length ++
        [⟨clockAt 2, .snapshotTick⟩, set]).map (fun turn => (shard0, turn)) ∧
      s.snapshotDir (finalPath shard.id) = some bytes := by
  let _ := linux64
  obtain ⟨past, p, path, turns, contents⟩ :=
    tick_publishes serialized some_bytes (cleanupTempFiles fun _ => none)
  have whole := (System.Path.step .refl (stored _)).trans path
  obtain ⟨past', s, run, turns', same⟩ := life_of_path (fun _ => none) (clockAt 0) whole
  refine ⟨past', s, run, ?_, ?_⟩
  · rw [turns', List.map_append, turns, List.append_assoc]
    rfl
  · rw [same]
    exact contents

theorem datedSet_step (snapshotDir : Directory) : @Pipeline.Step _ _ linux64 Codec.unchecked
    ⟨⟨⟨firstShard, false⟩, snapshotChannel, .receiving⟩, snapshotDir⟩ datedSet
    ⟨⟨⟨datedShard, false⟩, snapshotChannel, .receiving⟩, snapshotDir⟩ :=
  @Pipeline.Step.execute _ _ linux64 Codec.unchecked
    ⟨⟨⟨firstShard, false⟩, snapshotChannel, .receiving⟩, snapshotDir⟩ (clockAt 1) _ _ _ rfl rfl

/-- A restart after the deadline of the only key is durable. -/
theorem restart_after_deadline :
    ∃ past s bytes, (lifeAt (fun _ => none) (clockAt 0)).Run past s ∧
      s.snapshotDir (finalPath ⟨0⟩) = some bytes ∧ bytes.length = 83 ∧
      (lifeAt s.snapshotDir (clockAt 100)).Run [] (startAt s.snapshotDir (clockAt 100)) ∧
      Durable .unchecked (fun _ => false) shard0 s.snapshotDir (clockAt 100)
        (startAt s.snapshotDir (clockAt 100)) [] := by
  let _ := linux64
  have saved : (serializeShard (clockAt 2) datedShard ⟨datedShard.data.entries, .refl _⟩).map
      (fun bytes => (bytes.length, loadedKeys (loadUnchecked (clockAt 100) bytes))) =
        some (83, some []) := by decide +kernel
  obtain ⟨bytes, serialized, outcome⟩ := Option.map_eq_some_iff.mp saved
  obtain ⟨size, keys⟩ := Prod.mk.inj outcome
  obtain ⟨past, s, run, _, contents⟩ :=
    life_saves datedSet_step serialized (by rw [size]; decide)
  have restarted : (lifeAt s.snapshotDir (clockAt 100)).Run []
      (startAt s.snapshotDir (clockAt 100)) := .start rfl
  refine ⟨past, s, bytes, run, contents, size, restarted,
    (restart_durable_iff _ run restarted shard0).1.mpr ?_⟩
  intro loaded loads key present
  obtain ⟨shard, hload, members⟩ := loads_of_loadedKeys keys
  have file : s.snapshotDir (finalPath (shardIdOf shard0)) = some bytes := contents
  rw [loadSnapshot_present file rfl] at loads
  cases loads.symm.trans hload
  exact absurd ((members key).mp present) List.not_mem_nil

/-- A restart loses the key of a file that would load, and wipes the file. -/
theorem restart_loses :
    ∃ past past' s s', (lifeAt (fun _ => none) (clockAt 0)).Run past s ∧
      (lifeAt s.snapshotDir (clockAt 9)).Run past' s' ∧
      (∃ saved : QueueShard, loadSnapshot .unchecked (fun _ => false) (clockAt 9) s.snapshotDir ⟨0⟩ =
        some (.ok saved) ∧ utf8 "k" ∈ saved.data) ∧
      (∃ wiped : QueueShard, loadSnapshot .unchecked (fun _ => false) (clockAt 9) s'.snapshotDir ⟨0⟩ =
        some (.ok wiped) ∧ utf8 "k" ∉ wiped.data) ∧
      ¬ Durable .unchecked (fun _ => false) shard0 s.snapshotDir (clockAt 9)
        (startAt s.snapshotDir (clockAt 9)) past' := by
  let _ := linux64
  have saved : (serializeShard (clockAt 2) storedShard ⟨storedShard.data.entries, .refl _⟩).map
      (fun bytes => (bytes.length, loadedKeys (loadUnchecked (clockAt 9) bytes))) =
        some (75, some [utf8 "k"]) := by decide +kernel
  have wiped : (serializeShard (clockAt 9) (.new ⟨0⟩ (clockAt 9).instant : QueueShard)
      ⟨[], .refl _⟩).map
      (fun bytes => (bytes.length, loadedKeys (loadUnchecked (clockAt 9) bytes))) =
        some (64, some []) := by decide +kernel
  obtain ⟨bytes, serialized, outcome⟩ := Option.map_eq_some_iff.mp saved
  obtain ⟨size, keys⟩ := Prod.mk.inj outcome
  obtain ⟨bytes', serialized', outcome'⟩ := Option.map_eq_some_iff.mp wiped
  obtain ⟨size', keys'⟩ := Prod.mk.inj outcome'
  obtain ⟨past, s, run, _, contents⟩ :=
    life_saves (Pipeline.firstSet_step _ _ _) serialized (by rw [size]; decide)
  obtain ⟨_, p, path, _, contents'⟩ :=
    tick_publishes serialized' (by rw [size']; decide) (cleanupTempFiles s.snapshotDir)
  obtain ⟨past', s', run', _, same⟩ := life_of_path s.snapshotDir (clockAt 9) path
  obtain ⟨shard, hload, members⟩ := loads_of_loadedKeys keys
  obtain ⟨shard', hload', members'⟩ := loads_of_loadedKeys keys'
  have file : s.snapshotDir (finalPath ⟨0⟩) = some bytes := contents
  have file' : s'.snapshotDir (finalPath ⟨0⟩) = some bytes' := by
    rw [same]
    exact contents'
  have loads : loadSnapshot .unchecked (fun _ => false) (clockAt 9) s.snapshotDir ⟨0⟩ =
      some (.ok shard) := (loadSnapshot_present file rfl).trans hload
  have loads' : loadSnapshot .unchecked (fun _ => false) (clockAt 9) s'.snapshotDir ⟨0⟩ =
      some (.ok shard') := (loadSnapshot_present file' rfl).trans hload'
  have present : utf8 "k" ∈ shard.data := (members _).mpr List.mem_cons_self
  refine ⟨past, past', s, s', run, run', ⟨shard, loads, present⟩, ⟨shard', loads', ?_⟩, ?_⟩
  · intro there
    exact absurd ((members' _).mp there) List.not_mem_nil
  · intro durable
    have empty := durable.hydrated shard loads (utf8 "k")
    obtain ⟨entry, found⟩ := KeyedMap.contains_iff.mp present
    rw [found] at empty
    cases empty

end Server

end RsDragonfly
