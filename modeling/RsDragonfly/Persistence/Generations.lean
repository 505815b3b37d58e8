import RsDragonfly.Persistence.Publication
import RsDragonfly.Persistence.Restart

/-! The snapshot directory over any number of process lives.
Every life may end anywhere, and the next one starts on what it left. All shards
share the directory; what one of them may do to a file decides what is in it. -/
namespace RsDragonfly
open Library

namespace Server

section
variable {Q : Type}

/-- The shard took the snapshot in this life, at a tick or at its close. -/
def TakenIn (codec : Codec Q) (n : Fin shardCount)
    (past : List (Server Q × (Fin shardCount × Turn))) (bytes : Bytes) : Prop :=
  ∃ s clock move, (s, (n, ⟨clock, move⟩)) ∈ past ∧ (move = .snapshotTick ∨ move = .close) ∧
    ∃ order, codec.serializeShard clock (s.tasks n).worker.shard order = some bytes

def RenamedIn (n : Fin shardCount) (past : List (Server Q × (Fin shardCount × Turn))) : Prop :=
  ∃ x ∈ past, x.2.1 = n ∧ x.2.2.move = .rename

def CreatedIn (n : Fin shardCount) (past : List (Server Q × (Fin shardCount × Turn))) : Prop :=
  ∃ x ∈ past, x.2.1 = n ∧ x.2.2.move = .create

theorem TakenIn.later {codec : Codec Q} {n : Fin shardCount}
    {past : List (Server Q × (Fin shardCount × Turn))} {bytes : Bytes}
    (taken : TakenIn codec n past bytes) (x : Server Q × (Fin shardCount × Turn)) :
    TakenIn codec n (x :: past) bytes := by
  obtain ⟨s, clock, move, member, rest⟩ := taken
  exact ⟨s, clock, move, List.mem_cons_of_mem x member, rest⟩

theorem mem_inFlight_held {t : Tasks Q} {request : SnapshotRequest}
    (held : t.writer.request = some request) : request.data ∈ Pipeline.inFlight t := by
  simp [Pipeline.inFlight, held]

/-- The file of a shard during one life: as it was found, or the whole of a snapshot that the
shard took in this life. Its temporary file: a part of one. -/
structure FileOf (codec : Codec Q) (n : Fin shardCount) (found : Directory)
    (past : List (Server Q × (Fin shardCount × Turn))) (s : Server Q) : Prop where
  inFlight : ∀ bytes ∈ Pipeline.inFlight (s.tasks n), TakenIn codec n past bytes
  file : (¬ RenamedIn n past ∧
      s.snapshotDir (finalPath (shardIdOf n)) = found (finalPath (shardIdOf n))) ∨
    RenamedIn n past ∧ ∃ bytes, s.snapshotDir (finalPath (shardIdOf n)) = some bytes ∧
      TakenIn codec n past bytes
  temp : ∀ bytes, s.snapshotDir (tempPath (shardIdOf n)) = some bytes →
    CreatedIn n past ∧ ∃ whole, TakenIn codec n past whole ∧ bytes <+: whole

variable [MaxQueue Q Expiry] [Layout] {codec : Codec Q} {found : Directory}
  {clocks : Fin shardCount → Clock} {past : List (Server Q × (Fin shardCount × Turn))}
  {s s' : Server Q}

theorem FileOf.other {m n : Fin shardCount} {turn : Turn} {p : Pipeline Q}
    (h : FileOf codec n found past s) (wired : (s.pipeline m).Wired (shardIdOf m))
    (hs : Pipeline.Step codec (s.pipeline m) turn p) (other : m ≠ n) :
    FileOf codec n found ((s, (m, turn)) :: past) (s.withPipeline m p) := by
  have apart : shardIdOf n ≠ shardIdOf m := fun same => other (shardIdOf_injective same).symm
  have same_file : p.snapshotDir (finalPath (shardIdOf n)) =
      s.snapshotDir (finalPath (shardIdOf n)) :=
    wired.frame hs (tempPath_ne_finalPath _ _).symm fun same => apart (finalPath_injective same)
  have unrenamed : RenamedIn n ((s, (m, turn)) :: past) ↔ RenamedIn n past := by
    unfold RenamedIn
    rw [List.exists_mem_cons_iff]
    exact or_iff_right fun here => other here.1
  constructor
  · rw [tasks_withPipeline (Ne.symm other)]
    exact fun bytes member => (h.inFlight bytes member).later _
  · rw [unrenamed]
    rcases h.file with ⟨never, file⟩ | ⟨before, bytes, file, taken⟩
    · exact .inl ⟨never, same_file.trans file⟩
    · exact .inr ⟨before, bytes, same_file.trans file, taken.later _⟩
  · intro bytes found
    have same_temp : p.snapshotDir (tempPath (shardIdOf n)) =
        s.snapshotDir (tempPath (shardIdOf n)) :=
      wired.frame hs (fun same => apart (tempPath_injective same)) (tempPath_ne_finalPath _ _)
    obtain ⟨⟨x, member, created⟩, whole, taken, part⟩ := h.temp bytes (same_temp.symm.trans found)
    exact ⟨⟨x, List.mem_cons_of_mem _ member, created⟩, whole, taken.later _, part⟩

theorem FileOf.own {n : Fin shardCount} {turn : Turn} {p : Pipeline Q}
    (h : FileOf codec n found past s) (wired : (s.pipeline n).Wired (shardIdOf n))
    (hs : Pipeline.Step codec (s.pipeline n) turn p) :
    FileOf codec n found ((s, (n, turn)) :: past) (s.withPipeline n p) := by
  have tasks : (s.withPipeline n p).tasks n = p.toTasks := Function.update_self ..
  constructor
  · rw [tasks]
    intro bytes member
    rcases hs.inFlight_cases wired with ⟨triggers, order, data, serialized, fewer⟩ | ⟨_, fewer⟩
    · rcases List.mem_cons.mp (fewer.subset member) with rfl | before
      · exact ⟨s, turn.clock, turn.move, List.mem_cons_self, triggers, order, serialized⟩
      · exact (h.inFlight bytes before).later _
    · exact (h.inFlight bytes (fewer.subset member)).later _
  · rcases hs.final_cases wired with ⟨no_rename, same⟩ | ⟨request, renames, held, _, _, _, new⟩
    · have unrenamed : RenamedIn n ((s, (n, turn)) :: past) ↔ RenamedIn n past := by
        unfold RenamedIn
        rw [List.exists_mem_cons_iff]
        exact or_iff_right fun here => no_rename here.2
      rw [unrenamed]
      rcases h.file with ⟨never, file⟩ | ⟨before, bytes, file, taken⟩
      · exact .inl ⟨never, same.trans file⟩
      · exact .inr ⟨before, bytes, same.trans file, taken.later _⟩
    · refine .inr ⟨⟨_, List.mem_cons_self, rfl, renames⟩, request.data, new, ?_⟩
      have holds : (s.tasks n).writer.request = some request := congrArg Writer.request held
      exact (h.inFlight _ (mem_inFlight_held holds)).later _
  · intro bytes found
    have later (created : CreatedIn n past) : CreatedIn n ((s, (n, turn)) :: past) := by
      obtain ⟨x, member, created⟩ := created
      exact ⟨x, List.mem_cons_of_mem _ member, created⟩
    rcases hs.temp_cases wired found with before | ⟨request, held, part, origin⟩
    · obtain ⟨created, whole, taken, part⟩ := h.temp bytes before
      exact ⟨later created, whole, taken.later _, part⟩
    · refine ⟨?_, request.data, (h.inFlight _ (mem_inFlight_held held)).later _, part⟩
      rcases origin with creates | ⟨before, there⟩
      · exact ⟨_, List.mem_cons_self, rfl, creates⟩
      · exact later (h.temp before there).1

theorem fileOf_life (run : (life codec found clocks).Run past s) (n : Fin shardCount) :
    FileOf codec n found past s := by
  induction run with
  | start first =>
    cases first
    refine ⟨fun bytes member => ?_, .inl ⟨?_, cleanup_finalPath found _⟩, fun bytes there => ?_⟩
    · cases member
    · rintro ⟨x, member, _⟩
      cases member
    · simp [new, cleanupTempFiles] at there
  | @step past s s' l before hs ih =>
    obtain ⟨hs⟩ := hs
    rename_i m turn p
    have wired := wired_life before m
    by_cases same : m = n
    · subst same
      exact ih.own wired hs
    · exact ih.other wired hs same

end

end Server

end RsDragonfly
