import RsDragonfly.Persistence.Pipeline

/-! `server.rs`: the tasks of all shards on one snapshot directory.
The listener, the drain time and the metrics exporter do not touch the shards. -/
namespace RsDragonfly
open Library

def shardIdOf (n : Fin shardCount) : ShardId := ⟨UInt16.ofNat n⟩

theorem shardIdOf_injective : Function.Injective shardIdOf := by
  intro m n same
  have numbers : (UInt16.ofNat m).toNat = (UInt16.ofNat n).toNat :=
    congrArg (fun id => id.id.toNat) same
  have small (i : Fin shardCount) : (i : Nat) < UInt16.size := Nat.lt_trans i.isLt (by decide)
  rw [UInt16.toNat_ofNat_of_lt' (small m), UInt16.toNat_ofNat_of_lt' (small n)] at numbers
  exact Fin.ext numbers

structure Server (Q : Type) where
  tasks : Fin shardCount → Tasks Q
  snapshotDir : Directory

namespace Server

section
variable {Q : Type}

def pipeline (s : Server Q) (n : Fin shardCount) : Pipeline Q := ⟨s.tasks n, s.snapshotDir⟩

def withPipeline (s : Server Q) (n : Fin shardCount) (p : Pipeline Q) : Server Q :=
  ⟨Function.update s.tasks n p.toTasks, p.snapshotDir⟩

@[simp] theorem pipeline_withPipeline (s : Server Q) (n : Fin shardCount) (p : Pipeline Q) :
    (s.withPipeline n p).pipeline n = p := by
  simp [pipeline, withPipeline]

@[simp] theorem withPipeline_withPipeline (s : Server Q) (n : Fin shardCount)
    (p p' : Pipeline Q) : (s.withPipeline n p).withPipeline n p' = s.withPipeline n p' := by
  simp [withPipeline]

theorem tasks_withPipeline {s : Server Q} {m n : Fin shardCount} (other : m ≠ n)
    (p : Pipeline Q) : (s.withPipeline n p).tasks m = s.tasks m :=
  Function.update_of_ne other ..

variable [MaxQueue Q Expiry]

/-- `Server::new`, with the clocks at which the workers start. -/
def new (snapshotDir : Directory) (clocks : Fin shardCount → Clock) : Server Q where
  tasks n := .new (shardIdOf n) (clocks n).instant
  snapshotDir := cleanupTempFiles snapshotDir

variable [Layout]

inductive Step (codec : Codec Q) : Server Q → Fin shardCount × Turn → Server Q → Prop where
  | turn {s : Server Q} {n : Fin shardCount} {turn : Turn} {p : Pipeline Q}
      (hs : Pipeline.Step codec (s.pipeline n) turn p) : Step codec s (n, turn) (s.withPipeline n p)

/-- One life of the server; a crash or an exit only ends it. -/
def life (codec : Codec Q) (snapshotDir : Directory) (clocks : Fin shardCount → Clock) :
    System (Server Q) (Fin shardCount × Turn) where
  start s := s = new snapshotDir clocks
  step := Step codec

theorem wired_life {codec : Codec Q} {snapshotDir : Directory} {clocks : Fin shardCount → Clock}
    {past : List (Server Q × (Fin shardCount × Turn))} {s : Server Q}
    (run : (life codec snapshotDir clocks).Run past s) (n : Fin shardCount) :
    (s.pipeline n).Wired (shardIdOf n) := by
  refine run.invariant (fun s => ∀ n, (s.pipeline n).Wired (shardIdOf n)) ?_ ?_ n
  · rintro _ rfl n
    exact Pipeline.wired_new _ _ _
  · rintro s _ _ ⟨hs⟩ wired m
    rename_i n turn p
    by_cases same : m = n
    · subst same
      rw [pipeline_withPipeline]
      exact (wired m).step hs
    · have kept : p.snapshotDir (tempPath (shardIdOf m)) = s.snapshotDir (tempPath (shardIdOf m)) :=
        (wired n).frame hs (fun equal => same (shardIdOf_injective (tempPath_injective equal)))
          (tempPath_ne_finalPath _ _)
      have tasks : ((s.withPipeline n p).pipeline m) = ⟨s.tasks m, p.snapshotDir⟩ := by
        unfold pipeline
        rw [tasks_withPipeline same]
        rfl
      rw [tasks]
      exact (wired m).on kept

theorem lift_path {codec : Codec Q} {shardId : ShardId} (snapshotDir : Directory)
    (clocks : Fin shardCount → Clock) (s : Server Q) (n : Fin shardCount)
    {past : List (Pipeline Q × Turn)} {p : Pipeline Q}
    (path : (Pipeline.runs codec shardId).Path (s.pipeline n) past p) :
    ∃ past', (life codec snapshotDir clocks).Path s past' (s.withPipeline n p) ∧
      past'.map Prod.snd = (past.map Prod.snd).map fun turn => (n, turn) := by
  generalize hstart : s.pipeline n = start at path
  induction path with
  | refl =>
    subst hstart
    have same : s.withPipeline n (s.pipeline n) = s := by simp [withPipeline, pipeline]
    rw [same]
    exact ⟨[], .refl, rfl⟩
  | @step past _ before after turn _ hs ih =>
    obtain ⟨past', path, turns⟩ := ih hstart
    have here : Pipeline.Step codec ((s.withPipeline n before).pipeline n) turn after := by
      rw [pipeline_withPipeline]
      exact hs
    have next := path.step (Step.turn here)
    rw [withPipeline_withPipeline] at next
    exact ⟨_, next, by rw [List.map_cons, List.map_cons, List.map_cons, turns]⟩

end

end Server

end RsDragonfly
