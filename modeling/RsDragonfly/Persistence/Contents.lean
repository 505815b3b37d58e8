import RsDragonfly.Persistence.Generations
import RsDragonfly.Shard.Reads

/-! What a snapshot file says of the commands before it.
A tick writes down the shard as its commands left it, and the writer publishes those
bytes whole. So the file of a shard can be read as a statement about the history of
every key: its last value, its deadline in force, and nothing that was deleted. -/
namespace RsDragonfly
open Library

section
variable {Q : Type} [MaxQueue Q Expiry]

variable [Layout]

end

namespace Server

section
variable {Q : Type}

def eventOf (turn : Turn) : Option Event :=
  match turn.move with
  | .execute command response => some ⟨turn.clock.instant, .command command response⟩
  | .ttlTick => some ⟨turn.clock.instant, .sweep⟩
  | _ => none

def eventAt (n : Fin shardCount) (l : Fin shardCount × Turn) : Option Event :=
  if l.1 = n then eventOf l.2 else none

/-- The commands and sweeps of a shard in one life, newest first. -/
def eventsOf (n : Fin shardCount) (past : List (Server Q × (Fin shardCount × Turn))) : List Event :=
  past.filterMap fun x => eventAt n x.2

variable [MaxQueue Q Expiry] [Layout] {found : Directory} {clocks : Fin shardCount → Clock}
  {past : List (Server Q × (Fin shardCount × Turn))} {s : Server Q}

theorem event_step {codec : Codec Q} {p p' : Pipeline Q} {turn : Turn} {e : Event}
    (hs : Pipeline.Step codec p turn p') (seen : eventOf turn = some e) :
    Shard.step p.worker.shard e p'.worker.shard := by
  cases hs with
  | execute running executed =>
    cases seen
    exact executed
  | ttlTick running =>
    cases seen
    rfl
  | _ => cases seen

theorem unseen_step {codec : Codec Q} {p p' : Pipeline Q} {turn : Turn}
    (hs : Pipeline.Step codec p turn p') (unseen : eventOf turn = none) :
    p'.worker.shard = p.worker.shard := by
  cases hs with
  | execute running executed => cases unseen
  | ttlTick running => cases unseen
  | _ => rfl

theorem Step.shard {codec : Codec Q} {s s' : Server Q} {l : Fin shardCount × Turn}
    (hs : Step codec s l s') (n : Fin shardCount) :
    (Shard.runs Q).stepIf (s.tasks n).worker.shard (eventAt n l) (s'.tasks n).worker.shard := by
  obtain ⟨hs⟩ := hs
  rename_i m turn p
  by_cases here : m = n
  · subst here
    have tasks : (s.withPipeline m p).tasks m = p.toTasks := Function.update_self ..
    rw [eventAt, if_pos rfl, tasks]
    cases seen : eventOf turn with
    | none => exact unseen_step hs seen
    | some e => exact event_step hs seen
  · rw [eventAt, if_neg here, tasks_withPipeline (Ne.symm here)]
    rfl

end

end Server

end RsDragonfly
