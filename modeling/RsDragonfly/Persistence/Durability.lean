import RsDragonfly.Frontend.Linearizable
import RsDragonfly.Persistence.Contents

/-! Clients, shards and snapshot files together.
The worker of a shard answers the connections and takes the snapshots, so its commands,
sweeps and its end are steps of both sides. What was answered and what is in the files is
then told of one order of the executed parts. -/
namespace RsDragonfly
open Library

theorem Shard.stepIf_unique {Q : Type} [MaxQueue Q Expiry] [Layout] {s s' s'' : Shard Q}
    {e : Option Event} (one : (runs Q).stepIf s e s') (other : (runs Q).stepIf s e s'') :
    s' = s'' := by
  cases e with
  | none => exact Eq.trans one other.symm
  | some e =>
    obtain ⟨now, action⟩ := e
    cases action with
    | command c response =>
      have same := Eq.trans (Eq.symm one) other
      cases same
      rfl
    | sweep => exact Eq.trans one other.symm

namespace Traffic

section
variable {ι : Type}

def shardEvent (n : Fin shardCount) : Act ι → Option Event
  | .execute i now message response =>
    if i = n then some ⟨now, .command message.command response⟩ else none
  | .tick i now => if i = n then some ⟨now, .sweep⟩ else none
  | _ => none

variable {Q : Type} [DecidableEq ι] [MaxQueue Q Expiry] [Layout]

/-- A step does to each shard what its act says; the shard of a worker that ends is gone. -/
theorem Step.shard {σ σ' : Traffic ι Q} {act : Act ι} (hs : Step σ act σ') (n : Fin shardCount)
    {shard' : Shard Q} (current : shard' ∈ shardOf (σ'.nodes n).worker) :
    ∃ shard ∈ shardOf (σ.nodes n).worker,
      (Shard.runs Q).stepIf shard (shardEvent n act) shard' := by
  cases hs with
  | issue idle plan => exact ⟨shard', current, rfl⟩
  | @send c task part sent member phase accepted =>
    refine ⟨shard', ?_, rfl⟩
    rw [nodes_setNode] at current
    split at current
    · rename_i here
      subst here
      exact current
    · exact current
  | done member ends => exact ⟨shard', current, rfl⟩
  | answer lengths finished => exact ⟨shard', current, rfl⟩
  | @work i _ node works =>
    rw [nodes_setNode] at current
    split at current
    · rename_i here
      subst here
      cases works with
      | receive waiting received =>
        refine ⟨shard', ?_, rfl⟩
        rw [waiting]
        exact current
      | @execute shard _ message now response executing executed =>
        cases current
        refine ⟨shard, by rw [executing]; rfl, ?_⟩
        rw [shardEvent, if_pos rfl]
        exact executed
      | panic executing panics => cases current
      | stop waiting => cases current
      | @tick shard now waiting =>
        cases current
        refine ⟨shard, by rw [waiting]; rfl, ?_⟩
        rw [shardEvent, if_pos rfl]
        rfl
    · rename_i elsewhere
      refine ⟨shard', current, ?_⟩
      cases works with
      | execute executing executed =>
        rw [shardEvent, if_neg (Ne.symm elsewhere)]
        rfl
      | tick waiting =>
        rw [shardEvent, if_neg (Ne.symm elsewhere)]
        rfl
      | _ => rfl

end

end Traffic

namespace Store
open Traffic

inductive Move (ι : Type) where
  /-- A step of the connections and channels, or a command that panics. -/
  | traffic (act : Act ι)
  | execute (n : Fin shardCount) (clock : Clock) (message : CommandMessage ι) (response : Response)
  | ttlTick (n : Fin shardCount) (clock : Clock)
  | close (n : Fin shardCount) (clock : Clock)
  /-- The worker is ended by a snapshot, at a tick or at its close. -/
  | snapshotPanics (n : Fin shardCount) (clock : Clock)
  /-- A snapshot of the worker, or a step of its writer. -/
  | task (n : Fin shardCount) (turn : Turn)

section
variable {ι : Type}

def Move.act? : Move ι → Option (Act ι)
  | .traffic act => some act
  | .execute n clock message response => some (.execute n clock.instant message response)
  | .ttlTick n clock => some (.tick n clock.instant)
  | .close n _ | .snapshotPanics n _ => some (.stop n)
  | .task _ _ => none

def Move.turn? : Move ι → Option (Fin shardCount × Turn)
  | .traffic _ | .snapshotPanics _ _ => none
  | .execute n clock message response => some (n, ⟨clock, .execute message.command response⟩)
  | .ttlTick n clock => some (n, ⟨clock, .ttlTick⟩)
  | .close n clock => some (n, ⟨clock, .close⟩)
  | .task n turn => some (n, turn)

variable {Q : Type}

/-- Each side leaves the shared steps to the moves for them, and a snapshot is taken
between two commands. -/
def Allowed (σ : Traffic ι Q × Server Q) : Move ι → Prop
  | .traffic act => (∀ n, shardEvent n act = none) ∧ ∀ n, act ≠ .stop n
  | .snapshotPanics n clock => ∃ order, serializeShard clock (σ.2.tasks n).worker.shard order = none
  | .task n turn => Server.eventOf turn = none ∧ turn.move ≠ .close ∧
      (turn.move = .snapshotTick → ∃ shard, (σ.1.nodes n).worker = .waiting shard)
  | _ => True

/-- The worker has one shard, on both sides. -/
def Agrees (σ : Traffic ι Q × Server Q) : Prop :=
  ∀ n, ∀ shard ∈ shardOf (σ.1.nodes n).worker, shard = (σ.2.tasks n).worker.shard

def actsOf (past : List ((Traffic ι Q × Server Q) × Move ι)) : List (Act ι) :=
  past.filterMap fun x => x.2.act?

def serverPast (past : List ((Traffic ι Q × Server Q) × Move ι)) :
    List (Server Q × (Fin shardCount × Turn)) :=
  past.filterMap fun x => x.2.turn?.map fun turn => (x.1.2, turn)

theorem same_event {σ : Traffic ι Q × Server Q} {move : Move ι} (allowed : Allowed σ move)
    (n : Fin shardCount) :
    move.turn?.bind (Server.eventAt n) = move.act?.bind (shardEvent n) := by
  cases move with
  | traffic act => exact (allowed.1 n).symm
  | execute i clock message response => rfl
  | ttlTick i clock => rfl
  | close i clock =>
    change Server.eventAt n (i, ⟨clock, .close⟩) = none
    by_cases here : i = n <;> simp [Server.eventAt, here, Server.eventOf]
  | snapshotPanics i clock => rfl
  | task i turn =>
    change Server.eventAt n (i, turn) = none
    by_cases here : i = n <;> simp [Server.eventAt, here, allowed.1]

theorem same_events {past : List ((Traffic ι Q × Server Q) × Move ι)}
    (allowed : ∀ x ∈ past, Allowed x.1 x.2) (n : Fin shardCount) :
    Server.eventsOf n (serverPast past) = (actsOf past).filterMap (shardEvent n) := by
  unfold Server.eventsOf serverPast actsOf
  rw [List.filterMap_filterMap, List.filterMap_filterMap]
  apply List.filterMap_congr
  intro x member
  rw [← same_event (allowed x member) n]
  cases x.2.turn? <;> rfl

variable [DecidableEq ι] [MaxQueue Q Expiry] [Layout]

variable (ι Q) in
/-- One life of the whole server, on the snapshots that it found. -/
def store (found : Directory) (clocks : Fin shardCount → Clock) :
    System (Traffic ι Q × Server Q) (Move ι) :=
  System.sync (traffic ι Q) (Server.life .source found clocks) Move.act? Move.turn? Agrees Allowed

variable {found : Directory} {clocks : Fin shardCount → Clock}
  {past : List ((Traffic ι Q × Server Q) × Move ι)} {σ σ' : Traffic ι Q × Server Q}

theorem Agrees.step {move : Move ι} (agrees : Agrees σ) (hs : (store ι Q found clocks).step σ move σ') :
    Agrees σ' := by
  obtain ⟨allowed, left, right⟩ := hs
  intro n shard' current
  have here : ∃ shard ∈ shardOf (σ.1.nodes n).worker,
      (Shard.runs Q).stepIf shard (move.act?.bind (shardEvent n)) shard' := by
    cases seen : move.act? with
    | none =>
      rw [seen] at left
      exact ⟨shard', left ▸ current, rfl⟩
    | some act =>
      rw [seen] at left
      exact Traffic.Step.shard left n current
  have there : (Shard.runs Q).stepIf (σ.2.tasks n).worker.shard
      (move.turn?.bind (Server.eventAt n)) (σ'.2.tasks n).worker.shard := by
    cases seen : move.turn? with
    | none =>
      rw [seen] at right
      exact congrArg (fun s : Server Q => (s.tasks n).worker.shard) right
    | some turn =>
      rw [seen] at right
      exact Server.Step.shard right n
  obtain ⟨shard, before, here⟩ := here
  rw [agrees n shard before] at here
  rw [same_event allowed n] at there
  exact Shard.stepIf_unique here there

end

/- A SET that a snapshot tick saves. -/

end Store

end RsDragonfly
