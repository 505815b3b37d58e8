import RsDragonfly.Frontend.Linearizable

/-! A shard whose worker is gone.
A worker that panics takes its channel with it, and nothing starts another one.
What this means for the connections is read off the steps: by whose command it
happened, who is told of it, and what becomes of the commands that come later. -/
namespace RsDragonfly
open Library

def Command.secondsAdded : Command → Option UInt64
  | .set _ _ time => time
  | .expire _ seconds => some seconds
  | _ => none

theorem Shard.Overflows.seconds {Q : Type} {s : Shard Q} {now : Instant} {c : Command}
    (h : s.Overflows now c) :
    target c ≠ none ∧ ∃ seconds, c.secondsAdded = some seconds ∧
      i64Max < now.secs + seconds.toNat := by
  cases c with
  | set key value ttl =>
    cases ttl with
    | none => cases h
    | some seconds => exact ⟨by simp [target], seconds, rfl, h.2.2.2⟩
  | expire key seconds => exact ⟨by simp [target], seconds, rfl, h.2⟩
  | _ => cases h

namespace Traffic

section
variable {ι Q : Type}

def leaves (i : Fin shardCount) : Act ι → Bool
  | .panic j _ _ | .stop j => decide (j = i)
  | _ => false

def Left (i : Fin shardCount) (acts : List (Act ι)) : Prop := ∃ act ∈ acts, leaves i act = true

theorem Left.earlier {i : Fin shardCount} {earlier past : List (Traffic ι Q × Act ι)}
    (left : Left i (acts earlier)) (inside : earlier ⊆ past) : Left i (acts past) := by
  obtain ⟨act, member, leaves⟩ := left
  exact ⟨act, List.map_subset _ inside member, leaves⟩

structure Down (node : Node ι Q) : Prop where
  ended : node.worker = .ended
  closed : node.channel.receiving = false

theorem down_ended (node : Node ι Q) : Down node.ended := ⟨rfl, rfl⟩

/-- A call that has not been accepted. -/
def Unsent (phase : Phase) : Prop :=
  phase = .sending ∨ ∃ outcome, (outcome = .closed ∨ outcome = .overloaded) ∧ phase = .done outcome

theorem unsent_ends {node : Node ι Q} {t : Ticket ι} {phase : Phase} {outcome : Outcome}
    (unsent : Unsent phase) (ends : node.Ends t phase outcome) :
    outcome = .closed ∨ outcome = .overloaded := by
  cases ends with
  | overloaded => exact .inr rfl
  | closed gone => exact .inl rfl
  | _ =>
    rcases unsent with other | ⟨_, _, other⟩
    · cases other
    · cases other

variable [DecidableEq ι] [MaxQueue Q Expiry] [Layout]

/-- A worker that leaves is down; another stays down, or as healthy as it was. -/
theorem works_standing {i j : Fin shardCount} {node node' : Node ι Q} {act : Act ι}
    (works : node.Works j act node') :
    (leaves i act = true ∧ j = i ∧ Down node') ∨
    (leaves i act = false ∧ (j = i → ¬ Down node ∧ (Healthy node → Healthy node'))) := by
  cases works with
  | receive waiting received =>
    refine .inr ⟨rfl, fun _ => ⟨fun down => ?_, fun healthy => ?_⟩⟩
    · cases waiting.symm.trans down.ended
    · exact ⟨(Channel.recv_message received).2.2.2.trans healthy.receiving, healthy.replies, rfl⟩
  | execute executing executed =>
    refine .inr ⟨rfl, fun _ => ⟨fun down => ?_, fun healthy => ⟨healthy.receiving, ?_, rfl⟩⟩⟩
    · cases executing.symm.trans down.ended
    · intro t
      rw [Node.replies_reply]
      split
      · simp
      · exact healthy.replies t
  | panic executing panics =>
    by_cases here : j = i
    · exact .inl ⟨by simp [leaves, here], here, down_ended node⟩
    · exact .inr ⟨by simp [leaves, here], fun same => absurd same here⟩
  | stop waiting =>
    by_cases here : j = i
    · exact .inl ⟨by simp [leaves, here], here, down_ended node⟩
    · exact .inr ⟨by simp [leaves, here], fun same => absurd same here⟩
  | tick waiting =>
    refine .inr ⟨rfl, fun _ => ⟨fun down => ?_, fun healthy => ?_⟩⟩
    · cases waiting.symm.trans down.ended
    · exact ⟨healthy.receiving, healthy.replies, rfl⟩

theorem Step.standing {σ σ' : Traffic ι Q} {act : Act ι} (h : Step σ act σ') (i : Fin shardCount) :
    (leaves i act = true ∧ Down (σ'.nodes i)) ∨
    (leaves i act = false ∧ (Down (σ.nodes i) → Down (σ'.nodes i)) ∧
      (Healthy (σ.nodes i) → Healthy (σ'.nodes i))) := by
  cases h with
  | issue idle plan => exact .inr ⟨rfl, id, id⟩
  | done current member ends => exact .inr ⟨rfl, id, id⟩
  | answer current lengths finished => exact .inr ⟨rfl, id, id⟩
  | @send c task part sent current member phase accepted =>
    refine .inr ⟨rfl, ?_⟩
    rw [nodes_setNode]
    split
    · rename_i here
      subst here
      have room := Channel.trySend_ok accepted
      refine ⟨fun down => ?_, fun healthy => ?_⟩
      · cases down.closed.symm.trans room.1
      · exact ⟨room.2.2.2.2.2.trans healthy.receiving, healthy.replies, healthy.alive⟩
    · exact ⟨id, id⟩
  | @work j _ node works =>
    rw [nodes_setNode]
    rcases works_standing (i := i) works with ⟨left, rfl, down⟩ | ⟨stays, own⟩
    · rw [if_pos rfl]
      exact .inl ⟨left, down⟩
    · refine .inr ⟨stays, ?_⟩
      split
      · rename_i here
        subst here
        obtain ⟨up, kept⟩ := own rfl
        exact ⟨fun down => absurd down up, kept⟩
      · exact ⟨id, id⟩

/-- A worker is down from the step in which it left, and healthy as long as it has not. -/
theorem standing_run {past : List (Traffic ι Q × Act ι)} {σ : Traffic ι Q}
    (run : (traffic ι Q).Run past σ) (i : Fin shardCount) :
    (Left i (acts past) ∧ Down (σ.nodes i)) ∨ (¬ Left i (acts past) ∧ Healthy (σ.nodes i)) := by
  induction run with
  | start first =>
    obtain ⟨_, now, fresh⟩ := first
    refine .inr ⟨by simp [Left, acts], ?_⟩
    rw [fresh i]
    exact ⟨rfl, by simp, rfl⟩
  | @step past σ σ' act before hs ih =>
    have grown : Left i (acts ((σ, act) :: past)) ↔ leaves i act = true ∨ Left i (acts past) := by
      simp [Left, acts]
    rw [grown]
    rcases hs.standing i with ⟨leaving, down⟩ | ⟨stays, down, healthy⟩
    · exact .inl ⟨.inl leaving, down⟩
    · rw [stays]
      rcases ih with ⟨left, was⟩ | ⟨never, was⟩
      · exact .inl ⟨.inr left, down was⟩
      · exact .inr ⟨by simp [never], healthy was⟩

/-- The shard is down, and the ticket's call of it was not accepted. -/
structure Refusing (t : Ticket ι) (i : Fin shardCount) (σ : Traffic ι Q) : Prop where
  down : Down (σ.nodes i)
  issued : t.number < (σ.clients t.client).issued
  unsent : ∀ task, (σ.clients t.client).task = some task → task.number = t.number →
    Unsent (task.phases i)

theorem send_receiving {σ σ' : Traffic ι Q} {t : Ticket ι} {part : Part}
    (h : Step σ (.send t part) σ') : (σ.nodes part.shard).channel.receiving = true := by
  cases h with
  | send current member phase accepted => exact (Channel.trySend_ok accepted).1
  | work works => cases works

theorem Refusing.step {t : Ticket ι} {i : Fin shardCount} {σ σ' : Traffic ι Q} {act : Act ι}
    (refusing : Refusing t i σ) (h : Step σ act σ') : Refusing t i σ' := by
  have down : Down (σ'.nodes i) := by
    rcases h.standing i with ⟨_, down⟩ | ⟨_, stays, _⟩
    · exact down
    · exact stays refusing.down
  refine ⟨down, Nat.lt_of_lt_of_le refusing.issued (h.issued_le _), ?_⟩
  intro after current same
  rcases h.task_cases current with ⟨task, was, _, number, _, _, phases⟩ | ⟨_, _, number, _, _⟩
  · have before := refusing.unsent task was (number.symm.trans same)
    rcases phases i with kept | ⟨_, _, part, rfl, rfl⟩ | ⟨outcome, ends, over_, _⟩
    · rw [kept]
      exact before
    · cases refusing.down.closed.symm.trans (send_receiving h)
    · rw [over_]
      exact .inr ⟨outcome, unsent_ends before ends, rfl⟩
  · exact absurd (same ▸ number) (Nat.ne_of_lt refusing.issued)

end

end Traffic

end RsDragonfly
