import RsDragonfly.Frontend.Outage

/-! No command waits for nothing.
What a connection awaits is in the queue of a shard, in the hands of its worker, or
over. So the shards can always work off what is in front of it, and every command
comes to its answer with nothing else to happen: no timeout, no other client's doing,
and a panic only of a command whose seconds are too many. -/
namespace RsDragonfly
open Library

namespace Traffic

section
variable {ι Q : Type}

/-- The reply to a ticket is there, will not come, or is still to be made. -/
def Attends (node : Node ι Q) (ticket : Ticket ι) : Prop :=
  (∃ m ∈ node.pending, m.replyTx = ticket) ∨ node.replies ticket ≠ .empty

structure Attended (σ : Traffic ι Q) : Prop where
  capacity : ∀ i, (σ.nodes i).channel.capacity = commandChannelCapacity
  ended : ∀ i, (σ.nodes i).worker = .ended → (σ.nodes i).channel.queue = [] ∧
    (σ.nodes i).channel.receiving = false
  awaited : ∀ c task i, (σ.clients c).task = some task → task.phases i = .awaiting →
    Attends (σ.nodes i) ⟨c, task.number⟩

theorem attends_ended (node : Node ι Q) (ticket : Ticket ι) : Attends node.ended ticket := by
  right
  simp only [Node.ended]
  split
  · simp
  · assumption

theorem pending_send {node : Node ι Q} {m : CommandMessage ι} {sent : Channel (CommandMessage ι)}
    (accepted : node.channel.trySend m = .ok sent) :
    ({ node with channel := sent } : Node ι Q).pending = m :: node.pending := by
  have queue := (Channel.trySend_ok accepted).2.2.1
  simp [Node.pending, queue]

/-- The steps that bring on the answer to a ticket: workers take up what is given to them, at one
reading of the clock, and the parts of the ticket are sent and end. A part ends with a reply, or
without one where the worker is gone; a panic is the doing of seconds that overflow. -/
def Onward (t : Ticket ι) (now : Instant) (given : Fin shardCount → CommandMessage ι → Prop)
    (x : Traffic ι Q × Act ι) : Prop :=
  match x.2 with
  | .receive _ => True
  | .execute i time m _ => time = now ∧ given i m
  | .panic i time m => time = now ∧ given i m ∧
      ∃ seconds, m.command.secondsAdded = some seconds ∧ i64Max < now.secs + seconds.toNat
  | .send ticket part => ticket = t ∧ given part.shard ⟨part.command, t⟩
  | .done ticket i outcome => ticket = t ∧
      ((∃ response, outcome = .replied response) ∨
        (x.1.nodes i).worker = .ended ∧ (outcome = .closed ∨ outcome = .disconnected))
  | .issue _ _ _ | .answer _ _ _ | .stop _ | .tick _ _ => False

/-- What a connection is at, with one more part over and those that were over still so. -/
structure Advances (task after : Task) (i : Fin shardCount) : Prop where
  number : after.number = task.number
  parts : after.parts = task.parts
  command : after.command = task.command
  done : ∃ outcome, after.phases i = .done outcome
  kept : ∀ j outcome, task.phases j = .done outcome → after.phases j = .done outcome

variable [DecidableEq ι] [MaxQueue Q Expiry] [Layout] {σ σ' : Traffic ι Q} {act : Act ι}

theorem attends_works {i : Fin shardCount} {node node' : Node ι Q} {ticket : Ticket ι}
    (works : node.Works i act node') (attends : Attends node ticket) : Attends node' ticket := by
  cases works with
  | @receive shard message channel waiting received =>
    have queue := (Channel.recv_message received).1
    have same : ({ node with channel, worker := .executing shard message } : Node ι Q).pending =
        node.pending := by
      simp [Node.pending, WorkerState.current, waiting, queue]
    unfold Attends
    rw [same]
    exact attends
  | @execute shard shard' message now response executing executed =>
    rcases attends with ⟨m, member, rfl⟩ | there
    · simp only [Node.pending, WorkerState.current, executing, List.mem_append,
        List.mem_singleton] at member
      rcases member with waits | rfl
      · refine .inl ⟨m, ?_, rfl⟩
        simpa [Node.pending, Node.reply, WorkerState.current] using waits
      · right
        rw [Node.replies_reply, if_pos rfl]
        simp
    · right
      rw [Node.replies_reply]
      split
      · simp
      · exact there
  | panic executing panics => exact attends_ended node ticket
  | stop waiting => exact attends_ended node ticket
  | tick waiting =>
    rcases attends with ⟨m, member, same⟩ | there
    · refine .inl ⟨m, ?_, same⟩
      simpa [Node.pending, WorkerState.current, waiting] using member
    · exact .inr there

theorem attends_step (h : Step σ act σ') {i : Fin shardCount} {ticket : Ticket ι}
    (attends : Attends (σ.nodes i) ticket) : Attends (σ'.nodes i) ticket := by
  rcases h.node_cases i with same | ⟨m, sent, accepted, same⟩ | works
  · rw [same]
    exact attends
  · rw [same]
    rcases attends with ⟨other, member, for_it⟩ | there
    · refine .inl ⟨other, ?_, for_it⟩
      rw [pending_send accepted]
      exact List.mem_cons_of_mem _ member
    · exact .inr there
  · exact attends_works works attends

theorem attends_send {c : ι} {number : Nat} {part : Part} (h : Step σ (.send ⟨c, number⟩ part) σ') :
    Attends (σ'.nodes part.shard) ⟨c, number⟩ := by
  cases h with
  | @send c task part sent current member phase accepted =>
    rw [nodes_setNode, if_pos rfl]
    refine .inl ⟨⟨part.command, ⟨c, task.number⟩⟩, ?_, rfl⟩
    rw [pending_send accepted]
    exact List.mem_cons_self
  | work works => cases works

theorem Attended.step (attended : Attended σ) (h : Step σ act σ') : Attended σ' := by
  constructor
  · intro i
    rcases h.node_cases i with same | ⟨m, sent, accepted, same⟩ | works
    · rw [same]
      exact attended.capacity i
    · rw [same]
      exact (Channel.trySend_ok accepted).2.2.2.1.trans (attended.capacity i)
    · have before := attended.capacity i
      generalize σ'.nodes i = node at works
      cases works with
      | receive waiting received => exact (Channel.recv_message received).2.1.trans before
      | _ => exact before
  · intro i ended
    rcases h.node_cases i with same | ⟨m, sent, accepted, same⟩ | works
    · rw [same] at ended ⊢
      exact attended.ended i ended
    · rw [same] at ended
      have gone := (attended.ended i ended).2
      rw [(Channel.trySend_ok accepted).1] at gone
      cases gone
    · generalize σ'.nodes i = node at works ended
      cases works with
      | receive waiting received => cases ended
      | execute executing executed => cases ended
      | tick waiting => cases ended
      | panic executing panics => exact ⟨rfl, rfl⟩
      | stop waiting => exact ⟨rfl, rfl⟩
  · intro c after i current awaiting
    rcases h.task_cases current with ⟨task, was, _, number, _, _, moves⟩ | ⟨_, _, _, fresh, _⟩
    · rw [number]
      rcases moves i with same | ⟨_, _, part, rfl, rfl⟩ | ⟨outcome, _, over_, _⟩
      · exact attends_step h (attended.awaited c task i was (same ▸ awaiting))
      · exact attends_send h
      · rw [over_] at awaiting
        cases awaiting
    · rw [fresh] at awaiting
      cases awaiting

theorem pending_works {i : Fin shardCount} {node node' : Node ι Q} (works : node.Works i act node')
    {m : CommandMessage ι} (member : m ∈ node'.pending) : m ∈ node.pending := by
  cases works with
  | receive waiting received =>
    have queue := (Channel.recv_message received).1
    simpa [Node.pending, WorkerState.current, waiting, queue] using member
  | execute executing executed =>
    have waits : m ∈ node.channel.queue := by
      simpa [Node.pending, Node.reply, WorkerState.current] using member
    simp [Node.pending, waits]
  | tick waiting => simpa [Node.pending, WorkerState.current, waiting] using member
  | _ => simp [Node.pending, Node.ended, Channel.abandon, WorkerState.current] at member

section
variable {t : Ticket ι} {now : Instant} {given : Fin shardCount → CommandMessage ι → Prop}

variable (given) in
/-- A state of some run, in which the shards have accepted nothing but what is given. -/
structure Ready (σ : Traffic ι Q) : Prop where
  reached : ∃ past, (traffic ι Q).Run past σ
  within : ∀ i, ∀ m ∈ (σ.nodes i).pending, given i m

theorem Ready.step (ready : Ready given σ) (h : Step σ act σ') (onward : Onward t now given (σ, act)) :
    Ready given σ' := by
  obtain ⟨past, run⟩ := ready.reached
  refine ⟨⟨_, run.step h⟩, fun i m member => ?_⟩
  cases h with
  | issue idle plan => exact ready.within i m member
  | done current part ends => exact ready.within i m member
  | answer current lengths finished => exact ready.within i m member
  | @send c task part sent current there phase accepted =>
    rw [nodes_setNode] at member
    split at member
    · rename_i here
      subst here
      rw [pending_send accepted] at member
      rcases List.mem_cons.mp member with rfl | before
      · obtain ⟨rfl, fits⟩ := onward
        exact fits
      · exact ready.within _ m before
    · exact ready.within i m member
  | @work j _ node works =>
    rw [nodes_setNode] at member
    split at member
    · rename_i here
      subst here
      exact ready.within _ m (pending_works works member)
    · exact ready.within i m member

variable (t now given) in
/-- Such steps lead from one state to another. -/
def Leads (σ σ' : Traffic ι Q) : Prop :=
  ∃ more, (traffic ι Q).Path σ more σ' ∧ ∀ x ∈ more, Onward t now given x

theorem Leads.refl (σ : Traffic ι Q) : Leads t now given σ σ := ⟨[], .refl, by simp⟩

theorem Leads.step {mid : Traffic ι Q} (onward : Onward t now given (σ, act)) (h : Step σ act mid)
    (rest : Leads t now given mid σ') : Leads t now given σ σ' := by
  obtain ⟨more, path, all⟩ := rest
  have first : (traffic ι Q).Path σ [(σ, act)] mid := .step .refl h
  refine ⟨_, first.trans path, ?_⟩
  rw [List.forall_mem_append, List.forall_mem_singleton]
  exact ⟨all, onward⟩

theorem Leads.trans {mid : Traffic ι Q} (first : Leads t now given σ mid)
    (rest : Leads t now given mid σ') : Leads t now given σ σ' := by
  obtain ⟨before, path, all⟩ := first
  obtain ⟨more, onward, all'⟩ := rest
  exact ⟨_, path.trans onward, List.forall_mem_append.mpr ⟨all', all⟩⟩

theorem Ready.leads (ready : Ready given σ) (leads : Leads t now given σ σ') : Ready given σ' := by
  obtain ⟨more, path, all⟩ := leads
  induction path with
  | refl => exact ready
  | step _ h ih =>
    obtain ⟨here, all⟩ := List.forall_mem_cons.mp all
    exact (ih ready all).step h here

theorem Ready.standing (ready : Ready given σ) (i : Fin shardCount) :
    Down (σ.nodes i) ∨ Healthy (σ.nodes i) := by
  obtain ⟨past, run⟩ := ready.reached
  exact (standing_run run i).imp And.right And.right

variable (t now given) in
/-- From here the call of a shard comes to its end. -/
def Resolves (σ : Traffic ι Q) (c : ι) (task : Task) (i : Fin shardCount) : Prop :=
  ∃ σ' after, Leads t now given σ σ' ∧ (σ'.clients c).task = some after ∧ Advances task after i

theorem Resolves.after {c : ι} {task : Task} {i : Fin shardCount} (leads : Leads t now given σ σ')
    (resolves : Resolves t now given σ' c task i) : Resolves t now given σ c task i := by
  obtain ⟨last, after, onward, rest⟩ := resolves
  exact ⟨last, after, leads.trans onward, rest⟩

end

end

end Traffic

end RsDragonfly
