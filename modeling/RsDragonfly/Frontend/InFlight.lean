import RsDragonfly.Frontend.Traffic

/-! What becomes of a command between its connection and its shard.
The messages a shard has accepted, executed or not, stand in one list; it only
grows at the front, by the call of the command a connection is processing. -/
namespace RsDragonfly
open Library

namespace Traffic

section
variable {ι Q : Type}

/-- What a shard executed and replied, newest first. -/
def executions (i : Fin shardCount) (acts : List (Act ι)) : List (CommandMessage ι × Response) :=
  acts.filterMap fun
    | .execute shard _ message response => if shard = i then some (message, response) else none
    | _ => none

theorem mem_executions_iff {i : Fin shardCount} {acts : List (Act ι)} {m : CommandMessage ι}
    {response : Response} :
    (m, response) ∈ executions i acts ↔ ∃ now, .execute i now m response ∈ acts := by
  unfold executions
  rw [List.mem_filterMap]
  constructor
  · rintro ⟨act, member, same⟩
    split at same
    · rename_i shard now message r
      split at same
      · rename_i here
        cases same
        exact ⟨now, here ▸ member⟩
      · cases same
    · cases same
  · rintro ⟨now, member⟩
    exact ⟨_, member, by simp⟩

theorem executions_grow {i : Fin shardCount} {acts : List (Act ι)} {x : CommandMessage ι × Response}
    (act : Act ι) (member : x ∈ executions i acts) : x ∈ executions i (act :: acts) := by
  obtain ⟨now, there⟩ := mem_executions_iff.mp member
  exact mem_executions_iff.mpr ⟨now, List.mem_cons_of_mem _ there⟩

/-- What a shard accepted and has not dropped, newest first. -/
def accepted (i : Fin shardCount) (acts : List (Act ι)) (σ : Traffic ι Q) :
    List (CommandMessage ι) :=
  (σ.nodes i).pending ++ (executions i acts).map Prod.fst

/-- Of two commands of one connection, the later one. -/
def After (later earlier : CommandMessage ι) : Prop :=
  later.replyTx.client = earlier.replyTx.client → earlier.replyTx.number < later.replyTx.number

/-- What the steps so far and the state have to do with each other. -/
structure Sound (acts : List (Act ι)) (σ : Traffic ι Q) : Prop where
  issues : ∀ t command parts, .issue t command parts ∈ acts →
    t.number < (σ.clients t.client).issued ∧ Plans command parts ∧
      ∀ command' parts', .issue t command' parts' ∈ acts → command' = command ∧ parts' = parts
  current : ∀ c task, (σ.clients c).task = some task →
    task.number + 1 = (σ.clients c).issued ∧
      .issue ⟨c, task.number⟩ task.command task.parts ∈ acts ∧
      ∀ i outcome, task.phases i = .done outcome → .done ⟨c, task.number⟩ i outcome ∈ acts
  ends : ∀ t i outcome, .done t i outcome ∈ acts → t.number < (σ.clients t.client).issued ∧
    ∀ task, (σ.clients t.client).task = some task → task.number = t.number →
      task.phases i = .done outcome
  accepts : ∀ i, ∀ m ∈ accepted i acts σ, m.replyTx.number < (σ.clients m.replyTx.client).issued ∧
    (∀ task, (σ.clients m.replyTx.client).task = some task → task.number = m.replyTx.number →
      task.phases i ≠ .sending) ∧
    ∃ command parts, .issue m.replyTx command parts ∈ acts ∧ ⟨i, m.command⟩ ∈ parts
  refuses : ∀ t i outcome, .done t i outcome ∈ acts → outcome = .overloaded ∨ outcome = .closed →
    ∀ m ∈ accepted i acts σ, m.replyTx ≠ t
  ordered : ∀ i, (accepted i acts σ).Pairwise After
  replies : ∀ i t response, (σ.nodes i).replies t = .sent response →
    ∃ m, (m, response) ∈ executions i acts ∧ m.replyTx = t
  delivers : ∀ t i response, .done t i (.replied response) ∈ acts →
    ∃ m, (m, response) ∈ executions i acts ∧ m.replyTx = t
  answers : ∀ t command response, .answer t command response ∈ acts →
    ∃ parts outcomes, .issue t command parts ∈ acts ∧ outcomes.length = parts.length ∧
      response = answer command outcomes ∧
      ∀ x ∈ parts.zip outcomes, .done t x.1.shard x.2 ∈ acts

variable [DecidableEq ι] [MaxQueue Q Expiry] [Layout]

def PhaseMoves (σ : Traffic ι Q) (act : Act ι) (ticket : Ticket ι) (i : Fin shardCount)
    (before after : Phase) : Prop :=
  after = before ∨
    (before = .sending ∧ after = .awaiting ∧ ∃ part, act = .send ticket part ∧ part.shard = i) ∨
    ∃ outcome, (σ.nodes i).Ends ticket before outcome ∧ after = .done outcome ∧
      act = .done ticket i outcome

theorem Step.client_cases {σ σ' : Traffic ι Q} {act : Act ι} (h : Step σ act σ') (c : ι) :
    σ'.clients c = σ.clients c ∨
    (∃ command parts, (σ.clients c).task = none ∧
      act = .issue ⟨c, (σ.clients c).issued⟩ command parts ∧
      σ'.clients c = (σ.clients c).issue command parts) ∨
    (∃ task i phase, (σ.clients c).task = some task ∧
      PhaseMoves σ act ⟨c, task.number⟩ i (task.phases i) phase ∧
      σ'.clients c = { σ.clients c with task := some (task.setPhase i phase) }) ∨
    ∃ task response, (σ.clients c).task = some task ∧
      act = .answer ⟨c, task.number⟩ task.command response ∧
      σ'.clients c = (σ.clients c).answered := by
  cases h with
  | @issue d command parts idle plan =>
    rw [clients_setClient]
    split
    · rename_i same
      subst same
      exact .inr (.inl ⟨command, parts, idle, rfl, rfl⟩)
    · exact .inl rfl
  | @send d task part sent current member phase accepted =>
    rw [clients_setNode, clients_setPhase]
    split
    · rename_i same
      subst same
      have moves : PhaseMoves σ (.send ⟨c, task.number⟩ part) ⟨c, task.number⟩ part.shard
          (task.phases part.shard) .awaiting := .inr (.inl ⟨phase, rfl, part, rfl, rfl⟩)
      exact .inr (.inr (.inl ⟨task, part.shard, .awaiting, current, moves, rfl⟩))
    · exact .inl rfl
  | @done d task part outcome current member ends =>
    rw [clients_setPhase]
    split
    · rename_i same
      subst same
      have moves : PhaseMoves σ (.done ⟨c, task.number⟩ part.shard outcome) ⟨c, task.number⟩
          part.shard (task.phases part.shard) (.done outcome) := .inr (.inr ⟨outcome, ends, rfl, rfl⟩)
      exact .inr (.inr (.inl ⟨task, part.shard, .done outcome, current, moves, rfl⟩))
    · exact .inl rfl
  | @answer d task outcomes current lengths finished =>
    rw [clients_setClient]
    split
    · rename_i same
      subst same
      exact .inr (.inr (.inr ⟨task, _, current, rfl, rfl⟩))
    · exact .inl rfl
  | work works => exact .inl rfl

/-- What a step does to a node: a send is accepted there, or its worker works. -/
theorem Step.node_cases {σ σ' : Traffic ι Q} {act : Act ι} (h : Step σ act σ')
    (i : Fin shardCount) :
    σ'.nodes i = σ.nodes i ∨
    (∃ m sent, (σ.nodes i).channel.trySend m = .ok sent ∧
      σ'.nodes i = { σ.nodes i with channel := sent }) ∨
    (σ.nodes i).Works i act (σ'.nodes i) := by
  cases h with
  | @send c task part sent current member phase accepted =>
    rw [nodes_setNode]
    split
    · rename_i same
      subst same
      exact .inr (.inl ⟨_, sent, accepted, rfl⟩)
    · exact .inl rfl
  | @work j _ node works =>
    rw [nodes_setNode]
    split
    · rename_i same
      subst same
      exact .inr (.inr works)
    · exact .inl rfl
  | _ => exact .inl rfl

theorem Step.issued_le {σ σ' : Traffic ι Q} {act : Act ι} (h : Step σ act σ') (c : ι) :
    (σ.clients c).issued ≤ (σ'.clients c).issued := by
  rcases h.client_cases c with
    same | ⟨_, _, _, _, issued⟩ | ⟨_, _, _, _, _, moved⟩ | ⟨_, _, _, _, answered⟩
  · rw [same]
  · rw [issued]
    exact Nat.le_succ _
  · rw [moved]
  · rw [answered]
    exact Nat.le_refl _

theorem Step.task_cases {σ σ' : Traffic ι Q} {act : Act ι} (h : Step σ act σ') {c : ι}
    {after : Task} (current : (σ'.clients c).task = some after) :
    (∃ task, (σ.clients c).task = some task ∧ (σ'.clients c).issued = (σ.clients c).issued ∧
      after.number = task.number ∧ after.command = task.command ∧ after.parts = task.parts ∧
      ∀ i, PhaseMoves σ act ⟨c, task.number⟩ i (task.phases i) (after.phases i)) ∨
    ((σ.clients c).task = none ∧ (σ'.clients c).issued = (σ.clients c).issued + 1 ∧
      after.number = (σ.clients c).issued ∧ after.phases = (fun _ => .sending) ∧
      act = .issue ⟨c, after.number⟩ after.command after.parts) := by
  rcases h.client_cases c with same | ⟨command, parts, idle, issues, issued⟩ |
    ⟨task, j, phase, was, moves, moved⟩ | ⟨_, _, _, _, answered⟩
  · rw [same] at current ⊢
    exact .inl ⟨after, current, rfl, rfl, rfl, rfl, fun _ => .inl rfl⟩
  · rw [issued] at current ⊢
    cases current
    exact .inr ⟨idle, rfl, rfl, rfl, issues⟩
  · rw [moved] at current ⊢
    cases current
    refine .inl ⟨task, was, rfl, rfl, rfl, rfl, ?_⟩
    intro i
    rw [Task.phases_setPhase]
    split
    · rename_i here
      rw [here]
      exact moves
    · exact .inl rfl
  · rw [answered] at current
    cases current

theorem works_accepted {i j : Fin shardCount} {σ : Traffic ι Q} {node : Node ι Q} {act : Act ι}
    (works : (σ.nodes j).Works j act node) (acts : List (Act ι)) :
    (accepted i (act :: acts) (σ.setNode j node)).Sublist (accepted i acts σ) := by
  unfold accepted
  rw [nodes_setNode]
  by_cases here : i = j
  · subst here
    rw [if_pos rfl]
    cases works with
    | receive waiting received =>
      have queue := (Channel.recv_message received).1
      simp [Node.pending, WorkerState.current, waiting, queue, executions]
    | execute executing executed =>
      simp [Node.pending, Node.reply, WorkerState.current, executing, executions]
    | panic executing panics =>
      simp [Node.pending, Node.ended, WorkerState.current, Channel.abandon, executions]
    | stop waiting =>
      simp [Node.pending, Node.ended, WorkerState.current, Channel.abandon, executions]
    | tick waiting => simp [Node.pending, WorkerState.current, waiting, executions]
  · have elsewhere : executions i (act :: acts) = executions i acts := by
      cases works with
      | execute executing executed => simp [executions, Ne.symm here]
      | _ => rfl
    rw [if_neg here, elsewhere]

theorem Step.accepted_cases {σ σ' : Traffic ι Q} {act : Act ι} (h : Step σ act σ')
    (i : Fin shardCount) (acts : List (Act ι)) :
    (∃ c task part, act = .send ⟨c, task.number⟩ part ∧ part.shard = i ∧
      (σ.clients c).task = some task ∧ part ∈ task.parts ∧ task.phases i = .sending ∧
      (∀ after, (σ'.clients c).task = some after → after.phases i = .awaiting) ∧
      accepted i (act :: acts) σ' = ⟨part.command, ⟨c, task.number⟩⟩ :: accepted i acts σ) ∨
    (accepted i (act :: acts) σ').Sublist (accepted i acts σ) := by
  cases h with
  | issue idle plan => exact .inr (List.Sublist.refl _)
  | @send c task part sent current member phase ok =>
    by_cases here : i = part.shard
    · subst here
      refine .inl ⟨c, task, part, rfl, rfl, current, member, phase, ?_, ?_⟩
      · intro after there
        rw [clients_setNode, clients_setPhase, if_pos rfl] at there
        cases there
        exact Function.update_self ..
      · have queue := (Channel.trySend_ok ok).2.2.1
        simp [accepted, Node.pending, queue, executions]
    · refine .inr ?_
      unfold accepted
      rw [nodes_setNode, if_neg here]
      exact List.Sublist.refl _
  | done current member ends => exact .inr (List.Sublist.refl _)
  | answer current lengths finished => exact .inr (List.Sublist.refl _)
  | work works => exact .inr (works_accepted works acts)

theorem Step.done_inv {σ σ' : Traffic ι Q} {t : Ticket ι} {i : Fin shardCount} {outcome : Outcome}
    (h : Step σ (.done t i outcome) σ') :
    ∃ task, (σ.clients t.client).task = some task ∧ task.number = t.number ∧
      (σ.nodes i).Ends t (task.phases i) outcome ∧
      ∀ after, (σ'.clients t.client).task = some after → after.phases i = .done outcome := by
  cases h with
  | @done c task part _ current member ends =>
    refine ⟨task, current, rfl, ends, ?_⟩
    intro after there
    rw [clients_setPhase, if_pos rfl] at there
    cases there
    exact Function.update_self ..
  | work works => cases works

/-- A reply is there because its command was executed. -/
theorem Step.replies_cases {σ σ' : Traffic ι Q} {act : Act ι} (h : Step σ act σ')
    {i : Fin shardCount} {ticket : Ticket ι} {response : Response}
    (sent : (σ'.nodes i).replies ticket = .sent response) :
    (σ.nodes i).replies ticket = .sent response ∨
      ∃ now message, act = .execute i now message response ∧ message.replyTx = ticket := by
  have ended (node : Node ι Q) (there : node.ended.replies ticket = .sent response) :
      node.replies ticket = .sent response := by
    simp only [Node.ended] at there
    split at there
    · cases there
    · exact there
  rcases h.node_cases i with same | ⟨_, _, _, same⟩ | works
  · rw [same] at sent
    exact .inl sent
  · rw [same] at sent
    exact .inl sent
  · generalize σ'.nodes i = node at sent works
    cases works with
    | receive waiting received => exact .inl sent
    | @execute shard shard' message now r executing executed =>
      rw [Node.replies_reply] at sent
      split at sent
      · rename_i same
        cases sent
        exact .inr ⟨now, message, rfl, same.symm⟩
      · exact .inl sent
    | panic executing panics => exact .inl (ended _ sent)
    | stop waiting => exact .inl (ended _ sent)
    | tick waiting => exact .inl sent

section
variable {σ σ' : Traffic ι Q} {act : Act ι} {acts : List (Act ι)}

theorem Sound.issues_step (sound : Sound acts σ) (h : Step σ act σ') {t : Ticket ι}
    {command : Command} {parts : List Part} (there : .issue t command parts ∈ act :: acts) :
    t.number < (σ'.clients t.client).issued ∧ Plans command parts ∧
      ∀ command' parts', .issue t command' parts' ∈ act :: acts →
        command' = command ∧ parts' = parts := by
  have grows := h.issued_le t.client
  rcases List.mem_cons.mp there with rfl | before
  · cases h with
    | @issue c _ _ idle plan =>
      refine ⟨?_, plan, ?_⟩
      · rw [clients_setClient, if_pos rfl]
        exact Nat.lt_succ_self _
      · intro command' parts' again
        rcases List.mem_cons.mp again with same | earlier
        · cases same
          exact ⟨rfl, rfl⟩
        · exact absurd (sound.issues _ _ _ earlier).1 (Nat.lt_irrefl _)
    | work works => cases works
  · obtain ⟨issued, plan, unique⟩ := sound.issues t command parts before
    refine ⟨Nat.lt_of_lt_of_le issued grows, plan, ?_⟩
    intro command' parts' again
    rcases List.mem_cons.mp again with rfl | earlier
    · cases h with
      | issue idle plan => exact absurd issued (Nat.lt_irrefl _)
      | work works => cases works
    · exact unique command' parts' earlier

theorem Sound.current_step (sound : Sound acts σ) (h : Step σ act σ') {c : ι} {after : Task}
    (current : (σ'.clients c).task = some after) :
    after.number + 1 = (σ'.clients c).issued ∧
      .issue ⟨c, after.number⟩ after.command after.parts ∈ act :: acts ∧
      ∀ i outcome, after.phases i = .done outcome →
        .done ⟨c, after.number⟩ i outcome ∈ act :: acts := by
  rcases h.task_cases current with
    ⟨task, was, same_issued, number, command, parts, moves⟩ | ⟨_, grown, number, fresh, rfl⟩
  · obtain ⟨newest, issued, ended⟩ := sound.current c task was
    rw [same_issued, number, command, parts]
    refine ⟨newest, List.mem_cons_of_mem _ issued, ?_⟩
    intro i outcome phase
    rcases moves i with kept | ⟨_, awaiting, _⟩ | ⟨other, _, done, rfl⟩
    · exact List.mem_cons_of_mem _ (ended i outcome (kept ▸ phase))
    · rw [awaiting] at phase
      cases phase
    · rw [done] at phase
      cases phase
      exact List.mem_cons_self
  · refine ⟨by omega, List.mem_cons_self, ?_⟩
    intro i outcome phase
    rw [fresh] at phase
    cases phase

theorem Sound.ends_step (sound : Sound acts σ) (h : Step σ act σ') {t : Ticket ι}
    {i : Fin shardCount} {outcome : Outcome} (there : .done t i outcome ∈ act :: acts) :
    t.number < (σ'.clients t.client).issued ∧
      ∀ task, (σ'.clients t.client).task = some task → task.number = t.number →
        task.phases i = .done outcome := by
  have grows := h.issued_le t.client
  rcases List.mem_cons.mp there with rfl | before
  · obtain ⟨task, current, number, _, done⟩ := h.done_inv
    have newest := (sound.current t.client task current).1
    exact ⟨by omega, fun after there _ => done after there⟩
  · obtain ⟨issued, known⟩ := sound.ends t i outcome before
    refine ⟨Nat.lt_of_lt_of_le issued grows, ?_⟩
    intro after current number
    rcases h.task_cases current with ⟨task, was, _, same, _, _, moves⟩ | ⟨_, _, fresh, _⟩
    · have phase := known task was (same.symm.trans number)
      rcases moves i with kept | ⟨sending, _⟩ | ⟨_, ends, _⟩
      · rw [kept, phase]
      · rw [phase] at sending
        cases sending
      · rw [phase] at ends
        cases ends
    · omega

theorem Sound.accepts_step (sound : Sound acts σ) (h : Step σ act σ') {i : Fin shardCount}
    {m : CommandMessage ι} (member : m ∈ accepted i (act :: acts) σ') :
    m.replyTx.number < (σ'.clients m.replyTx.client).issued ∧
      (∀ task, (σ'.clients m.replyTx.client).task = some task → task.number = m.replyTx.number →
        task.phases i ≠ .sending) ∧
      ∃ command parts, .issue m.replyTx command parts ∈ act :: acts ∧ ⟨i, m.command⟩ ∈ parts := by
  have grows := h.issued_le m.replyTx.client
  have known (there : m ∈ accepted i acts σ) :
      m.replyTx.number < (σ'.clients m.replyTx.client).issued ∧
      (∀ task, (σ'.clients m.replyTx.client).task = some task → task.number = m.replyTx.number →
        task.phases i ≠ .sending) ∧
      ∃ command parts, .issue m.replyTx command parts ∈ act :: acts ∧ ⟨i, m.command⟩ ∈ parts := by
    obtain ⟨issued, accepted, command, parts, origin, part⟩ := sound.accepts i m there
    refine ⟨Nat.lt_of_lt_of_le issued grows, ?_, command, parts,
      List.mem_cons_of_mem _ origin, part⟩
    intro after current number sending
    rcases h.task_cases current with ⟨task, was, _, same, _, _, moves⟩ | ⟨_, _, fresh, _⟩
    · have phase := accepted task was (same.symm.trans number)
      rcases moves i with kept | ⟨was_sending, _⟩ | ⟨_, _, done, _⟩
      · exact phase (kept.symm.trans sending)
      · exact phase was_sending
      · rw [done] at sending
        cases sending
    · omega
  rcases h.accepted_cases i acts with
    ⟨c, task, part, rfl, rfl, current, planned, _, awaits, grown⟩ | shrunk
  · rw [grown] at member
    rcases List.mem_cons.mp member with rfl | there
    · obtain ⟨newest, origin, _⟩ := sound.current c task current
      have issued : task.number < (σ.clients c).issued := by omega
      refine ⟨Nat.lt_of_lt_of_le issued grows, ?_, task.command, task.parts,
        List.mem_cons_of_mem _ origin, planned⟩
      intro after there _ sending
      rw [awaits after there] at sending
      cases sending
    · exact known there
  · exact known (shrunk.subset member)

theorem Sound.refuses_step (sound : Sound acts σ) (h : Step σ act σ') {t : Ticket ι}
    {i : Fin shardCount} {outcome : Outcome} (there : .done t i outcome ∈ act :: acts)
    (refused : outcome = .overloaded ∨ outcome = .closed) {m : CommandMessage ι}
    (member : m ∈ accepted i (act :: acts) σ') : m.replyTx ≠ t := by
  rcases List.mem_cons.mp there with rfl | before
  · rcases h.accepted_cases i acts with ⟨_, _, _, act_eq, _⟩ | shrunk
    · cases act_eq
    · rintro rfl
      obtain ⟨task, current, number, ends, _⟩ := h.done_inv
      refine (sound.accepts i m (shrunk.subset member)).2.1 task current number ?_
      generalize task.phases i = phase at ends
      rcases refused with rfl | rfl
      · cases ends
        rfl
      · cases ends
        rfl
  · rcases h.accepted_cases i acts with
      ⟨c, task, part, rfl, rfl, current, _, sending, _, grown⟩ | shrunk
    · rw [grown] at member
      rcases List.mem_cons.mp member with rfl | there
      · rintro rfl
        have phase := (sound.ends _ _ _ before).2 task current rfl
        rw [sending] at phase
        cases phase
      · exact sound.refuses t _ outcome before refused m there
    · exact sound.refuses t i outcome before refused m (shrunk.subset member)

theorem Sound.ordered_step (sound : Sound acts σ) (h : Step σ act σ') (i : Fin shardCount) :
    (accepted i (act :: acts) σ').Pairwise After := by
  rcases h.accepted_cases i acts with
    ⟨c, task, part, rfl, rfl, current, _, sending, _, grown⟩ | shrunk
  · rw [grown, List.pairwise_cons]
    refine ⟨?_, sound.ordered _⟩
    intro m there same_client
    obtain ⟨issued, accepted, _⟩ := sound.accepts _ m there
    have newest := (sound.current c task current).1
    have other : m.replyTx.number ≠ task.number := by
      intro same
      refine accepted task ?_ same.symm sending
      rw [← same_client]
      exact current
    rw [← same_client] at issued
    change m.replyTx.number < task.number
    simp only at issued
    omega
  · exact (sound.ordered i).sublist shrunk

theorem Sound.replies_step (sound : Sound acts σ) (h : Step σ act σ') {i : Fin shardCount}
    {t : Ticket ι} {response : Response} (sent : (σ'.nodes i).replies t = .sent response) :
    ∃ m, (m, response) ∈ executions i (act :: acts) ∧ m.replyTx = t := by
  rcases h.replies_cases sent with before | ⟨now, m, rfl, same⟩
  · obtain ⟨m, executed, same⟩ := sound.replies i t response before
    exact ⟨m, executions_grow act executed, same⟩
  · exact ⟨m, mem_executions_iff.mpr ⟨now, List.mem_cons_self⟩, same⟩

theorem Sound.delivers_step (sound : Sound acts σ) (h : Step σ act σ') {t : Ticket ι}
    {i : Fin shardCount} {response : Response}
    (there : .done t i (.replied response) ∈ act :: acts) :
    ∃ m, (m, response) ∈ executions i (act :: acts) ∧ m.replyTx = t := by
  rcases List.mem_cons.mp there with rfl | before
  · obtain ⟨task, _, _, ends, _⟩ := h.done_inv
    generalize task.phases i = phase at ends
    cases ends with
    | replied sent =>
      obtain ⟨m, executed, same⟩ := sound.replies i t response sent
      exact ⟨m, executions_grow _ executed, same⟩
  · obtain ⟨m, executed, same⟩ := sound.delivers t i response before
    exact ⟨m, executions_grow act executed, same⟩

theorem Sound.answers_step (sound : Sound acts σ) (h : Step σ act σ') {t : Ticket ι}
    {command : Command} {response : Response} (there : .answer t command response ∈ act :: acts) :
    ∃ parts outcomes, .issue t command parts ∈ act :: acts ∧ outcomes.length = parts.length ∧
      response = answer command outcomes ∧
      ∀ x ∈ parts.zip outcomes, .done t x.1.shard x.2 ∈ act :: acts := by
  rcases List.mem_cons.mp there with rfl | before
  · cases h with
    | @answer c task outcomes current lengths finished =>
      obtain ⟨_, origin, ended⟩ := sound.current c task current
      refine ⟨task.parts, outcomes, List.mem_cons_of_mem _ origin, lengths, rfl, ?_⟩
      intro x member
      exact List.mem_cons_of_mem _ (ended _ _ (finished x member))
    | work works => cases works
  · obtain ⟨parts, outcomes, origin, lengths, same, ended⟩ :=
      sound.answers t command response before
    exact ⟨parts, outcomes, List.mem_cons_of_mem _ origin, lengths, same,
      fun x member => List.mem_cons_of_mem _ (ended x member)⟩

theorem Sound.step (sound : Sound acts σ) (h : Step σ act σ') : Sound (act :: acts) σ' where
  issues _ _ _ there := sound.issues_step h there
  current _ _ current := sound.current_step h current
  ends _ _ _ there := sound.ends_step h there
  accepts _ _ member := sound.accepts_step h member
  refuses _ _ _ there refused _ member := sound.refuses_step h there refused member
  ordered i := sound.ordered_step h i
  replies _ _ _ sent := sound.replies_step h sent
  delivers _ _ _ there := sound.delivers_step h there
  answers _ _ _ there := sound.answers_step h there

end

def acts (past : List (Traffic ι Q × Act ι)) : List (Act ι) := past.map Prod.snd

theorem sound_run {past : List (Traffic ι Q × Act ι)} {σ : Traffic ι Q}
    (run : (traffic ι Q).Run past σ) : Sound (acts past) σ := by
  induction run with
  | @start σ h =>
    obtain ⟨idle, now, fresh⟩ := h
    have nothing (i : Fin shardCount) : accepted i [] σ = [] := by
      simp [accepted, executions, Node.pending, fresh i, WorkerState.current, Channel.new]
    constructor
    · intro t command parts there
      cases there
    · intro c task current
      rw [idle c] at current
      cases current
    · intro t i outcome there
      cases there
    · intro i m member
      rw [acts, List.map_nil, nothing i] at member
      cases member
    · intro t i outcome there
      cases there
    · intro i
      rw [acts, List.map_nil, nothing i]
      exact .nil
    · intro i t response sent
      rw [fresh i] at sent
      cases sent
    · intro t i response there
      cases there
    · intro t command response there
      cases there
  | step before hs ih => exact ih.step hs

end

end Traffic

end RsDragonfly
