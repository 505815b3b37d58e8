import RsDragonfly.Frontend.Books
import RsDragonfly.Library.Linearization

/-! The shards are linearizable.
A part of a command is called when its connection issues the command, and returns when the
connection gets the reply. It takes effect where its shard executes it. A part that was
given up, for a timeout or a closed channel, never returns. -/
namespace RsDragonfly
open Library

def Event.served? (e : Event) : Option (Command × Response) :=
  match e.action with
  | .command c response => some (c, response)
  | .sweep => none

namespace Shard

/-- The commands of a run with their responses, newest first; sweeps are left out. -/
def served {Q : Type} (past : List (Shard Q × Event)) : List (Command × Response) :=
  past.filterMap fun x => x.2.served?

end Shard

namespace Traffic

/-- What a connection sees of the part of a command at a shard. -/
def parts (ι : Type) : Interface (Act ι) (Ticket ι × Fin shardCount) Command Response where
  call act op c := ∃ command parts, act = .issue op.1 command parts ∧ ⟨op.2, c⟩ ∈ parts
  ret act op response := act = .done op.1 op.2 (.replied response)

section
variable {ι Q : Type}

def effectOf : Act ι → Option ((Ticket ι × Fin shardCount) × Command × Response)
  | .execute i _ m response => some ((m.replyTx, i), m.command, response)
  | _ => none

theorem mem_effects {acts : List (Act ι)} {t : Ticket ι} {i : Fin shardCount} {c : Command}
    {response : Response} : ((t, i), c, response) ∈ acts.filterMap effectOf ↔
      (⟨c, t⟩, response) ∈ executions i acts := by
  rw [mem_executions_iff, List.mem_filterMap]
  constructor
  · rintro ⟨act, member, same⟩
    cases act with
    | execute j now m r =>
      cases same
      exact ⟨now, member⟩
    | _ => cases same
  · rintro ⟨now, member⟩
    exact ⟨_, member, rfl⟩

def atShard (i : Fin shardCount)
    (order : List ((Ticket ι × Fin shardCount) × Command × Response)) : List (Command × Response) :=
  (order.filter (·.1.2 = i)).map Prod.snd

theorem atShard_execute (i j : Fin shardCount) (now : Instant) (m : CommandMessage ι)
    (response : Response) (acts : List (Act ι)) :
    atShard i ((.execute j now m response :: acts).filterMap effectOf) =
      if j = i then (m.command, response) :: atShard i (acts.filterMap effectOf)
      else atShard i (acts.filterMap effectOf) := by
  by_cases here : j = i <;> simp [atShard, effectOf, here]

theorem acts_split {past : List (Traffic ι Q × Act ι)} {later earlier : List (Act ι)} {act : Act ι}
    (split : acts past = later ++ act :: earlier) :
    ∃ after σ before, past = after ++ (σ, act) :: before ∧ acts before = earlier := by
  obtain ⟨after, rest, rfl, _, tail⟩ := List.map_eq_append_iff.mp split
  obtain ⟨⟨σ, _⟩, before, rfl, rfl, same⟩ := List.map_eq_cons_iff.mp tail
  exact ⟨after, σ, before, rfl, same⟩

theorem effects_unique {acts : List (Act ι)}
    (ordered : ∀ i, ((executions i acts).map Prod.fst).Pairwise After) :
    ((acts.filterMap effectOf).map Prod.fst).Nodup := by
  induction acts with
  | nil => exact List.nodup_nil
  | cons act acts ih =>
    have before : ∀ i, ((executions i acts).map Prod.fst).Pairwise After := by
      intro i
      apply (ordered i).sublist (List.Sublist.map _ ?_)
      exact List.Sublist.filterMap _ (List.sublist_cons_self act acts)
    cases act with
    | execute i now m response =>
      have here := ordered i
      have grown : executions i (.execute i now m response :: acts) =
          (m, response) :: executions i acts := by
        simp [executions]
      rw [grown, List.map_cons, List.pairwise_cons] at here
      simp only [List.filterMap_cons, effectOf, List.map_cons, List.nodup_cons]
      refine ⟨?_, ih before⟩
      intro again
      obtain ⟨⟨_, c, r⟩, member, same⟩ := List.mem_map.mp again
      cases same
      have executed := mem_effects.mp member
      have later := here.1 _ (List.mem_map_of_mem executed)
      exact Nat.lt_irrefl _ (later rfl)
    | _ => exact ih before

variable [DecidableEq ι] [MaxQueue Q Expiry] [Layout] {past : List (Traffic ι Q × Act ι)} {σ : Traffic ι Q}

theorem Step.issue_number {σ σ' : Traffic ι Q} {t : Ticket ι} {command : Command}
    {parts : List Part} (h : Step σ (.issue t command parts) σ') :
    t.number = (σ.clients t.client).issued := by
  cases h with
  | issue idle plan => rfl
  | work works => cases works

theorem points_run (run : (traffic ι Q).Run past σ) :
    (parts ι).Points effectOf (acts past) := by
  have sound := sound_run run
  constructor
  · exact effects_unique sound.executed_ordered
  · rintro ⟨t, i⟩ c response member
    have executed := mem_effects.mp member
    obtain ⟨_, _, command, parts, origin, part⟩ :=
      sound.accepts i _ (List.mem_append_right _ (List.mem_map_of_mem executed))
    exact ⟨_, origin, command, parts, rfl, part⟩
  · rintro later _ earlier split ⟨t, i⟩ c ⟨command, parts, rfl, _⟩ again
    obtain ⟨after, σ₀, before, rfl, rfl⟩ := acts_split split
    obtain ⟨reached, σ₁, step⟩ := System.Run.at run
    obtain ⟨⟨_, d, response⟩, member, same⟩ := List.mem_map.mp again
    cases same
    obtain ⟨issued, _⟩ := (sound_run reached).accepts i _
      (List.mem_append_right _ (List.mem_map_of_mem (mem_effects.mp member)))
    exact absurd step.issue_number (Nat.ne_of_lt issued)
  · rintro later _ earlier split ⟨t, i⟩ response rfl
    obtain ⟨after, σ₀, before, rfl, rfl⟩ := acts_split split
    obtain ⟨reached, σ₁, step⟩ := System.Run.at run
    obtain ⟨task, _, _, ends, _⟩ := step.done_inv
    generalize task.phases i = phase at ends
    cases ends with
    | replied sent =>
      obtain ⟨m, executed, rfl⟩ := (sound_run reached).replies i t response sent
      exact ⟨m.command, mem_effects.mpr executed⟩

theorem served_works {i : Fin shardCount} {node node' : Node ι Q} {act : Act ι} {acts : List (Act ι)}
    (works : node.Works i act node') {own : List (Shard Q × Event)} {s : Shard Q}
    (reached : Shard.Run Q own s)
    (same : Shard.served own = atShard i (acts.filterMap effectOf))
    (now_at : ∀ current ∈ shardOf node.worker, current = s) :
    ∃ own s, Shard.Run Q own s ∧
      Shard.served own = atShard i ((act :: acts).filterMap effectOf) ∧
      ∀ current ∈ shardOf node'.worker, current = s := by
  cases works with
  | receive waiting received =>
    refine ⟨own, s, reached, same, ?_⟩
    rintro _ ⟨⟩
    exact now_at _ (by rw [waiting]; rfl)
  | @execute shard shard' message now response executing executed =>
    have at_shard := now_at shard (by rw [executing]; rfl)
    subst at_shard
    have stepped : (Shard.runs Q).step shard ⟨now, .command message.command response⟩ shard' :=
      executed
    refine ⟨_, shard', reached.step stepped, ?_, ?_⟩
    · rw [atShard_execute, if_pos rfl]
      exact congrArg (List.cons _) same
    · rintro _ ⟨⟩
      rfl
  | panic executing panics =>
    refine ⟨own, s, reached, same, ?_⟩
    rintro _ ⟨⟩
  | stop waiting =>
    refine ⟨own, s, reached, same, ?_⟩
    rintro _ ⟨⟩
  | @tick shard now waiting =>
    have at_shard := now_at shard (by rw [waiting]; rfl)
    subst at_shard
    have stepped : (Shard.runs Q).step shard ⟨now, .sweep⟩ (shard.expireKeys now) := rfl
    refine ⟨_, _, reached.step stepped, same, ?_⟩
    rintro _ ⟨⟩
    rfl

theorem served_run (run : (traffic ι Q).Run past σ) (i : Fin shardCount) :
    ∃ own s, Shard.Run Q own s ∧
      Shard.served own = atShard i ((acts past).filterMap effectOf) ∧
      ∀ current ∈ shardOf (σ.nodes i).worker, current = s := by
  induction run with
  | start first =>
    obtain ⟨_, now, fresh⟩ := first
    refine ⟨[], _, .start ⟨⟨UInt16.ofNat i⟩, now i, rfl⟩, rfl, ?_⟩
    rw [fresh i]
    rintro _ ⟨⟩
    rfl
  | @step past σ σ' act before hs ih =>
    obtain ⟨own, s, reached, same, now_at⟩ := ih
    cases hs with
    | issue idle plan => exact ⟨own, s, reached, same, now_at⟩
    | @send c task part sent current member phase accepted =>
      refine ⟨own, s, reached, same, ?_⟩
      rw [nodes_setNode]
      split
      · rename_i here
        subst here
        exact now_at
      · exact now_at
    | done current member ends => exact ⟨own, s, reached, same, now_at⟩
    | answer current lengths finished => exact ⟨own, s, reached, same, now_at⟩
    | @work j act node works =>
      rw [nodes_setNode]
      split
      · rename_i here
        subst here
        exact served_works works reached same now_at
      · rename_i other
        refine ⟨own, s, reached, ?_, now_at⟩
        cases works with
        | execute executing executed =>
          rw [acts, List.map_cons, atShard_execute, if_neg (Ne.symm other)]
          exact same
        | _ => exact same

/-- In every interleaving there is one order of the executed parts that each shard could
have served one after the other, and that no connection can tell from what it saw. -/
theorem linearizable (run : (traffic ι Q).Run past σ) :
    ∃ order, (parts ι).Linearizes
      (fun order => ∀ i, ∃ own s, Shard.Run Q own s ∧ Shard.served own = atShard i order)
      (acts past) order := by
  refine ⟨_, (points_run run).linearizes ?_⟩
  intro i
  obtain ⟨own, s, reached, same, _⟩ := served_run run i
  exact ⟨own, s, reached, same⟩

end

/- A SET and a GET of two connections that overlap. -/
def overlapping : List (Act Bool) :=
  [.done ⟨false, 0⟩ aSlot (.replied .ok),
   .done ⟨true, 0⟩ aSlot (.replied aValue),
   .execute aSlot (.ofSecs 2) ⟨aGet, true, 0⟩ aValue,
   .receive aSlot,
   .execute aSlot (.ofSecs 1) ⟨aSet, false, 0⟩ .ok,
   .receive aSlot,
   .send ⟨true, 0⟩ ⟨aSlot, aGet⟩,
   .issue ⟨true, 0⟩ aGet [⟨aSlot, aGet⟩],
   .send ⟨false, 0⟩ ⟨aSlot, aSet⟩,
   .issue ⟨false, 0⟩ aSet [⟨aSlot, aSet⟩]]

theorem run_overlapping : ∃ past σ,
    (@traffic Bool (SortedQueue Expiry) _ _ linux64).Run past σ ∧ acts past = overlapping := by
  let _ := linux64
  let start : Traffic Bool (SortedQueue Expiry) :=
    ⟨fun _ => ⟨0, none⟩, fun i => ⟨.new commandChannelCapacity,
      .waiting (.new ⟨UInt16.ofNat i⟩ (.ofSecs 0)), fun _ => .empty⟩⟩
  have run : (traffic Bool (SortedQueue Expiry)).Run [] start :=
    .start ⟨fun _ => rfl, fun _ => .ofSecs 0, fun _ => rfl⟩
  have run := run.step (.issue (c := false) rfl (plans_a (c := aSet) rfl))
  have run := run.step (.send (c := false) rfl List.mem_cons_self rfl rfl)
  have run := run.step (.issue (c := true) rfl (plans_a (c := aGet) rfl))
  have run := run.step (.send (c := true) rfl List.mem_cons_self rfl rfl)
  have run := run.step (.work (i := aSlot) (.receive rfl rfl))
  have run := run.step (l := .execute aSlot (.ofSecs 1) ⟨aSet, false, 0⟩ .ok)
    (.work (.execute rfl rfl))
  have run := run.step (.work (i := aSlot) (.receive rfl rfl))
  have run := run.step (l := .execute aSlot (.ofSecs 2) ⟨aGet, true, 0⟩ aValue)
    (.work (.execute rfl rfl))
  have run := run.step (.done (c := true) rfl List.mem_cons_self (.replied rfl))
  have run := run.step (.done (c := false) rfl List.mem_cons_self (.replied rfl))
  exact ⟨_, _, run, rfl⟩

theorem linearizable_overlapping : ∃ past σ,
    (@traffic Bool (SortedQueue Expiry) _ _ linux64).Run past σ ∧ acts past = overlapping ∧
    ∃ order, (parts Bool).Linearizes
      (fun order => ∀ i, ∃ own s, @Shard.Run (SortedQueue Expiry) _ linux64 own s ∧
        Shard.served own = atShard i order) (acts past) order := by
  let _ := linux64
  obtain ⟨past, σ, run, same⟩ := run_overlapping
  exact ⟨past, σ, run, same, linearizable run⟩

end Traffic

end RsDragonfly
