import Mathlib.Algebra.Order.BigOperators.Group.Finset
import Mathlib.Algebra.Order.BigOperators.Group.List
import Mathlib.Algebra.Order.Ring.Nat
import Mathlib.Data.Set.List
import RsDragonfly.Frontend.Books

/-! No key is lost or counted twice.
Each shard keeps its own balance of keys. The answers to the DELs add up to what the
shards removed for them, because each part of a DEL is executed once and joined once. -/
namespace RsDragonfly
open Library

namespace Traffic

section
variable {ι Q : Type}

/-- The DELs that were answered with a number, and the numbers. -/
def answeredDels (acts : List (Act ι)) : List (Ticket ι × Int64) :=
  acts.filterMap fun
    | .answer t (.del _) (.integer n) => some (t, n)
    | _ => none

theorem mem_answeredDels_iff {acts : List (Act ι)} {t : Ticket ι} {n : Int64} :
    (t, n) ∈ answeredDels acts ↔ ∃ keys, .answer t (.del keys) (.integer n) ∈ acts := by
  unfold answeredDels
  rw [List.mem_filterMap]
  constructor
  · rintro ⟨act, member, same⟩
    split at same
    · cases same
      exact ⟨_, member⟩
    · cases same
  · rintro ⟨keys, member⟩
    exact ⟨_, member, rfl⟩

/-- Every issued command is the current one of its connection or was answered, once. -/
structure Settled (acts : List (Act ι)) (σ : Traffic ι Q) : Prop where
  answered : ∀ t command response, .answer t command response ∈ acts →
    t.number < (σ.clients t.client).issued ∧
      ∀ task, (σ.clients t.client).task = some task → task.number ≠ t.number
  once : ((answeredDels acts).map Prod.fst).Nodup
  issued : ∀ t command parts, .issue t command parts ∈ acts →
    (∃ response, .answer t command response ∈ acts) ∨
      ∃ task, (σ.clients t.client).task = some task ∧ task.number = t.number

structure Drained (σ : Traffic ι Q) : Prop where
  idle : ∀ c, (σ.clients c).task = none
  empty : ∀ i, (σ.nodes i).pending = []

def isSet (act : Act ι) : Bool :=
  match act with
  | .execute _ _ ⟨.set _ _ _, _⟩ _ => true
  | _ => false

def keysExpired (σ : Traffic ι Q) : Nat :=
  ∑ i, (shardOf (σ.nodes i).worker).elim 0 fun s => s.metrics.keysExpired.toNat

def keysStored (σ : Traffic ι Q) : Nat :=
  ∑ i, (shardOf (σ.nodes i).worker).elim 0 fun s => KeyedMap.size s.data

theorem creations_le (past : List (Traffic ι Q × Act ι)) :
    creations past ≤ (acts past).countP isSet := by
  unfold creations acts
  rw [List.countP_map]
  apply List.countP_mono_left
  rintro ⟨σ, act⟩ _ creates
  cases act with
  | execute i now m response =>
    obtain ⟨command, t⟩ := m
    simp only [createsKey] at creates
    split at creates
    · cases command with
      | set key value ttl => rfl
      | _ => cases creates
    · cases creates
  | _ => cases creates

/-- The books of shards that are all there, as one sum. -/
theorem Books.balance {past : List (Traffic ι Q × Act ι)} {σ : Traffic ι Q}
    {created deleted expired : Fin shardCount → Nat}
    (books : Books past σ created deleted expired) (healthy : ∀ i, Healthy (σ.nodes i))
    (few : (acts past).countP isSet < 2 ^ 64) :
    Traffic.creations past =
      Traffic.deletions (acts past) + keysExpired σ + keysStored σ := by
  rw [← books.creations, ← books.deletions, keysExpired, keysStored, ← Finset.sum_add_distrib,
    ← Finset.sum_add_distrib]
  apply Finset.sum_congr rfl
  intro i _
  obtain ⟨s, there⟩ := Option.isSome_iff_exists.mp (healthy i).alive
  obtain ⟨counted, balance⟩ := books.shards i s there
  have part : created i ≤ ∑ j, created j :=
    Finset.single_le_sum (fun _ _ => Nat.zero_le _) (Finset.mem_univ i)
  rw [books.creations] at part
  have fits : expired i < 2 ^ 64 := by
    have bound := creations_le past
    omega
  rw [there, Option.elim_some, Option.elim_some, counted, UInt64.toNat_ofNat_of_lt' fits]
  omega

variable [DecidableEq ι]

def removedFor (t : Ticket ι) (acts : List (Act ι)) : Nat :=
  ((executionsOf t acts).map fun x => Shard.deletes x.1.command x.2).sum

/-- What was removed, by the command it was removed for. -/
theorem deletions_by_ticket (tickets : Finset (Ticket ι)) (acts : List (Act ι))
    (counted : ∀ i now m response, .execute i now m response ∈ acts →
      Shard.deletes m.command response ≠ 0 → m.replyTx ∈ tickets) :
    deletions acts = ∑ t ∈ tickets, removedFor t acts := by
  induction acts with
  | nil => simp [deletions, removedFor, executionsOf]
  | cons act acts ih =>
    have total : deletions (act :: acts) = deletionOf act + deletions acts := by
      simp [deletions]
    rw [total, ih fun i now m response member => counted i now m response
      (List.mem_cons_of_mem _ member)]
    cases act with
    | execute i now m response =>
      have each (t : Ticket ι) : removedFor t (.execute i now m response :: acts) =
          (if m.replyTx = t then Shard.deletes m.command response else 0) + removedFor t acts := by
        by_cases here : m.replyTx = t
        · simp [removedFor, executionsOf, here]
        · simp [removedFor, executionsOf, here]
      rw [Finset.sum_congr rfl fun t _ => each t, Finset.sum_add_distrib, Finset.sum_ite_eq]
      split
      · rfl
      · rename_i outside
        have nothing : Shard.deletes m.command response = 0 := by
          by_contra something
          exact outside (counted i now m response List.mem_cons_self something)
        rw [deletionOf, nothing]
    | _ => exact Nat.zero_add _

variable [MaxQueue Q Expiry] [Layout]
  {σ σ' : Traffic ι Q} {act : Act ι} {acts : List (Act ι)}

theorem Step.task_kept (h : Step σ act σ') {c : ι} {task : Task}
    (current : (σ.clients c).task = some task) :
    (∃ after, (σ'.clients c).task = some after ∧ after.number = task.number) ∨
      ∃ response, act = .answer ⟨c, task.number⟩ task.command response := by
  rcases h.client_cases c with same | ⟨_, _, idle, _, _⟩ |
    ⟨task', i, phase, was, _, moved⟩ | ⟨task', response, was, answers, _⟩
  · exact .inl ⟨task, by rw [same, current], rfl⟩
  · rw [idle] at current
    cases current
  · rw [was] at current
    cases current
    exact .inl ⟨task.setPhase i phase, by rw [moved], rfl⟩
  · rw [was] at current
    cases current
    exact .inr ⟨response, answers⟩

theorem Step.answer_inv {t : Ticket ι} {command : Command} {response : Response}
    (h : Step σ (.answer t command response) σ') :
    (∃ task, (σ.clients t.client).task = some task ∧ task.number = t.number ∧
      task.command = command) ∧ (σ'.clients t.client).task = none := by
  cases h with
  | @answer c task outcomes current lengths finished =>
    refine ⟨⟨task, current, rfl, rfl⟩, ?_⟩
    rw [clients_setClient, if_pos rfl]
    rfl
  | work works => cases works

theorem Settled.answered_step (settled : Settled acts σ) (sound : Sound acts σ)
    (h : Step σ act σ') {t : Ticket ι} {command : Command} {response : Response}
    (there : .answer t command response ∈ act :: acts) :
    t.number < (σ'.clients t.client).issued ∧
      ∀ task, (σ'.clients t.client).task = some task → task.number ≠ t.number := by
  have grows := h.issued_le t.client
  rcases List.mem_cons.mp there with rfl | before
  · obtain ⟨⟨task, current, number, _⟩, idle⟩ := h.answer_inv
    have newest := (sound.current t.client task current).1
    refine ⟨by omega, ?_⟩
    intro after current
    rw [idle] at current
    cases current
  · obtain ⟨issued, moved_on⟩ := settled.answered t command response before
    refine ⟨Nat.lt_of_lt_of_le issued grows, ?_⟩
    intro after current
    rcases h.task_cases current with ⟨task, was, _, same, _⟩ | ⟨_, _, fresh, _⟩
    · rw [same]
      exact moved_on task was
    · omega

theorem Settled.once_step (settled : Settled acts σ) (h : Step σ act σ') :
    ((answeredDels (act :: acts)).map Prod.fst).Nodup := by
  have once := settled.once
  unfold answeredDels
  rw [List.filterMap_cons]
  split
  · exact once
  · rename_i t n answered
    split at answered
    · rename_i ticket keys m
      cases answered
      rw [List.map_cons, List.nodup_cons]
      refine ⟨?_, once⟩
      intro again
      obtain ⟨⟨t, n⟩, member, same⟩ := List.mem_map.mp again
      cases same
      obtain ⟨keys', before⟩ := mem_answeredDels_iff.mp member
      obtain ⟨⟨task, current, number, _⟩, _⟩ := h.answer_inv
      exact (settled.answered _ _ _ before).2 task current number
    · cases answered

theorem Settled.issued_step (settled : Settled acts σ) (sound : Sound acts σ)
    (h : Step σ act σ') {t : Ticket ι} {command : Command} {parts : List Part}
    (there : .issue t command parts ∈ act :: acts) :
    (∃ response, .answer t command response ∈ act :: acts) ∨
      ∃ task, (σ'.clients t.client).task = some task ∧ task.number = t.number := by
  rcases List.mem_cons.mp there with rfl | before
  · cases h with
    | issue idle plan =>
      refine .inr ?_
      rw [clients_setClient, if_pos rfl]
      exact ⟨_, rfl, rfl⟩
    | work works => cases works
  · rcases settled.issued t command parts before with ⟨response, answered⟩ | ⟨task, current, number⟩
    · exact .inl ⟨response, List.mem_cons_of_mem _ answered⟩
    · rcases h.task_kept current with ⟨after, kept, same⟩ | ⟨response, rfl⟩
      · exact .inr ⟨after, kept, same.trans number⟩
      · obtain ⟨_, origin, _⟩ := sound.current t.client task current
        rw [number] at origin
        obtain ⟨same, _⟩ := (sound.issues t command parts before).2.2 _ _ origin
        rw [same, number]
        exact .inl ⟨response, List.mem_cons_self⟩

theorem settled_run {past : List (Traffic ι Q × Act ι)} (run : (traffic ι Q).Run past σ) :
    Settled (Traffic.acts past) σ := by
  induction run with
  | start h => exact ⟨nofun, List.nodup_nil, nofun⟩
  | step before hs ih =>
    have sound := sound_run before
    exact ⟨fun _ _ _ there => ih.answered_step sound hs there, ih.once_step hs,
      fun _ _ _ there => ih.issued_step sound hs there⟩

variable {past : List (Traffic ι Q × Act ι)}

theorem ends_replied (run : (traffic ι Q).Run past σ) (waits : ∀ x ∈ past, patient x.2 = true)
    (fits : ∀ x ∈ past, ¬ TakesOverflow x) {t : Ticket ι} {i : Fin shardCount} {outcome : Outcome}
    (ended : .done t i outcome ∈ Traffic.acts past) :
    ∃ response, outcome = .replied response := by
  obtain ⟨earlier, σ₁, σ₂, before, step, there, part⟩ := taken_of_mem run ended
  obtain ⟨receiving, replies, _⟩ := healthy_run before (fun x member => waits x (part member))
    (fun x member => fits x (part member)) i
  have waited := waits _ there
  obtain ⟨task, _, _, ends, _⟩ := step.done_inv
  generalize task.phases i = phase at ends
  cases ends with
  | overloaded => cases waited
  | closed gone =>
    rw [receiving] at gone
    cases gone
  | replied sent => exact ⟨_, rfl⟩
  | disconnected dropped => exact absurd dropped (replies t)
  | timedOut => cases waited

theorem del_reply (run : (traffic ι Q).Run past σ) {i : Fin shardCount} {m : CommandMessage ι}
    {response : Response} (executed : (m, response) ∈ executions i (Traffic.acts past))
    {keys : List Key} (del : m.command = .del keys) :
    ∃ n ≤ maxKeysPerShard, response = .integer (Int64.ofNat n) := by
  obtain ⟨now, member⟩ := mem_executions_iff.mp executed
  obtain ⟨earlier, σ₁, σ₂, before, step, _⟩ := taken_of_mem run member
  cases step with
  | work works =>
    cases works with
    | @execute shard _ _ _ _ executing returned =>
      obtain ⟨_, reached⟩ := reached_run before i shard (by rw [executing]; rfl)
      have few := (Shard.wellFormed_run reached).few
      rw [del] at returned
      obtain ⟨next, dispatched, rfl⟩ := Shard.execute_cases returned
      cases dispatched
      refine ⟨(keys.toFinset ∩ KeyedMap.domain shard.data).card, ?_, ?_⟩
      · have part := KeyedMap.card_inter_domain_le keys.toFinset shard.data
        exact Nat.le_trans part few
      · rw [Shard.delKeys_removed, Int64.zero_add]

/-- The number a DEL is answered with is what the shards removed for it. -/
theorem answered_removed (run : (traffic ι Q).Run past σ) {t : Ticket ι} {n : Int64}
    (answered : (t, n) ∈ answeredDels (Traffic.acts past)) :
    n.toInt = removedFor t (Traffic.acts past) := by
  have sound := sound_run run
  obtain ⟨keys, there⟩ := mem_answeredDels_iff.mp answered
  obtain ⟨parts, replies, origin, joined, lengths, ended⟩ := sound.joined there
  obtain ⟨_, plan, _⟩ := sound.issues t _ _ origin
  have perm := sound.executions_perm origin lengths ended
  have count (x : Part × Response) (member : x ∈ parts.zip replies) : ∃ n ≤ maxKeysPerShard,
      x.2 = .integer (Int64.ofNat n) ∧ Shard.deletes x.1.command x.2 = n := by
    have del := (plan.del_part (List.of_mem_zip member).1).1
    have executed := mem_executionsOf_iff.mp (perm.mem_iff.mpr member)
    obtain ⟨n, within, reply⟩ := del_reply run executed del
    refine ⟨n, within, reply, ?_⟩
    have fits : n < 2 ^ 63 := Nat.lt_of_le_of_lt within (by decide)
    rw [del, reply]
    simp only [Shard.deletes, Int64.toInt_ofNat_of_lt fits, Int.toNat_natCast]
  have counts : replies = ((parts.zip replies).map fun x =>
      Shard.deletes x.1.command x.2).map fun n => .integer (Int64.ofNat n) := by
    conv_lhs => rw [← List.map_snd_zip (Nat.le_of_eq lengths)]
    rw [List.map_map]
    apply List.map_congr_left
    intro x member
    obtain ⟨n, _, reply, same⟩ := count x member
    rw [Function.comp_apply, same]
    exact reply
  rw [counts, joinDel_integers] at joined
  cases joined
  have few : ((parts.zip replies).map fun x => Shard.deletes x.1.command x.2).sum < 2 ^ 63 := by
    have shards := plan.shards_nodup.length_le_card
    have bound := List.sum_le_card_nsmul
      ((parts.zip replies).map fun x => Shard.deletes x.1.command x.2) maxKeysPerShard (by
        intro n member
        obtain ⟨x, there, rfl⟩ := List.mem_map.mp member
        obtain ⟨n, within, _, same⟩ := count x there
        exact same.symm ▸ within)
    rw [Fintype.card_fin, List.length_map] at shards
    rw [List.length_map, List.length_zip, lengths, Nat.min_self, smul_eq_mul] at bound
    have total := Nat.mul_le_mul_right maxKeysPerShard shards
    exact Nat.lt_of_le_of_lt (Nat.le_trans bound total) (by decide)
  rw [Int64.toInt_ofNat_of_lt few, removedFor, (perm.map _).sum_eq]

theorem del_answered (run : (traffic ι Q).Run past σ) (waits : ∀ x ∈ past, patient x.2 = true)
    (fits : ∀ x ∈ past, ¬ TakesOverflow x) (drained : Drained σ) {i : Fin shardCount}
    {m : CommandMessage ι} {response : Response}
    (executed : (m, response) ∈ executions i (Traffic.acts past))
    (removed : Shard.deletes m.command response ≠ 0) :
    ∃ n, (m.replyTx, n) ∈ answeredDels (Traffic.acts past) := by
  have sound := sound_run run
  obtain ⟨_, _, command, parts, origin, planned⟩ :=
    sound.accepts i m (List.mem_append_right _ (List.mem_map_of_mem executed))
  obtain ⟨_, plan, _⟩ := sound.issues _ _ _ origin
  obtain ⟨keys, rfl⟩ : ∃ keys, command = .del keys := by
    cases goes : target command with
    | some id =>
      obtain ⟨shard, rfl, _⟩ := plan.single_eq goes
      have same : m.command = command := congrArg Part.command (List.mem_singleton.mp planned)
      rw [same] at removed
      cases command with
      | del keys => exact ⟨keys, rfl⟩
      | _ => exact absurd rfl removed
    | none =>
      cases command with
      | del keys => exact ⟨keys, rfl⟩
      | _ => cases goes
  rcases (settled_run run).issued _ _ _ origin with ⟨answer, answered⟩ | ⟨task, current, _⟩
  · obtain ⟨parts', outcomes, origin', lengths, joined, ended⟩ := sound.answers _ _ _ answered
    obtain ⟨_, rfl⟩ := (sound.issues _ _ _ origin).2.2 _ _ origin'
    have numbers : outcomes ∈ Set.range (List.map fun n =>
        Outcome.replied (.integer (Int64.ofNat n))) := by
      rw [Set.range_list_map]
      intro outcome member
      rw [← List.map_snd_zip (Nat.le_of_eq lengths)] at member
      obtain ⟨x, there, rfl⟩ := List.mem_map.mp member
      have ended_x := ended x there
      obtain ⟨reply, replied⟩ := ends_replied run waits fits ended_x
      rw [replied] at ended_x ⊢
      obtain ⟨m', executed', same⟩ := sound.delivers _ _ _ ended_x
      have listed := mem_executionsOf executed'
      rw [same] at listed
      have del := (plan.del_part (sound.planned origin listed)).1
      obtain ⟨n, _, number⟩ := del_reply run executed' del
      exact ⟨n, by rw [number]⟩
    obtain ⟨numbers, rfl⟩ := numbers
    have total : answer = .integer (Int64.ofNat numbers.sum) := by
      rw [joined, ← joinDel_integers]
      simp only [RsDragonfly.answer, List.map_map]
      rfl
    rw [total] at answered
    exact ⟨_, mem_answeredDels_iff.mpr ⟨keys, answered⟩⟩
  · rw [drained.idle] at current
    cases current

/-- With no timeout, in every interleaving in which no worker takes up a TTL that
overflows the clock and that has fewer SETs than `keys_expired` can count: once all
is answered, every key that came is counted as deleted or expired, or is still there. -/
theorem keys_conserved (run : (traffic ι Q).Run past σ) (waits : ∀ x ∈ past, patient x.2 = true)
    (fits : ∀ x ∈ past, ¬ TakesOverflow x) (few : (Traffic.acts past).countP isSet < 2 ^ 64)
    (drained : Drained σ) :
    (creations past : Int) = ((answeredDels (Traffic.acts past)).map fun del => del.2.toInt).sum +
      keysExpired σ + keysStored σ := by
  obtain ⟨created, deleted, expired, books⟩ := books_run run
  have balance := books.balance (healthy_run run waits fits) few
  have once := (settled_run run).once
  have removed : deletions (Traffic.acts past) =
      ∑ t ∈ ((answeredDels (Traffic.acts past)).map Prod.fst).toFinset,
        removedFor t (Traffic.acts past) := by
    apply deletions_by_ticket
    intro i now m response member removed
    obtain ⟨n, answered⟩ := del_answered run waits fits drained
      (mem_executions_iff.mpr ⟨now, member⟩) removed
    exact List.mem_toFinset.mpr (List.mem_map_of_mem answered)
  have numbers : ((answeredDels (Traffic.acts past)).map fun del => del.2.toInt).sum =
      (deletions (Traffic.acts past) : Int) := by
    rw [removed, List.sum_toFinset _ once, List.map_map, Nat.cast_list_sum, List.map_map]
    congr 1
    apply List.map_congr_left
    rintro ⟨t, n⟩ answered
    exact answered_removed run answered
  rw [numbers, balance]
  push_cast
  rfl

end

/- A command that adds no TTL to the clock. -/
def plain (act : Act Unit) : Bool :=
  match takesUp act with
  | some (_, _, ⟨.set _ _ (some _), _⟩) | some (_, _, ⟨.expire _ _, _⟩) => false
  | _ => true

theorem fits_of_plain {Q : Type} {x : Traffic Unit Q × Act Unit} (h : plain x.2 = true) :
    ¬ TakesOverflow x := by
  rintro ⟨i, now, ⟨command, t⟩, s, taken, _, overflow⟩
  rw [plain, taken] at h
  cases command with
  | set key value ttl =>
    cases ttl with
    | none => exact overflow
    | some seconds => cases h
  | expire key seconds => cases h
  | _ => exact overflow

theorem keys_conserved_deleted : ∃ past σ,
    (@traffic Unit (SortedQueue Expiry) _ _ linux64).Run past σ ∧ creations past = 1 ∧
    answeredDels (acts past) = [(⟨(), 1⟩, 1)] ∧
    (creations past : Int) = ((answeredDels (acts past)).map fun del => del.2.toInt).sum +
      keysExpired σ + keysStored σ := by
  let _ := linux64
  let held : Shard (SortedQueue Expiry) :=
    ((Shard.new ⟨7⟩ (.ofSecs 0)).store (utf8 "a") (.string (utf8 "v")) none).recorded
  have emptied : held.execute (.ofSecs 2) (.del [utf8 "a"]) =
      some ((held.cmdDel [utf8 "a"]).1.recorded, .integer 1) := by
    have counted : (held.cmdDel [utf8 "a"]).2 = .integer 1 := by decide
    rw [← counted]
    rfl
  have plan : Plans (.del [utf8 "a"]) [⟨aSlot, .del [utf8 "a"]⟩] :=
    .del ⟨_, .refl _⟩ (by decide +kernel)
  have run := run_aStart.step (.issue (c := ()) rfl (plans_a (c := aSet) rfl))
  have run := run.step (.send (c := ()) rfl List.mem_cons_self rfl rfl)
  have run := run.step (.work (i := aSlot) (.receive rfl rfl))
  have run := run.step (l := .execute aSlot (.ofSecs 1) ⟨aSet, (), 0⟩ .ok)
    (.work (.execute rfl rfl))
  have run := run.step (.done (c := ()) rfl List.mem_cons_self (.replied rfl))
  have run := run.step (.answer (c := ()) rfl rfl (@done_a _ _ (.replied .ok) rfl))
  have run := run.step (.issue (c := ()) rfl plan)
  have run := run.step (.send (c := ()) rfl List.mem_cons_self rfl rfl)
  have run := run.step (.work (i := aSlot) (.receive rfl rfl))
  have run := run.step (l := .execute aSlot (.ofSecs 2) ⟨.del [utf8 "a"], (), 1⟩ (.integer 1))
    (.work (.execute (rfl : _ = WorkerState.executing held ⟨.del [utf8 "a"], (), 1⟩) emptied))
  have run := run.step (.done (c := ()) rfl List.mem_cons_self (.replied rfl))
  have run := run.step (.answer (c := ()) rfl rfl (@done_a _ _ (.replied (.integer 1)) rfl))
  refine ⟨_, _, run, ?_, ?_, keys_conserved run ?_ ?_ ?_ ?_⟩
  · decide
  · decide
  · decide
  · intro x member
    apply fits_of_plain
    revert x
    decide
  · decide
  · refine ⟨fun _ => rfl, ?_⟩
    intro i
    by_cases here : i = aSlot
    · subst here
      rfl
    · simp only [nodes_setNode, if_neg here, nodes_setPhase, nodes_setClient]
      rfl

/-- A key that came is nowhere. -/
theorem unbalanced {ι Q : Type} {past : List (Traffic ι Q × Act ι)} {σ : Traffic ι Q}
    (created : creations past = 1) (unanswered : answeredDels (acts past) = [])
    (bare : ∀ i, ∀ s ∈ shardOf (σ.nodes i).worker, s.metrics.keysExpired = 0 ∧ s.data = ∅) :
    ¬ (creations past : Int) = ((answeredDels (acts past)).map fun del => del.2.toInt).sum +
      keysExpired σ + keysStored σ := by
  have none_expired : keysExpired σ = 0 := by
    refine Finset.sum_eq_zero fun i _ => ?_
    cases there : shardOf (σ.nodes i).worker with
    | none => rfl
    | some s =>
      rw [Option.elim_some, (bare i s there).1]
      rfl
  have none_stored : keysStored σ = 0 := by
    refine Finset.sum_eq_zero fun i _ => ?_
    cases there : shardOf (σ.nodes i).worker with
    | none => rfl
    | some s =>
      rw [Option.elim_some, (bare i s there).2]
      rfl
  rw [created, unanswered, none_expired, none_stored]
  simp

def aLastingSet : Command :=
  .set (utf8 "a") (.string (utf8 "v")) (some 9223372036854775807)

/-- A SET whose TTL overflows the clock takes the keys of its shard with it. -/
theorem panic_loses_keys : ∃ past σ,
    (@traffic Unit (SortedQueue Expiry) _ _ linux64).Run past σ ∧
    (∀ x ∈ past, patient x.2 = true) ∧ (acts past).countP isSet < 2 ^ 64 ∧ Drained σ ∧
    ¬ (creations past : Int) = ((answeredDels (acts past)).map fun del => del.2.toInt).sum +
      keysExpired σ + keysStored σ := by
  let _ := linux64
  let held : Shard (SortedQueue Expiry) :=
    ((Shard.new ⟨7⟩ (.ofSecs 0)).store (utf8 "a") (.string (utf8 "v")) none).recorded
  have overflows : held.execute (.ofSecs 1) aLastingSet = none := rfl
  have run := run_aStart.step (.issue (c := ()) rfl (plans_a (c := aSet) rfl))
  have run := run.step (.send (c := ()) rfl List.mem_cons_self rfl rfl)
  have run := run.step (.work (i := aSlot) (.receive rfl rfl))
  have run := run.step (l := .execute aSlot (.ofSecs 1) ⟨aSet, (), 0⟩ .ok)
    (.work (.execute rfl rfl))
  have run := run.step (.done (c := ()) rfl List.mem_cons_self (.replied rfl))
  have run := run.step (.answer (c := ()) rfl rfl (@done_a _ _ (.replied .ok) rfl))
  have run := run.step (.issue (c := ()) rfl (plans_a (c := aLastingSet) rfl))
  have run := run.step (.send (c := ()) rfl List.mem_cons_self rfl rfl)
  have run := run.step (.work (i := aSlot) (.receive rfl rfl))
  have run := run.step (l := .panic aSlot (.ofSecs 1) ⟨aLastingSet, (), 1⟩)
    (.work (.panic (rfl : _ = WorkerState.executing held ⟨aLastingSet, (), 1⟩) overflows))
  have run := run.step (.done (c := ()) rfl List.mem_cons_self (.disconnected rfl))
  have run := run.step (.answer (c := ()) rfl rfl (@done_a _ _ .disconnected rfl))
  refine ⟨_, _, run, by decide, by decide, ⟨fun _ => rfl, ?_⟩, ?_⟩
  · intro i
    by_cases here : i = aSlot
    · subst here
      rfl
    · simp only [nodes_setNode, if_neg here, nodes_setPhase, nodes_setClient]
      rfl
  · refine unbalanced (by decide) (by decide) ?_
    intro i s there
    by_cases here : i = aSlot
    · subst here
      cases there
    · simp only [nodes_setNode, if_neg here, nodes_setPhase, nodes_setClient] at there
      cases there
      exact ⟨rfl, rfl⟩

end Traffic

end RsDragonfly
