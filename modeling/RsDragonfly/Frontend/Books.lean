import Mathlib.Algebra.BigOperators.Fin
import RsDragonfly.Frontend.Delivery
import RsDragonfly.Shard.Ledger

/-! The balance of keys of each shard, in every interleaving.
With no timeout and no overflow, the workers stay and every call is replied to. -/
namespace RsDragonfly
open Library

namespace Traffic

section
variable {ι Q : Type}

/-- No timeout, and no worker that leaves by itself. -/
def patient : Act ι → Bool
  | .done _ _ .overloaded | .done _ _ .timedOut | .stop _ => false
  | _ => true

/-- The command a worker takes up in a step, with its reading of the clock. -/
def takesUp : Act ι → Option (Fin shardCount × Instant × CommandMessage ι)
  | .execute i now m _ | .panic i now m => some (i, now, m)
  | _ => none

def shardOf : WorkerState ι Q → Option (Shard Q)
  | .waiting s | .executing s _ => some s
  | .ended => none

/-- A worker takes up a command whose TTL overflows the clock. -/
def TakesOverflow (x : Traffic ι Q × Act ι) : Prop :=
  ∃ i now m s, takesUp x.2 = some (i, now, m) ∧ (x.1.nodes i).worker = .executing s m ∧
    s.Overflows now m.command

/-- The worker runs, and has dropped nothing. -/
structure Healthy (node : Node ι Q) : Prop where
  receiving : node.channel.receiving = true
  replies : ∀ t, node.replies t ≠ .dropped
  alive : (shardOf node.worker).isSome = true

def createsKey (x : Traffic ι Q × Act ι) : Bool :=
  match x.2 with
  | .execute i _ m response =>
    match (x.1.nodes i).worker with
    | .executing s _ => s.creates m.command response
    | _ => false
  | _ => false

def creations (past : List (Traffic ι Q × Act ι)) : Nat := past.countP createsKey

def deletionOf : Act ι → Nat
  | .execute _ _ m response => Shard.deletes m.command response
  | _ => 0

def deletions (acts : List (Act ι)) : Nat := (acts.map deletionOf).sum

/-- The balance of each shard, and the totals. -/
structure Books (past : List (Traffic ι Q × Act ι)) (σ : Traffic ι Q)
    (created deleted expired : Fin shardCount → Nat) : Prop where
  shards : ∀ i, ∀ s ∈ shardOf (σ.nodes i).worker,
    s.metrics.keysExpired = UInt64.ofNat (expired i) ∧
      created i = KeyedMap.size s.data + deleted i + expired i
  creations : ∑ i, created i = creations past
  deletions : ∑ i, deleted i = deletions (acts past)

variable {past : List (Traffic ι Q × Act ι)} {σ σ' : Traffic ι Q} {act : Act ι}
  {created deleted expired : Fin shardCount → Nat}

theorem Books.same (books : Books past σ created deleted expired)
    (kept : ∀ i, ∀ s ∈ shardOf (σ'.nodes i).worker, s ∈ shardOf (σ.nodes i).worker)
    (none_created : createsKey (σ, act) = false) (none_deleted : deletionOf act = 0) :
    Books ((σ, act) :: past) σ' created deleted expired := by
  constructor
  · exact fun i s there => books.shards i s (kept i s there)
  · rw [books.creations, Traffic.creations, Traffic.creations,
      List.countP_cons_of_neg (by rw [none_created]; nofun)]
  · rw [books.deletions, Traffic.deletions, Traffic.deletions, acts, acts, List.map_cons,
      List.map_cons, List.sum_cons, none_deleted, Nat.zero_add]

theorem Books.moved (books : Books past σ created deleted expired) {j : Fin shardCount}
    {s s' : Shard Q} (before : shardOf (σ.nodes j).worker = some s)
    (after : shardOf (σ'.nodes j).worker = some s') {lost : Nat}
    (moves : Shard.Moves (if createsKey (σ, act) then 1 else 0) (deletionOf act) lost s s')
    (others : ∀ i ≠ j, σ'.nodes i = σ.nodes i) :
    Books ((σ, act) :: past) σ'
      (fun i => created i + if i = j then if createsKey (σ, act) then 1 else 0 else 0)
      (fun i => deleted i + if i = j then deletionOf act else 0)
      (fun i => expired i + if i = j then lost else 0) := by
  constructor
  · intro i x there
    by_cases here : i = j
    · subst here
      rw [after] at there
      cases there
      obtain ⟨counted, balance⟩ := books.shards i s before
      simp only [if_true]
      constructor
      · rw [moves.counted, counted, UInt64.ofNat_add]
      · have moved := moves.balance
        omega
    · rw [others i here] at there
      simp only [if_neg here, Nat.add_zero]
      exact books.shards i x there
  · rw [Finset.sum_add_distrib, books.creations, Finset.sum_ite_eq' Finset.univ j,
      if_pos (Finset.mem_univ j), Traffic.creations, Traffic.creations, List.countP_cons]
  · rw [Finset.sum_add_distrib, books.deletions, Finset.sum_ite_eq' Finset.univ j,
      if_pos (Finset.mem_univ j), Traffic.deletions, Traffic.deletions, acts, acts,
      List.map_cons, List.map_cons, List.sum_cons, Nat.add_comm]

variable [DecidableEq ι] [MaxQueue Q Expiry] [Layout]

theorem reached_run {past : List (Traffic ι Q × Act ι)} {σ : Traffic ι Q}
    (run : (traffic ι Q).Run past σ) :
    ∀ i, ∀ s ∈ shardOf (σ.nodes i).worker, ∃ past, Shard.Run Q past s := by
  refine System.Run.invariant
    (fun σ => ∀ i, ∀ s ∈ shardOf (σ.nodes i).worker, ∃ past, Shard.Run Q past s) ?_ ?_ run
  · rintro σ ⟨_, now, fresh⟩ i s there
    rw [fresh i] at there
    cases there
    exact ⟨[], .start ⟨_, _, rfl⟩⟩
  · rintro σ act σ' step before i s there
    rcases step.node_cases i with same | ⟨_, _, _, same⟩ | works
    · rw [same] at there
      exact before i s there
    · rw [same] at there
      exact before i s there
    · generalize σ'.nodes i = node at there works
      cases works with
      | receive waiting received =>
        cases there
        exact before i _ (by rw [waiting]; rfl)
      | @execute shard _ m now response executing executed =>
        cases there
        obtain ⟨earlier, reached⟩ := before i shard (by rw [executing]; rfl)
        have served : (Shard.runs Q).step shard ⟨now, .command m.command response⟩ s := executed
        exact ⟨_, reached.step served⟩
      | panic executing panics => cases there
      | stop waiting => cases there
      | @tick shard now waiting =>
        cases there
        obtain ⟨earlier, reached⟩ := before i shard (by rw [waiting]; rfl)
        have swept : (Shard.runs Q).step shard ⟨now, .sweep⟩ (shard.expireKeys now) := rfl
        exact ⟨_, reached.step swept⟩

theorem healthy_step {past : List (Traffic ι Q × Act ι)} {σ σ' : Traffic ι Q} {act : Act ι}
    (run : (traffic ι Q).Run past σ) (step : Step σ act σ') (healthy : ∀ i, Healthy (σ.nodes i))
    (waits : patient act = true) (fits : ¬ TakesOverflow (σ, act)) :
    ∀ i, Healthy (σ'.nodes i) := by
  intro i
  obtain ⟨receiving, replies, alive⟩ := healthy i
  rcases step.node_cases i with same | ⟨_, _, ok, same⟩ | works
  · rw [same]
    exact healthy i
  · rw [same]
    exact ⟨(Channel.trySend_ok ok).2.2.2.2.2.trans receiving, replies, alive⟩
  · generalize σ'.nodes i = node at works
    cases works with
    | receive waiting received =>
      exact ⟨(Channel.recv_message received).2.2.2.trans receiving, replies, rfl⟩
    | execute executing executed =>
      refine ⟨receiving, ?_, rfl⟩
      intro t
      rw [Node.replies_reply]
      split
      · nofun
      · exact replies t
    | @panic shard m now executing panics =>
      obtain ⟨earlier, reached⟩ := reached_run run i shard (by rw [executing]; rfl)
      obtain ⟨leaked, accounted, _⟩ := Shard.accounted_run reached
      refine absurd ⟨i, now, m, shard, rfl, executing, ?_⟩ fits
      by_contra returns
      rw [← Shard.execute_isSome_iff accounted, panics] at returns
      cases returns
    | stop waiting => cases waits
    | tick waiting => exact ⟨receiving, replies, rfl⟩

/-- With no timeout and no overflow, the workers stay. -/
theorem healthy_run {past : List (Traffic ι Q × Act ι)} {σ : Traffic ι Q}
    (run : (traffic ι Q).Run past σ) (waits : ∀ x ∈ past, patient x.2 = true)
    (fits : ∀ x ∈ past, ¬ TakesOverflow x) : ∀ i, Healthy (σ.nodes i) := by
  induction run with
  | start h =>
    obtain ⟨_, now, fresh⟩ := h
    intro i
    rw [fresh i]
    exact ⟨rfl, fun _ => nofun, rfl⟩
  | step before hs ih =>
    obtain ⟨waits_last, waits⟩ := List.forall_mem_cons.mp waits
    obtain ⟨fits_last, fits⟩ := List.forall_mem_cons.mp fits
    exact healthy_step before hs (ih waits fits) waits_last fits_last

theorem books_step (run : (traffic ι Q).Run past σ) (step : Step σ act σ')
    (books : Books past σ created deleted expired) :
    ∃ created deleted expired, Books ((σ, act) :: past) σ' created deleted expired := by
  cases step with
  | issue idle plan => exact ⟨_, _, _, books.same (fun _ _ there => there) rfl rfl⟩
  | done current member ends => exact ⟨_, _, _, books.same (fun _ _ there => there) rfl rfl⟩
  | answer current lengths finished =>
    exact ⟨_, _, _, books.same (fun _ _ there => there) rfl rfl⟩
  | @send c task part sent current member phase ok =>
    refine ⟨_, _, _, books.same ?_ rfl rfl⟩
    intro i s there
    rw [nodes_setNode] at there
    split at there
    · rename_i here
      rw [here]
      exact there
    · exact there
  | @work j _ node works =>
    have others : ∀ i ≠ j, (σ.setNode j node).nodes i = σ.nodes i := by
      intro i other
      rw [nodes_setNode, if_neg other]
    have here : (σ.setNode j node).nodes j = node := by rw [nodes_setNode, if_pos rfl]
    have kept (within : ∀ s ∈ shardOf node.worker, s ∈ shardOf (σ.nodes j).worker) :
        ∀ i, ∀ s ∈ shardOf ((σ.setNode j node).nodes i).worker, s ∈ shardOf (σ.nodes i).worker := by
      intro i s there
      by_cases same : i = j
      · subst same
        rw [here] at there
        exact within s there
      · rw [others i same] at there
        exact there
    cases works with
    | receive waiting received =>
      refine ⟨_, _, _, books.same (kept ?_) rfl rfl⟩
      rw [waiting]
      exact fun s there => there
    | panic executing panics => exact ⟨_, _, _, books.same (kept nofun) rfl rfl⟩
    | stop waiting => exact ⟨_, _, _, books.same (kept nofun) rfl rfl⟩
    | @execute shard shard' m now response executing executed =>
      have before : shardOf (σ.nodes j).worker = some shard := by rw [executing]; rfl
      obtain ⟨earlier, reached⟩ := reached_run run j shard before
      have few := (Shard.wellFormed_run reached).few
      obtain ⟨lost, moves⟩ := Shard.execute_moves executed few
      have creates : createsKey (σ, .execute j now m response) =
          shard.creates m.command response := by
        simp only [createsKey, executing]
      rw [← creates] at moves
      exact ⟨_, _, _, books.moved before (by rw [here]; rfl) moves others⟩
    | @tick shard now waiting =>
      have before : shardOf (σ.nodes j).worker = some shard := by rw [waiting]; rfl
      obtain ⟨earlier, reached⟩ := reached_run run j shard before
      have backed := (Shard.wellFormed_run reached).indexed.backed
      exact ⟨_, _, _, books.moved before (by rw [here]; rfl) (Shard.sweep_moves backed now) others⟩

theorem books_run (run : (traffic ι Q).Run past σ) :
    ∃ created deleted expired, Books past σ created deleted expired := by
  induction run with
  | start h =>
    obtain ⟨_, now, fresh⟩ := h
    refine ⟨fun _ => 0, fun _ => 0, fun _ => 0, ?_, ?_, ?_⟩
    · intro i s there
      rw [fresh i] at there
      cases there
      exact ⟨rfl, rfl⟩
    · exact Finset.sum_const_zero
    · exact Finset.sum_const_zero
  | step before hs ih =>
    obtain ⟨created, deleted, expired, books⟩ := ih
    exact books_step before hs books

end

end Traffic

end RsDragonfly
