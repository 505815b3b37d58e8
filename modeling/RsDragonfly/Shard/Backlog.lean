import RsDragonfly.Shard.SweepWork

/-! How the sweeps keep up with the deadlines.
What is due can only become less: no command gives an entry a deadline that has
passed. Each sweep takes its share of what is left, earliest first, so the number
of sweeps bounds how long a key outlives its deadline. -/
namespace RsDragonfly
open Library

def Event.isSweep (e : Event) : Bool :=
  match e.action with
  | .sweep => true
  | .command _ _ => false

theorem Timespec.le_add {t u : Timespec} {d : Duration} (sum : t.add d = some u) : t ≤ u := by
  rw [Timespec.le_iff, Timespec.add_eq_some.mp sum]
  exact Nat.le_add_right _ _

namespace Shard

section
variable {Q : Type}

theorem keyOp_deadline {k : Key} {e : Event} {d : Instant}
    (sets : (∃ v, keyOp k e = .write v (some d)) ∨ keyOp k e = .redate d) : e.time ≤ d := by
  obtain ⟨t, action⟩ := e
  cases action with
  | sweep => rcases sets with ⟨_, write⟩ | redate <;> contradiction
  | command c r =>
    cases c with
    | set key value ttl =>
      simp only [keyOp] at sets
      split at sets
      · rcases sets with ⟨_, write⟩ | redate
        · injection write with _ dated
          obtain ⟨secs, _, sum⟩ := Option.bind_eq_some_iff.mp dated
          exact Timespec.le_add sum
        · cases redate
      · rcases sets with ⟨_, write⟩ | redate <;> contradiction
    | del keys =>
      simp only [keyOp] at sets
      split at sets <;> rcases sets with ⟨_, write⟩ | redate <;> contradiction
    | expire key seconds =>
      simp only [keyOp] at sets
      split at sets
      · split at sets
        · rename_i deadline sum
          rcases sets with ⟨_, write⟩ | redate
          · cases write
          · cases redate
            exact Timespec.le_add sum
        · rcases sets with ⟨_, write⟩ | redate <;> contradiction
      · rcases sets with ⟨_, write⟩ | redate <;> contradiction
    | _ => rcases sets with ⟨_, write⟩ | redate <;> contradiction

theorem mem_dueKeys_cell {s : Shard Q} {now : Instant} {key : Key} :
    key ∈ s.dueKeys now ↔ ∃ x, s.cell key = some x ∧ Cell.Dead now x := by
  rw [mem_dueKeys]
  constructor
  · rintro ⟨entry, found, dead⟩
    refine ⟨entry.dated, ?_, dead⟩
    rw [cell, found]
    rfl
  · rintro ⟨x, stored, dead⟩
    exact ⟨⟨x.value, x.deadline⟩, cell_eq_some.mp stored, dead⟩

variable [MaxQueue Q Expiry] [Layout]

/-- After the reading `t`, no command makes a key due at `t`. -/
theorem dueKeys_command {s s' : Shard Q} {e : Event} {t : Instant} (hs : step s e s')
    (later : t < e.time) : s'.dueKeys t ⊆ s.dueKeys t := by
  intro key due
  obtain ⟨x, stored, d, dated, passed⟩ := mem_dueKeys_cell.mp due
  apply mem_dueKeys_cell.mpr
  have new_deadline {d' : Instant} (sets : (∃ v, keyOp key e = .write v (some d')) ∨
      keyOp key e = .redate d') : ¬ d' ≤ t :=
    not_le.mpr (lt_of_lt_of_le later (keyOp_deadline sets))
  have moved := cell_step hs key
  rw [stored] at moved
  generalize held : s.cell key = c at moved
  generalize did : keyOp key e = op at moved new_deadline
  cases moved with
  | write =>
    cases dated
    exact absurd passed (new_deadline (.inl ⟨_, rfl⟩))
  | redate =>
    cases dated
    exact absurd passed (new_deadline (.inr rfl))
  | idle dropped =>
    rcases dropped with same | ⟨gone, _⟩
    · exact ⟨x, same.symm, d, dated, passed⟩
    · cases gone

/-- A sweep at `t` or later takes its share of the keys that were due at `t`. -/
theorem dueKeys_sweep {s : Shard Q} (indexed : s.Indexed) {t now : Instant} (later : t ≤ now) :
    (s.expireKeys now).dueKeys t ⊆ s.dueKeys t ∧
      ((s.expireKeys now).dueKeys t).card ≤ (s.dueKeys t).card - ttlKeysPerCheck := by
  obtain ⟨swept, earliest⟩ := sweep_earliest indexed.backed now
  have count := sweep_count indexed.backed now
  have left {key : Key} (due : key ∈ (s.expireKeys now).dueKeys t) :
      key ∈ s.dueKeys t ∧ key ∉ removedKeys s.data (s.sweep now).data := by
    obtain ⟨entry, found, dead⟩ := mem_dueKeys.mp due
    rw [data_expireKeys] at found
    refine ⟨mem_dueKeys.mpr ⟨entry, swept.part key entry found, dead⟩, fun removed => ?_⟩
    rw [(mem_removedKeys.mp removed).2] at found
    cases found
  have part : (s.expireKeys now).dueKeys t ⊆ s.dueKeys t := fun key due => (left due).1
  refine ⟨part, ?_⟩
  rcases Finset.eq_empty_or_nonempty ((s.expireKeys now).dueKeys t) with none_left | ⟨still, due⟩
  · rw [none_left]
    exact Nat.zero_le _
  · -- something due at `t` was left, so the sweep stopped at its bound, with earlier deadlines
    obtain ⟨due_before, unswept⟩ := left due
    obtain ⟨entry, found, deadline, dated, passed⟩ := mem_dueKeys.mp due_before
    have due_now : still ∈ s.dueKeys now :=
      mem_dueKeys.mpr ⟨entry, found, deadline, dated, le_trans passed later⟩
    have removed_due : removedKeys s.data (s.sweep now).data ⊆ s.dueKeys t := by
      intro key removed
      obtain ⟨other, found', deadline', dated', _⟩ := mem_dueKeys.mp (earliest.due removed)
      have first := earliest.first key removed other deadline' found' dated' _
        (swept.queued unswept found dated)
      exact mem_dueKeys.mpr ⟨other, found', deadline', dated', le_trans first passed⟩
    have bounded : (removedKeys s.data (s.sweep now).data).card = ttlKeysPerCheck := by
      have fewer : removedKeys s.data (s.sweep now).data ⊂ s.dueKeys now :=
        ⟨earliest.due, fun all => unswept (all due_now)⟩
      have less := Finset.card_lt_card fewer
      omega
    have rest : (s.expireKeys now).dueKeys t ⊆
        s.dueKeys t \ removedKeys s.data (s.sweep now).data :=
      fun key due => Finset.mem_sdiff.mpr (left due)
    have share := Finset.card_le_card rest
    rw [Finset.card_sdiff_of_subset removed_due, bounded] at share
    exact share

theorem indexed_step {s s' : Shard Q} {e : Event} (hs : step s e s') (indexed : s.Indexed) :
    s'.Indexed := by
  obtain ⟨t, action⟩ := e
  cases action with
  | command c r => exact (execute_writes hs).keep (fun _ _ => Indexed.write) indexed
  | sweep =>
    cases hs
    exact indexed.sweep t

/-- Whatever is executed meanwhile, each sweep takes its share of the keys that were due at
`t`, and no key joins them: after enough sweeps none of them is stored any more. -/
theorem backlog_drains {past more : List (Shard Q × Event)} {s s' : Shard Q} {t : Instant}
    (life : (lives Q).Run past s) (path : (lives Q).Path s more s')
    (commands : ∀ x ∈ more, x.2.isSweep = false → t < x.2.time)
    (sweeps : ∀ x ∈ more, x.2.isSweep = true → t ≤ x.2.time) :
    s'.dueKeys t ⊆ s.dueKeys t ∧
      (s'.dueKeys t).card ≤ (s.dueKeys t).card - ttlKeysPerCheck * more.countP (·.2.isSweep) := by
  have swept {a b : Shard Q} {e : Event} (hs : step a e b) (sweep : e.isSweep = true) :
      b = a.expireKeys e.time := by
    obtain ⟨now, action⟩ := e
    cases action with
    | command c r => cases sweep
    | sweep => exact hs
  constructor
  · induction path with
    | refl => exact fun _ due => due
    | @step more r s s' e before hs ih =>
      obtain ⟨command, commands⟩ := List.forall_mem_cons.mp commands
      obtain ⟨sweep, sweeps⟩ := List.forall_mem_cons.mp sweeps
      apply Finset.Subset.trans _ (ih life commands sweeps)
      cases kind : e.isSweep with
      | false => exact dueKeys_command hs (command kind)
      | true =>
        have indexed := indexed_life (life.extend before)
        rw [swept hs kind]
        exact (dueKeys_sweep indexed (sweep kind)).1
  · refine path.drained (fun s => (s.dueKeys t).card) ttlKeysPerCheck Event.isSweep
      (P := fun x => (x.2.isSweep = false → t < x.2.time) ∧ (x.2.isSweep = true → t ≤ x.2.time))
      Indexed ?_ ?_ ?_ (indexed_life life) (fun x member => ⟨commands x member, sweeps x member⟩)
    · exact fun _ _ _ hs => indexed_step hs
    · intro a e b _ fits hs kind
      exact Finset.card_le_card (dueKeys_command hs (fits.1 kind))
    · intro a e b indexed fits hs kind
      rw [swept hs kind]
      exact (dueKeys_sweep indexed (fits.2 kind)).2

end

/- Two keys are due; another is set before the sweep and is not. -/
def dueBefore : List Event :=
  [⟨.ofSecs 1, .command (.set (utf8 "b") (.string (utf8 "v")) (some 1)) .ok⟩,
   ⟨.ofSecs 1, .command (.set (utf8 "a") (.string (utf8 "v")) (some 1)) .ok⟩]

def sweptAfter : List Event :=
  [⟨.ofSecs 4, .sweep⟩, ⟨.ofSecs 3, .command (.set (utf8 "c") (.string (utf8 "v")) (some 0)) .ok⟩]

theorem backlog_drains_two : ∃ past more s s', (@lives (SortedQueue Expiry) _ linux64).Run past s ∧
    (@lives (SortedQueue Expiry) _ linux64).Path s more s' ∧
    past.map Prod.snd = dueBefore ∧ more.map Prod.snd = sweptAfter ∧
    s'.dueKeys (.ofSecs 2) ⊆ s.dueKeys (.ofSecs 2) ∧
    (s'.dueKeys (.ofSecs 2)).card ≤
      (s.dueKeys (.ofSecs 2)).card - ttlKeysPerCheck * more.countP (·.2.isSweep) := by
  let _ := linux64
  obtain ⟨all, s', run, same, _⟩ := replay_run (SortedQueue Expiry) ⟨0⟩ (.ofSecs 0)
    (sweptAfter ++ dueBefore) (by decide +kernel)
  obtain ⟨more, past, rfl, later, earlier⟩ := List.map_eq_append_iff.mp same
  obtain ⟨s, life, path⟩ := System.Run.split run.life
  have commands : ∀ e ∈ sweptAfter, e.isSweep = false → Timespec.ofSecs 2 < e.time := by decide
  have sweeps : ∀ e ∈ sweptAfter, e.isSweep = true → Timespec.ofSecs 2 ≤ e.time := by decide
  rw [← later] at commands sweeps
  exact ⟨past, more, s, s', life, path, earlier, later, backlog_drains life path
    (fun x member => commands x.2 (List.mem_map_of_mem member))
    (fun x member => sweeps x.2 (List.mem_map_of_mem member))⟩

end Shard

end RsDragonfly
