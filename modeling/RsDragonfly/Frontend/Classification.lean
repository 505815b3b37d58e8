import Mathlib.Algebra.Ring.Int.Defs
import RsDragonfly.Frontend.MultiKey

/-! What the two implementations of DEL make of the outcomes of their calls.
Each result follows from the sum of the answers and the calls without one, and
neither depends on the order in which the map lists the groups. -/
namespace RsDragonfly
open Library

/-- A call is answered for both implementations or failed for both. A reply of another
kind is an error for the executor only. -/
theorem ShardCall.read (call : ShardCall) :
    (∃ n, call.answer = some n ∧ call.outcome.part = .integer n ∧ call.result = .ok n) ∨
      (call.answer = none ∧ (∃ e, call.result = .error e) ∧
        ((∃ e, call.outcome.part = .error e) ∨
          ∃ r, call.outcome = .replied r ∧ (∀ n, r ≠ .integer n) ∧ ∀ e, r ≠ .error e)) := by
  obtain ⟨sent, received, refused_drops⟩ := call
  cases sent with
  | elapsed => exact .inr ⟨rfl, ⟨_, rfl⟩, .inl ⟨_, rfl⟩⟩
  | refused =>
    cases refused_drops rfl
    exact .inr ⟨rfl, ⟨_, rfl⟩, .inl ⟨_, rfl⟩⟩
  | accepted =>
    cases received with
    | dropped => exact .inr ⟨rfl, ⟨_, rfl⟩, .inl ⟨_, rfl⟩⟩
    | elapsed => exact .inr ⟨rfl, ⟨_, rfl⟩, .inl ⟨_, rfl⟩⟩
    | response response =>
      cases response with
      | integer n => exact .inl ⟨n, rfl, rfl, rfl⟩
      | error e => exact .inr ⟨rfl, ⟨_, rfl⟩, .inl ⟨_, rfl⟩⟩
      | value v => exact .inr ⟨rfl, ⟨_, rfl⟩, .inr ⟨_, rfl, nofun, nofun⟩⟩
      | ok => exact .inr ⟨rfl, ⟨_, rfl⟩, .inr ⟨_, rfl, nofun, nofun⟩⟩

/-- The integer of a call, as a number. A failed call counts as 0. -/
def ShardCall.count (call : ShardCall) : Int := (call.answer.map Int64.toInt).getD 0

section
variable {Sender : Type} (calls : Contact Sender → ShardCall)

def answered (futures : List (Contact Sender)) : Int :=
  (futures.map fun future => (calls future).count).sum

def failures (futures : List (Contact Sender)) : List (Contact Sender) :=
  futures.filter fun future => (calls future).answer.isNone

theorem answered_concat (futures : List (Contact Sender)) (last : Contact Sender) :
    answered calls (futures ++ [last]) = answered calls futures + (calls last).count := by
  rw [answered, List.map_append, List.sum_append, List.map_singleton, List.sum_singleton]
  rfl

theorem failures_concat (futures : List (Contact Sender)) (last : Contact Sender) :
    failures calls (futures ++ [last]) =
      failures calls futures ++ if (calls last).answer.isNone then [last] else [] := by
  rw [failures, List.filter_append, List.filter_singleton, cond_eq_ite]
  rfl

theorem gather_futures (futures : List (Contact Sender)) :
    ∃ errors : List String, errors.length = (failures calls futures).length ∧
      gather (futures.map fun future => (future.shard, (calls future).result)) =
        (Int64.ofInt (answered calls futures), (failures calls futures).map Contact.shard,
          errors) := by
  induction futures using List.reverseRecOn with
  | nil => exact ⟨[], rfl, rfl⟩
  | append_singleton futures last ih =>
    obtain ⟨errors, size, gathered⟩ := ih
    rw [answered_concat, failures_concat, List.map_append, List.map_singleton, gather_concat,
      gathered]
    rcases (calls last).read with ⟨n, answer, _, result⟩ | ⟨failed, ⟨e, result⟩, _⟩
    · refine ⟨errors, ?_, ?_⟩
      · simp [answer, size]
      · simp [answer, result, ShardCall.count, Int64.ofInt_add]
    · refine ⟨errors ++ [shardError last.shard e], ?_, ?_⟩
      · simp [failed, size]
      · simp [failed, result, ShardCall.count]

theorem tally_futures
    (plain : ∀ future response, (calls future).outcome = .replied response →
      (∃ n, response = .integer n) ∨ ∃ e, response = .error e)
    (futures : List (Contact Sender)) :
    ∃ errors : List String, errors.length = (failures calls futures).length ∧
      tally (futures.map fun future => (calls future).outcome.part) =
        (Int64.ofInt (answered calls futures), errors) := by
  induction futures using List.reverseRecOn with
  | nil => exact ⟨[], rfl, rfl⟩
  | append_singleton futures last ih =>
    obtain ⟨errors, size, tallied⟩ := ih
    rw [answered_concat, failures_concat, List.map_append, List.map_singleton, tally_concat,
      tallied]
    rcases (calls last).read with
      ⟨n, answer, part, _⟩ | ⟨failed, _, ⟨e, part⟩ | ⟨r, got, other, strange⟩⟩
    · refine ⟨errors, ?_, ?_⟩
      · simp [answer, size]
      · simp [answer, part, ShardCall.count, Int64.ofInt_add]
    · refine ⟨errors ++ [e], ?_, ?_⟩
      · simp [failed, size]
      · simp [failed, part, ShardCall.count]
    · rcases plain last r got with ⟨n, rfl⟩ | ⟨e, rfl⟩
      · exact absurd rfl (other n)
      · exact absurd rfl (strange e)

/-- What `execute_del` makes of its futures: the sum decides between the two failures. -/
theorem aggregate_futures (futures : List (Contact Sender)) :
    let sum := Int64.ofInt (answered calls futures)
    let result := aggregate (futures.map fun future => (future.shard, (calls future).result))
    (failures calls futures = [] ∧ result = .success sum) ∨
      (failures calls futures ≠ [] ∧ 0 < sum ∧ ∃ errors,
        result = .partialFailure sum ((failures calls futures).map Contact.shard) errors) ∨
      (failures calls futures ≠ [] ∧ ¬ 0 < sum ∧ ∃ message, result = .totalFailure message) := by
  intro sum result
  obtain ⟨errors, size, gathered⟩ := gather_futures calls futures
  have shape : result = if errors = [] then .success sum
      else if sum > 0 then .partialFailure sum ((failures calls futures).map Contact.shard) errors
      else .totalFailure ("; ".intercalate errors) := by
    change aggregate _ = _
    rw [aggregate, gathered]
  have same : errors = [] ↔ failures calls futures = [] := by
    rw [← List.length_eq_zero_iff, size, List.length_eq_zero_iff]
  rw [shape]
  by_cases clean : errors = []
  · exact .inl ⟨same.mp clean, if_pos clean⟩
  · rw [if_neg clean]
    by_cases positive : 0 < sum
    · exact .inr (.inl ⟨mt same.mpr clean, positive, errors, if_pos positive⟩)
    · exact .inr (.inr ⟨mt same.mpr clean, positive, _, if_neg positive⟩)

theorem answered_perm {futures others : List (Contact Sender)} (same : futures.Perm others) :
    answered calls futures = answered calls others ∧
      (failures calls futures = [] ↔ failures calls others = []) := by
  constructor
  · exact (same.map _).sum_eq
  · rw [← List.length_eq_zero_iff, ← List.length_eq_zero_iff]
    exact Eq.congr_left (same.filter _).length_eq

/-- The two implementations of DEL agree on the number, or both return an error. -/
theorem del_agrees (join : JoinAll) {channels : List Sender} (full : channels.length = shardCount)
    {keys : List Key} (order order' : KeyedMap.Iteration (routeKeys keys))
    (plain : ∀ future response, (calls future).outcome = .replied response →
      (∃ n, response = .integer n) ∨ ∃ e, response = .error e)
    (ready ready' : Nat → Nat) :
    ∃ reply result, processMultiKeyDel join channels order calls ready = some reply ∧
      executeDel join channels order' calls ready' = some result ∧
      ((∃ n, reply = .integer n ∧ result.toResponse = .integer n) ∨
        ((∃ e, reply = .error e) ∧ ∃ e, result.toResponse = .error e)) := by
  have same : (order.entries.filterMap (contact channels)).Perm
      (order'.entries.filterMap (contact channels)) :=
    (order.perm.trans order'.perm.symm).filterMap _
  obtain ⟨sums, fails⟩ := answered_perm calls same
  refine ⟨_, _, processMultiKeyDel_eq join (contacts_eq full order) calls ready,
    executeDel_eq join (contacts_eq full order') calls ready', ?_⟩
  obtain ⟨errors, size, tallied⟩ :=
    tally_futures calls plain (order.entries.filterMap (contact channels))
  have clean : errors = [] ↔ failures calls (order'.entries.filterMap (contact channels)) = [] := by
    rw [← fails, ← List.length_eq_zero_iff, size, List.length_eq_zero_iff]
  rw [joinDel, tallied, sums]
  rcases aggregate_futures calls (order'.entries.filterMap (contact channels)) with
    ⟨none_failed, result⟩ | ⟨some_failed, _, _, result⟩ | ⟨some_failed, _, _, result⟩
  · rw [result]
    exact .inl ⟨_, if_pos (clean.mpr none_failed), rfl⟩
  · rw [result]
    exact .inr ⟨⟨_, if_neg (mt clean.mp some_failed)⟩, _, rfl⟩
  · rw [result]
    exact .inr ⟨⟨_, if_neg (mt clean.mp some_failed)⟩, _, rfl⟩

/-- The three results as the design tells them apart: by which of the contacted shards
answered with an integer. -/
structure Classifies (futures : List (Contact Sender)) (result : MultiKeyResult) : Prop where
  success : (∃ n, result = .success n) ↔ ∀ future ∈ futures, (calls future).answer.isSome
  success_sum : ∀ n, result = .success n → n.toInt = answered calls futures
  some_failed : (∃ succeeded shards errors, result = .partialFailure succeeded shards errors) ↔
    (∃ future ∈ futures, (calls future).answer.isNone) ∧
      ∃ future ∈ futures, (calls future).answer.isSome
  some_failed_parts : ∀ succeeded shards errors,
    result = .partialFailure succeeded shards errors →
      succeeded.toInt = answered calls futures ∧
        shards = (failures calls futures).map Contact.shard
  all_failed : (∃ message, result = .totalFailure message) ↔
    ∀ future ∈ futures, (calls future).answer.isNone

/-- The sum fits its type, and where some calls failed and some did not it is positive. -/
def SumTells (futures : List (Contact Sender)) : Prop :=
  (∀ future ∈ futures, (calls future).answer.isNone) ∨
    (-2 ^ 63 ≤ answered calls futures ∧ answered calls futures < 2 ^ 63 ∧
      ((∀ future ∈ futures, (calls future).answer.isSome) ∨ 0 < answered calls futures))

theorem failures_eq_nil_iff (futures : List (Contact Sender)) :
    failures calls futures = [] ↔ ∀ future ∈ futures, (calls future).answer.isSome := by
  rw [failures, List.filter_eq_nil_iff]
  refine forall₂_congr fun future _ => ?_
  cases (calls future).answer <;> simp

theorem answered_none {futures : List (Contact Sender)}
    (failed : ∀ future ∈ futures, (calls future).answer.isNone) : answered calls futures = 0 := by
  have zeros : ∀ future ∈ futures, (calls future).count = 0 := by
    intro future member
    rw [ShardCall.count, Option.isNone_iff_eq_none.mp (failed future member)]
    rfl
  rw [answered, List.map_congr_left zeros]
  simp

theorem sum_fits_iff (total : Int) :
    (Int64.ofInt total).toInt = total ↔ -2 ^ 63 ≤ total ∧ total < 2 ^ 63 := by
  constructor
  · intro same
    rw [← same]
    exact ⟨Int64.le_toInt _, Int64.toInt_lt _⟩
  · rintro ⟨above, below⟩
    exact Int64.toInt_ofInt_of_le above below

theorem not_both {futures : List (Contact Sender)} (some_there : futures ≠ [])
    (failed : ∀ future ∈ futures, (calls future).answer.isNone)
    (answers : ∀ future ∈ futures, (calls future).answer.isSome) : False := by
  obtain ⟨first, member⟩ := List.exists_mem_of_ne_nil futures some_there
  have none_there := Option.isNone_iff_eq_none.mp (failed first member)
  have answer := answers first member
  rw [none_there] at answer
  cases answer

theorem exists_failed_iff {futures : List (Contact Sender)} :
    (∃ future ∈ futures, (calls future).answer.isNone) ↔
      ¬ ∀ future ∈ futures, (calls future).answer.isSome := by
  simp

theorem exists_answered_iff {futures : List (Contact Sender)} :
    (∃ future ∈ futures, (calls future).answer.isSome) ↔
      ¬ ∀ future ∈ futures, (calls future).answer.isNone := by
  simp [Option.isSome_iff_ne_none]

section
variable {calls} {futures : List (Contact Sender)}

theorem classifies_success (some_there : futures ≠ [])
    (every : ∀ future ∈ futures, (calls future).answer.isSome) :
    Classifies calls futures (.success (Int64.ofInt (answered calls futures))) ↔
      SumTells calls futures := by
  have apart := not_both calls some_there
  constructor
  · intro classified
    obtain ⟨above, below⟩ := (sum_fits_iff _).mp (classified.success_sum _ rfl)
    exact .inr ⟨above, below, .inl every⟩
  · rintro (failed | ⟨above, below, _⟩)
    · exact (apart failed every).elim
    · constructor
      · exact ⟨fun _ => every, fun _ => ⟨_, rfl⟩⟩
      · rintro _ ⟨⟩
        exact (sum_fits_iff _).mpr ⟨above, below⟩
      · exact ⟨nofun, fun both => ((exists_failed_iff calls).mp both.1 every).elim⟩
      · exact nofun
      · exact ⟨nofun, fun failed => (apart failed every).elim⟩

theorem classifies_partialFailure
    (not_every : ¬ ∀ future ∈ futures, (calls future).answer.isSome)
    (positive : 0 < Int64.ofInt (answered calls futures)) (errors : List String) :
    Classifies calls futures (.partialFailure (Int64.ofInt (answered calls futures))
        ((failures calls futures).map Contact.shard) errors) ↔ SumTells calls futures := by
  constructor
  · intro classified
    have same := (classified.some_failed_parts _ _ _ rfl).1
    obtain ⟨above, below⟩ := (sum_fits_iff _).mp same
    rw [Int64.lt_iff_toInt_lt, same] at positive
    exact .inr ⟨above, below, .inr positive⟩
  · intro tells
    have not_all : ¬ ∀ future ∈ futures, (calls future).answer.isNone := by
      intro failed
      rw [answered_none calls failed] at positive
      exact absurd positive (by decide)
    rcases tells with failed | ⟨above, below, _⟩
    · exact absurd failed not_all
    · have both := And.intro ((exists_failed_iff calls).mpr not_every)
        ((exists_answered_iff calls).mpr not_all)
      constructor
      · exact ⟨nofun, fun every => absurd every not_every⟩
      · exact nofun
      · exact ⟨fun _ => both, fun _ => ⟨_, _, _, rfl⟩⟩
      · rintro _ _ _ ⟨⟩
        exact ⟨(sum_fits_iff _).mpr ⟨above, below⟩, rfl⟩
      · exact ⟨nofun, fun failed => absurd failed not_all⟩

theorem classifies_totalFailure
    (not_every : ¬ ∀ future ∈ futures, (calls future).answer.isSome)
    (negative : ¬ 0 < Int64.ofInt (answered calls futures)) (message : String) :
    Classifies calls futures (.totalFailure message) ↔ SumTells calls futures := by
  constructor
  · exact fun classified => .inl (classified.all_failed.mp ⟨_, rfl⟩)
  · rintro (failed | ⟨above, below, every | positive⟩)
    · constructor
      · exact ⟨nofun, fun every => absurd every not_every⟩
      · exact nofun
      · exact ⟨nofun, fun both => absurd failed ((exists_answered_iff calls).mp both.2)⟩
      · exact nofun
      · exact ⟨fun _ => failed, fun _ => ⟨_, rfl⟩⟩
    · exact absurd every not_every
    · rw [Int64.lt_iff_toInt_lt, (sum_fits_iff _).mpr ⟨above, below⟩] at negative
      exact absurd positive negative

theorem classifies_iff (some_there : futures ≠ []) :
    Classifies calls futures
        (aggregate (futures.map fun future => (future.shard, (calls future).result))) ↔
      SumTells calls futures := by
  rcases aggregate_futures calls futures with
    ⟨clean, result⟩ | ⟨some_failed, positive, errors, result⟩ | ⟨some_failed, negative, m, result⟩
  · rw [result]
    exact classifies_success some_there ((failures_eq_nil_iff calls futures).mp clean)
  · rw [result]
    exact classifies_partialFailure (mt (failures_eq_nil_iff calls futures).mpr some_failed)
      positive errors
  · rw [result]
    exact classifies_totalFailure (mt (failures_eq_nil_iff calls futures).mpr some_failed)
      negative m

end

/-- `execute_del` classifies its outcomes exactly where the sum of the answers tells the
two failures apart. -/
theorem executeDel_classifies_iff (join : JoinAll) {channels : List Sender}
    (full : channels.length = shardCount) {keys : List Key} (named : keys ≠ [])
    (order : KeyedMap.Iteration (routeKeys keys)) (ready : Nat → Nat) :
    ∃ futures result, contacts channels order.entries = some futures ∧
      executeDel join channels order calls ready = some result ∧
      (Classifies calls futures result ↔ SumTells calls futures) := by
  have built := contacts_eq full order
  have some_there : order.entries.filterMap (contact channels) ≠ [] := by
    obtain ⟨key, member⟩ := List.exists_mem_of_ne_nil keys named
    obtain ⟨group, found⟩ := KeyedMap.contains_iff.mp (mem_routeKeys.mpr ⟨key, member, rfl⟩)
    have listed := order.mem_iff.mpr found
    obtain ⟨_, made⟩ := contact_some full order listed
    exact List.ne_nil_of_mem (List.mem_filterMap.mpr ⟨_, listed, made⟩)
  exact ⟨_, _, built, executeDel_eq join built calls ready, classifies_iff some_there⟩

end

def zeroAndTimeout (future : Contact Unit) : ShardCall :=
  if future.shard = routeKey (utf8 "a") then ⟨.accepted, .response (.integer 0), nofun⟩
  else ⟨.accepted, .elapsed, nofun⟩

def twoKeys : List Key := [utf8 "a", utf8 "b"]

def listed : KeyedMap.Iteration (routeKeys twoKeys) := ⟨_, .refl _⟩

def reversed : KeyedMap.Iteration (routeKeys twoKeys) := ⟨_, List.reverse_perm _⟩

theorem del_agrees_failed :
    ∃ reply result,
      processMultiKeyDel .places (List.replicate shardCount ()) listed zeroAndTimeout id =
        some reply ∧
      executeDel .places (List.replicate shardCount ()) reversed zeroAndTimeout (1 - ·) =
        some result ∧
      ((∃ n, reply = .integer n ∧ result.toResponse = .integer n) ∨
        ((∃ e, reply = .error e) ∧ ∃ e, result.toResponse = .error e)) := by
  refine del_agrees zeroAndTimeout .places List.length_replicate listed reversed ?_ id (1 - ·)
  intro future response got
  unfold zeroAndTimeout at got
  split at got
  · cases got
    exact .inl ⟨0, rfl⟩
  · cases got

theorem zeroAndTimeout_classifies_iff :
    ∃ futures result, contacts (List.replicate shardCount ()) listed.entries = some futures ∧
      executeDel .places (List.replicate shardCount ()) listed zeroAndTimeout id = some result ∧
      (Classifies zeroAndTimeout futures result ↔ SumTells zeroAndTimeout futures) :=
  executeDel_classifies_iff zeroAndTimeout .places List.length_replicate
    (List.cons_ne_nil _ _) listed id

/-- An answer of zero beside a timeout is taken for a failure of all shards. -/
theorem zero_taken_for_failure :
    ∃ futures result, contacts (List.replicate shardCount ()) listed.entries = some futures ∧
      executeDel .places (List.replicate shardCount ()) listed zeroAndTimeout id = some result ∧
      ¬ Classifies zeroAndTimeout futures result := by
  let asked (name : String) : Contact Unit := ⟨routeKey (utf8 name), (), .del [utf8 name]⟩
  have built : contacts (List.replicate shardCount ()) listed.entries =
      some [asked "b", asked "a"] := by decide +kernel
  have failed : executeDel .places (List.replicate shardCount ()) listed zeroAndTimeout id =
      some (.totalFailure "Shard 36: Shard response timeout") := by
    rw [executeDel_eq .places built]
    decide +kernel
  refine ⟨_, _, built, failed, fun classified => ?_⟩
  have every := classified.all_failed.mp ⟨_, rfl⟩
  have answer : (zeroAndTimeout (asked "a")).answer = some 0 := by decide +kernel
  have none_there := every (asked "a") (by simp)
  rw [answer] at none_there
  cases none_there

end RsDragonfly
