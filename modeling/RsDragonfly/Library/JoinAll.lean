import Mathlib.Data.List.Induction
import Mathlib.Data.List.ReduceOption

/-! Waiting for several futures, known only by what it promises.
The outputs come in the order of the futures, whenever each of them is ready. -/
namespace Library

/-- `run outputs ready` waits for futures with these outputs; the `i`-th is ready at `ready i`. -/
structure JoinAll where
  run {α : Type} : List α → (Nat → Nat) → List α
  in_order {α : Type} (outputs : List α) (ready : Nat → Nat) : run outputs ready = outputs

namespace JoinAll

/-- Each future that ends puts its output in its own place. -/
def fill {α : Type} (outputs : List α) (ended : List Nat) : List (Option α) :=
  ended.foldl (fun places i => places.set i outputs[i]?) (List.replicate outputs.length none)

theorem fill_concat {α : Type} (outputs : List α) (ended : List Nat) (i : Nat) :
    fill outputs (ended ++ [i]) = (fill outputs ended).set i outputs[i]? := by
  rw [fill, List.foldl_append]
  rfl

theorem length_fill {α : Type} (outputs : List α) (ended : List Nat) :
    (fill outputs ended).length = outputs.length := by
  induction ended using List.reverseRecOn with
  | nil => rw [fill, List.foldl_nil, List.length_replicate]
  | append_singleton ended i ih => rw [fill_concat, List.length_set, ih]

theorem getElem?_fill {α : Type} {outputs : List α} {ended : List Nat} {i : Nat}
    (inside : i < outputs.length) (done : i ∈ ended) :
    (fill outputs ended)[i]? = some outputs[i]? := by
  induction ended using List.reverseRecOn with
  | nil => cases done
  | append_singleton ended last ih =>
    rw [fill_concat]
    by_cases same : last = i
    · rw [same, List.getElem?_set_self (by rwa [length_fill])]
    · have earlier : i ∈ ended := by
        rcases List.mem_append.mp done with earlier | here
        · exact earlier
        · exact absurd (List.mem_singleton.mp here).symm same
      rw [List.getElem?_set_ne same, ih earlier]

/-- The outputs are complete once every future has ended, in whatever order. -/
theorem fill_all {α : Type} (outputs : List α) (ended : List Nat)
    (all : ∀ i < outputs.length, i ∈ ended) : fill outputs ended = outputs.map some := by
  apply List.ext_getElem?
  intro i
  by_cases inside : i < outputs.length
  · rw [getElem?_fill inside (all i inside), List.getElem?_map, List.getElem?_eq_getElem inside]
    rfl
  · rw [List.getElem?_eq_none, List.getElem?_eq_none]
    · rw [List.length_map]
      exact Nat.not_lt.mp inside
    · rw [length_fill]
      exact Nat.not_lt.mp inside

/-- The places are filled as the futures end. -/
def places : JoinAll where
  run outputs ready :=
    (fill outputs ((List.range outputs.length).mergeSort fun i j => ready i ≤ ready j)).reduceOption
  in_order outputs ready := by
    rw [fill_all]
    · rw [List.reduceOption, List.filterMap_map]
      exact List.filterMap_some
    · intro i inside
      rw [List.mem_mergeSort]
      exact List.mem_range.mpr inside

end JoinAll

end Library
