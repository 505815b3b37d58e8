import Mathlib.Data.List.Nodup

/-! Linearizable histories of concurrent operations.
A history is a list of steps, newest first. Some of its steps call operations, some
return from one. Operations that have not returned may have taken effect or not. -/
namespace Library

universe u v w x

/-- What can be seen of operations with names in `Op`, arguments in `C` and results in `R`. -/
structure Interface (L : Type u) (Op : Type v) (C : Type w) (R : Type x) where
  call : L → Op → C → Prop
  ret : L → Op → R → Prop

namespace Interface

variable {L : Type u} {Op : Type v} {C : Type w} {R : Type x}

/-- An order of operations, newest first, that explains what can be seen: it is legal for
one after the other, keeps the results that were returned, and puts an operation that
returned before another was called before it. -/
structure Linearizes (seen : Interface L Op C R) (spec : List (Op × C × R) → Prop)
    (history : List L) (order : List (Op × C × R)) : Prop where
  legal : spec order
  unique : (order.map Prod.fst).Nodup
  called : ∀ op c r, (op, c, r) ∈ order → ∃ x ∈ history, seen.call x op c
  returned : ∀ x ∈ history, ∀ op r, seen.ret x op r → ∃ c, (op, c, r) ∈ order
  realTime : ∀ later y earlier, history = later ++ y :: earlier →
    ∀ x ∈ earlier, ∀ a r b c, seen.ret x a r → seen.call y b c →
      b ∈ order.map Prod.fst → [b, a].Sublist (order.map Prod.fst)

/-- Steps at which operations take effect: each between the call and the return of its
operation, and with the result that is returned. -/
structure Points (seen : Interface L Op C R) (effect : L → Option (Op × C × R))
    (history : List L) : Prop where
  unique : ((history.filterMap effect).map Prod.fst).Nodup
  called : ∀ op c r, (op, c, r) ∈ history.filterMap effect → ∃ x ∈ history, seen.call x op c
  fresh : ∀ later y earlier, history = later ++ y :: earlier → ∀ op c, seen.call y op c →
    op ∉ ((y :: earlier).filterMap effect).map Prod.fst
  returned : ∀ later y earlier, history = later ++ y :: earlier → ∀ op r, seen.ret y op r →
    ∃ c, (op, c, r) ∈ earlier.filterMap effect

theorem filterMap_grows {effect : L → Option (Op × C × R)} {e : Op × C × R} (before : List L)
    {after : List L} (member : e ∈ after.filterMap effect) :
    e ∈ (before ++ after).filterMap effect := by
  rw [List.filterMap_append]
  exact List.mem_append_right _ member

/-- The order in which operations take effect is a linearization. -/
theorem Points.linearizes {seen : Interface L Op C R} {effect : L → Option (Op × C × R)}
    {history : List L} (points : Points seen effect history) {spec : List (Op × C × R) → Prop}
    (legal : spec (history.filterMap effect)) :
    Linearizes seen spec history (history.filterMap effect) := by
  refine ⟨legal, points.unique, points.called, ?_, ?_⟩
  · intro x member op r ret
    obtain ⟨later, earlier, rfl⟩ := List.append_of_mem member
    obtain ⟨c, effective⟩ := points.returned later x earlier rfl op r ret
    exact ⟨c, filterMap_grows later (filterMap_grows [x] effective)⟩
  · intro later y earlier split x member a r b c ret call effective
    have fresh := points.fresh later y earlier split b c call
    obtain ⟨after, before, rfl⟩ := List.append_of_mem member
    have whole : history = (later ++ y :: after) ++ x :: before := by
      rw [split, List.append_assoc, List.cons_append]
    obtain ⟨d, earlier_one⟩ := points.returned _ x before whole a r ret
    have second : (a, d, r) ∈ (y :: (after ++ x :: before)).filterMap effect :=
      filterMap_grows (y :: after) (filterMap_grows [x] earlier_one)
    rw [split, List.filterMap_append, List.map_append] at effective ⊢
    have first := (List.mem_append.mp effective).resolve_right fresh
    apply (List.singleton_sublist.mpr first).append
    exact List.singleton_sublist.mpr (List.mem_map_of_mem (f := Prod.fst) second)

end Interface

end Library
