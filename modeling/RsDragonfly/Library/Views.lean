import RsDragonfly.Library.Transition

/-! Two runs of one system that show the same.
An observer sees some of the steps. If the steps it does not see keep two runs
related, and equal steps that it sees do so as well, then two runs that show it
the same are related. -/
namespace Library

universe u v w

/-- The conditions on single steps. `Good` is what both runs are known to be. -/
structure Unwinding {S : Type u} {L : Type v} {V : Type w} (sys : System S L) (seen : L → Option V)
    (Good : List (S × L) → Prop) (R : List (S × L) → S → List (S × L) → S → Prop) : Prop where
  initial : ∀ s₁ s₂, sys.start s₁ → sys.start s₂ → R [] s₁ [] s₂
  symm : ∀ past₁ s₁ past₂ s₂, R past₁ s₁ past₂ s₂ → R past₂ s₂ past₁ s₁
  tail : ∀ x past, Good (x :: past) → Good past
  unseen : ∀ past₁ s₁ past₂ s₂ l s₁', R past₁ s₁ past₂ s₂ → Good ((s₁, l) :: past₁) →
    sys.step s₁ l s₁' → seen l = none → R ((s₁, l) :: past₁) s₁' past₂ s₂
  both : ∀ past₁ s₁ past₂ s₂ l₁ s₁' l₂ s₂' v, R past₁ s₁ past₂ s₂ → Good ((s₁, l₁) :: past₁) →
    Good ((s₂, l₂) :: past₂) → sys.step s₁ l₁ s₁' → sys.step s₂ l₂ s₂' →
    seen l₁ = some v → seen l₂ = some v → R ((s₁, l₁) :: past₁) s₁' ((s₂, l₂) :: past₂) s₂'

namespace Unwinding

variable {S : Type u} {L : Type v} {V : Type w} {sys : System S L} {seen : L → Option V}
  {Good : List (S × L) → Prop} {R : List (S × L) → S → List (S × L) → S → Prop}

/-- What the observer sees of a run, newest first. -/
def view (seen : L → Option V) (past : List (S × L)) : List V := past.filterMap fun x => seen x.2

/-- A run that shows nothing is related to one that has not begun. -/
theorem nothing (h : Unwinding sys seen Good R) {past : List (S × L)} {s s₀ : S}
    (run : sys.Run past s) (good : Good past) (blank : view seen past = []) (first : sys.start s₀) :
    R past s [] s₀ := by
  induction run with
  | start begun => exact h.initial _ _ begun first
  | @step past s s' l before hs ih =>
    unfold view at blank
    rw [List.filterMap_cons] at blank
    cases shown : seen l with
    | none =>
      rw [shown] at blank
      exact h.unseen _ _ _ _ _ _ (ih (h.tail _ _ good) blank) good hs shown
    | some v =>
      rw [shown] at blank
      cases blank

theorem related (h : Unwinding sys seen Good R) {past₁ past₂ : List (S × L)} {s₁ s₂ : S}
    (run₁ : sys.Run past₁ s₁) (run₂ : sys.Run past₂ s₂) (good₁ : Good past₁) (good₂ : Good past₂)
    (same : view seen past₁ = view seen past₂) : R past₁ s₁ past₂ s₂ := by
  induction run₁ generalizing past₂ s₂ with
  | start first => exact h.symm _ _ _ _ (h.nothing run₂ good₂ same.symm first)
  | @step past₁ s₁ s₁' l₁ before₁ hs₁ ih₁ =>
    cases shown₁ : seen l₁ with
    | none =>
      have still : view seen past₁ = view seen past₂ := by
        rw [← same, view, view, List.filterMap_cons, shown₁]
      exact h.unseen _ _ _ _ _ _ (ih₁ run₂ (h.tail _ _ good₁) good₂ still) good₁ hs₁ shown₁
    | some v =>
      induction run₂ with
      | start _ =>
        rw [view, List.filterMap_cons, shown₁] at same
        cases same
      | @step past₂ s₂ s₂' l₂ before₂ hs₂ ih₂ =>
        cases shown₂ : seen l₂ with
        | none =>
          have still : view seen ((s₁, l₁) :: past₁) = view seen past₂ := by
            rw [same, view, view, List.filterMap_cons, shown₂]
          have earlier := h.symm _ _ _ _ (ih₂ (h.tail _ _ good₂) still)
          exact h.symm _ _ _ _ (h.unseen _ _ _ _ _ _ earlier good₂ hs₂ shown₂)
        | some v' =>
          rw [view, view, List.filterMap_cons, List.filterMap_cons, shown₁, shown₂] at same
          obtain ⟨here, rest⟩ := List.cons.inj same
          have earlier := ih₁ before₂ (h.tail _ _ good₁) (h.tail _ _ good₂) rest
          exact h.both _ _ _ _ _ _ _ _ v earlier good₁ good₂ hs₁ hs₂ shown₁ (here ▸ shown₂)

end Unwinding

end Library
