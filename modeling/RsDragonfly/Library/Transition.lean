/-! Labelled transition systems and their runs.
A run is recorded newest step first, each step with the state it left, so that
a history can be read off by recursion and a condition on steps can look at the
state before the step. -/
namespace Library

universe u v

structure System (S : Type u) (L : Type v) where
  start : S → Prop
  step : S → L → S → Prop

namespace System

variable {S : Type u} {L : Type v} (sys : System S L)

inductive Run : List (S × L) → S → Prop where
  | start {s : S} : sys.start s → Run [] s
  | step {past : List (S × L)} {s s' : S} {l : L} :
      Run past s → sys.step s l s' → Run ((s, l) :: past) s'

/-- What holds at the start and is kept by each step holds after every run. -/
theorem Run.invariant {sys : System S L} (P : S → Prop) (initial : ∀ s, sys.start s → P s)
    (kept : ∀ s l s', sys.step s l s' → P s → P s') {past : List (S × L)} {s : S}
    (run : sys.Run past s) : P s := by
  induction run with
  | start h => exact initial _ h
  | step _ hs ih => exact kept _ _ _ hs ih

/-- Every recorded step left a state that its own past reaches. -/
theorem Run.at {sys : System S L} {later past : List (S × L)} {x : S × L} {s : S}
    (run : sys.Run (later ++ x :: past) s) : sys.Run past x.1 ∧ ∃ s', sys.step x.1 x.2 s' := by
  induction later generalizing s with
  | nil =>
    cases run with
    | step before hs => exact ⟨before, _, hs⟩
  | cons y later ih =>
    cases run with
    | step before _ => exact ih before

/-- A run seen through a part of the state. A step outside that part leaves it alone. -/
theorem Run.project {S' : Type u} {L' : Type v} {sys : System S L} {part : System S' L'}
    {P : S × L → Prop} (f : S → S') (g : L → Option L') (initial : ∀ s, sys.start s → part.start (f s))
    (inside : ∀ past s l s', sys.Run past s → P (s, l) → sys.step s l s' →
      ∀ l', g l = some l' → part.step (f s) l' (f s'))
    (outside : ∀ s l s', P (s, l) → sys.step s l s' → g l = none → f s' = f s)
    {past : List (S × L)} {s : S} (run : sys.Run past s) (all : ∀ x ∈ past, P x) :
    part.Run (past.filterMap fun x => (g x.2).map fun l' => (f x.1, l')) (f s) := by
  induction run with
  | start first => exact .start (initial _ first)
  | @step past s s' l before hs ih =>
    obtain ⟨here, all⟩ := List.forall_mem_cons.mp all
    rw [List.filterMap_cons]
    cases seen : g l with
    | none =>
      simp only [Option.map_none]
      rw [outside s l s' here hs seen]
      exact ih all
    | some l' =>
      simp only [Option.map_some]
      exact (ih all).step (inside past s l s' before here hs l' seen)

/-- A step of a label that may have no part in this system. -/
def stepIf (s : S) : Option L → S → Prop
  | none, s' => s' = s
  | some l, s' => sys.step s l s'

section
variable {T : Type u} {M : Type v} {N : Type v}

/-- Two systems side by side. A label, where it is allowed, moves both of them, one or
neither; `joined` is what holds between them at the start. -/
def sync (left : System S L) (right : System T M) (first : N → Option L) (second : N → Option M)
    (joined : S × T → Prop) (allowed : S × T → N → Prop) : System (S × T) N where
  start x := left.start x.1 ∧ right.start x.2 ∧ joined x
  step x l x' := allowed x l ∧ left.stepIf x.1 (first l) x'.1 ∧ right.stepIf x.2 (second l) x'.2

variable {left : System S L} {right : System T M} {first : N → Option L} {second : N → Option M}
  {joined : S × T → Prop} {allowed : S × T → N → Prop} {past : List ((S × T) × N)} {x : S × T}

end

/-- The steps from one state to another, newest first. -/
inductive Path : S → List (S × L) → S → Prop where
  | refl {s : S} : Path s [] s
  | step {past : List (S × L)} {r s s' : S} {l : L} :
      Path r past s → sys.step s l s' → Path r ((s, l) :: past) s'

/-- What each step keeps holds at the end of a path. -/
theorem Path.invariant {sys : System S L} (P : S → Prop)
    (kept : ∀ s l s', sys.step s l s' → P s → P s') {past : List (S × L)} {r s : S}
    (path : sys.Path r past s) (first : P r) : P s := by
  induction path with
  | refl => exact first
  | step _ hs ih => exact kept _ _ _ hs (ih first)

theorem Path.trans {sys : System S L} {before after : List (S × L)} {r s s' : S}
    (first : sys.Path r before s) (second : sys.Path s after s') :
    sys.Path r (after ++ before) s' := by
  induction second with
  | refl => exact first
  | step _ hs ih => exact .step (ih first) hs

/-- A measure that some steps lower by up to `b`, and that no other step raises. -/
theorem Path.drained {sys : System S L} (measure : S → Nat) (b : Nat) (drains : L → Bool)
    {P : S × L → Prop} (reached : S → Prop) (kept : ∀ s l s', sys.step s l s' → reached s → reached s')
    (quiet : ∀ s l s', reached s → P (s, l) → sys.step s l s' → drains l = false →
      measure s' ≤ measure s)
    (drain : ∀ s l s', reached s → P (s, l) → sys.step s l s' → drains l = true →
      measure s' ≤ measure s - b)
    {past : List (S × L)} {r s : S} (path : sys.Path r past s) (first : reached r)
    (all : ∀ x ∈ past, P x) : measure s ≤ measure r - b * past.countP (drains ·.2) := by
  suffices both : reached s ∧ measure s ≤ measure r - b * past.countP (drains ·.2) from both.2
  induction path with
  | refl => exact ⟨first, Nat.le_refl _⟩
  | @step past r s s' l before hs ih =>
    obtain ⟨here, all⟩ := List.forall_mem_cons.mp all
    obtain ⟨there, sofar⟩ := ih first all
    refine ⟨kept _ _ _ hs there, ?_⟩
    rw [List.countP_cons]
    cases drained : drains l with
    | false =>
      have next := quiet s l s' there here hs drained
      simp only [Bool.false_eq_true, if_false, Nat.add_zero]
      exact Nat.le_trans next sofar
    | true =>
      have next := drain s l s' there here hs drained
      simp only [if_true, Nat.mul_add, Nat.mul_one]
      omega

theorem Run.split {sys : System S L} {past more : List (S × L)} {s' : S}
    (run : sys.Run (more ++ past) s') : ∃ s, sys.Run past s ∧ sys.Path s more s' := by
  induction more generalizing s' with
  | nil => exact ⟨s', run, .refl⟩
  | cons x more ih =>
    cases run with
    | step before hs =>
      obtain ⟨s, first, path⟩ := ih before
      exact ⟨s, first, path.step hs⟩

theorem Run.extend {sys : System S L} {past more : List (S × L)} {s s' : S}
    (run : sys.Run past s) (path : sys.Path s more s') : sys.Run (more ++ past) s' := by
  induction path with
  | refl => exact run
  | step _ hs ih => exact .step (ih run) hs

end System

end Library
