import Mathlib.Order.Lattice
import RsDragonfly.Library.Transition

/-! One place of a store whose contents may carry a deadline.
Contents whose deadline has passed are dead. They may stay where they are until
some idle step drops them: a read, or a sweep. The history of a cell is the list
of what was done to it, newest first. -/
namespace Library

universe u v

structure Dated (V : Type u) (T : Type v) where
  value : V
  deadline : Option T
deriving DecidableEq

namespace Cell

inductive Op (V : Type u) (T : Type v) where
  | write (v : V) (deadline : Option T)
  | delete
  | redate (deadline : T)
  | idle

section
variable {V : Type u} {T : Type v} [LinearOrder T]

def Dead (now : T) (x : Dated V T) : Prop := ∃ d, x.deadline = some d ∧ d ≤ now

/-- The contents with dead ones taken for absent. -/
def live (now : T) (c : Option (Dated V T)) : Option (Dated V T) :=
  c.filter (fun x => x.deadline.all (fun d => decide (now < d)))

/-- What is stored may be replaced by nothing once it is dead. -/
def Dropped (now : T) (c c' : Option (Dated V T)) : Prop :=
  c' = c ∨ (c' = none ∧ ∃ x, c = some x ∧ Dead now x)

inductive Step : Option (Dated V T) → T × Op V T → Option (Dated V T) → Prop where
  | write {c : Option (Dated V T)} {t : T} {v : V} {d : Option T} :
      Step c (t, .write v d) (some ⟨v, d⟩)
  | delete {c : Option (Dated V T)} {t : T} : Step c (t, .delete) none
  | redate {t : T} {x : Dated V T} {d : T} :
      Step (some x) (t, .redate d) (some ⟨x.value, some d⟩)
  | idle {c c' : Option (Dated V T)} {t : T} : Dropped t c c' → Step c (t, .idle) c'

variable (V T) in
def system : System (Option (Dated V T)) (T × Op V T) where
  start c := c = none
  step := Step

/-- The deadline set by the last write, or by a later change of it. -/
def inForce : List (T × Op V T) → Option T
  | [] => none
  | (_, .write _ d) :: _ => d
  | (_, .redate d) :: _ => some d
  | _ :: earlier => inForce earlier

/-- The value of the last write, unless a deletion came after it. -/
def written : List (T × Op V T) → Option V
  | [] => none
  | (_, .write v _) :: _ => some v
  | (_, .delete) :: _ => none
  | _ :: earlier => written earlier

/-- At every reading of the clock since the last write, up to `now`, the
deadline in force was absent or still to come. -/
def AliveSince (now : T) : List (T × Op V T) → Prop
  | [] => True
  | (t, op) :: earlier =>
    (∀ d, inForce ((t, op) :: earlier) = some d → now < d) ∧
    match op with
    | .write _ _ => True
    | _ => AliveSince t earlier

/-- Nothing is stored, or something dead. -/
def Gone (now : T) (c : Option (Dated V T)) : Prop := ∀ x, c = some x → Dead now x

theorem dead_mono {now later : T} {x : Dated V T} (order : now ≤ later) (h : Dead now x) :
    Dead later x := by
  obtain ⟨d, hd, passed⟩ := h
  exact ⟨d, hd, le_trans passed order⟩

theorem gone_mono {now later : T} {c : Option (Dated V T)} (order : now ≤ later)
    (h : Gone now c) : Gone later c :=
  fun x hx => dead_mono order (h x hx)

theorem live_eq_some {now : T} {c : Option (Dated V T)} {x : Dated V T} :
    live now c = some x ↔ c = some x ∧ ∀ d, x.deadline = some d → now < d := by
  simp [live, Option.filter_eq_some_iff, Option.all_eq_true]

theorem not_dead {now : T} {x : Dated V T} :
    ¬ Dead now x ↔ ∀ d, x.deadline = some d → now < d := by
  simp [Dead]

theorem live_eq_none {now : T} {c : Option (Dated V T)} : live now c = none ↔ Gone now c := by
  constructor
  · intro absent x hx
    by_contra alive
    rw [live_eq_some.mpr ⟨hx, not_dead.mp alive⟩] at absent
    cases absent
  · intro gone
    cases h : live now c with
    | none => rfl
    | some x =>
      obtain ⟨stored, alive⟩ := live_eq_some.mp h
      exact absurd (gone x stored) (not_dead.mpr alive)

/-- What is alive later was alive before: readings of one state only lose contents. -/
theorem live_later {now later : T} (order : now ≤ later) {a b : Option (Dated V T)}
    (same : live now a = live now b) : live later a = live later b := by
  have one {c c' : Option (Dated V T)} (h : live now c = live now c') {x : Dated V T}
      (hx : live later c = some x) : live later c' = some x := by
    obtain ⟨stored, alive⟩ := live_eq_some.mp hx
    have before : live now c = some x :=
      live_eq_some.mpr ⟨stored, fun d hd => lt_of_le_of_lt order (alive d hd)⟩
    rw [h] at before
    exact live_eq_some.mpr ⟨(live_eq_some.mp before).1, alive⟩
  cases ha : live later a with
  | some x => exact (one same ha).symm
  | none =>
    cases hb : live later b with
    | none => rfl
    | some x => rw [one same.symm hb] at ha; cases ha

theorem idle_dropped {c c' : Option (Dated V T)} {t : T} (h : Step c (t, .idle) c') :
    Dropped t c c' := by
  cases h with
  | idle dropped => exact dropped

theorem dropped_live {now : T} {c c' : Option (Dated V T)} (h : Dropped now c c') :
    live now c' = live now c := by
  rcases h with same | ⟨gone, x, stored, dead⟩
  · rw [same]
  · have absent : live now c = none := by
      rw [live_eq_none, stored]
      intro y hy
      cases hy
      exact dead
    rw [absent, gone]
    rfl

/-- What is stored is what the history wrote last. -/
theorem record {past : List (Option (Dated V T) × T × Op V T)} {c : Option (Dated V T)}
    (run : (system V T).Run past c) :
    ∀ x, c = some x → written (past.map Prod.snd) = some x.value ∧
      inForce (past.map Prod.snd) = x.deadline := by
  induction run with
  | start h => intro x hx; rw [h] at hx; cases hx
  | step before hs ih =>
    intro x hx
    cases hs with
    | write => cases hx; exact ⟨rfl, rfl⟩
    | delete => cases hx
    | redate => cases hx; exact ⟨(ih _ rfl).1, rfl⟩
    | idle dropped =>
      rcases dropped with same | ⟨gone, _⟩
      · exact ih x (same ▸ hx)
      · rw [gone] at hx; cases hx

theorem alive_now {now : T} {history : List (T × Op V T)} (alive : AliveSince now history)
    {d : T} (hd : inForce history = some d) : now < d := by
  cases history with
  | nil => cases hd
  | cons _ _ => exact alive.1 d hd

/-- What was written last and stayed alive is still stored. -/
theorem kept {past : List (Option (Dated V T) × T × Op V T)} {c : Option (Dated V T)}
    (run : (system V T).Run past c) :
    ∀ v now, written (past.map Prod.snd) = some v → AliveSince now (past.map Prod.snd) →
      c = some ⟨v, inForce (past.map Prod.snd)⟩ := by
  induction run with
  | start h => intro v now hv; cases hv
  | @step past c c' l before hs ih =>
    intro v now hv alive
    cases hs with
    | write => cases hv; rfl
    | delete => cases hv
    | redate => cases ih v _ hv alive.2; rfl
    | idle dropped =>
      have stored := ih v _ hv alive.2
      rcases dropped with same | ⟨_, x, hx, d, hd, passed⟩
      · exact same.trans stored
      · -- a dropped value was dead at this reading, which `AliveSince` excludes
        rw [stored] at hx
        cases hx
        exact absurd (alive_now alive.2 hd) (not_lt.mpr passed)

/-- Without a write, and without a new deadline for dead contents, what is gone stays gone. -/
theorem gone_step {c c' : Option (Dated V T)} {t : T} {op : Op V T} (hs : Step c (t, op) c')
    (gone : Gone t c) (no_write : ∀ v d, op ≠ .write v d)
    (no_revival : ∀ d, op = .redate d → ∀ x, c = some x → ¬ Dead t x) : Gone t c' := by
  cases hs with
  | write => exact absurd rfl (no_write _ _)
  | delete => intro x hx; cases hx
  | redate => exact absurd (gone _ rfl) (no_revival _ rfl _ rfl)
  | idle dropped =>
    rcases dropped with same | ⟨none_left, _⟩
    · rw [same]; exact gone
    · intro x hx; rw [none_left] at hx; cases hx

/-- Two cells with equal live contents keep them equal under the same operation,
as long as deadlines are only changed on live contents. -/
theorem live_step {a a' b b' : Option (Dated V T)} {t : T} {op : Op V T}
    (ha : Step a (t, op) a') (hb : Step b (t, op) b') (same : live t a = live t b)
    (no_revival : ∀ d, op = .redate d → ∀ x, a = some x → ¬ Dead t x) :
    live t a' = live t b' := by
  cases ha with
  | write => cases hb; rfl
  | delete => cases hb; rfl
  | @redate _ x d =>
    cases hb with
    | @redate _ y d =>
      have alive : live t (some x) = some x :=
        live_eq_some.mpr ⟨rfl, not_dead.mp (no_revival d rfl x rfl)⟩
      rw [alive] at same
      cases (live_eq_some.mp same.symm).1
      rfl
  | idle da =>
    cases hb with
    | idle db => rw [dropped_live da, dropped_live db, same]

end

end Cell

end Library
