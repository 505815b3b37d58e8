import Mathlib.Data.List.Sort
import Mathlib.Data.Multiset.AddSub

/-! Priority queues, known only by what they promise.
A queue hands out a greatest element of what was put in. Which one of several
equally great elements comes first is left to the instance, so a result proved
for every instance holds for every tie-break an implementation may have. -/
namespace Library

universe u v

class MaxQueue (Q : Type u) (α : outParam (Type v)) [LE α] where
  items : Q → Multiset α
  empty : Q
  push : Q → α → Q
  peek : Q → Option α
  pop : Q → Option (α × Q)
  items_empty : items empty = 0
  items_push (q : Q) (a : α) : items (push q a) = a ::ₘ items q
  peek_none (q : Q) : peek q = none → items q = 0
  peek_some (q : Q) (a : α) : peek q = some a → a ∈ items q ∧ ∀ b ∈ items q, b ≤ a
  pop_none (q : Q) : pop q = none → items q = 0
  pop_some (q rest : Q) (a : α) : pop q = some (a, rest) →
    items q = a ::ₘ items rest ∧ ∀ b ∈ items q, b ≤ a

namespace MaxQueue

attribute [simp] items_empty items_push

variable {Q : Type u} {α : Type v} [LE α] [MaxQueue Q α]

theorem pop_of_peek {q : Q} {a : α} (seen : peek q = some a) :
    ∃ b rest, pop q = some (b, rest) := by
  cases hp : pop q with
  | none =>
    have absent := pop_none q hp
    have present := (peek_some q a seen).1
    rw [absent] at present
    exact absurd present (Multiset.notMem_zero a)
  | some out => exact ⟨out.1, out.2, rfl⟩

theorem pop_card {q rest : Q} {a : α} (popped : pop q = some (a, rest)) :
    Multiset.card (items q) = Multiset.card (items rest) + 1 := by
  rw [(pop_some q rest a popped).1, Multiset.card_cons]

theorem mem_of_pop {q rest : Q} {a b : α} (popped : pop q = some (a, rest)) :
    b ∈ items q ↔ b = a ∨ b ∈ items rest := by
  rw [(pop_some q rest a popped).1, Multiset.mem_cons]

/-- The first elements that a queue hands out. -/
def handsOut : Nat → Q → List α
  | 0, _ => []
  | n + 1, q =>
    match pop q with
    | none => []
    | some (a, rest) => a :: handsOut n rest

theorem handsOut_succ {q rest : Q} {a : α} (popped : pop q = some (a, rest)) (n : Nat) :
    handsOut (n + 1) q = a :: handsOut n rest := by
  rw [handsOut, popped]

end MaxQueue

/-- The simplest instance: a list kept in descending order. -/
structure SortedQueue (α : Type u) [LE α] where
  list : List α
  sorted : list.Pairwise (· ≥ ·)

namespace SortedQueue

theorem head_greatest {α : Type u} [LE α] [@Std.Total α (· ≥ ·)] {a : α} {rest : List α}
    (sorted : (a :: rest).Pairwise (· ≥ ·)) : ∀ b ∈ a :: rest, b ≤ a := by
  intro b hb
  rcases List.mem_cons.mp hb with hb | hb
  · rw [hb]
    have total : a ≥ a ∨ a ≥ a := Std.Total.total a a
    exact total.elim id id
  · exact List.rel_of_pairwise_cons sorted hb

variable {α : Type u} [LE α] [DecidableLE α] [@Std.Total α (· ≥ ·)] [IsTrans α (· ≥ ·)]

def push (q : SortedQueue α) (a : α) : SortedQueue α :=
  ⟨q.list.orderedInsert (· ≥ ·) a, q.sorted.orderedInsert a q.list⟩

def pop (q : SortedQueue α) : Option (α × SortedQueue α) :=
  match q with
  | ⟨[], _⟩ => none
  | ⟨a :: rest, sorted⟩ => some (a, ⟨rest, sorted.of_cons⟩)

instance : MaxQueue (SortedQueue α) α where
  items q := q.list
  empty := ⟨[], .nil⟩
  push := push
  peek q := q.list.head?
  pop := pop
  items_empty := rfl
  items_push q a := Multiset.coe_eq_coe.mpr (q.list.perm_orderedInsert (· ≥ ·) a)
  peek_none q h := by simpa using h
  peek_some q a h := by
    obtain ⟨list, sorted⟩ := q
    cases list with
    | nil => simp at h
    | cons b rest =>
      cases Option.some.inj h
      exact ⟨List.mem_cons_self, head_greatest sorted⟩
  pop_none q h := by
    obtain ⟨list, sorted⟩ := q
    cases list with
    | nil => rfl
    | cons b rest => simp [pop] at h
  pop_some q rest a h := by
    obtain ⟨list, sorted⟩ := q
    cases list with
    | nil => simp [pop] at h
    | cons b tail =>
      cases Option.some.inj h
      exact ⟨rfl, head_greatest sorted⟩

end SortedQueue

end Library
