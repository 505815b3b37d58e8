import Mathlib.Init

/-! Readers that consume a list from the front and may fail.
`Reads` says that a reader accepts exactly the given tokens, whatever follows
them; it composes along `do` blocks, so a reader is checked against a writer
part by part. -/
namespace Library

universe u

abbrev Reader (τ ε α : Type u) := StateT (List τ) (Except ε) α

namespace Reader

variable {τ ε α β : Type u}

/-- The next `n` tokens, all or none. -/
def exact (short : ε) (n : Nat) : Reader τ ε (List τ) := fun rest =>
  if n ≤ rest.length then .ok (rest.take n, rest.drop n) else .error short

def Reads (r : Reader τ ε α) (tokens : List τ) (x : α) : Prop :=
  ∀ rest, r (tokens ++ rest) = .ok (x, rest)

theorem Reads.pure (x : α) : Reads (Pure.pure x : Reader τ ε α) [] x := fun _ => rfl

theorem Reads.bind {r : Reader τ ε α} {f : α → Reader τ ε β} {first second : List τ} {x : α} {y : β}
    (hr : Reads r first x) (hf : Reads (f x) second y) : Reads (r >>= f) (first ++ second) y := by
  intro rest
  have step : (r >>= f) (first ++ second ++ rest) = f x (second ++ rest) := by
    change (r (first ++ second ++ rest) >>= fun out => f out.1 out.2) = _
    rw [List.append_assoc, hr]
    rfl
  rw [step, hf]

/-- A last step that only computes. -/
theorem Reads.map {r : Reader τ ε α} {tokens : List τ} {x : α} (hr : Reads r tokens x) (f : α → β) :
    Reads (r >>= fun a => Pure.pure (f a)) tokens (f x) := by
  have h := hr.bind (f := fun a => (Pure.pure (f a) : Reader τ ε β)) (.pure (f x))
  rwa [List.append_nil] at h

theorem reads_exact (short : ε) (tokens : List τ) :
    Reads (exact short tokens.length) tokens tokens := by
  intro rest
  have enough : tokens.length ≤ (tokens ++ rest).length := by simp
  rw [exact, if_pos enough, List.take_left, List.drop_left]

/-- The same reader a number of times. -/
def many (r : Reader τ ε α) : Nat → Reader τ ε (List α)
  | 0 => pure []
  | n + 1 => do
    let x ← r
    let xs ← many r n
    return x :: xs

theorem many_succ_ok_iff {r : Reader τ ε α} {n : Nat} {tokens left : List τ} {xs : List α} :
    many r (n + 1) tokens = .ok (xs, left) ↔
      ∃ x rest ys, r tokens = .ok (x, rest) ∧ many r n rest = .ok (ys, left) ∧ xs = x :: ys := by
  have unfolded : many r (n + 1) tokens = (r tokens).bind fun out =>
      (many r n out.2).bind fun next => .ok (out.1 :: next.1, next.2) := rfl
  rw [unfolded]
  constructor
  · intro accepted
    cases first : r tokens with
    | error e =>
      rw [first] at accepted
      cases accepted
    | ok out =>
      rw [first] at accepted
      cases later : many r n out.2 with
      | error e =>
        simp only [Except.bind, later] at accepted
        cases accepted
      | ok next =>
        simp only [Except.bind, later] at accepted
        cases accepted
        exact ⟨out.1, out.2, next.1, rfl, later, rfl⟩
  · rintro ⟨x, rest, ys, first, later, rfl⟩
    simp only [first, Except.bind, later]

/-- Items written one after the other are read back as a list. -/
theorem Reads.many {r : Reader τ ε α} {write : β → List τ} {item : β → α} (xs : List β)
    (each : ∀ x ∈ xs, Reads r (write x) (item x)) :
    Reads (many r xs.length) (xs.flatMap write) (xs.map item) := by
  induction xs with
  | nil => exact .pure []
  | cons x xs ih =>
    intro rest
    have first := each x List.mem_cons_self (xs.flatMap write ++ rest)
    have later := ih (fun y member => each y (List.mem_cons_of_mem _ member)) rest
    rw [List.flatMap_cons, List.append_assoc]
    exact many_succ_ok_iff.mpr ⟨_, _, _, first, later, rfl⟩

/-- Every successful read takes at least `size` tokens. -/
def Consumes (r : Reader τ ε α) (size : Nat) : Prop :=
  ∀ tokens x left, r tokens = .ok (x, left) → left.length + size ≤ tokens.length

theorem Consumes.pure (x : α) : Consumes (Pure.pure x : Reader τ ε α) 0 := by
  intro tokens y left accepted
  cases accepted
  exact Nat.le_refl _

theorem Consumes.weaken {r : Reader τ ε α} {size less : Nat} (h : Consumes r size)
    (order : less ≤ size) : Consumes r less := by
  intro tokens x left accepted
  have taken := h tokens x left accepted
  omega

theorem Consumes.bind {r : Reader τ ε α} {f : α → Reader τ ε β} {first second : Nat}
    (hr : Consumes r first) (hf : ∀ x, Consumes (f x) second) :
    Consumes (r >>= f) (first + second) := by
  intro tokens y left accepted
  change (r tokens >>= fun out => f out.1 out.2) = _ at accepted
  cases hout : r tokens with
  | error e =>
    rw [hout] at accepted
    cases accepted
  | ok out =>
    rw [hout] at accepted
    have taken := hr tokens out.1 out.2 hout
    have more := hf out.1 out.2 y left accepted
    omega

theorem consumes_exact (short : ε) (n : Nat) : Consumes (exact short n : Reader τ ε _) n := by
  intro tokens x left accepted
  unfold exact at accepted
  split at accepted
  · cases accepted
    rw [List.length_drop]
    omega
  · cases accepted

end Reader

end Library
