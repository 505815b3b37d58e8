/-! Bounded channels with one receiver.
A channel knows how many of its senders are alive, so that the receiver can tell
an empty channel from a closed one. -/
namespace Library

universe u

structure Channel (T : Type u) where
  capacity : Nat
  /-- Oldest first. -/
  queue : List T
  within : queue.length ≤ capacity
  senders : Nat
  receiving : Bool

inductive TrySendError (T : Type u) where
  | full (message : T)
  | closed (message : T)

namespace Channel

variable {T : Type u}

def new (capacity : Nat) : Channel T := ⟨capacity, [], Nat.zero_le _, 1, true⟩

/-- A send that does not wait. -/
def trySend (c : Channel T) (message : T) : Except (TrySendError T) (Channel T) :=
  if c.receiving = false then .error (.closed message)
  else if room : c.queue.length < c.capacity then
    .ok { c with
      queue := c.queue ++ [message]
      within := by rw [List.length_append]; exact room }
  else .error (.full message)

/-- A receive that is ready: the oldest message, or `none` once the channel is
closed. No result: the receiver waits. -/
def recv (c : Channel T) : Option (Option T × Channel T) :=
  match hq : c.queue with
  | message :: rest =>
    some (some message, { c with
      queue := rest
      within := by
        have within := c.within
        rw [hq] at within
        exact Nat.le_of_succ_le within })
  | [] => if c.senders = 0 then some (none, c) else none

def dropSender (c : Channel T) : Channel T := { c with senders := c.senders - 1 }

def dropReceiver (c : Channel T) : Channel T := { c with receiving := false }

/-- The receiver is dropped, and with it what it has not received. -/
def abandon (c : Channel T) : Channel T :=
  { c with
    queue := []
    within := Nat.zero_le _
    receiving := false }

theorem trySend_room {c : Channel T} (message : T) (receiving : c.receiving = true)
    (room : c.queue.length < c.capacity) :
    ∃ sent, c.trySend message = .ok sent ∧ sent.queue = c.queue ++ [message] ∧
      sent.capacity = c.capacity ∧ sent.senders = c.senders ∧ sent.receiving = c.receiving := by
  unfold trySend
  rw [if_neg (by simp [receiving]), dif_pos room]
  exact ⟨_, rfl, rfl, rfl, rfl, rfl⟩

theorem trySend_full {c : Channel T} (message : T) (receiving : c.receiving = true)
    (full : c.capacity ≤ c.queue.length) : c.trySend message = .error (.full message) := by
  unfold trySend
  rw [if_neg (by simp [receiving]), dif_neg (Nat.not_lt.mpr full)]

theorem trySend_ok {c sent : Channel T} {message : T} (h : c.trySend message = .ok sent) :
    c.receiving = true ∧ c.queue.length < c.capacity ∧ sent.queue = c.queue ++ [message] ∧
      sent.capacity = c.capacity ∧ sent.senders = c.senders ∧ sent.receiving = c.receiving := by
  unfold trySend at h
  split at h
  · cases h
  · rename_i receiving
    split at h
    · rename_i room
      cases h
      exact ⟨by simpa using receiving, room, rfl, rfl, rfl, rfl⟩
    · cases h

theorem trySend_closed {c : Channel T} {message returned : T}
    (h : c.trySend message = .error (.closed returned)) : c.receiving = false := by
  unfold trySend at h
  split at h
  · assumption
  · split at h <;> cases h

theorem recv_message {c c' : Channel T} {message : T} (h : c.recv = some (some message, c')) :
    c.queue = message :: c'.queue ∧ c'.capacity = c.capacity ∧ c'.senders = c.senders ∧
      c'.receiving = c.receiving := by
  unfold recv at h
  split at h
  · rename_i first rest hq
    cases h
    exact ⟨hq, rfl, rfl, rfl⟩
  · split at h <;> cases h

theorem recv_closed {c c' : Channel T} (h : c.recv = some (none, c')) :
    c' = c ∧ c.queue = [] ∧ c.senders = 0 := by
  unfold recv at h
  split at h
  · cases h
  · rename_i empty
    split at h
    · rename_i closed
      cases h
      exact ⟨rfl, empty, closed⟩
    · cases h

theorem recv_isSome {c : Channel T} {message : T} {rest : List T} (hq : c.queue = message :: rest) :
    ∃ c', c.recv = some (some message, c') ∧ c'.queue = rest := by
  obtain ⟨capacity, queue, within, senders, receiving⟩ := c
  cases hq
  exact ⟨_, rfl, rfl⟩

end Channel

end Library
