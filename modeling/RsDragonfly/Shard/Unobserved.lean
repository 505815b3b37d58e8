import RsDragonfly.Shard.Reads

/-! Two runs of the same commands with different sweeps.
They are compared through the live contents of every key, which a sweep leaves
alone. A command that looks at what is merely stored tells the runs apart. -/
namespace RsDragonfly
open Library

def Event.timedCommand? (e : Event) : Option (Instant × Command) :=
  match e.action with
  | .command c _ => some (e.time, c)
  | .sweep => none

def Event.response? (e : Event) : Option Response :=
  match e.action with
  | .command _ response => some response
  | .sweep => none

def timedCommands (events : List Event) : List (Instant × Command) :=
  events.filterMap Event.timedCommand?

def responses (events : List Event) : List Response := events.filterMap Event.response?

/-- GET, SET, DEL, EXPIRE and TTL. -/
def Command.isKeyed : Command → Bool
  | .ping _ | .info _ => false
  | _ => true

/-- The key-count limit or the memory limit turned a SET away. -/
def Event.reachesLimit (e : Event) : Bool :=
  match e.action with
  | .command _ response =>
    response = .error "ERR shard full" ||
      response = .error "ERR OOM command not allowed when used memory > 'maxmemory'"
  | .sweep => false

namespace Shard

section
variable {Q : Type}

/-- No key of a DEL or EXPIRE has an entry whose deadline has passed. -/
def namesOnlyLiving (x : Shard Q × Event) : Bool :=
  let living (key : Key) : Bool :=
    (x.1.data.lookup key).all (fun entry => !entry.isExpired x.2.time)
  match x.2.action with
  | .command (.del keys) _ => keys.all living
  | .command (.expire key _) _ => living key
  | _ => true

def SameLive (now : Instant) (s₁ s₂ : Shard Q) : Prop :=
  ∀ k, Cell.live now (s₁.cell k) = Cell.live now (s₂.cell k)

theorem cell_isSome (s : Shard Q) (k : Key) : (s.cell k).isSome = (s.data.lookup k).isSome := by
  simp [cell]

/-- A key with nothing dead in its place is stored exactly if it is live. -/
theorem live_of_living {s : Shard Q} {now : Instant} {k : Key}
    (living : (s.data.lookup k).all (fun entry => !entry.isExpired now) = true) :
    Cell.live now (s.cell k) = s.cell k := by
  cases found : s.data.lookup k with
  | none => simp [cell, found, Cell.live]
  | some entry =>
    have alive : ¬ entry.Dead now := by
      rw [found, Option.all_some, Bool.not_eq_true', ← Bool.not_eq_true] at living
      exact fun dead => living (Entry.isExpired_iff.mpr dead)
    have stored : s.cell k = some entry.dated := by simp [cell, found]
    rw [stored]
    exact Cell.live_eq_some.mpr ⟨rfl, Cell.not_dead.mp alive⟩

/-- A run of keyed commands and sweeps away from the limits, in which DEL and
EXPIRE name only living keys. -/
structure Quiet (past : List (Shard Q × Event)) : Prop where
  clock : NonDecreasing (past.map Prod.snd)
  keyed : ∀ c ∈ timedCommands (past.map Prod.snd), c.2.isKeyed = true
  room : ∀ x ∈ past, x.2.reachesLimit = false
  living : ∀ x ∈ past, namesOnlyLiving x = true

theorem Quiet.tail {x : Shard Q × Event} {past : List (Shard Q × Event)} (h : Quiet (x :: past)) :
    Quiet past := by
  refine ⟨(List.pairwise_cons.mp h.clock).2, fun c hc => h.keyed c ?_,
    fun y hy => h.room y (List.mem_cons_of_mem x hy),
    fun y hy => h.living y (List.mem_cons_of_mem x hy)⟩
  simp only [timedCommands, List.map_cons, List.filterMap_cons] at hc ⊢
  split
  · exact hc
  · exact List.mem_cons_of_mem _ hc

theorem Quiet.before {x : Shard Q × Event} {past : List (Shard Q × Event)} (h : Quiet (x :: past)) :
    ∀ y ∈ past, y.2.time ≤ x.2.time :=
  fun y hy => (List.pairwise_cons.mp h.clock).1 y.2 (List.mem_map_of_mem hy)

/-- Equal answers so far, and equal live contents from now on. -/
def SameView (past₁ past₂ : List (Shard Q × Event)) (s₁ s₂ : Shard Q) : Prop :=
  responses (past₁.map Prod.snd) = responses (past₂.map Prod.snd) ∧
  ∀ now, (∀ x ∈ past₁, x.2.time ≤ now) → (∀ x ∈ past₂, x.2.time ≤ now) → SameLive now s₁ s₂

theorem SameView.symm {past₁ past₂ : List (Shard Q × Event)} {s₁ s₂ : Shard Q}
    (h : SameView past₁ past₂ s₁ s₂) : SameView past₂ past₁ s₂ s₁ :=
  ⟨h.1.symm, fun now b₂ b₁ k => (h.2 now b₁ b₂ k).symm⟩

theorem delKeys_count [Layout] {s₁ s₂ : Shard Q} {keys : List Key} (n : Int64)
    (same : ∀ k ∈ keys, (s₁.data.lookup k).isSome = (s₂.data.lookup k).isSome) :
    (s₁.delKeys keys n).2 = (s₂.delKeys keys n).2 := by
  induction keys generalizing s₁ s₂ n with
  | nil => rfl
  | cons key keys ih =>
    have removed (s : Shard Q) :
        (s.removeKeyUpdateMetrics key).2 = (s.data.lookup key).isSome := by
      unfold removeKeyUpdateMetrics
      cases s.data.lookup key <;> rfl
    simp only [delKeys, removed, same key List.mem_cons_self]
    apply ih
    intro k hk
    simp only [lookup_remove]
    split
    · rfl
    · exact same k (List.mem_cons_of_mem key hk)

theorem cmdGet_same [Layout] {s₁ s₂ : Shard Q} {t : Instant} {k : Key}
    (same : Cell.live t (s₁.cell k) = Cell.live t (s₂.cell k)) :
    (s₁.cmdGet t k).2 = (s₂.cmdGet t k).2 := by
  rw [cmdGet_response, cmdGet_response, same]

theorem cmdTtl_same [Layout] {s₁ s₂ : Shard Q} {t : Instant} {k : Key}
    (same : Cell.live t (s₁.cell k) = Cell.live t (s₂.cell k)) :
    (s₁.cmdTtl t k).2 = (s₂.cmdTtl t k).2 := by
  rw [cmdTtl_response, cmdTtl_response, same]

theorem cmdExpire_response [MaxQueue Q Expiry] {s s' : Shard Q} {t : Instant} {key : Key}
    {seconds : UInt64} {r : Response} (h : s.cmdExpire t key seconds = some (s', r)) :
    r = .integer (if (s.data.lookup key).isSome then 1 else 0) := by
  rcases cmdExpire_cases h with ⟨absent, _, rfl⟩ | ⟨entry, _, found, _, _, rfl⟩
  · simp [absent]
  · simp [found]

variable [MaxQueue Q Expiry] [Layout]

/-- Away from the limits, the answer to a SET depends on its arguments only. -/
theorem cmdSet_response {s s' : Shard Q} {t : Instant} {key : Key} {value : Value}
    {ttl : Option UInt64} {r : Response} (h : s.cmdSet t key value ttl = some (s', r))
    (room : Event.reachesLimit ⟨t, .command (.set key value ttl) r⟩ = false) :
    r = if key.length > maxKeySize then .error "ERR key too large"
      else if value.sizeBytes > maxValueSize then .error "ERR value too large" else .ok := by
  unfold cmdSet at h
  split at h
  · rename_i long_key
    cases h
    rw [if_pos long_key]
  · rename_i key_fits
    rw [if_neg key_fits]
    split at h
    · rename_i long_value
      cases h
      rw [if_pos long_value]
    · rename_i value_fits
      rw [if_neg value_fits]
      split at h
      · cases h
        simp [Event.reachesLimit] at room
      · obtain ⟨_, _, h⟩ := Option.bind_eq_some_iff.mp h
        obtain ⟨_, _, h⟩ := Option.bind_eq_some_iff.mp h
        obtain ⟨_, _, h⟩ := Option.bind_eq_some_iff.mp h
        split at h
        · cases h
          simp [Event.reachesLimit] at room
        · cases h
          rfl

/-- Equal live contents give equal answers, as long as DEL and EXPIRE name only
living keys and SET is not turned away by a limit. -/
theorem same_response {s₁ s₁' s₂ s₂' : Shard Q} {t : Instant} {c : Command} {r₁ r₂ : Response}
    (h₁ : step s₁ ⟨t, .command c r₁⟩ s₁') (h₂ : step s₂ ⟨t, .command c r₂⟩ s₂')
    (same : SameLive t s₁ s₂) (keyed : c.isKeyed = true)
    (room₁ : Event.reachesLimit ⟨t, .command c r₁⟩ = false)
    (room₂ : Event.reachesLimit ⟨t, .command c r₂⟩ = false)
    (living₁ : namesOnlyLiving (s₁, ⟨t, .command c r₁⟩) = true)
    (living₂ : namesOnlyLiving (s₂, ⟨t, .command c r₂⟩) = true) : r₁ = r₂ := by
  obtain ⟨n₁, d₁, _⟩ := execute_cases h₁
  obtain ⟨n₂, d₂, _⟩ := execute_cases h₂
  have stored {k : Key}
      (l₁ : (s₁.data.lookup k).all (fun entry => !entry.isExpired t) = true)
      (l₂ : (s₂.data.lookup k).all (fun entry => !entry.isExpired t) = true) :
      (s₁.data.lookup k).isSome = (s₂.data.lookup k).isSome := by
    rw [← cell_isSome, ← cell_isSome, ← live_of_living l₁, ← live_of_living l₂, same k]
  cases c with
  | ping message => cases keyed
  | info section_ => cases keyed
  | set key value ttl => rw [cmdSet_response d₁ room₁, cmdSet_response d₂ room₂]
  | get key =>
    have answers := cmdGet_same (same key)
    rw [Option.some.inj d₁, Option.some.inj d₂] at answers
    exact answers
  | del keys =>
    cases d₁
    cases d₂
    simp only [namesOnlyLiving, List.all_eq_true] at living₁ living₂
    exact congrArg Response.integer
      (delKeys_count 0 fun k hk => stored (living₁ k hk) (living₂ k hk))
  | expire key seconds =>
    rw [cmdExpire_response d₁, cmdExpire_response d₂, stored living₁ living₂]
  | ttl key =>
    have answers := cmdTtl_same (same key)
    rw [Option.some.inj d₁, Option.some.inj d₂] at answers
    exact answers

theorem sameLive_sweep {s s' : Shard Q} {t later : Instant} (hs : step s ⟨t, .sweep⟩ s')
    (order : t ≤ later) : SameLive later s' s := by
  intro k
  have dropped := Cell.idle_dropped (cell_step hs k : Cell.Step (s.cell k) (t, .idle) (s'.cell k))
  exact Cell.live_later order (Cell.dropped_live dropped)

theorem sameLive_command {s₁ s₁' s₂ s₂' : Shard Q} {t : Instant} {c : Command} {r : Response}
    (h₁ : step s₁ ⟨t, .command c r⟩ s₁') (h₂ : step s₂ ⟨t, .command c r⟩ s₂')
    (same : SameLive t s₁ s₂) (living : namesOnlyLiving (s₁, ⟨t, .command c r⟩) = true) :
    SameLive t s₁' s₂' := by
  intro k
  refine Cell.live_step (cell_step h₁ k) (cell_step h₂ k) (same k) ?_
  intro d hop x stored
  obtain ⟨seconds, response, haction⟩ := redate_expires hop
  cases haction
  have whole := live_of_living (s := s₁) (k := k) living
  exact Cell.not_dead.mpr (Cell.live_eq_some.mp (whole.trans stored)).2

theorem SameView.sweep {past₁ past₂ : List (Shard Q × Event)} {s₁ s₁' s₂ : Shard Q} {t : Instant}
    (h : SameView past₁ past₂ s₁ s₂) (hs : step s₁ ⟨t, .sweep⟩ s₁') :
    SameView ((s₁, ⟨t, .sweep⟩) :: past₁) past₂ s₁' s₂ := by
  refine ⟨h.1, fun now b₁ b₂ k => ?_⟩
  have earlier := h.2 now (fun x hx => b₁ x (List.mem_cons_of_mem _ hx)) b₂ k
  exact (sameLive_sweep hs (b₁ _ List.mem_cons_self) k).trans earlier

theorem SameView.command {past₁ past₂ : List (Shard Q × Event)} {s₁ s₁' s₂ s₂' : Shard Q}
    {t : Instant} {c : Command} {r₁ r₂ : Response} (h : SameView past₁ past₂ s₁ s₂)
    (h₁ : step s₁ ⟨t, .command c r₁⟩ s₁') (h₂ : step s₂ ⟨t, .command c r₂⟩ s₂')
    (quiet₁ : Quiet ((s₁, ⟨t, .command c r₁⟩) :: past₁))
    (quiet₂ : Quiet ((s₂, ⟨t, .command c r₂⟩) :: past₂)) :
    SameView ((s₁, ⟨t, .command c r₁⟩) :: past₁) ((s₂, ⟨t, .command c r₂⟩) :: past₂) s₁' s₂' := by
  have live := h.2 t quiet₁.before quiet₂.before
  have answer : r₁ = r₂ :=
    same_response h₁ h₂ live (quiet₁.keyed (t, c) List.mem_cons_self)
      (quiet₁.room _ List.mem_cons_self) (quiet₂.room _ List.mem_cons_self)
      (quiet₁.living _ List.mem_cons_self) (quiet₂.living _ List.mem_cons_self)
  subst r₂
  refine ⟨congrArg (List.cons r₁) h.1, fun now b₁ _ k => ?_⟩
  have after := sameLive_command h₁ h₂ live (quiet₁.living _ List.mem_cons_self)
  exact Cell.live_later (b₁ _ List.mem_cons_self) (after k)

theorem sameView_new {past : List (Shard Q × Event)} {s : Shard Q} (run : Run Q past s)
    (no_commands : timedCommands (past.map Prod.snd) = []) (id : ShardId) (now : Instant) :
    SameView past [] s (new id now) := by
  induction run with
  | start h =>
    obtain ⟨_, _, rfl⟩ := h
    exact ⟨rfl, fun _ _ _ _ => rfl⟩
  | @step past s s' e before hs ih =>
    obtain ⟨t, action⟩ := e
    cases action with
    | sweep => exact (ih no_commands).sweep hs
    | command c r => cases no_commands

/-- Two runs of the same commands agree: a sweep of either run changes no view,
and the commands are met in pairs. -/
theorem same_view {past₁ past₂ : List (Shard Q × Event)} {s₁ s₂ : Shard Q}
    (run₁ : Run Q past₁ s₁) (run₂ : Run Q past₂ s₂)
    (same : timedCommands (past₁.map Prod.snd) = timedCommands (past₂.map Prod.snd))
    (quiet₁ : Quiet past₁) (quiet₂ : Quiet past₂) : SameView past₁ past₂ s₁ s₂ := by
  induction run₁ generalizing past₂ s₂ with
  | start h =>
    obtain ⟨id, now, rfl⟩ := h
    exact (sameView_new run₂ same.symm id now).symm
  | @step past₁ s₁ s₁' e₁ before₁ hs₁ ih₁ =>
    obtain ⟨t₁, action₁⟩ := e₁
    cases action₁ with
    | sweep => exact (ih₁ run₂ same quiet₁.tail quiet₂).sweep hs₁
    | command c₁ r₁ =>
      induction run₂ with
      | start h => cases same
      | @step past₂ s₂ s₂' e₂ before₂ hs₂ ih₂ =>
        obtain ⟨t₂, action₂⟩ := e₂
        cases action₂ with
        | sweep => exact ((ih₂ quiet₂.tail same).symm.sweep hs₂).symm
        | command c₂ r₂ =>
          obtain ⟨first, rest⟩ := List.cons.inj same
          cases first
          exact (ih₁ before₂ rest quiet₁.tail quiet₂.tail).command hs₁ hs₂ quiet₁ quiet₂

/-- Sweeps anywhere in either run change no answer, as long as DEL and EXPIRE
meet no entry whose deadline has passed. -/
theorem sweep_unobservable {past₁ past₂ : List (Shard Q × Event)} {s₁ s₂ : Shard Q}
    (run₁ : Run Q past₁ s₁) (run₂ : Run Q past₂ s₂)
    (clock₁ : NonDecreasing (past₁.map Prod.snd)) (clock₂ : NonDecreasing (past₂.map Prod.snd))
    (same : timedCommands (past₁.map Prod.snd) = timedCommands (past₂.map Prod.snd))
    (keyed : ∀ c ∈ timedCommands (past₁.map Prod.snd), c.2.isKeyed = true)
    (room₁ : ∀ x ∈ past₁, x.2.reachesLimit = false) (room₂ : ∀ x ∈ past₂, x.2.reachesLimit = false)
    (living₁ : ∀ x ∈ past₁, namesOnlyLiving x = true)
    (living₂ : ∀ x ∈ past₂, namesOnlyLiving x = true) :
    responses (past₁.map Prod.snd) = responses (past₂.map Prod.snd) :=
  (same_view run₁ run₂ same ⟨clock₁, keyed, room₁, living₁⟩
    ⟨clock₂, same ▸ keyed, room₂, living₂⟩).1

end

/- A key that dies between a SET and a GET, with and without a sweep between them. -/
def deadSwept : List Event :=
  [⟨.ofSecs 3, .command (.del [utf8 "other"]) (.integer 0)⟩,
   ⟨.ofSecs 3, .command (.get (utf8 "k")) (.value none)⟩,
   ⟨.ofSecs 2, .sweep⟩,
   ⟨.ofSecs 1, .command (.set (utf8 "k") (.string (utf8 "v")) (some 1)) .ok⟩]

def deadUnswept : List Event :=
  [⟨.ofSecs 3, .command (.del [utf8 "other"]) (.integer 0)⟩,
   ⟨.ofSecs 3, .command (.get (utf8 "k")) (.value none)⟩,
   ⟨.ofSecs 1, .command (.set (utf8 "k") (.string (utf8 "v")) (some 1)) .ok⟩]

theorem sweep_unobservable_of_dead : responses deadSwept = responses deadUnswept := by
  let _ := linux64
  obtain ⟨past₁, s₁, run₁, same₁, replayed₁⟩ :=
    replay_run (SortedQueue Expiry) ⟨0⟩ (.ofSecs 0) deadSwept (by decide)
  obtain ⟨past₂, s₂, run₂, same₂, replayed₂⟩ :=
    replay_run (SortedQueue Expiry) ⟨0⟩ (.ofSecs 0) deadUnswept (by decide)
  have tame₁ : ((replay (new ⟨0⟩ (.ofSecs 0) : Shard (SortedQueue Expiry)) deadSwept).map
      fun out => out.1.all fun x => namesOnlyLiving x && !x.2.reachesLimit) = some true := by decide
  have tame₂ : ((replay (new ⟨0⟩ (.ofSecs 0) : Shard (SortedQueue Expiry)) deadUnswept).map
      fun out => out.1.all fun x => namesOnlyLiving x && !x.2.reachesLimit) = some true := by decide
  rw [replayed₁, Option.map_some, Option.some.injEq, List.all_eq_true] at tame₁
  rw [replayed₂, Option.map_some, Option.some.injEq, List.all_eq_true] at tame₂
  simp only [Bool.and_eq_true, Bool.not_eq_true'] at tame₁ tame₂
  rw [← same₁, ← same₂]
  refine sweep_unobservable run₁ run₂ ?_ ?_ ?_ ?_ (fun x hx => (tame₁ x hx).2)
    (fun x hx => (tame₂ x hx).2) (fun x hx => (tame₁ x hx).1) (fun x hx => (tame₂ x hx).1)
  · rw [same₁]
    unfold NonDecreasing
    decide
  · rw [same₂]
    unfold NonDecreasing
    decide
  · rw [same₁, same₂]
    decide
  · rw [same₁]
    decide

/- A DEL of a dead key counts it only if no sweep came first. -/
def delSwept : List Event :=
  [⟨.ofSecs 3, .command (.del [utf8 "k"]) (.integer 0)⟩,
   ⟨.ofSecs 3, .sweep⟩,
   ⟨.ofSecs 1, .command (.set (utf8 "k") (.string (utf8 "v")) (some 1)) .ok⟩]

def delUnswept : List Event :=
  [⟨.ofSecs 3, .command (.del [utf8 "k"]) (.integer 1)⟩,
   ⟨.ofSecs 1, .command (.set (utf8 "k") (.string (utf8 "v")) (some 1)) .ok⟩]

theorem del_observes_sweep :
    (∃ past s, @Run (SortedQueue Expiry) _ linux64 past s ∧ past.map Prod.snd = delSwept) ∧
    (∃ past s, @Run (SortedQueue Expiry) _ linux64 past s ∧ past.map Prod.snd = delUnswept) ∧
    NonDecreasing delSwept ∧ NonDecreasing delUnswept ∧
    timedCommands delSwept = timedCommands delUnswept ∧
    (∀ c ∈ timedCommands delSwept, c.2.isKeyed = true) ∧
    (∀ e ∈ delSwept ++ delUnswept, e.reachesLimit = false) ∧
    responses delSwept ≠ responses delUnswept := by
  let _ := linux64
  obtain ⟨past₁, s₁, run₁, same₁, _⟩ :=
    replay_run (SortedQueue Expiry) ⟨0⟩ (.ofSecs 0) delSwept (by decide)
  obtain ⟨past₂, s₂, run₂, same₂, _⟩ :=
    replay_run (SortedQueue Expiry) ⟨0⟩ (.ofSecs 0) delUnswept (by decide)
  refine ⟨⟨past₁, s₁, run₁, same₁⟩, ⟨past₂, s₂, run₂, same₂⟩, ?_, ?_, ?_, ?_, ?_, ?_⟩
  · unfold NonDecreasing
    decide
  · unfold NonDecreasing
    decide
  · decide
  · decide
  · decide
  · decide

end Shard

end RsDragonfly
