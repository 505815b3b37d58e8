import RsDragonfly.Library.ExpiringCell
import RsDragonfly.Shard.Steps

/-! Runs of a shard, and the history of one key.
A run is any sequence of executed commands and sweeps. Seen from one key, every
step is one step of an expiring cell: what the step does to the cell can be read
off the command and its response alone. -/
namespace RsDragonfly
open Library

inductive Action where
  | command (c : Command) (response : Response)
  | sweep
deriving DecidableEq

structure Event where
  time : Instant
  action : Action
deriving DecidableEq

/-- Newest first, as runs are recorded. -/
def NonDecreasing (events : List Event) : Prop :=
  events.Pairwise (fun later earlier => earlier.time ≤ later.time)

def Entry.dated (e : Entry) : Dated Value Instant := ⟨e.value, e.expiry⟩

namespace Shard

/-- What an event does to a key, by the command and its response. -/
def keyOp (k : Key) (e : Event) : Cell.Op Value Instant :=
  match e.action with
  | .command (.set key value ttl) response =>
    if key = k ∧ response = .ok then
      .write value (ttl.bind fun secs => e.time.add (Duration.fromSecs secs))
    else .idle
  | .command (.del keys) _ => if k ∈ keys then .delete else .idle
  | .command (.expire key seconds) response =>
    if key = k ∧ response = .integer 1 then
      match e.time.add (Duration.fromSecs seconds) with
      | some deadline => .redate deadline
      | none => .idle
    else .idle
  | _ => .idle

def history (k : Key) (events : List Event) : List (Instant × Cell.Op Value Instant) :=
  events.map fun e => (e.time, keyOp k e)

/-- The place of one key. -/
def cell {Q : Type} (k : Key) (s : Shard Q) : Option (Dated Value Instant) :=
  (s.data.lookup k).map Entry.dated

theorem cell_eq_some {Q : Type} {k : Key} {s : Shard Q} {x : Dated Value Instant} :
    s.cell k = some x ↔ s.data.lookup k = some ⟨x.value, x.deadline⟩ := by
  unfold cell
  rw [Option.map_eq_some_iff]
  constructor
  · rintro ⟨e, found, rfl⟩
    exact found
  · intro found
    exact ⟨_, found, rfl⟩

theorem cell_congr {Q : Type} {k : Key} {s s' : Shard Q}
    (same : s'.data.lookup k = s.data.lookup k) : s'.cell k = s.cell k :=
  congrArg (Option.map Entry.dated) same

theorem lookup_of_live {Q : Type} {s : Shard Q} {k : Key} {now : Instant} {x : Dated Value Instant}
    (h : Cell.live now (s.cell k) = some x) :
    ∃ entry, s.data.lookup k = some entry ∧ entry.dated = x ∧ ¬ entry.Dead now := by
  obtain ⟨stored, alive⟩ := Cell.live_eq_some.mp h
  exact ⟨_, cell_eq_some.mp stored, rfl, Cell.not_dead.mpr alive⟩

theorem dead_of_not_live {Q : Type} {s : Shard Q} {k : Key} {now : Instant} {entry : Entry}
    (h : Cell.live now (s.cell k) = none) (found : s.data.lookup k = some entry) :
    entry.Dead now := by
  have stored : s.cell k = some entry.dated := by simp [cell, found]
  exact Cell.live_eq_none.mp h _ stored

theorem idle_of_same {Q : Type} {k : Key} {s s' : Shard Q} {t : Instant}
    (same : s'.data.lookup k = s.data.lookup k) : Cell.Step (s.cell k) (t, .idle) (s'.cell k) :=
  .idle (.inl (cell_congr same))

section
variable {Q : Type} [MaxQueue Q Expiry] [Layout]

def step (s : Shard Q) (e : Event) (s' : Shard Q) : Prop :=
  match e.action with
  | .command c response => s.execute e.time c = some (s', response)
  | .sweep => s' = s.expireKeys e.time

variable (Q) in
/-- All runs from a new shard. A panicking command has no step. -/
def runs : System (Shard Q) Event where
  start s := ∃ id now, s = new id now
  step := step

/-- The step of an event, when the response is the one the event records. -/
def follow (s : Shard Q) (e : Event) : Option (Shard Q) :=
  match e.action with
  | .command c response =>
    match s.execute e.time c with
    | some (s', r) => if r = response then some s' else none
    | none => none
  | .sweep => some (s.expireKeys e.time)

/-- Runs can be evaluated: the states an event list goes through, newest first. -/
def replay (start : Shard Q) : List Event → Option (List (Shard Q × Event) × Shard Q)
  | [] => some ([], start)
  | e :: earlier =>
    match replay start earlier with
    | none => none
    | some (past, s) =>
      match s.follow e with
      | none => none
      | some s' => some ((s, e) :: past, s')

theorem follow_step {s s' : Shard Q} {e : Event} (h : s.follow e = some s') : step s e s' := by
  obtain ⟨t, action⟩ := e
  cases action with
  | sweep => exact (Option.some.inj h).symm
  | command c response =>
    simp only [follow] at h
    split at h
    · rename_i next r executed
      split at h
      · rename_i same
        cases h
        rw [same] at executed
        exact executed
      · cases h
    · cases h

variable (Q) in
abbrev Run (past : List (Shard Q × Event)) (s : Shard Q) : Prop := (runs Q).Run past s

variable (Q) in
theorem replay_run (id : ShardId) (now : Instant) (events : List Event)
    (h : (replay (new id now : Shard Q) events).isSome = true) :
    ∃ past s, Run Q past s ∧ past.map Prod.snd = events ∧
      replay (new id now) events = some (past, s) := by
  induction events with
  | nil => exact ⟨[], new id now, .start ⟨id, now, rfl⟩, rfl, rfl⟩
  | cons e earlier ih =>
    obtain ⟨out, hout⟩ := Option.isSome_iff_exists.mp h
    simp only [replay] at hout
    split at hout
    · cases hout
    · rename_i past s hpast
      split at hout
      · cases hout
      · rename_i s' followed
        obtain ⟨past', s'', run, same, replayed⟩ := ih (by rw [hpast]; rfl)
        rw [hpast] at replayed
        cases replayed
        refine ⟨(s, e) :: past, s', .step run (follow_step followed), ?_, ?_⟩
        · rw [List.map_cons, same]
        · simp only [replay, hpast, followed]

end

/-! Each command and the sweep, seen from one key. -/

section
variable {Q : Type}

theorem idle_of_lazy [Layout] {k key : Key} {s : Shard Q} {t : Instant} {entry : Entry}
    (found : s.data.lookup key = some entry) (dead : entry.Dead t) :
    Cell.Step (s.cell k) (t, .idle) ((s.expireLazily key).cell k) := by
  by_cases hk : k = key
  · subst key
    refine .idle (.inr ⟨?_, entry.dated, ?_, dead⟩)
    · simp [cell]
    · simp [cell, found]
  · exact idle_of_same (by simp [hk])

theorem cell_set [MaxQueue Q Expiry] [Layout] {k key : Key} {s s' : Shard Q} {t : Instant}
    {value : Value} {ttl : Option UInt64} {r : Response}
    (h : s.cmdSet t key value ttl = some (s', r)) :
    Cell.Step (s.cell k) (t, keyOp k ⟨t, .command (.set key value ttl) r⟩) (s'.cell k) := by
  rcases cmdSet_cases h with ⟨rfl, msg, rfl⟩ | ⟨rfl, _, expiry, hexpiry, rfl⟩
  · simp only [keyOp, reduceCtorEq, and_false, if_false]
    exact idle_of_same rfl
  · by_cases hk : key = k
    · subst k
      have written : (s.store key value expiry).cell key = some ⟨value, expiry⟩ := by
        simp [cell, Entry.dated]
      have deadline : (ttl.bind fun secs => t.add (Duration.fromSecs secs)) = expiry := by
        cases ttl with
        | none => exact Option.some.inj hexpiry
        | some secs =>
          simp only [setExpiry, Option.map_eq_some_iff] at hexpiry
          obtain ⟨d, hd, rfl⟩ := hexpiry
          rw [Option.bind_some, hd]
      simp only [keyOp, and_self, if_true, deadline, written]
      exact .write
    · simp only [keyOp, hk, false_and, if_false]
      exact idle_of_same (by simp [Ne.symm hk])

theorem cell_get [Layout] {k key : Key} {s s' : Shard Q} {t : Instant} {r : Response}
    (h : s.cmdGet t key = (s', r)) : Cell.Step (s.cell k) (t, .idle) (s'.cell k) := by
  rcases cmdGet_cases h with rfl | ⟨entry, found, dead, rfl⟩
  · exact idle_of_same rfl
  · exact idle_of_lazy found dead

theorem cell_del [Layout] {k : Key} {keys : List Key} {s s' : Shard Q} {t : Instant} {r : Response}
    (h : s.cmdDel keys = (s', r)) :
    Cell.Step (s.cell k) (t, keyOp k ⟨t, .command (.del keys) r⟩) (s'.cell k) := by
  cases h
  simp only [keyOp]
  split
  · rename_i named
    have gone : (s.delKeys keys 0).1.cell k = none := by simp [cell, lookup_delKeys, named]
    rw [gone]
    exact .delete
  · rename_i unnamed
    exact idle_of_same (by rw [lookup_delKeys, if_neg unnamed])

theorem cell_expire [MaxQueue Q Expiry] {k key : Key} {s s' : Shard Q} {t : Instant}
    {seconds : UInt64} {r : Response} (h : s.cmdExpire t key seconds = some (s', r)) :
    Cell.Step (s.cell k) (t, keyOp k ⟨t, .command (.expire key seconds) r⟩) (s'.cell k) := by
  rcases cmdExpire_cases h with ⟨_, rfl, rfl⟩ | ⟨entry, deadline, found, hd, rfl, rfl⟩
  · have other : ¬ (key = k ∧ Response.integer 0 = .integer 1) := by simp
    simp only [keyOp, if_neg other]
    exact idle_of_same rfl
  · by_cases hk : key = k
    · subst k
      have before : s.cell key = some entry.dated := by simp [cell, found]
      have after : (s.redate key entry deadline).cell key = some ⟨entry.value, some deadline⟩ := by
        simp [cell, Entry.dated]
      have op : keyOp key ⟨t, .command (.expire key seconds) (.integer 1)⟩ = .redate deadline := by
        unfold keyOp
        simp only [and_self, if_true]
        rw [hd]
      rw [op, before, after]
      exact .redate
    · simp only [keyOp, hk, false_and, if_false]
      exact idle_of_same (by simp [Ne.symm hk])

theorem cell_ttl [Layout] {k key : Key} {s s' : Shard Q} {t : Instant} {r : Response}
    (h : s.cmdTtl t key = (s', r)) : Cell.Step (s.cell k) (t, .idle) (s'.cell k) := by
  rcases cmdTtl_cases h with rfl | ⟨entry, found, dead, rfl⟩
  · exact idle_of_same rfl
  · exact idle_of_lazy found dead

/-- A sweep only drops dead entries: a stale element of the queue carries a
deadline that the entry no longer has, and a current one carries a passed deadline. -/
theorem cell_sweep [MaxQueue Q Expiry] (k : Key) (s : Shard Q) (t : Instant) :
    Cell.Step (s.cell k) (t, .idle) ((s.expireKeys t).cell k) := by
  have swept := data_expireKeys s t
  have kept : (s.sweep t).data.lookup k = s.data.lookup k ∨
      ((s.sweep t).data.lookup k = none ∧ ∃ e, s.data.lookup k = some e ∧ e.Dead t) := by
    refine expireLoop_rule (fun w => w.data.lookup k = s.data.lookup k ∨
      (w.data.lookup k = none ∧ ∃ e, s.data.lookup k = some e ∧ e.Dead t)) ?_ _ _ (.inl rfl)
    intro w w' hpass hw
    obtain ⟨expiry, rest, _, due, ⟨entry, found, current, rfl⟩ | ⟨_, rfl⟩⟩ := expirePass_cases hpass
    · rw [KeyedMap.lookup_erase_eq]
      split
      · rename_i hk
        rw [← hk] at found
        rcases hw with same | ⟨absent, _⟩
        · exact .inr ⟨rfl, entry, same ▸ found, _, current, due⟩
        · rw [absent] at found
          cases found
      · exact hw
    · exact hw
  rcases kept with same | ⟨absent, entry, found, dead⟩
  · exact idle_of_same (swept ▸ same)
  · refine .idle (.inr ⟨?_, entry.dated, ?_, dead⟩)
    · simp [cell, swept, absent]
    · simp [cell, found]

end

section
variable {Q : Type} [MaxQueue Q Expiry] [Layout]

theorem cell_step {s s' : Shard Q} {e : Event} (h : step s e s') (k : Key) :
    Cell.Step (s.cell k) (e.time, keyOp k e) (s'.cell k) := by
  obtain ⟨t, action⟩ := e
  cases action with
  | sweep =>
    cases h
    exact cell_sweep k s t
  | command c r =>
    obtain ⟨next, hnext, rfl⟩ := execute_cases h
    have recorded : next.recorded.cell k = next.cell k := rfl
    rw [recorded]
    cases c with
    | ping message =>
      cases message <;> cases hnext <;> exact idle_of_same rfl
    | set key value ttl => exact cell_set hnext
    | get key => exact cell_get (Option.some.inj hnext)
    | del keys => exact cell_del (Option.some.inj hnext)
    | expire key seconds => exact cell_expire hnext
    | ttl key => exact cell_ttl (Option.some.inj hnext)
    | info section_ =>
      rw [dispatch_info hnext]
      exact idle_of_same rfl

theorem cell_run {past : List (Shard Q × Event)} {s : Shard Q} (run : Run Q past s) (k : Key) :
    ∃ cells, (Cell.system Value Instant).Run cells (s.cell k) ∧
      cells.map Prod.snd = history k (past.map Prod.snd) := by
  induction run with
  | start h =>
    obtain ⟨id, now, rfl⟩ := h
    exact ⟨[], .start rfl, rfl⟩
  | @step past s s' e before hs ih =>
    obtain ⟨cells, hcells, same⟩ := ih
    refine ⟨(s.cell k, e.time, keyOp k e) :: cells, .step hcells (cell_step hs k), ?_⟩
    simp [history, same]

end

/-! What GET and TTL answer, by the live contents of the cell. -/

theorem cmdGet_response {Q : Type} [Layout] (s : Shard Q) (now : Instant) (k : Key) :
    (s.cmdGet now k).2 = .value ((Cell.live now (s.cell k)).map Dated.value) := by
  unfold cmdGet
  cases h : Cell.live now (s.cell k) with
  | none =>
    cases found : s.data.lookup k with
    | none => rfl
    | some entry =>
      have expired := Entry.isExpired_iff.mpr (dead_of_not_live h found)
      simp [expired]
  | some x =>
    obtain ⟨entry, found, rfl, alive⟩ := lookup_of_live h
    have fresh : ¬ entry.isExpired now = true := fun expired =>
      alive (Entry.isExpired_iff.mp expired)
    simp only [found, if_neg fresh]
    rfl

/-- The whole seconds left, as the signed number TTL answers. -/
def secondsLeft (now deadline : Instant) : Int64 :=
  (Duration.asSecs (deadline.saturatingDurationSince now)).toInt64

def ttlReply (now : Instant) : Option (Dated Value Instant) → Int64
  | none => -2
  | some ⟨_, none⟩ => -1
  | some ⟨_, some deadline⟩ => secondsLeft now deadline

theorem cmdTtl_response {Q : Type} [Layout] (s : Shard Q) (now : Instant) (k : Key) :
    (s.cmdTtl now k).2 = .integer (ttlReply now (Cell.live now (s.cell k))) := by
  unfold cmdTtl
  cases h : Cell.live now (s.cell k) with
  | none =>
    cases found : s.data.lookup k with
    | none => rfl
    | some entry =>
      obtain ⟨d, hd, passed⟩ := dead_of_not_live h found
      simp only [hd, if_pos passed]
      rfl
  | some x =>
    obtain ⟨entry, found, rfl, alive⟩ := lookup_of_live h
    obtain ⟨value, expiry⟩ := entry
    cases expiry with
    | none =>
      simp only [found]
      rfl
    | some d =>
      have fresh : ¬ now ≥ d := fun passed => alive ⟨d, rfl, passed⟩
      simp only [found, if_neg fresh]
      rfl

end Shard

end RsDragonfly
