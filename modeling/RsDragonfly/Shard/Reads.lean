import RsDragonfly.Shard.History

/-! What reads answer over whole runs: values and TTLs agree with the history of
the key, and a deadline that has passed is not undone. -/
namespace RsDragonfly
open Library

def Event.SetsKey (k : Key) (e : Event) : Prop := ∃ v ttl, e.action = .command (.set k v ttl) .ok

/-- A GET of the key answers no value, a TTL of the key answers -2. -/
def Event.Unseen (k : Key) (e : Event) : Prop :=
  ∀ response, (e.action = .command (.get k) response → response = .value none) ∧
    (e.action = .command (.ttl k) response → response = .integer (-2))

/-- Once the clock has reached the deadline in force, the key is not seen again
before it is set. The event `reached` is the first to read the clock so late. -/
def NoResurrection (k : Key) (events : List Event) : Prop :=
  ∀ after reached before d, events = after ++ reached :: before →
    Cell.inForce (Shard.history k before) = some d → d ≤ reached.time →
    ∀ later x between, after ++ [reached] = later ++ x :: between →
      (∀ y ∈ between, ¬ y.SetsKey k) → x.Unseen k

namespace Shard

theorem write_sets {k : Key} {e : Event} {v : Value} {d : Option Instant}
    (h : keyOp k e = .write v d) : e.SetsKey k := by
  unfold keyOp at h
  split at h
  · rename_i key value ttl response haction
    split at h
    · rename_i hit
      exact ⟨value, ttl, by rw [haction, hit.1, hit.2]⟩
    · cases h
  · split at h <;> cases h
  · split at h
    · split at h <;> cases h
    · cases h
  · cases h

theorem redate_expires {k : Key} {e : Event} {d : Instant} (h : keyOp k e = .redate d) :
    ∃ seconds response, e.action = .command (.expire k seconds) response := by
  unfold keyOp at h
  split at h
  · split at h <;> cases h
  · split at h <;> cases h
  · rename_i key seconds response haction
    split at h
    · rename_i hit
      exact ⟨seconds, response, by rw [haction, hit.1]⟩
    · cases h
  · cases h

theorem secondsLeft_toInt (now deadline : Instant) :
    (secondsLeft now deadline).toInt = ((deadline.nanos - now.nanos) / nanosPerSec : Nat) := by
  have small : (deadline.nanos - now.nanos) / nanosPerSec ≤ 2 ^ 63 - 1 :=
    le_trans (Nat.div_le_div_right (Nat.sub_le _ _)) deadline.fits
  have whole : (UInt64.ofNat ((deadline.nanos - now.nanos) / nanosPerSec)).toNat =
      (deadline.nanos - now.nanos) / nanosPerSec :=
    UInt64.toNat_ofNat_of_lt' (by simp only [UInt64.size]; omega)
  unfold secondsLeft Duration.asSecs Timespec.saturatingDurationSince
  rw [← Int64.toInt_toBitVec, UInt64.toBitVec_toInt64, BitVec.toInt_eq_toNat_of_lt,
    UInt64.toNat_toBitVec, whole]
  rw [UInt64.toNat_toBitVec, whole]
  omega

section
variable {Q : Type} [MaxQueue Q Expiry] [Layout]

/-- An EXPIRE of the key does not find an entry whose deadline has passed. -/
def expireMeetsLiving (k : Key) (x : Shard Q × Event) : Bool :=
  match x.2.action with
  | .command (.expire key _) _ =>
    decide (key ≠ k) || (x.1.data.lookup k).all (fun entry => !entry.isExpired x.2.time)
  | _ => true

/-- From the deadline in force on, and without a SET, nothing alive is stored. -/
theorem gone_along {k : Key} {d t : Instant} {before between : List (Shard Q × Event)}
    {s : Shard Q} (run : Run Q (between ++ before) s)
    (in_force : Cell.inForce (history k (before.map Prod.snd)) = some d)
    (clock : NonDecreasing (between.map Prod.snd)) (reached : ∀ y ∈ between, d ≤ y.2.time)
    (bound : ∀ y ∈ between, y.2.time ≤ t) (passed : d ≤ t)
    (no_set : ∀ y ∈ between, ¬ y.2.SetsKey k)
    (living : ∀ y ∈ between, expireMeetsLiving k y = true) :
    Cell.Gone t (s.cell k) := by
  induction between generalizing s t with
  | nil =>
    rw [List.nil_append] at run
    obtain ⟨cells, hcells, same⟩ := cell_run run k
    intro x stored
    have recorded := (Cell.record hcells x stored).2
    rw [same, in_force] at recorded
    exact ⟨d, recorded.symm, passed⟩
  | cons y between ih =>
    have first : y ∈ y :: between := List.mem_cons_self
    have tail {z} (hz : z ∈ between) : z ∈ y :: between := List.mem_cons_of_mem y hz
    have order := List.pairwise_cons.mp clock
    cases run with
    | @step _ sy _ e earlier hs =>
      have gone : Cell.Gone e.time (sy.cell k) :=
        ih earlier order.2 (fun z hz => reached z (tail hz))
          (fun z hz => order.1 z.2 (List.mem_map_of_mem hz)) (reached _ first)
          (fun z hz => no_set z (tail hz)) (fun z hz => living z (tail hz))
      have still : Cell.Gone e.time (s.cell k) := by
        refine Cell.gone_step (cell_step hs k) gone ?_ ?_
        · intro v deadline hop
          exact no_set _ first (write_sets hop)
        · intro deadline hop x stored
          obtain ⟨seconds, response, haction⟩ := redate_expires hop
          have alive := living _ first
          simp only [expireMeetsLiving, haction, cell_eq_some.mp stored, ne_eq, not_true_eq_false,
            decide_false, Bool.false_or, Option.all_some, Bool.not_eq_true'] at alive
          rw [← Bool.not_eq_true, Entry.isExpired_iff] at alive
          exact alive
      exact Cell.gone_mono (bound _ first) still

theorem unseen_of_gone {k : Key} {s s' : Shard Q} {e : Event} (hs : step s e s')
    (gone : Cell.Gone e.time (s.cell k)) : e.Unseen k := by
  have absent := Cell.live_eq_none.mpr gone
  obtain ⟨t, action⟩ := e
  intro response
  constructor
  · rintro rfl
    obtain ⟨next, hnext, _⟩ := execute_cases hs
    have answer := cmdGet_response s t k
    rw [Option.some.inj hnext, absent] at answer
    exact answer
  · rintro rfl
    obtain ⟨next, hnext, _⟩ := execute_cases hs
    have answer := cmdTtl_response s t k
    rw [Option.some.inj hnext, absent] at answer
    exact answer

/-- Reads agree with the history of the key: with the value and the deadline of
the last successful SET and of the EXPIREs after it, whatever was swept meanwhile. -/
theorem reads_follow_history {past : List (Shard Q × Event)} {s : Shard Q} (run : Run Q past s)
    (now : Instant) (k : Key) :
    (∀ v, Cell.written (history k (past.map Prod.snd)) = some v →
      Cell.AliveSince now (history k (past.map Prod.snd)) →
      (∃ s', s.execute now (.get k) = some (s', .value (some v))) ∧
      ∃ s' n, s.execute now (.ttl k) = some (s', .integer n) ∧
        match Cell.inForce (history k (past.map Prod.snd)) with
        | none => n = -1
        | some d => n.toInt = ((d.nanos - now.nanos) / nanosPerSec : Nat)) ∧
    (∀ s' v, s.execute now (.get k) = some (s', .value (some v)) →
      Cell.written (history k (past.map Prod.snd)) = some v ∧
      ∀ d, Cell.inForce (history k (past.map Prod.snd)) = some d → now < d) := by
  obtain ⟨cells, hcells, same⟩ := cell_run run k
  rw [← same]
  constructor
  · intro v written alive
    have stored := Cell.kept hcells v now written alive
    have live : Cell.live now (s.cell k) = some ⟨v, Cell.inForce (cells.map Prod.snd)⟩ :=
      Cell.live_eq_some.mpr ⟨stored, fun d hd => Cell.alive_now alive hd⟩
    have value := cmdGet_response s now k
    have seconds := cmdTtl_response s now k
    rw [live] at value seconds
    refine ⟨⟨(s.cmdGet now k).1.recorded, ?_⟩, (s.cmdTtl now k).1.recorded,
      ttlReply now (some ⟨v, Cell.inForce (cells.map Prod.snd)⟩), ?_, ?_⟩
    · simp only [execute, dispatch, Option.bind_eq_bind, Option.bind_some, value]
      rfl
    · simp only [execute, dispatch, Option.bind_eq_bind, Option.bind_some, seconds]
      rfl
    · cases Cell.inForce (cells.map Prod.snd) with
      | none => rfl
      | some d => exact secondsLeft_toInt now d
  · intro s' v answered
    obtain ⟨next, hnext, _⟩ := execute_cases answered
    have value := cmdGet_response s now k
    rw [Option.some.inj hnext] at value
    obtain ⟨x, live, rfl⟩ := Option.map_eq_some_iff.mp (Response.value.inj value).symm
    obtain ⟨stored, alive⟩ := Cell.live_eq_some.mp live
    obtain ⟨written, in_force⟩ := Cell.record hcells x stored
    exact ⟨written, fun d hd => alive d (in_force ▸ hd)⟩

end

/- A key set twice, then swept after the first of its two deadlines. -/
def rewritten : List Event :=
  [⟨.ofSecs 50, .sweep⟩,
   ⟨.ofSecs 2, .command (.set (utf8 "k") (.string (utf8 "new")) (some 100)) .ok⟩,
   ⟨.ofSecs 1, .command (.set (utf8 "k") (.string (utf8 "old")) (some 1)) .ok⟩]

theorem reads_follow_rewritten :
    ∃ past s, @Run (SortedQueue Expiry) _ linux64 past s ∧ past.map Prod.snd = rewritten ∧
      (∃ s', @execute _ _ linux64 s (.ofSecs 60) (.get (utf8 "k")) =
        some (s', .value (some (.string (utf8 "new"))))) ∧
      ∃ s' n, @execute _ _ linux64 s (.ofSecs 60) (.ttl (utf8 "k")) = some (s', .integer n) ∧
        n.toInt = 42 := by
  let _ := linux64
  obtain ⟨past, s, run, same, _⟩ :=
    replay_run (SortedQueue Expiry) ⟨0⟩ (.ofSecs 0) rewritten (by decide)
  have reads := (reads_follow_history run (.ofSecs 60) (utf8 "k")).1 (.string (utf8 "new"))
  have in_force : Cell.inForce (history (utf8 "k") rewritten) = some (.ofSecs 102) := by decide
  have alive : Cell.AliveSince (.ofSecs 60) (history (utf8 "k") rewritten) := by
    refine ⟨fun d hd => ?_, fun d hd => ?_, trivial⟩
    · cases in_force.symm.trans hd
      decide
    · cases in_force.symm.trans hd
      decide
  rw [same] at reads
  obtain ⟨get, s', n, ttl, seconds⟩ := reads (by decide) alive
  rw [in_force] at seconds
  exact ⟨past, s, run, same, get, s', n, ttl, seconds⟩

section
variable {Q : Type} [MaxQueue Q Expiry] [Layout]

/-- If no EXPIRE finds the key dead and still stored, a passed deadline is final. -/
theorem no_resurrection {past : List (Shard Q × Event)} {s : Shard Q} (run : Run Q past s)
    (clock : NonDecreasing (past.map Prod.snd)) (k : Key)
    (living : ∀ x ∈ past, expireMeetsLiving k x = true) : NoResurrection k (past.map Prod.snd) := by
  intro after reached before d split in_force passed later x between cut no_set
  have whole : past.map Prod.snd = later ++ x :: (between ++ before) := by
    rw [split, ← List.singleton_append, ← List.append_assoc, cut, List.append_assoc,
      List.cons_append]
  obtain ⟨newer, rest, rfl, hnewer, hrest⟩ := List.map_eq_append_iff.mp whole
  obtain ⟨y, older, rfl, rfl, holder⟩ := List.map_eq_cons_iff.mp hrest
  obtain ⟨mid, old, rfl, rfl, rfl⟩ := List.map_eq_append_iff.mp holder
  obtain ⟨at_y, s', hs⟩ := run.at
  -- `reached` is the oldest of the events from `y` back to it
  have ordered : NonDecreasing (later ++ y.2 :: mid.map Prod.snd) := by
    rw [← cut]
    rw [split, ← List.singleton_append, ← List.append_assoc] at clock
    exact (List.pairwise_append.mp clock).1
  have since := (List.pairwise_append.mp ordered).2.1
  have not_before : ∀ z ∈ y.2 :: mid.map Prod.snd, d ≤ z.time := by
    intro z hz
    have last : z ∈ after ++ [reached] := cut ▸ List.mem_append_right later hz
    rcases List.mem_append.mp last with hz | hz
    · have order := clock
      rw [split] at order
      exact le_trans passed ((List.pairwise_append.mp order).2.2 z hz reached List.mem_cons_self)
    · rw [List.mem_singleton.mp hz]
      exact passed
  refine unseen_of_gone hs (gone_along at_y in_force (List.pairwise_cons.mp since).2 ?_ ?_ ?_ ?_ ?_)
  · exact fun z hz => not_before z.2 (List.mem_cons_of_mem _ (List.mem_map_of_mem hz))
  · exact fun z hz => (List.pairwise_cons.mp since).1 z.2 (List.mem_map_of_mem hz)
  · exact not_before _ List.mem_cons_self
  · exact fun z hz => no_set z.2 (List.mem_map_of_mem hz)
  · intro z hz
    apply living
    simp [hz]

end

/- A key set for a second and then given five, read after both. -/
def expiredInTime : List Event :=
  [⟨.ofSecs 7, .command (.get (utf8 "k")) (.value none)⟩,
   ⟨.ofSecs 1, .command (.expire (utf8 "k") 5) (.integer 1)⟩,
   ⟨.ofSecs 1, .command (.set (utf8 "k") (.string (utf8 "v")) (some 1)) .ok⟩]

theorem no_resurrection_in_time : NoResurrection (utf8 "k") expiredInTime := by
  let _ := linux64
  obtain ⟨past, s, run, same, replayed⟩ :=
    replay_run (SortedQueue Expiry) ⟨0⟩ (.ofSecs 0) expiredInTime (by decide)
  have living : ((replay (new ⟨0⟩ (.ofSecs 0) : Shard (SortedQueue Expiry)) expiredInTime).map
      fun out => out.1.all (expireMeetsLiving (utf8 "k"))) = some true := by decide
  rw [replayed] at living
  rw [← same]
  refine no_resurrection run ?_ _ (List.all_eq_true.mp (Option.some.inj living))
  rw [same]
  unfold NonDecreasing
  decide

/- The same key, but the EXPIRE comes after its second is over. -/
def revival : List Event :=
  [⟨.ofSecs 3, .command (.get (utf8 "k")) (.value (some (.string (utf8 "v"))))⟩,
   ⟨.ofSecs 3, .command (.expire (utf8 "k") 100) (.integer 1)⟩,
   ⟨.ofSecs 1, .command (.set (utf8 "k") (.string (utf8 "v")) (some 1)) .ok⟩]

theorem expire_revives :
    ∃ past s, @Run (SortedQueue Expiry) _ linux64 past s ∧ past.map Prod.snd = revival ∧
      NonDecreasing revival ∧ ¬ NoResurrection (utf8 "k") revival := by
  let _ := linux64
  obtain ⟨past, s, run, same, _⟩ :=
    replay_run (SortedQueue Expiry) ⟨0⟩ (.ofSecs 0) revival (by decide)
  refine ⟨past, s, run, same, by unfold NonDecreasing; decide, ?_⟩
  intro law
  have unseen := law [⟨.ofSecs 3, .command (.get (utf8 "k")) (.value (some (.string (utf8 "v"))))⟩]
    ⟨.ofSecs 3, .command (.expire (utf8 "k") 100) (.integer 1)⟩
    [⟨.ofSecs 1, .command (.set (utf8 "k") (.string (utf8 "v")) (some 1)) .ok⟩]
    (.ofSecs 2) rfl (by decide) (by decide) [] _ _ rfl (by
      intro y hy
      rw [List.mem_singleton.mp hy]
      rintro ⟨v, ttl, haction⟩
      cases haction)
  cases (unseen _).1 rfl

end Shard

end RsDragonfly
