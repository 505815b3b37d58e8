import RsDragonfly.Library.Transition
import RsDragonfly.Snapshot.EntrySection

/-! A deadline through repeated saves and loads.
A save floors the deadline to a Unix second, and a load floors its own clock
before it adds the difference back. The first loss happens once; the second is
made up for by the same clock, so the Unix second of the deadline is kept. -/
namespace RsDragonfly
open Library

/-- The stamp of a save, put through the test and the conversion of a later load.
No result is a panic; the inner result is absent if the loader skips the key. -/
def cycle (save load : Clock) (deadline : Instant) : Option (Option Instant) := do
  let expiryTimestamp ← instantToUnixTimestamp save deadline
  let nowUnix := Duration.asSecs (load.system.saturatingDurationSince Timespec.unixEpoch)
  if expiryTimestamp ≤ nowUnix then return none
  else
    let expTime ← unixTimestampToInstant load expiryTimestamp
    return some expTime

section
variable {save load : Clock} {deadline : Instant}

theorem cycle_cases {result : Option Instant} (returned : cycle save load deadline = some result) :
    (result = none ∧ stampSecond save deadline ≤ load.system.secs) ∨
    ∃ expTime, result = some expTime ∧ load.system.secs < stampSecond save deadline ∧
      expTime.nanos =
        load.instant.nanos + nanosPerSec * (stampSecond save deadline - load.system.secs) := by
  obtain ⟨stamp, stamped, returned⟩ := Option.bind_eq_some_iff.mp returned
  have on_scale : ¬ OffScale save deadline := by
    rw [← instantToUnixTimestamp_isSome_iff, stamped]
    rfl
  rw [instantToUnixTimestamp_eq on_scale] at stamped
  cases stamped
  simp only [le_nowUnix_iff, stamp_toNat on_scale] at returned
  split at returned
  · rename_i expired
    cases returned
    exact .inl ⟨rfl, expired⟩
  · rename_i later
    obtain ⟨expTime, converted, returned⟩ := Option.bind_eq_some_iff.mp returned
    cases returned
    have sum := unixTimestampToInstant_eq_some.mp converted
    rw [stamp_toNat on_scale] at sum
    exact .inr ⟨expTime, rfl, Nat.not_le.mp later, sum⟩

/-- One save and load of an entry treats its deadline as a cycle does. -/
theorem reloaded_iff_cycle {entry loaded : Entry} (in_range : EntryInRange save load entry)
    (dated : entry.expiry = some deadline) :
    Reloaded save load entry loaded ↔ loaded.value = entry.value ∧
      ∃ expTime, loaded.expiry = some expTime ∧
        cycle save load deadline = some (some expTime) := by
  obtain ⟨on_scale, fits⟩ := in_range deadline dated
  have converted (expTime : Instant) : cycle save load deadline = some (some expTime) ↔
      load.system.secs < stampSecond save deadline ∧ expTime.nanos =
        load.instant.nanos + nanosPerSec * (stampSecond save deadline - load.system.secs) := by
    simp only [cycle, instantToUnixTimestamp_eq on_scale, Option.bind_eq_bind, Option.bind_some,
      le_nowUnix_iff, stamp_toNat on_scale]
    split
    · rename_i expired
      simp only [Option.pure_def, Option.some.injEq, reduceCtorEq, false_iff]
      omega
    · rename_i later
      simp only [Option.bind_eq_some_iff, Option.pure_def, Option.some.injEq, exists_eq_right,
        unixTimestampToInstant_eq_some, stamp_toNat on_scale, Nat.not_le.mp later, true_and]
  simp only [Reloaded, dated, converted]
  constructor
  · rintro ⟨value, later, expTime, expiry, sum⟩
    exact ⟨value, expTime, expiry, later, sum⟩
  · rintro ⟨value, expTime, expiry, later, sum⟩
    exact ⟨value, later, expTime, expiry, sum⟩

end

/-- A process as far as one key goes: the distance of its two clocks, the system
time of its start and the deadline of the key, if it holds the key at all. -/
structure Process where
  offset : Int
  time : SystemTime
  deadline : Option Instant

namespace Process

/-- The deadline on the system clock, in nanoseconds. -/
def systemTime (p : Process) (deadline : Instant) : Int := deadline.nanos + p.offset

/-- Its whole second. -/
def second (p : Process) (deadline : Instant) : Int := p.systemTime deadline / nanosPerSec

/-- A reading of both clocks in this process. -/
def Reads (p : Process) (clock : Clock) : Prop :=
  (clock.system.nanos : Int) = clock.instant.nanos + p.offset

end Process

/-- A save by the running process and a load by the next one. The system clock never goes
back. -/
structure Cycle (p : Process) (label : Clock × Clock) (next : Process) : Prop where
  saves : p.Reads label.1
  loads : next.Reads label.2
  started : p.time ≤ label.1.system
  later : label.1.system ≤ label.2.system
  restarted : next.time = label.2.system
  restored : match p.deadline with
    | none => next.deadline = none
    | some deadline => cycle label.1 label.2 deadline = some next.deadline

def cycles (origin : Process) : System Process (Clock × Clock) where
  start p := p = origin
  step := Cycle

theorem Cycle.deadline_cases {p next : Process} {label : Clock × Clock}
    (h : Cycle p label next) {deadline : Instant} (dated : p.deadline = some deadline) :
    (next.deadline = none ∧ p.second deadline ≤ next.time.secs) ∨
    ∃ expTime, next.deadline = some expTime ∧ (next.time.secs : Int) < p.second deadline ∧
      next.second expTime = p.second deadline := by
  obtain ⟨saves, loads, _, later, restarted, restored⟩ := h
  rw [dated] at restored
  have order := Timespec.le_iff.mp later
  rw [restarted]
  unfold Process.Reads at saves loads
  rcases cycle_cases restored with ⟨skipped, passed⟩ | ⟨expTime, kept, ahead, sum⟩
  · refine .inl ⟨skipped, ?_⟩
    simp only [Process.second, Process.systemTime, stampSecond, Timespec.secs, nanosPerSec] at *
    omega
  · refine .inr ⟨expTime, kept, ?_, ?_⟩
    · simp only [Process.second, Process.systemTime, stampSecond, Timespec.secs, nanosPerSec] at *
      omega
    · simp only [Process.second, Process.systemTime, stampSecond, Timespec.secs, nanosPerSec] at *
      omega

theorem Cycle.expired {p next : Process} {label : Clock × Clock} (h : Cycle p label next)
    {deadline : Instant} (dated : p.deadline = some deadline)
    (passed : deadline ≤ label.1.instant) : next.deadline = none := by
  have restored := h.restored
  have later := Timespec.le_iff.mp h.later
  rw [dated] at restored
  rcases cycle_cases restored with ⟨skipped, _⟩ | ⟨expTime, _, ahead, _⟩
  · exact skipped
  · have past := Timespec.le_iff.mp passed
    simp only [stampSecond, Timespec.secs, nanosPerSec] at ahead
    omega

theorem Cycle.absent {p next : Process} {label : Clock × Clock} (h : Cycle p label next)
    (gone : p.deadline = none) : next.deadline = none := by
  have restored := h.restored
  rwa [gone] at restored

/-- The deadline after any number of cycles: the key is there unless the second of the
last load reached that of the deadline, and the deadline never left its second. -/
theorem second_kept {origin p : Process} {past : List (Process × (Clock × Clock))}
    {deadline : Instant} (dated : origin.deadline = some deadline)
    (run : (cycles origin).Run past p) :
    (∀ d, p.deadline = some d → p.second d = origin.second deadline) ∧
      (p.deadline = none → origin.second deadline ≤ p.time.secs) ∧
      (past ≠ [] → ∀ d, p.deadline = some d → (p.time.secs : Int) < origin.second deadline) := by
  induction run with
  | @start q first =>
    cases (first : q = origin)
    refine ⟨fun d hd => ?_, fun gone => ?_, fun some_load => absurd rfl some_load⟩
    · rw [dated] at hd
      cases hd
      rfl
    · rw [dated] at gone
      cases gone
  | @step past p next label before hs ih =>
    have h : Cycle p label next := hs
    obtain ⟨kept, gone, _⟩ := ih
    cases held : p.deadline with
    | none =>
      have absent := h.absent held
      have reached := gone held
      have onward : p.time.nanos ≤ next.time.nanos := by
        rw [h.restarted]
        exact le_trans (Timespec.le_iff.mp h.started) (Timespec.le_iff.mp h.later)
      refine ⟨fun d hd => ?_, fun _ => ?_, fun _ d hd => ?_⟩
      · cases absent.symm.trans hd
      · have seconds : p.time.secs ≤ next.time.secs := Nat.div_le_div_right onward
        omega
      · cases absent.symm.trans hd
    | some current =>
      have same := kept current held
      rw [← same]
      rcases h.deadline_cases held with ⟨skipped, reached⟩ | ⟨expTime, loaded, ahead, second⟩
      · refine ⟨fun d hd => ?_, fun _ => reached, fun _ d hd => ?_⟩
        · cases skipped.symm.trans hd
        · cases skipped.symm.trans hd
      · refine ⟨fun d hd => ?_, fun none_left => ?_, fun _ _ _ => ahead⟩
        · cases loaded.symm.trans hd
          exact second
        · cases loaded.symm.trans none_left

theorem expired_stays_away {origin p : Process} {past : List (Process × (Clock × Clock))}
    (run : (cycles origin).Run past p) : ∀ x ∈ past, ∀ d, x.1.deadline = some d →
      d ≤ x.2.1.instant → p.deadline = none := by
  induction run with
  | start _ => simp
  | @step past p next label before hs ih =>
    have h : Cycle p label next := hs
    rw [List.forall_mem_cons]
    exact ⟨fun d held passed => h.expired held passed,
      fun x member d held passed => h.absent (ih x member d held passed)⟩

/-- Deadlines do not drift over saves and loads. -/
theorem deadline_does_not_drift {origin p : Process} {past : List (Process × (Clock × Clock))}
    {deadline : Instant} (dated : origin.deadline = some deadline)
    (run : (cycles origin).Run past p) :
    (∀ x before, past = x :: before →
      ((∃ d, p.deadline = some d) ↔ (x.2.2.system.secs : Int) < origin.second deadline)) ∧
    (∀ d, p.deadline = some d → p.second d = origin.second deadline ∧
      (p.systemTime d - origin.systemTime deadline).natAbs < nanosPerSec) ∧
    (∀ x ∈ past, ∀ d, x.1.deadline = some d → d ≤ x.2.1.instant → p.deadline = none) := by
  obtain ⟨kept, gone, alive⟩ := second_kept dated run
  refine ⟨?_, fun d held => ⟨kept d held, ?_⟩, expired_stays_away run⟩
  · rintro x before rfl
    have last : p.time = x.2.2.system := by
      cases run with
      | step _ hs => exact Cycle.restarted hs
    rw [← last]
    constructor
    · rintro ⟨d, held⟩
      exact alive (List.cons_ne_nil _ _) d held
    · intro ahead
      apply Option.ne_none_iff_exists'.mp
      intro absent
      have reached := gone absent
      omega
  · have same := kept d held
    unfold Process.second nanosPerSec at same
    unfold nanosPerSec
    omega

/- Three processes: the deadline survives the first restart in the middle of its second
and is dropped by the second restart, within that second. -/
def firstProcess : Process := ⟨1699999999000000000, .ofSecs 1700000000, some ⟨100700000000, by decide⟩⟩
def secondProcess : Process :=
  ⟨1700000017700000000, ⟨1700000020900000000, by decide⟩, some ⟨82200000000, by decide⟩⟩
def thirdProcess : Process := ⟨1700000098100000000, ⟨1700000099100000000, by decide⟩, none⟩

theorem restarts_do_not_drift :
    ∃ past, (cycles firstProcess).Run past thirdProcess ∧ past.length = 2 ∧
      (firstProcess.second ⟨100700000000, by decide⟩ = 1700000099) ∧
      (secondProcess.second ⟨82200000000, by decide⟩ = 1700000099) ∧
      ∀ x before, past = x :: before →
        ((∃ d, thirdProcess.deadline = some d) ↔ (x.2.2.system.secs : Int) < 1700000099) := by
  have first : Cycle firstProcess (⟨⟨10500000000, by decide⟩, ⟨1700000009500000000, by decide⟩⟩,
      ⟨⟨3200000000, by decide⟩, ⟨1700000020900000000, by decide⟩⟩) secondProcess :=
    ⟨rfl, rfl, by decide, by decide, rfl, rfl⟩
  have second : Cycle secondProcess (⟨⟨4000000000, by decide⟩, ⟨1700000021700000000, by decide⟩⟩,
      ⟨⟨1000000000, by decide⟩, ⟨1700000099100000000, by decide⟩⟩) thirdProcess :=
    ⟨rfl, rfl, by decide, by decide, rfl, rfl⟩
  have run : (cycles firstProcess).Run _ thirdProcess := .step (.step (.start rfl) first) second
  have kept := deadline_does_not_drift rfl run
  exact ⟨_, run, rfl, rfl, rfl, kept.1⟩

end RsDragonfly
