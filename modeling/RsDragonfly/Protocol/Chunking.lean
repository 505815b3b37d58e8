import Mathlib.Logic.Basic
import Mathlib.Tactic.ByContra
import RsDragonfly.Protocol.Grammar

/-! A stream of bytes and the chunks it arrives in.
`Scans` says what a drained parser has seen of some bytes. It is a function of
the bytes and respects complete frames in front of them, so two ways of feeding
one stream are compared through it. -/
namespace RsDragonfly

/-- Waiting for more bytes is no failure. -/
def failureOf : ParseFailure → Option ParseFailure
  | .error .incomplete => none
  | e => some e

theorem failureOf_eq_some {e f : ParseFailure} :
    failureOf e = some f ↔ e = f ∧ f ≠ .error .incomplete := by
  unfold failureOf
  split
  · constructor
    · intro impossible
      cases impossible
    · rintro ⟨rfl, other⟩
      exact absurd rfl other
  · rename_i other
    rw [Option.some.injEq]
    constructor
    · rintro rfl
      exact ⟨rfl, other⟩
    · exact And.left

namespace RespParser

@[simp] theorem pending_feed (p : RespParser) (data : Bytes) :
    (p.feed data).pending = p.pending ++ data :=
  List.drop_append_of_le_length p.inside

@[simp] theorem pending_compact (p : RespParser) : p.compact.pending = p.pending := rfl

theorem pending_advance {p : RespParser} {bytes rest : Bytes} (split : p.pending = bytes ++ rest) :
    (p.advance rest).pending = rest := by
  have consumed : p.pending.length - rest.length = bytes.length := by
    rw [split, List.length_append]
    omega
  unfold pending advance
  simp only
  rw [consumed, ← List.drop_drop]
  change p.pending.drop bytes.length = rest
  rw [split, List.drop_left]

end RespParser

section
variable [Layout]

/-- The complete frames of the input, why the parser stopped, and what is left. -/
def Scans (input : Bytes) (values : List RespValue) (failure : Option ParseFailure)
    (left : Bytes) : Prop :=
  ∃ done e, input = done ++ left ∧ Frames done values ∧
    parseValue left.length left = .error e ∧ failure = failureOf e

theorem RespParser.parse_error {p : RespParser} {e : ParseFailure}
    (failed : parseValue p.pending.length p.pending = .error e) :
    p.parse = (match failureOf e with
      | none => .ok none
      | some e => .error e, p) := by
  unfold parse
  split
  · rename_i at_end
    have nothing : p.pending = [] := List.drop_eq_nil_of_le at_end
    rw [nothing] at failed
    cases failed
    rfl
  · rw [failed]
    unfold failureOf
    split <;> simp_all

theorem RespParser.parse_ok {p : RespParser} {value : RespValue} {rest : Bytes}
    (parsed : parseValue p.pending.length p.pending = .ok (value, rest)) :
    p.parse = (.ok (some value), p.advance rest) := by
  have inside : ¬ p.cursor ≥ p.buffer.length := by
    intro at_end
    have nothing : p.pending = [] := List.drop_eq_nil_of_le at_end
    rw [nothing] at parsed
    cases parsed
  simp only [parse, if_neg inside, parsed]

theorem Frames.length_pos {bytes : Bytes} {value : RespValue} {values : List RespValue}
    (h : Frames bytes (value :: values)) : 0 < bytes.length := by
  cases h <;> exact Nat.succ_pos _

/-- The inner loop sees all complete frames that are there. -/
theorem drainLoop_scans (rounds : Nat) (p : RespParser) (enough : p.pending.length < rounds) :
    Scans p.pending (drainLoop rounds p).1 (drainLoop rounds p).2.1
      (drainLoop rounds p).2.2.pending := by
  induction rounds generalizing p with
  | zero => exact absurd enough (Nat.not_lt_zero _)
  | succ rounds ih =>
    cases parsed : parseValue p.pending.length p.pending with
    | error e =>
      have stopped : drainLoop (rounds + 1) p = ([], failureOf e, p) := by
        simp only [drainLoop, RespParser.parse_error parsed]
        cases failureOf e <;> rfl
      rw [stopped]
      exact ⟨[], e, rfl, .nil, parsed, rfl⟩
    | ok out =>
      obtain ⟨value, rest⟩ := out
      obtain ⟨bytes, split, frame⟩ := parse_frames _ _ _ _ parsed
      have left := RespParser.pending_advance split
      have shorter : (p.advance rest).pending.length < rounds := by
        have consumed := frame.length_pos
        rw [left]
        rw [split, List.length_append] at enough
        omega
      obtain ⟨done, e, later, frames, failed, failure⟩ := ih (p.advance rest) shorter
      simp only [drainLoop, RespParser.parse_ok parsed]
      rw [left] at later
      refine ⟨bytes ++ done, e, ?_, frame.append frames, failed, failure⟩
      rw [split, List.append_assoc, ← later]

theorem drain_scans (p : RespParser) :
    Scans p.pending (drain p).1 (drain p).2.1 (drain p).2.2.pending :=
  drainLoop_scans _ p (Nat.lt_succ_self _)

theorem scans_exists (input : Bytes) : ∃ values failure left, Scans input values failure left :=
  ⟨_, _, _, drain_scans ⟨input, 0, Nat.zero_le _⟩⟩

theorem Scans.prepend {done rest left : Bytes} {values more : List RespValue}
    {failure : Option ParseFailure} (frames : Frames done values)
    (h : Scans rest more failure left) : Scans (done ++ rest) (values ++ more) failure left := by
  obtain ⟨later, e, rfl, more_frames, failed, failure⟩ := h
  exact ⟨done ++ later, e, (List.append_assoc _ _ _).symm, frames.append more_frames, failed,
    failure⟩

/-- What does not parse at its own depth does not parse at any. -/
theorem fails_at_depth {input : Bytes} {e : ParseFailure}
    (failed : parseValue input.length input = .error e) (depth : Nat) :
    ∃ f, parseValue depth input = .error f := by
  cases parsed : parseValue depth input with
  | error f => exact ⟨f, rfl⟩
  | ok out =>
    obtain ⟨bytes, split, frame⟩ := parse_frames _ _ _ _ parsed
    have again := frame.parse input.length out.2 (by rw [split, List.length_append]; omega)
    rw [← split] at again
    simp only [List.length_singleton, parseElements, failed, error_bind] at again
    cases again

theorem Scans.not_shorter {input left left' : Bytes} {values values' : List RespValue}
    {failure failure' : Option ParseFailure} (h : Scans input values failure left)
    (h' : Scans input values' failure' left') : values'.length ≤ values.length := by
  obtain ⟨done, e, rfl, frames, failed, _⟩ := h
  obtain ⟨done', e', split, frames', _, _⟩ := h'
  by_contra longer
  obtain ⟨f, stuck⟩ := fails_at_depth failed (done ++ left).length
  have passed := frames.parse (done ++ left).length left (by rw [List.length_append]; omega)
  have all := frames'.parse (done ++ left).length left' (by rw [split, List.length_append]; omega)
  have stops := parseElements_stops passed stuck (values'.length - values.length - 1)
  have count : values.length + (values'.length - values.length - 1 + 1) = values'.length := by
    omega
  rw [count] at stops
  rw [split] at stops all
  rw [all] at stops
  cases stops

theorem Scans.unique {input left left' : Bytes} {values values' : List RespValue}
    {failure failure' : Option ParseFailure} (h : Scans input values failure left)
    (h' : Scans input values' failure' left') :
    values = values' ∧ failure = failure' ∧ left = left' := by
  have size : values.length = values'.length :=
    Nat.le_antisymm (h'.not_shorter h) (h.not_shorter h')
  obtain ⟨done, e, rfl, frames, failed, rfl⟩ := h
  obtain ⟨done', e', split, frames', failed', rfl⟩ := h'
  have one := frames.parse (done ++ left).length left (by rw [List.length_append]; omega)
  have two := frames'.parse (done ++ left).length left' (by rw [split, List.length_append]; omega)
  rw [← split, ← size, one] at two
  cases two
  rw [failed] at failed'
  cases failed'
  exact ⟨rfl, rfl, rfl⟩

/-- Wherever the bytes so far stop inside a line of an unfinished frame, the rest
of the stream leaves that frame malformed. -/
def BrokenIfCut (soFar later : Bytes) : Prop :=
  ∀ done frame values, soFar = done ++ frame → Frames done values → CutsLine frame →
    BreaksFormat (frame ++ later)

/-- This is so at every boundary between the chunks, and at the ends. -/
def CutsAreBroken (pending : Bytes) (chunks : List Bytes) : Prop :=
  ∀ front back, chunks = front ++ back → BrokenIfCut (pending ++ front.flatten) back.flatten

theorem CutsLine.scans {done frame : Bytes} {values : List RespValue} (cut : CutsLine frame)
    (frames : Frames done values) :
    Scans (done ++ frame) values (some (.error .invalidFormat)) frame :=
  ⟨done, _, rfl, frames, cut.breaks.parse _ (Nat.le_refl _), rfl⟩

/-- Complete frames in front do not matter. -/
theorem brokenIfCut_prepend {done rest later : Bytes} {values : List RespValue}
    (frames : Frames done values) : BrokenIfCut (done ++ rest) later ↔ BrokenIfCut rest later := by
  constructor
  · rintro broken more frame others rfl more_frames cut
    exact broken (done ++ more) frame _ (List.append_assoc _ _ _).symm
      (frames.append more_frames) cut
  · intro broken first frame others split first_frames cut
    have at_cut := cut.scans first_frames
    rw [← split] at at_cut
    obtain ⟨more, failure, left, scans⟩ := scans_exists rest
    obtain ⟨_, _, rfl⟩ := at_cut.unique (scans.prepend frames)
    obtain ⟨inner, e, rfl, inner_frames, _, _⟩ := scans
    exact broken inner frame more rfl inner_frames cut

theorem cutsAreBroken_nil {pending : Bytes} {failure : Option ParseFailure}
    (waiting : Scans pending [] failure pending) (complete : failure = none) (later : Bytes) :
    BrokenIfCut pending later := by
  intro done frame values split frames cut
  have at_cut := cut.scans frames
  rw [← split] at at_cut
  obtain ⟨_, same, _⟩ := waiting.unique at_cut
  rw [complete] at same
  cases same

/-- After a chunk, only what it left unparsed matters. -/
theorem cutsAreBroken_cons {pending chunk left : Bytes} {chunks : List Bytes}
    {values : List RespValue} {done : Bytes} (waiting : Scans pending [] none pending)
    (split : pending ++ chunk = done ++ left) (frames : Frames done values) :
    CutsAreBroken pending (chunk :: chunks) ↔ CutsAreBroken left chunks := by
  have shift (front : List Bytes) : pending ++ (chunk :: front).flatten =
      done ++ (left ++ front.flatten) := by
    rw [List.flatten_cons, ← List.append_assoc, split, List.append_assoc]
  constructor
  · intro broken front back cut
    rw [← brokenIfCut_prepend frames, ← shift]
    exact broken (chunk :: front) back (by rw [cut, List.cons_append])
  · intro broken front back cut
    cases front with
    | nil =>
      rw [List.flatten_nil, List.append_nil]
      exact cutsAreBroken_nil waiting rfl _
    | cons first front =>
      obtain ⟨rfl, rest⟩ := List.cons.inj cut
      rw [shift, brokenIfCut_prepend frames]
      exact broken front back rest

/-- A failure that no bytes can mend: at no later boundary is a good frame cut. -/
theorem cutsAreBroken_of_failure {left : Bytes} {e : ParseFailure}
    (fails : ∀ more, parseValue (left ++ more).length (left ++ more) = .error e)
    (complete : e ≠ .error .incomplete) (chunks : List Bytes) : CutsAreBroken left chunks := by
  rintro front back rfl done frame values split frames cut
  have at_cut := cut.scans frames
  rw [← split] at at_cut
  have stuck : Scans (left ++ front.flatten) [] (failureOf e) (left ++ front.flatten) :=
    ⟨[], e, rfl, .nil, fails _, rfl⟩
  obtain ⟨_, same, rfl⟩ := stuck.unique at_cut
  obtain ⟨rfl, _⟩ := failureOf_eq_some.mp same
  apply breaks_of_invalidFormat
  rw [List.append_assoc]
  exact fails _

/-- At a cut line the parser gives up, rightly only if the frame is malformed anyway. -/
theorem cutsAreBroken_of_cut {left : Bytes} (cut : CutsLine left) (chunks : List Bytes) :
    CutsAreBroken left chunks ↔ BreaksFormat (left ++ chunks.flatten) := by
  constructor
  · intro broken
    have here := broken [] chunks rfl
    rw [List.flatten_nil, List.append_nil] at here
    exact here [] left [] rfl .nil cut
  · rintro breaks front back rfl done frame values split frames later_cut
    rw [List.flatten_append, ← List.append_assoc] at breaks
    have whole : Scans (left ++ front.flatten ++ back.flatten) [] _ _ :=
      ⟨[], _, rfl, .nil, breaks.parse _ (Nat.le_refl _), rfl⟩
    obtain ⟨more, failure, rest, scans⟩ := scans_exists (frame ++ back.flatten)
    have parts := scans.prepend frames
    rw [← List.append_assoc, ← split] at parts
    obtain ⟨none_done, _, _⟩ := whole.unique parts
    obtain ⟨rfl, _⟩ := List.append_eq_nil_iff.mp none_done.symm
    cases frames
    rw [← List.nil_append frame, ← split]
    exact breaks

/-- A drained parser, driven by more chunks, and the whole of the stream. -/
theorem drive_eq_iff (chunks : List Bytes) : ∀ (p : RespParser) values failure left,
    Scans p.pending [] none p.pending → Scans (p.pending ++ chunks.flatten) values failure left →
    (drive p chunks = (values, failure) ↔ CutsAreBroken p.pending chunks) := by
  induction chunks with
  | nil =>
    intro p values failure left waiting whole
    rw [List.flatten_nil, List.append_nil] at whole
    obtain ⟨rfl, rfl, _⟩ := waiting.unique whole
    refine iff_of_true rfl ?_
    intro front back split
    obtain ⟨rfl, rfl⟩ := List.append_eq_nil_iff.mp split.symm
    rw [List.flatten_nil, List.append_nil]
    exact cutsAreBroken_nil waiting rfl _
  | cons chunk chunks ih =>
    intro p values failure left waiting whole
    have scans := drain_scans (p.feed chunk)
    rw [RespParser.pending_feed] at scans
    obtain ⟨done, e, split, frames, failed, hfailure⟩ := scans
    rw [List.flatten_cons, ← List.append_assoc, split, List.append_assoc] at whole
    obtain ⟨more, outcome, rest, later⟩ :=
      scans_exists ((drain (p.feed chunk)).2.2.pending ++ chunks.flatten)
    obtain ⟨rfl, rfl, rfl⟩ := whole.unique (later.prepend frames)
    rw [cutsAreBroken_cons waiting split frames]
    simp only [drive]
    cases hf : (drain (p.feed chunk)).2.1 with
    | none =>
      rw [hf] at hfailure
      have still : Scans (drain (p.feed chunk)).2.2.compact.pending [] none
          (drain (p.feed chunk)).2.2.compact.pending :=
        ⟨[], e, rfl, .nil, failed, hfailure⟩
      rw [← RespParser.pending_compact, ← ih _ _ _ _ still later]
      simp only [Prod.ext_iff, List.append_cancel_left_eq]
    | some f =>
      rw [hf] at hfailure
      obtain ⟨rfl, complete⟩ := failureOf_eq_some.mp hfailure.symm
      by_cases cut : CutsLine (drain (p.feed chunk)).2.2.pending
      · -- the parser stopped for good at an unfinished line
        rw [cutsAreBroken_of_cut cut]
        have format := cut.breaks.parse _ (Nat.le_refl _)
        rw [failed, Except.error.injEq] at format
        subst format
        constructor
        · intro same
          obtain ⟨same_values, rfl⟩ := Prod.mk.inj same
          obtain ⟨inner, e, rest_split, inner_frames, rest_failed, rest_failure⟩ := later
          have none_more : more = [] := List.self_eq_append_right.mp same_values
          subst none_more
          cases inner_frames
          obtain ⟨rfl, _⟩ := failureOf_eq_some.mp rest_failure.symm
          rw [rest_split]
          exact breaks_of_invalidFormat _ _ rest_failed
        · intro breaks
          have stuck : Scans ((drain (p.feed chunk)).2.2.pending ++ chunks.flatten) [] _ _ :=
            ⟨[], _, rfl, .nil, breaks.parse _ (Nat.le_refl _), rfl⟩
          obtain ⟨rfl, rfl, _⟩ := later.unique stuck
          rw [List.append_nil]
          rfl
      · have stays (more : Bytes) := failure_stays _ _ _ failed complete cut more
          ((drain (p.feed chunk)).2.2.pending ++ more).length (by rw [List.length_append]; omega)
        have stuck : Scans ((drain (p.feed chunk)).2.2.pending ++ chunks.flatten) [] _ _ :=
          ⟨[], _, rfl, .nil, stays _, rfl⟩
        obtain ⟨rfl, rfl, _⟩ := later.unique stuck
        refine iff_of_true ?_ (cutsAreBroken_of_failure stays complete chunks)
        rw [List.append_nil, ← hfailure]

theorem scans_new : Scans RespParser.new.pending [] none RespParser.new.pending :=
  ⟨[], _, rfl, .nil, rfl, rfl⟩

/-- Driving the parser by chunks gives what the whole stream gives if and only if
every frame that a chunk boundary cuts inside a line is malformed in the whole
stream as well. -/
theorem chunking_invariant_iff (chunks : List Bytes) :
    drive .new chunks = drive .new [chunks.flatten] ↔ CutsAreBroken [] chunks := by
  have whole := drain_scans (RespParser.new.feed chunks.flatten)
  rw [RespParser.pending_feed] at whole
  have once : drive .new [chunks.flatten] =
      ((drain (RespParser.new.feed chunks.flatten)).1,
        (drain (RespParser.new.feed chunks.flatten)).2.1) := by
    simp only [drive]
    cases (drain (RespParser.new.feed chunks.flatten)).2.1 with
    | none => rw [List.append_nil]
    | some f => rfl
  rw [once]
  exact drive_eq_iff chunks .new _ _ _ scans_new whole

end

/-- A reply cut in its line is refused, although the whole of it is well formed. -/
theorem cut_reply_refused :
    (∀ chunk ∈ [utf8 "+O", utf8 "K\r\n"], chunk ≠ []) ∧
    @drive linux64 .new [utf8 "+O", utf8 "K\r\n"] ≠
      @drive linux64 .new [[utf8 "+O", utf8 "K\r\n"].flatten] := by
  refine ⟨by decide, fun same => ?_⟩
  have count := congrArg (fun outcome => outcome.1.length) same
  exact absurd count (by decide)

end RsDragonfly
