import RsDragonfly.Protocol.Serializer

/-! What a parsed value depends on, and writing it again.
A value that was parsed is one complete frame at the cursor. A frame parses the
same whatever follows it, and every value of a frame lies in the domain of the
serializer, whichever of its spellings was read. -/
namespace RsDragonfly

section
variable [Layout]

/-- Parsing gives the value and moves the cursor by `n` bytes. -/
def RespParser.Accepts (p : RespParser) (value : RespValue) (n : Nat) : Prop :=
  ∃ next, p.parse = (.ok (some value), next) ∧ next.buffer = p.buffer ∧ next.cursor = p.cursor + n

theorem RespParser.read_of_parse {p next : RespParser} {value : RespValue}
    (parsed : p.parse = (.ok (some value), next)) : ∃ rest,
      parseValue p.pending.length p.pending = .ok (value, rest) ∧ next = p.advance rest := by
  cases read : parseValue p.pending.length p.pending with
  | error e =>
    rw [RespParser.parse_error read] at parsed
    cases waits : failureOf e <;> rw [waits] at parsed <;> cases parsed
  | ok out =>
    rw [RespParser.parse_ok read] at parsed
    cases parsed
    exact ⟨out.2, rfl, rfl⟩

theorem RespParser.accepts_iff {p : RespParser} {value : RespValue} {n : Nat} :
    p.Accepts value n ↔ n ≤ p.pending.length ∧ Frames (p.pending.take n) [value] := by
  constructor
  · rintro ⟨next, parsed, _, moved⟩
    obtain ⟨rest, read, rfl⟩ := RespParser.read_of_parse parsed
    obtain ⟨bytes, split, frame⟩ := parse_frames _ _ _ _ read
    have size : n = bytes.length := by
      simp only [RespParser.advance, split, List.length_append] at moved
      omega
    rw [size, split, List.take_left, List.length_append]
    exact ⟨Nat.le_add_right _ _, frame⟩
  · rintro ⟨enough, frame⟩
    have split := List.take_append_drop n p.pending
    have read := frame.parse_one (List.length_take_le' n p.pending) (p.pending.drop n)
    rw [split] at read
    refine ⟨_, RespParser.parse_ok read, rfl, ?_⟩
    simp only [RespParser.advance, List.length_drop]
    omega

/-- An accepted value and its length depend on the bytes of its frame only: neither
what is fed later nor what came before the cursor matters. -/
theorem accepted_stays {p : RespParser} {value : RespValue} {n : Nat}
    (accepted : p.Accepts value n) :
    (∀ more, (p.feed more).Accepts value n) ∧
      ∀ q : RespParser, q.pending.take n = p.pending.take n → q.Accepts value n := by
  obtain ⟨enough, frame⟩ := RespParser.accepts_iff.mp accepted
  constructor
  · intro more
    rw [RespParser.accepts_iff, RespParser.pending_feed, List.length_append,
      List.take_append_of_le_length enough]
    exact ⟨Nat.le_add_right_of_le enough, frame⟩
  · intro q same
    have size : min n q.pending.length = n := by
      rw [← List.length_take, same, List.length_take, Nat.min_eq_left enough]
    rw [RespParser.accepts_iff, same]
    exact ⟨by omega, frame⟩

/-- What a first line may announce: a value to send back as it is, or a size within bounds. -/
def Head.Fits : Head → Prop
  | .done value => Sendable value
  | .bulk len => len ≤ maxValueSize
  | .array count => count * Layout.sizeOfRespValue ≤ isizeMax

theorem head_fits {type : UInt8} {line : Bytes} {announced : Head} (one : 10 ∉ line)
    (announces : head type line = .ok announced) : announced.Fits := by
  -- invalid sequences are replaced, but never by a line feed
  have one_line : '\n' ∉ (fromUtf8Lossy line).toList := by
    intro member
    obtain ⟨b, listed, feed⟩ := Library.Utf8.mem_of_mem_lossy (by decide) member
    cases (UInt8.toNat_inj.mp feed : b = 10)
    exact one listed
  unfold head at announces
  split at announces
  · cases announces
    exact .simpleString one_line
  · cases announces
    exact .error one_line
  · unfold integerHead at announces
    split at announces
    · cases announces
    · cases announces
      exact .integer _
  · unfold bulkHead at announces
    split at announces
    · cases announces
    · split_ifs at announces with absent negative long
      · cases announces
        exact .nullBulk
      · cases announces
        exact Nat.not_lt.mp long
  · unfold arrayHead at announces
    split at announces
    · cases announces
    · split_ifs at announces with absent negative large
      · cases announces
        exact .nullArray
      · cases announces
        exact Nat.not_lt.mp large

/-- Every value of a stream of frames can be serialized safely. -/
theorem Frames.sendable {bytes : Bytes} {values : List RespValue} (h : Frames bytes values) :
    ∀ value ∈ values, Sendable value := by
  induction h with
  | nil => simp
  | line known one announces _ ih => exact List.forall_mem_cons.mpr ⟨head_fits one announces, ih⟩
  | bulk known one announces _ ih =>
    exact List.forall_mem_cons.mpr ⟨.bulk (head_fits one announces), ih⟩
  | array known one announces _ _ members ih =>
    exact List.forall_mem_cons.mpr ⟨.array (head_fits one announces) members, ih⟩

/-- What is written for a sendable value parses as that value, to the last byte. -/
theorem Sendable.accepts {value : RespValue} (h : Sendable value) :
    (RespParser.new.feed (serializeResp2 value)).Accepts value (serializeResp2 value).length := by
  have pending : (RespParser.new.feed (serializeResp2 value)).pending = serializeResp2 value := by
    rw [RespParser.pending_feed]
    rfl
  rw [RespParser.accepts_iff, pending, List.take_length]
  exact ⟨Nat.le_refl _, h.frames⟩

theorem RespParser.Accepts.sendable {p : RespParser} {value : RespValue} {n : Nat}
    (accepted : p.Accepts value n) : Sendable value :=
  (RespParser.accepts_iff.mp accepted).2.sendable value List.mem_cons_self

/-- Whatever spelling a value was parsed from, its canonical form parses as the same value
and is consumed whole. -/
theorem parsed_value_reencodes {p next : RespParser} {value : RespValue}
    (parsed : p.parse = (.ok (some value), next)) :
    (RespParser.new.feed (serializeResp2 value)).Accepts value (serializeResp2 value).length := by
  obtain ⟨rest, _, rfl⟩ := RespParser.read_of_parse parsed
  have accepted : p.Accepts value (p.pending.length - rest.length) := ⟨_, parsed, rfl, rfl⟩
  exact accepted.sendable.accepts

end

/- After a consumed byte: a sign, leading zeros, an invalid byte and a negative zero. -/
def oddParser : RespParser :=
  ⟨utf8 "." ++ (utf8 "*+02\r\n+a" ++ 255 :: utf8 "\r\n$-0\r\n\r\n"), 1, by decide⟩

def oddValue : RespValue :=
  .array (some [.simpleString (String.ofList ['a', Library.Utf8.replacement]), .bulkString (some [])])

theorem odd_frame_stays :
    (∀ more, @RespParser.Accepts linux64 (oddParser.feed more) oddValue 18) ∧
      ∀ q : RespParser, q.pending.take 18 = oddParser.pending.take 18 →
        @RespParser.Accepts linux64 q oddValue 18 := by
  let _ := linux64
  exact accepted_stays ⟨_, rfl, rfl, rfl⟩

theorem odd_frame_reencodes :
    (@RespParser.parse linux64 oddParser).1 = .ok (some oddValue) ∧
      serializeResp2 oddValue = utf8 "*2\r\n+a\uFFFD\r\n$0\r\n\r\n" ∧
      @RespParser.Accepts linux64 (RespParser.new.feed (serializeResp2 oddValue)) oddValue 17 := by
  let _ := linux64
  have parsed : oddParser.parse = (.ok (some oddValue), oddParser.advance []) := rfl
  exact ⟨rfl, by decide, parsed_value_reencodes parsed⟩

end RsDragonfly
