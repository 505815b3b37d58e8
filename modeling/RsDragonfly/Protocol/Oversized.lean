import RsDragonfly.Protocol.Chunking

/-! When the parser panics.
The count of an array is used as a capacity before any element is seen. A count
whose elements would not fit the address space is the one way to a panic, in
front of the buffer or behind the complete first elements of an outer array. -/
namespace RsDragonfly

/-- The count of an array header is more than a vector can hold. -/
def ExceedsCapacity [Layout] (line : Bytes) : Prop :=
  ∃ count : Int64, lineInteger line = .ok count ∧ 0 ≤ count ∧
    isizeMax < count.toNatClampNeg * Layout.sizeOfRespValue

/-- The first frame comes to such a header, at any depth. -/
inductive OversizedArray [Layout] : Bytes → Prop where
  | header {line : Bytes} (rest : Bytes) (one : 10 ∉ line) (exceeds : ExceedsCapacity line) :
      OversizedArray (42 :: (line ++ (crlf ++ rest)))
  | element {line before last : Bytes} {count : Nat} {members : List RespValue} (one : 10 ∉ line)
      (announced : arrayHead line = .ok (.array count)) (frames : Frames before members)
      (fewer : members.length < count) (inner : OversizedArray last) :
      OversizedArray (42 :: (line ++ (crlf ++ (before ++ last))))

theorem lineInteger_no_panic {line : Bytes} : lineInteger line ≠ .error .panic := by
  intro panicked
  cases lineInteger_error panicked

theorem nonnegative_iff {n : Int64} : 0 ≤ n ↔ n ≠ -1 ∧ ¬ n < -1 := by
  have zero : (0 : Int64).toInt = 0 := rfl
  have minus : (-1 : Int64).toInt = -1 := rfl
  rw [Int64.le_iff_toInt_le, Int64.lt_iff_toInt_lt, ne_eq, ← Int64.toInt_inj, zero, minus]
  omega

section
variable [Layout]

theorem arrayHead_panic_iff {line : Bytes} :
    arrayHead line = .error .panic ↔ ExceedsCapacity line := by
  constructor
  · intro panicked
    unfold arrayHead at panicked
    split at panicked
    · rename_i e read
      cases panicked
      exact absurd read lineInteger_no_panic
    · rename_i count read
      split_ifs at panicked with absent negative large
      · cases panicked
      · exact ⟨count, read, nonnegative_iff.mpr ⟨absent, negative⟩, large⟩
  · rintro ⟨count, read, valid, large⟩
    obtain ⟨present, nonnegative⟩ := nonnegative_iff.mp valid
    simp only [arrayHead, read, if_neg present, if_neg nonnegative, if_pos large]

/-- No other header panics. -/
theorem head_panic {type : UInt8} {line : Bytes} (known : type ∈ typeBytes)
    (panicked : head type line = .error .panic) : type = 42 ∧ ExceedsCapacity line := by
  simp only [typeBytes, List.mem_cons, List.not_mem_nil, or_false] at known
  rcases known with rfl | rfl | rfl | rfl | rfl
  · cases panicked
  · cases panicked
  · change integerHead line = _ at panicked
    unfold integerHead at panicked
    split at panicked
    · rename_i e read
      cases panicked
      exact absurd read lineInteger_no_panic
    · cases panicked
  · change bulkHead line = _ at panicked
    unfold bulkHead at panicked
    split at panicked
    · rename_i e read
      cases panicked
      exact absurd read lineInteger_no_panic
    · split_ifs at panicked <;> cases panicked
  · exact ⟨rfl, arrayHead_panic_iff.mp panicked⟩

theorem head_array {type : UInt8} {line : Bytes} {count : Nat} (known : type ∈ typeBytes)
    (announced : head type line = .ok (.array count)) :
    type = 42 ∧ arrayHead line = .ok (.array count) := by
  simp only [typeBytes, List.mem_cons, List.not_mem_nil, or_false] at known
  rcases known with rfl | rfl | rfl | rfl | rfl
  · cases announced
  · cases announced
  · change integerHead line = _ at announced
    unfold integerHead at announced
    split at announced <;> cases announced
  · change bulkHead line = _ at announced
    unfold bulkHead at announced
    split at announced
    · cases announced
    · split_ifs at announced <;> cases announced
  · exact ⟨rfl, announced⟩

theorem oversized_of_panic (depth : Nat) : ∀ input,
    parseValue depth input = .error .panic → OversizedArray input := by
  induction depth with
  | zero =>
    intro input panicked
    cases panicked
  | succ depth ih =>
    intro input panicked
    have cases_of := level depth input
    rw [panicked] at cases_of
    cases cases_of with
    | badHead rest known one refused =>
      obtain ⟨rfl, exceeds⟩ := head_panic known refused
      exact .header rest one exceeds
    | element known one announced frames fewer fails =>
      obtain ⟨rfl, announced⟩ := head_array known announced
      exact .element one announced frames fewer (ih _ fails)

theorem OversizedArray.panics {input : Bytes} (h : OversizedArray input) :
    ∀ depth, input.length ≤ depth → parseValue depth input = .error .panic := by
  induction h with
  | @header line rest one exceeds =>
    intro depth deep
    obtain ⟨depth, rfl⟩ : ∃ d, depth = d + 1 := ⟨depth - 1, by simp at deep; omega⟩
    have refused : head 42 line = .error .panic := arrayHead_panic_iff.mpr exceeds
    rw [parseValue_eq (by decide), readCrlfLine_line rest one]
    simp only [refused]
  | @element line before last count members one announced frames fewer _ ih =>
    intro depth deep
    obtain ⟨depth, rfl⟩ : ∃ d, depth = d + 1 := ⟨depth - 1, by simp at deep; omega⟩
    have array : head 42 line = .ok (.array count) := announced
    simp only [List.length_cons, List.length_append] at deep
    exact parseValue_element (by decide) one array frames fewer (by omega) (ih depth (by omega))

/-- The parser returns on every buffer but those whose first unread frame comes to
an array header with too large a count. -/
theorem parse_returns_iff (p : RespParser) :
    p.parse.1 ≠ .error .panic ↔ ¬ OversizedArray p.pending := by
  rw [not_iff_not]
  constructor
  · intro panicked
    cases parsed : parseValue p.pending.length p.pending with
    | ok out =>
      rw [RespParser.parse_ok parsed] at panicked
      cases panicked
    | error e =>
      rw [RespParser.parse_error parsed] at panicked
      simp only at panicked
      split at panicked
      · cases panicked
      · rename_i f failure
        cases panicked
        obtain ⟨rfl, _⟩ := failureOf_eq_some.mp failure
        exact oversized_of_panic _ _ parsed
  · intro oversized
    rw [RespParser.parse_error (oversized.panics _ (Nat.le_refl _))]
    rfl

end

/-- The largest count a header can have. -/
theorem largest_count_panics :
    ∃ last, @RespParser.parse linux64 (RespParser.new.feed (utf8 "*9223372036854775807\r\n")) =
      (.error .panic, last) := by
  let _ := linux64
  have line : lineInteger (utf8 "9223372036854775807") = .ok 9223372036854775807 := rfl
  have oversized : OversizedArray (utf8 "*9223372036854775807\r\n") :=
    .header [] (by decide) ⟨_, line, by decide, by decide⟩
  refine ⟨_, RespParser.parse_error (e := .panic) ?_⟩
  exact oversized.panics _ (Nat.le_refl _)

end RsDragonfly
