import RsDragonfly.Protocol.Parser

/-! The frames of RESP as a grammar over bytes, and the parser against it.
The first line of a frame decides what follows. `Frames` are streams of complete
frames, `CutsLine` a stream that ends inside a line of its first frame, and
`BreaksFormat` one whose first frame is rejected for its line ends. -/
namespace RsDragonfly

/-- What the first line of a frame announces. -/
inductive Head where
  | done (value : RespValue)
  | bulk (len : Nat)
  | array (count : Nat)

def typeBytes : Bytes := [43, 45, 58, 36, 42]

def integerHead (line : Bytes) : Except ParseFailure Head :=
  match lineInteger line with
  | .error e => .error e
  | .ok n => .ok (.done (.integer n))

def bulkHead (line : Bytes) : Except ParseFailure Head :=
  match lineInteger line with
  | .error e => .error e
  | .ok len =>
    if len = -1 then .ok (.done (.bulkString none))
    else if len < -1 then .error (.error .invalidLength)
    else if len.toNatClampNeg > maxValueSize then .error (.error .invalidLength)
    else .ok (.bulk len.toNatClampNeg)

def arrayHead [Layout] (line : Bytes) : Except ParseFailure Head :=
  match lineInteger line with
  | .error e => .error e
  | .ok count =>
    if count = -1 then .ok (.done (.array none))
    else if count < -1 then .error (.error .invalidLength)
    else if count.toNatClampNeg * Layout.sizeOfRespValue > isizeMax then .error .panic
    else .ok (.array count.toNatClampNeg)

def head [Layout] (type : UInt8) (line : Bytes) : Except ParseFailure Head :=
  match type with
  | 43 => .ok (.done (.simpleString (fromUtf8Lossy line)))
  | 45 => .ok (.done (.error (fromUtf8Lossy line)))
  | 58 => integerHead line
  | 36 => bulkHead line
  | _ => arrayHead line

def bulkBody (len : Nat) (input : Bytes) : Except ParseFailure (RespValue × Bytes) :=
  if input.length < len + 2 then .error (.error .incomplete)
  else if (input.drop len).take 2 ≠ crlf then .error (.error .invalidFormat)
  else .ok (.bulkString (some (input.take len)), input.drop (len + 2))

def arrayBody (parseValue : Bytes → Except ParseFailure (RespValue × Bytes)) (count : Nat)
    (input : Bytes) : Except ParseFailure (RespValue × Bytes) :=
  match parseElements parseValue count input with
  | .error e => .error e
  | .ok (elements, rest) => .ok (.array (some elements), rest)

/-- What is read after the first line. -/
def Head.body (parseValue : Bytes → Except ParseFailure (RespValue × Bytes)) :
    Head → Bytes → Except ParseFailure (RespValue × Bytes)
  | .done value, rest => .ok (value, rest)
  | .bulk len, rest => bulkBody len rest
  | .array count, rest => arrayBody parseValue count rest

theorem ok_bind {α β : Type} (a : α) (f : α → Except ParseFailure β) :
    (Except.ok a >>= f) = f a := rfl

theorem error_bind {α β : Type} (e : ParseFailure) (f : α → Except ParseFailure β) :
    (Except.error e >>= f) = .error e := rfl

theorem bulkBody_eq (len : Nat) (input : Bytes) :
    (readExactOrIncomplete len input >>= fun out => readExactOrIncomplete 2 out.2 >>= fun ends =>
      if ends.1 ≠ crlf then throw (.error .invalidFormat)
      else return (RespValue.bulkString (some out.1), ends.2)) = bulkBody len input := by
  unfold bulkBody readExactOrIncomplete
  by_cases data : len ≤ input.length
  · by_cases ends : 2 ≤ input.length - len
    · have enough : ¬ input.length < len + 2 := by omega
      simp only [if_pos data, ok_bind, List.length_drop, if_pos ends, if_neg enough, List.drop_drop]
      split <;> rfl
    · have short : input.length < len + 2 := by omega
      simp only [if_pos data, ok_bind, List.length_drop, if_neg ends, if_pos short]
      rfl
  · have short : input.length < len + 2 := by omega
    rw [if_neg data, error_bind, if_pos short]

section
variable [Layout]

/-- A frame is its first line and what that line announces. -/
theorem parseValue_eq {type : UInt8} (known : type ∈ typeBytes) (depth : Nat) (input : Bytes) :
    parseValue (depth + 1) (type :: input) =
      match readCrlfLine input with
      | .error e => .error e
      | .ok (line, rest) =>
        match head type line with
        | .error e => .error e
        | .ok announced => announced.body (parseValue depth) rest := by
  simp only [typeBytes, List.mem_cons, List.not_mem_nil, or_false] at known
  rcases known with rfl | rfl | rfl | rfl | rfl
  · simp only [parseValue, parseSimpleString]
    cases readCrlfLine input <;> rfl
  · simp only [parseValue, parseError]
    cases readCrlfLine input <;> rfl
  · simp only [parseValue, parseInteger, head, integerHead]
    cases readCrlfLine input with
    | error e => rfl
    | ok out =>
      simp only [ok_bind]
      cases lineInteger out.1 <;> rfl
  · simp only [parseValue, parseBulkString, head, bulkHead]
    cases readCrlfLine input with
    | error e => rfl
    | ok out =>
      simp only [ok_bind]
      cases lineInteger out.1 with
      | error e => rfl
      | ok len =>
        simp only [ok_bind]
        by_cases absent : len = -1
        · simp only [if_pos absent]
          rfl
        · by_cases negative : len < -1
          · simp only [if_neg absent, if_pos negative]
            rfl
          · by_cases long : len.toNatClampNeg > maxValueSize
            · simp only [if_neg absent, if_neg negative, if_pos long]
              rfl
            · simp only [if_neg absent, if_neg negative, if_neg long]
              exact bulkBody_eq _ _
  · simp only [parseValue, parseArray, head, arrayHead]
    cases readCrlfLine input with
    | error e => rfl
    | ok out =>
      simp only [ok_bind]
      cases lineInteger out.1 with
      | error e => rfl
      | ok count =>
        simp only [ok_bind]
        by_cases absent : count = -1
        · simp only [if_pos absent]
          rfl
        · by_cases negative : count < -1
          · simp only [if_neg absent, if_pos negative]
            rfl
          · by_cases large : count.toNatClampNeg * Layout.sizeOfRespValue > isizeMax
            · simp only [if_neg absent, if_neg negative, if_pos large]
              rfl
            · simp only [if_neg absent, if_neg negative, if_neg large]
              change _ = arrayBody (parseValue depth) count.toNatClampNeg out.2
              unfold arrayBody
              cases parseElements (parseValue depth) count.toNatClampNeg out.2 <;> rfl

theorem parseValue_unknown {type : UInt8} (unknown : type ∉ typeBytes) (depth : Nat)
    (input : Bytes) :
    parseValue (depth + 1) (type :: input) = .error (.error (.invalidType type)) := by
  simp only [typeBytes, List.mem_cons, List.not_mem_nil, or_false, not_or] at unknown
  obtain ⟨simple, error, integer, bulk, array⟩ := unknown
  unfold parseValue
  split <;> simp_all

end

theorem bulkBody_append {data ends : Bytes} (size : ends.length = 2) (rest : Bytes) :
    bulkBody data.length (data ++ (ends ++ rest)) =
      if ends ≠ crlf then .error (.error .invalidFormat)
      else .ok (.bulkString (some data), rest) := by
  have enough : ¬ (data ++ (ends ++ rest)).length < data.length + 2 := by
    simp only [List.length_append]
    omega
  have found : ((data ++ (ends ++ rest)).drop data.length).take 2 = ends := by
    rw [List.drop_left, List.take_left' size]
  have left : (data ++ (ends ++ rest)).drop (data.length + 2) = rest := by
    rw [← List.drop_drop, List.drop_left, List.drop_left' size]
  rw [bulkBody, if_neg enough, found, left, List.take_left]

/-- The first of some frames, and the frames after it. -/
theorem parseElements_cons {parse : Bytes → Except ParseFailure (RespValue × Bytes)}
    {count : Nat} {input rest : Bytes} {value : RespValue}
    (first : parse input = .ok (value, rest)) :
    parseElements parse (count + 1) input =
      match parseElements parse count rest with
      | .error e => .error e
      | .ok (values, last) => .ok (value :: values, last) := by
  simp only [parseElements, first, ok_bind]
  cases parseElements parse count rest <;> rfl

/-- The loop over elements stops at the first that fails. -/
theorem parseElements_stops {parse : Bytes → Except ParseFailure (RespValue × Bytes)}
    {m : Nat} {input last : Bytes} {values : List RespValue} {e : ParseFailure}
    (passed : parseElements parse m input = .ok (values, last)) (fails : parse last = .error e)
    (k : Nat) : parseElements parse (m + (k + 1)) input = .error e := by
  induction m generalizing input values with
  | zero =>
    cases passed
    rw [Nat.zero_add, parseElements, fails, error_bind]
  | succ m ih =>
    cases first : parse input with
    | error f =>
      rw [parseElements, first, error_bind] at passed
      cases passed
    | ok out =>
      rw [parseElements_cons first] at passed
      cases later : parseElements parse m out.2 with
      | error f =>
        rw [later] at passed
        cases passed
      | ok rest =>
        rw [later] at passed
        cases passed
        rw [Nat.add_right_comm, parseElements_cons first, ih later]

/-! Lines. A line feed ends one, and only after a carriage return it ends it well. -/

theorem readUntilLf_line {line : Bytes} (rest : Bytes) (one : 10 ∉ line) :
    readUntilLf (line ++ 10 :: rest) = (line ++ [10], rest) := by
  induction line with
  | nil => rfl
  | cons b line ih =>
    rw [List.mem_cons, not_or] at one
    simp only [List.cons_append, readUntilLf, if_neg (Ne.symm one.1), ih one.2]

theorem readUntilLf_all {input : Bytes} (none_there : 10 ∉ input) :
    readUntilLf input = (input, []) := by
  induction input with
  | nil => rfl
  | cons b input ih =>
    rw [List.mem_cons, not_or] at none_there
    simp only [readUntilLf, if_neg (Ne.symm none_there.1), ih none_there.2]

theorem readCrlfLine_line {line : Bytes} (rest : Bytes) (one : 10 ∉ line) :
    readCrlfLine (line ++ (crlf ++ rest)) = .ok (line, rest) := by
  have whole : readUntilLf (line ++ (crlf ++ rest)) = (line ++ crlf, rest) := by
    have other : 10 ∉ line ++ [13] := by simp [one]
    have h := readUntilLf_line rest other
    simpa [crlf] using h
  have size : (line ++ crlf).length = line.length + 2 := by simp [crlf]
  have start : (line ++ crlf).take line.length = line := List.take_left
  have ends : (line ++ crlf).drop line.length = crlf := List.drop_left
  simp [readCrlfLine, whole, size, start, ends]

theorem readCrlfLine_bare {line : Bytes} (rest : Bytes) (one : 10 ∉ line)
    (bare : line.getLast? ≠ some 13) :
    readCrlfLine (line ++ 10 :: rest) = .error (.error .invalidFormat) := by
  have size : (line ++ [(10 : UInt8)]).length ≠ 0 := by simp
  have wrong : (line ++ [10]).length < 2 ∨
      (line ++ [10]).drop ((line ++ [10]).length - 2) ≠ crlf := by
    rcases List.eq_nil_or_concat line with rfl | ⟨start, last, rfl⟩
    · exact .inl (by decide)
    · right
      have last_two : (start ++ [last] ++ [10]).drop ((start ++ [last] ++ [10]).length - 2) =
          [last, 10] := by
        rw [List.append_assoc]
        simp
      rw [List.concat_eq_append, last_two]
      intro same
      apply bare
      simp [(List.cons.inj same).1]
  simp only [readCrlfLine, readUntilLf_line rest one, if_neg size, if_pos wrong]

theorem readCrlfLine_unfinished {input : Bytes} (some_there : input ≠ [])
    (none_there : 10 ∉ input) :
    readCrlfLine input = .error (.error .invalidFormat) := by
  have size : input.length ≠ 0 := fun h => some_there (List.length_eq_zero_iff.mp h)
  have wrong : input.length < 2 ∨ input.drop (input.length - 2) ≠ crlf := by
    right
    intro ends
    apply none_there
    apply List.mem_of_mem_drop (i := input.length - 2)
    rw [ends]
    decide
  simp only [readCrlfLine, readUntilLf_all none_there, if_neg size, if_pos wrong]

/-- The four ways a read of a line can go. -/
inductive LineView : Bytes → Prop where
  | empty : LineView []
  | unfinished {input : Bytes} : input ≠ [] → 10 ∉ input → LineView input
  | bare {line : Bytes} (rest : Bytes) : 10 ∉ line → line.getLast? ≠ some 13 →
      LineView (line ++ 10 :: rest)
  | line {line : Bytes} (rest : Bytes) : 10 ∉ line → LineView (line ++ (crlf ++ rest))

theorem lineView (input : Bytes) : LineView input := by
  by_cases there : 10 ∈ input
  · obtain ⟨start, rest, rfl, one⟩ := List.eq_append_cons_of_mem there
    by_cases ends : start.getLast? = some 13
    · obtain ⟨line, rfl⟩ := List.getLast?_eq_some_iff.mp ends
      have split : line ++ [13] ++ 10 :: rest = line ++ (crlf ++ rest) := by simp [crlf]
      rw [split]
      exact .line rest fun h => one (List.mem_append_left _ h)
    · exact .bare rest one ends
  · by_cases nothing : input = []
    · subst nothing
      exact .empty
    · exact .unfinished nothing there

/-- Streams of complete frames. -/
inductive Frames [Layout] : Bytes → List RespValue → Prop where
  | nil : Frames [] []
  | line {type : UInt8} {line rest : Bytes} {value : RespValue} {values : List RespValue} :
      type ∈ typeBytes → 10 ∉ line → head type line = .ok (.done value) → Frames rest values →
      Frames (type :: (line ++ (crlf ++ rest))) (value :: values)
  | bulk {type : UInt8} {line data rest : Bytes} {values : List RespValue} :
      type ∈ typeBytes → 10 ∉ line → head type line = .ok (.bulk data.length) →
      Frames rest values →
      Frames (type :: (line ++ (crlf ++ (data ++ (crlf ++ rest)))))
        (.bulkString (some data) :: values)
  | array {type : UInt8} {line elements rest : Bytes} {members values : List RespValue} :
      type ∈ typeBytes → 10 ∉ line → head type line = .ok (.array members.length) →
      Frames elements members → Frames rest values →
      Frames (type :: (line ++ (crlf ++ (elements ++ rest)))) (.array (some members) :: values)

/-- The first frame is not complete, and stops after the first byte of a line. -/
inductive CutsLine [Layout] : Bytes → Prop where
  | line {type : UInt8} {line : Bytes} : type ∈ typeBytes → line ≠ [] → 10 ∉ line →
      CutsLine (type :: line)
  | element {type : UInt8} {line before last : Bytes} {count : Nat} {members : List RespValue} :
      type ∈ typeBytes → 10 ∉ line → head type line = .ok (.array count) →
      Frames before members → members.length < count → CutsLine last →
      CutsLine (type :: (line ++ (crlf ++ (before ++ last))))

/-- The first frame has a line or bulk data that does not end in CRLF. -/
inductive BreaksFormat [Layout] : Bytes → Prop where
  | unfinished {type : UInt8} {line : Bytes} : type ∈ typeBytes → line ≠ [] → 10 ∉ line →
      BreaksFormat (type :: line)
  | bare {type : UInt8} {line : Bytes} (rest : Bytes) : type ∈ typeBytes → 10 ∉ line →
      line.getLast? ≠ some 13 → BreaksFormat (type :: (line ++ 10 :: rest))
  | bulk {type : UInt8} {line data ends : Bytes} (rest : Bytes) : type ∈ typeBytes → 10 ∉ line →
      head type line = .ok (.bulk data.length) → ends.length = 2 → ends ≠ crlf →
      BreaksFormat (type :: (line ++ (crlf ++ (data ++ (ends ++ rest)))))
  | element {type : UInt8} {line before last : Bytes} {count : Nat} {members : List RespValue} :
      type ∈ typeBytes → 10 ∉ line → head type line = .ok (.array count) →
      Frames before members → members.length < count → BreaksFormat last →
      BreaksFormat (type :: (line ++ (crlf ++ (before ++ last))))

/-! Complete frames parse, and only they do. -/

section
variable [Layout]

theorem Frames.append {a b : Bytes} {values more : List RespValue} (ha : Frames a values)
    (hb : Frames b more) : Frames (a ++ b) (values ++ more) := by
  induction ha with
  | nil => exact hb
  | line known one announced _ ih =>
    have h := Frames.line known one announced ih
    simpa only [List.cons_append, List.append_assoc] using h
  | bulk known one announced _ ih =>
    have h := Frames.bulk known one announced ih
    simpa only [List.cons_append, List.append_assoc] using h
  | array known one announced members _ _ ih =>
    have h := Frames.array known one announced members ih
    simpa only [List.cons_append, List.append_assoc] using h

/-- After its first line, a frame is what the line announced. -/
theorem parseValue_line {type : UInt8} {line : Bytes} {announced : Head}
    (known : type ∈ typeBytes) (one : 10 ∉ line) (announces : head type line = .ok announced)
    (depth : Nat) (rest : Bytes) :
    parseValue (depth + 1) (type :: (line ++ (crlf ++ rest))) =
      announced.body (parseValue depth) rest := by
  rw [parseValue_eq known, readCrlfLine_line rest one]
  simp only [announces]

theorem Frames.parse {bytes : Bytes} {values : List RespValue} (h : Frames bytes values) :
    ∀ depth rest, bytes.length ≤ depth →
      parseElements (parseValue depth) values.length (bytes ++ rest) = .ok (values, rest) := by
  induction h with
  | nil => exact fun _ _ _ => rfl
  | @line type line more value values known one announced _ ih =>
    intro depth rest deep
    obtain ⟨depth, rfl⟩ : ∃ d, depth = d + 1 := ⟨depth - 1, by simp at deep; omega⟩
    have first : parseValue (depth + 1) (type :: (line ++ (crlf ++ more)) ++ rest) =
        .ok (value, more ++ rest) := by
      simp only [List.cons_append, List.append_assoc, parseValue_line known one announced,
        Head.body]
    rw [List.length_cons, parseElements_cons first, ih (depth + 1) rest (by simp at deep; omega)]
  | @bulk type line data more values known one announced _ ih =>
    intro depth rest deep
    obtain ⟨depth, rfl⟩ : ∃ d, depth = d + 1 := ⟨depth - 1, by simp at deep; omega⟩
    have first : parseValue (depth + 1)
        (type :: (line ++ (crlf ++ (data ++ (crlf ++ more)))) ++ rest) =
        .ok (.bulkString (some data), more ++ rest) := by
      simp only [List.cons_append, List.append_assoc, parseValue_line known one announced,
        Head.body, bulkBody_append (rfl : crlf.length = 2), ne_eq, not_true_eq_false, if_false]
    rw [List.length_cons, parseElements_cons first, ih (depth + 1) rest (by simp at deep; omega)]
  | @array type line elements more members values known one announced _ _ inner ih =>
    intro depth rest deep
    obtain ⟨depth, rfl⟩ : ∃ d, depth = d + 1 := ⟨depth - 1, by simp at deep; omega⟩
    have first : parseValue (depth + 1)
        (type :: (line ++ (crlf ++ (elements ++ more))) ++ rest) =
        .ok (.array (some members), more ++ rest) := by
      simp only [List.cons_append, List.append_assoc, parseValue_line known one announced,
        Head.body, arrayBody, inner depth (more ++ rest) (by simp at deep; omega)]
    rw [List.length_cons, parseElements_cons first, ih (depth + 1) rest (by simp at deep; omega)]

/-- Where the loop over elements ends: all parsed, or stopped at one that fails. -/
theorem parseElements_cases {parse : Bytes → Except ParseFailure (RespValue × Bytes)}
    (sound : ∀ input value rest, parse input = .ok (value, rest) →
      ∃ bytes, input = bytes ++ rest ∧ Frames bytes [value]) (count : Nat) (input : Bytes) :
    (∃ bytes values rest, input = bytes ++ rest ∧ Frames bytes values ∧ values.length = count ∧
      parseElements parse count input = .ok (values, rest)) ∨
    (∃ before values last e, input = before ++ last ∧ Frames before values ∧
      values.length < count ∧ parse last = .error e ∧
      parseElements parse count input = .error e) := by
  induction count generalizing input with
  | zero => exact .inl ⟨[], [], input, rfl, .nil, rfl, rfl⟩
  | succ count ih =>
    cases first : parse input with
    | error e =>
      refine .inr ⟨[], [], input, e, rfl, .nil, Nat.succ_pos _, first, ?_⟩
      simp only [parseElements, first, error_bind]
    | ok out =>
      obtain ⟨value, rest⟩ := out
      obtain ⟨bytes, rfl, framed⟩ := sound _ _ _ first
      rcases ih rest with ⟨more, values, last, rfl, frames, size, parsed⟩ |
        ⟨before, values, last, e, rfl, frames, size, fails, stopped⟩
      · refine .inl ⟨bytes ++ more, value :: values, last, (List.append_assoc _ _ _).symm,
          framed.append frames, congrArg Nat.succ size, ?_⟩
        rw [parseElements_cons first, parsed]
      · refine .inr ⟨bytes ++ before, value :: values, last, e, (List.append_assoc _ _ _).symm,
          framed.append frames, Nat.succ_lt_succ size, fails, ?_⟩
        rw [parseElements_cons first, stopped]

/-- The ways one level of the parser can go, with the result of each. -/
inductive Level (depth : Nat) : Bytes → Except ParseFailure (RespValue × Bytes) → Prop where
  | nothing : Level depth [] (.error (.error .incomplete))
  | unknown {type : UInt8} (input : Bytes) : type ∉ typeBytes →
      Level depth (type :: input) (.error (.error (.invalidType type)))
  | typeOnly {type : UInt8} : type ∈ typeBytes →
      Level depth [type] (.error (.error .incomplete))
  | unfinished {type : UInt8} {line : Bytes} : type ∈ typeBytes → line ≠ [] → 10 ∉ line →
      Level depth (type :: line) (.error (.error .invalidFormat))
  | bare {type : UInt8} {line : Bytes} (rest : Bytes) : type ∈ typeBytes → 10 ∉ line →
      line.getLast? ≠ some 13 →
      Level depth (type :: (line ++ 10 :: rest)) (.error (.error .invalidFormat))
  | badHead {type : UInt8} {line : Bytes} {e : ParseFailure} (rest : Bytes) : type ∈ typeBytes →
      10 ∉ line → head type line = .error e →
      Level depth (type :: (line ++ (crlf ++ rest))) (.error e)
  | done {type : UInt8} {line : Bytes} {value : RespValue} (rest : Bytes) : type ∈ typeBytes →
      10 ∉ line → head type line = .ok (.done value) →
      Level depth (type :: (line ++ (crlf ++ rest))) (.ok (value, rest))
  | short {type : UInt8} {line rest : Bytes} {len : Nat} : type ∈ typeBytes → 10 ∉ line →
      head type line = .ok (.bulk len) → rest.length < len + 2 →
      Level depth (type :: (line ++ (crlf ++ rest))) (.error (.error .incomplete))
  | badEnds {type : UInt8} {line data ends : Bytes} (rest : Bytes) : type ∈ typeBytes →
      10 ∉ line → head type line = .ok (.bulk data.length) → ends.length = 2 → ends ≠ crlf →
      Level depth (type :: (line ++ (crlf ++ (data ++ (ends ++ rest)))))
        (.error (.error .invalidFormat))
  | bulk {type : UInt8} {line data : Bytes} (rest : Bytes) : type ∈ typeBytes → 10 ∉ line →
      head type line = .ok (.bulk data.length) →
      Level depth (type :: (line ++ (crlf ++ (data ++ (crlf ++ rest)))))
        (.ok (.bulkString (some data), rest))
  | array {type : UInt8} {line elements : Bytes} {members : List RespValue} (rest : Bytes) :
      type ∈ typeBytes → 10 ∉ line → head type line = .ok (.array members.length) →
      Frames elements members →
      Level depth (type :: (line ++ (crlf ++ (elements ++ rest))))
        (.ok (.array (some members), rest))
  | element {type : UInt8} {line before last : Bytes} {count : Nat} {members : List RespValue}
      {e : ParseFailure} : type ∈ typeBytes → 10 ∉ line → head type line = .ok (.array count) →
      Frames before members → members.length < count → parseValue depth last = .error e →
      Level depth (type :: (line ++ (crlf ++ (before ++ last)))) (.error e)

theorem level_bulk {type : UInt8} {line : Bytes} {len : Nat} (known : type ∈ typeBytes)
    (one : 10 ∉ line) (announced : head type line = .ok (.bulk len)) (depth : Nat)
    (rest : Bytes) : Level depth (type :: (line ++ (crlf ++ rest))) (bulkBody len rest) := by
  by_cases enough : rest.length < len + 2
  · rw [bulkBody, if_pos enough]
    exact .short known one announced enough
  · have parts : rest = rest.take len ++ ((rest.drop len).take 2 ++ rest.drop (len + 2)) := by
      rw [← List.drop_drop, List.take_append_drop, List.take_append_drop]
    have data : (rest.take len).length = len := by
      rw [List.length_take]
      omega
    have size : ((rest.drop len).take 2).length = 2 := by
      rw [List.length_take, List.length_drop]
      omega
    rw [← data] at announced
    have body : bulkBody (rest.take len).length (rest.take len ++ (_ ++ rest.drop (len + 2))) = _ :=
      bulkBody_append size (rest.drop (len + 2))
    rw [← parts, data] at body
    rw [body]
    by_cases ends : (rest.drop len).take 2 = crlf
    · have level : Level depth _ _ := .bulk (rest.drop (len + 2)) known one announced
      rw [ends] at parts
      rw [← parts] at level
      rw [if_neg fun different => different ends]
      exact level
    · have level : Level depth _ _ :=
        .badEnds (rest.drop (len + 2)) known one announced size ends
      rw [← parts] at level
      rw [if_pos ends]
      exact level

theorem level_of_sound {depth : Nat} (sound : ∀ input value rest,
      parseValue depth input = .ok (value, rest) →
        ∃ bytes, input = bytes ++ rest ∧ Frames bytes [value]) (input : Bytes) :
    Level depth input (parseValue (depth + 1) input) := by
  cases input with
  | nil => exact .nothing
  | cons type input =>
    by_cases known : type ∈ typeBytes
    · cases lineView input with
      | empty =>
        rw [parseValue_eq known]
        exact .typeOnly known
      | unfinished some_there none_there =>
        rw [parseValue_eq known, readCrlfLine_unfinished some_there none_there]
        exact .unfinished known some_there none_there
      | bare rest one bare =>
        rw [parseValue_eq known, readCrlfLine_bare rest one bare]
        exact .bare rest known one bare
      | @line line rest one =>
        cases announced : head type line with
        | error e =>
          rw [parseValue_eq known, readCrlfLine_line rest one]
          simp only [announced]
          exact .badHead rest known one announced
        | ok first =>
          rw [parseValue_line known one announced]
          cases first with
          | done value => exact .done rest known one announced
          | bulk len => exact level_bulk known one announced depth rest
          | array count =>
            simp only [Head.body, arrayBody]
            rcases parseElements_cases sound count rest with
              ⟨bytes, members, last, rfl, frames, rfl, parsed⟩ |
              ⟨before, members, last, e, rfl, frames, fewer, fails, stopped⟩
            · rw [parsed]
              exact .array last known one announced frames
            · rw [stopped]
              exact .element known one announced frames fewer fails
    · rw [parseValue_unknown known]
      exact .unknown input known

/-- Only complete frames parse. -/
theorem parse_frames (depth : Nat) : ∀ input value rest,
    parseValue depth input = .ok (value, rest) →
      ∃ bytes, input = bytes ++ rest ∧ Frames bytes [value] := by
  induction depth with
  | zero =>
    intro input value rest parsed
    cases parsed
  | succ depth ih =>
    intro input value rest parsed
    have level := level_of_sound ih input
    rw [parsed] at level
    cases level with
    | @done type line _ rest known one announced =>
      refine ⟨type :: (line ++ (crlf ++ [])), ?_, .line known one announced .nil⟩
      simp only [List.cons_append, List.append_assoc, List.nil_append]
    | @bulk type line data rest known one announced =>
      refine ⟨type :: (line ++ (crlf ++ (data ++ (crlf ++ [])))), ?_,
        .bulk known one announced .nil⟩
      simp only [List.cons_append, List.append_assoc, List.nil_append]
    | @array type line elements members rest known one announced frames =>
      refine ⟨type :: (line ++ (crlf ++ (elements ++ []))), ?_,
        .array known one announced frames .nil⟩
      simp only [List.cons_append, List.append_assoc, List.nil_append]

theorem level (depth : Nat) (input : Bytes) :
    Level depth input (parseValue (depth + 1) input) :=
  level_of_sound (parse_frames depth) input

/-! Failures. -/

omit [Layout] in
theorem lineInteger_error {line : Bytes} {e : ParseFailure} (refused : lineInteger line = .error e) :
    e = .error .invalidInteger := by
  unfold lineInteger at refused
  split at refused
  · cases refused
  · cases refused
    rfl

theorem head_error {type : UInt8} {line : Bytes} {e : ParseFailure}
    (refused : head type line = .error e) :
    e ≠ .error .incomplete ∧ e ≠ .error .invalidFormat := by
  unfold head at refused
  split at refused
  · cases refused
  · cases refused
  · unfold integerHead at refused
    split at refused
    · rename_i f hf
      have number := lineInteger_error hf
      cases refused
      rw [number]
      decide
    · cases refused
  · unfold bulkHead at refused
    split at refused
    · rename_i f hf
      have number := lineInteger_error hf
      cases refused
      rw [number]
      decide
    · split at refused
      · cases refused
      · split at refused
        · cases refused
          decide
        · split at refused
          · cases refused
            decide
          · cases refused
  · unfold arrayHead at refused
    split at refused
    · rename_i f hf
      have number := lineInteger_error hf
      cases refused
      rw [number]
      decide
    · split at refused
      · cases refused
      · split at refused
        · cases refused
          decide
        · split at refused
          · cases refused
            decide
          · cases refused

/-- An element that fails makes its array fail. -/
theorem parseValue_element {type : UInt8} {line before last : Bytes} {count : Nat}
    {members : List RespValue} {e : ParseFailure} (known : type ∈ typeBytes) (one : 10 ∉ line)
    (announced : head type line = .ok (.array count)) (frames : Frames before members)
    (fewer : members.length < count) {depth : Nat} (deep : before.length ≤ depth)
    (fails : parseValue depth last = .error e) :
    parseValue (depth + 1) (type :: (line ++ (crlf ++ (before ++ last)))) = .error e := by
  obtain ⟨k, rfl⟩ : ∃ k, count = members.length + (k + 1) :=
    ⟨count - members.length - 1, by omega⟩
  have stops := parseElements_stops (frames.parse depth last deep) fails k
  rw [parseValue_line known one announced, Head.body, arrayBody, stops]

theorem breaks_of_invalidFormat (depth : Nat) : ∀ input,
    parseValue depth input = .error (.error .invalidFormat) → BreaksFormat input := by
  induction depth with
  | zero =>
    intro input failed
    cases failed
  | succ depth ih =>
    intro input failed
    have cases_of := level depth input
    rw [failed] at cases_of
    cases cases_of with
    | unfinished known some_there none_there => exact .unfinished known some_there none_there
    | bare rest known one bare => exact .bare rest known one bare
    | badHead rest known one refused => exact absurd rfl (head_error refused).2
    | badEnds rest known one announced size ends => exact .bulk rest known one announced size ends
    | element known one announced frames fewer fails =>
      exact .element known one announced frames fewer (ih _ fails)

theorem BreaksFormat.parse {input : Bytes} (h : BreaksFormat input) :
    ∀ depth, input.length ≤ depth → parseValue depth input = .error (.error .invalidFormat) := by
  induction h with
  | unfinished known some_there none_there =>
    intro depth deep
    obtain ⟨depth, rfl⟩ : ∃ d, depth = d + 1 := ⟨depth - 1, by simp at deep; omega⟩
    rw [parseValue_eq known, readCrlfLine_unfinished some_there none_there]
  | bare rest known one bare =>
    intro depth deep
    obtain ⟨depth, rfl⟩ : ∃ d, depth = d + 1 := ⟨depth - 1, by simp at deep; omega⟩
    rw [parseValue_eq known, readCrlfLine_bare rest one bare]
  | bulk rest known one announced size ends =>
    intro depth deep
    obtain ⟨depth, rfl⟩ : ∃ d, depth = d + 1 := ⟨depth - 1, by simp at deep; omega⟩
    rw [parseValue_line known one announced, Head.body, bulkBody_append size, if_pos ends]
  | element known one announced frames fewer _ ih =>
    intro depth deep
    obtain ⟨depth, rfl⟩ : ∃ d, depth = d + 1 := ⟨depth - 1, by simp at deep; omega⟩
    simp only [List.length_cons, List.length_append] at deep
    exact parseValue_element known one announced frames fewer (by omega) (ih depth (by omega))

theorem CutsLine.breaks {input : Bytes} (h : CutsLine input) : BreaksFormat input := by
  induction h with
  | line known some_there none_there => exact .unfinished known some_there none_there
  | element known one announced frames fewer _ ih =>
    exact .element known one announced frames fewer ih

/-- A failure that is not for want of bytes, and not at a cut line, stays when
more bytes come. -/
theorem failure_stays (depth : Nat) : ∀ input e, parseValue depth input = .error e →
    e ≠ .error .incomplete → ¬ CutsLine input → ∀ more deeper, input.length ≤ deeper →
    parseValue deeper (input ++ more) = .error e := by
  induction depth with
  | zero =>
    intro input e failed complete
    cases failed
    exact absurd rfl complete
  | succ depth ih =>
    intro input e failed complete uncut more deeper deep
    have cases_of := level depth input
    rw [failed] at cases_of
    cases cases_of with
    | nothing => exact absurd rfl complete
    | typeOnly known => exact absurd rfl complete
    | unfinished known some_there none_there =>
      exact absurd (.line known some_there none_there) uncut
    | short known one announced short => exact absurd rfl complete
    | unknown input unknown =>
      obtain ⟨deeper, rfl⟩ : ∃ d, deeper = d + 1 := ⟨deeper - 1, by simp at deep; omega⟩
      exact parseValue_unknown unknown deeper _
    | @bare type line rest known one bare =>
      obtain ⟨deeper, rfl⟩ : ∃ d, deeper = d + 1 := ⟨deeper - 1, by simp at deep; omega⟩
      rw [List.cons_append, List.append_assoc, List.cons_append, parseValue_eq known,
        readCrlfLine_bare (rest ++ more) one bare]
    | @badHead type line _ rest known one refused =>
      obtain ⟨deeper, rfl⟩ : ∃ d, deeper = d + 1 := ⟨deeper - 1, by simp at deep; omega⟩
      rw [List.cons_append, List.append_assoc, List.append_assoc, parseValue_eq known,
        readCrlfLine_line (rest ++ more) one]
      simp only [refused]
    | @badEnds type line data ends rest known one announced size wrong =>
      obtain ⟨deeper, rfl⟩ : ∃ d, deeper = d + 1 := ⟨deeper - 1, by simp at deep; omega⟩
      simp only [List.cons_append, List.append_assoc, parseValue_line known one announced,
        Head.body, bulkBody_append size, if_pos wrong]
    | @element type line before last count members _ known one announced frames fewer fails =>
      obtain ⟨deeper, rfl⟩ : ∃ d, deeper = d + 1 := ⟨deeper - 1, by simp at deep; omega⟩
      simp only [List.length_cons, List.length_append] at deep
      have last_uncut : ¬ CutsLine last := fun cut =>
        uncut (.element known one announced frames fewer cut)
      have fails_later := ih last e fails complete last_uncut more deeper (by omega)
      simp only [List.cons_append, List.append_assoc]
      exact parseValue_element known one announced frames fewer (by omega) fails_later

end

end RsDragonfly
