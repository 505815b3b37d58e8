import RsDragonfly.Protocol.Chunking

/-! `protocol/serializer.rs`, `response_to_resp`, and the parser on what they write. -/
namespace RsDragonfly

mutual

def serializeValue : RespValue → Bytes → Bytes
  | .simpleString s, buf => buf ++ (43 :: (utf8 s ++ crlf))
  | .error s, buf => buf ++ (45 :: (utf8 s ++ crlf))
  | .integer n, buf => buf ++ (58 :: (utf8 (toString n) ++ crlf))
  | .bulkString none, buf => buf ++ utf8 "$-1\r\n"
  | .bulkString (some data), buf =>
    buf ++ (36 :: (utf8 (toString data.length) ++ (crlf ++ (data ++ crlf))))
  | .array none, buf => buf ++ utf8 "*-1\r\n"
  | .array (some elements), buf =>
    serializeElements elements (buf ++ (42 :: (utf8 (toString elements.length) ++ crlf)))

/-- The loop over the elements of an array. -/
def serializeElements : List RespValue → Bytes → Bytes
  | [], buf => buf
  | elem :: elements, buf => serializeElements elements (serializeValue elem buf)

end

def serializeResp2 (value : RespValue) : Bytes := serializeValue value []

def responseToResp : Response → RespValue
  | .value (some v) => .bulkString (some v.asBytes)
  | .value none => .bulkString none
  | .integer n => .integer n
  | .ok => .simpleString "OK"
  | .error msg => .error msg

example : serializeResp2 (.array (some [.integer (-7), .bulkString (some [])])) =
    utf8 "*2\r\n:-7\r\n$0\r\n\r\n" := by decide

/-! Numbers and the lines they are written on. -/

theorem digits_isDigit {n : Nat} {c : Char} (member : c ∈ Nat.toDigits 10 n) : c.isDigit = true :=
  Nat.isDigit_of_mem_toDigits (by decide) (by decide) member

theorem parseDigits_toDigits (n : Nat) : parseDigits (Nat.toDigits 10 n) = some n := by
  have loop (digits : List Char) (all : ∀ c ∈ digits, c.isDigit) (init : Nat) :
      digits.foldlM (fun n c => if c.isDigit then some (10 * n + (c.toNat - 48)) else none) init =
        some (Nat.ofDigitChars 10 digits init) := by
    induction digits generalizing init with
    | nil => rfl
    | cons c digits ih =>
      rw [List.forall_mem_cons] at all
      rw [List.foldlM_cons, if_pos all.1]
      exact ih all.2 _
  unfold parseDigits
  split
  · rename_i empty
    exact absurd empty Nat.toDigits_ne_nil
  · rw [loop _ fun c member => digits_isDigit member, Nat.ofDigitChars_ten_toDigits]

theorem toList_natCast (m : Nat) : (toString (m : Int)).toList = Nat.toDigits 10 m :=
  Nat.toList_repr

theorem toList_negSucc (m : Nat) :
    (toString (Int.negSucc m)).toList = '-' :: Nat.toDigits 10 (m + 1) := by
  rw [← Nat.toList_repr]
  change ("-" ++ Nat.repr (m + 1)).toList = _
  rw [String.toList_append]
  rfl

theorem parseI64_minus {s : String} {digits : List Char} {m : Nat}
    (minus : s.toList = '-' :: digits) (number : parseDigits digits = some m) :
    parseI64 s = if -(2 ^ 63) ≤ -(m : Int) ∧ -(m : Int) < 2 ^ 63
      then some (Int64.ofInt (-(m : Int))) else none := by
  unfold parseI64
  rw [minus]
  simp only [number, Option.bind_eq_bind, Option.bind_some]

theorem parseI64_digits {s : String} {m : Nat} (plain : s.toList = Nat.toDigits 10 m) :
    parseI64 s = if -(2 ^ 63) ≤ (m : Int) ∧ (m : Int) < 2 ^ 63
      then some (Int64.ofInt m) else none := by
  have no_sign (c : Char) (digits : List Char) (sign : Nat.toDigits 10 m = c :: digits) :
      c.isDigit = true := by
    apply digits_isDigit (n := m)
    rw [sign]
    exact List.mem_cons_self
  unfold parseI64
  rw [plain]
  split
  · rename_i minus
    exact absurd (no_sign _ _ minus) (by decide)
  · rename_i plus
    exact absurd (no_sign _ _ plus) (by decide)
  · rw [parseDigits_toDigits, Option.bind_eq_bind, Option.bind_some]

/-- Every printed integer parses as itself. -/
theorem parseI64_toString {n : Int} (low : -2 ^ 63 ≤ n) (high : n < 2 ^ 63) :
    parseI64 (toString n) = some (Int64.ofInt n) := by
  cases n with
  | ofNat m =>
    rw [Int.ofNat_eq_natCast] at low high ⊢
    rw [parseI64_digits (toList_natCast m), if_pos ⟨low, high⟩]
  | negSucc m =>
    have minus := toList_negSucc m
    have value : Int.negSucc m = -((m + 1 : Nat) : Int) := rfl
    rw [value] at minus low high ⊢
    rw [parseI64_minus minus (parseDigits_toDigits (m + 1)), if_pos ⟨low, high⟩]

/-- A printed integer is one line. -/
theorem toString_one_line (n : Int) : 10 ∉ utf8 (toString n) := by
  unfold utf8
  rw [Library.Utf8.lineFeed_mem_encoded]
  cases n with
  | ofNat m =>
    intro member
    have digits : (toString (Int.ofNat m)).toList = Nat.toDigits 10 m := toList_natCast m
    rw [digits] at member
    exact absurd (digits_isDigit member) (by decide)
  | negSucc m =>
    rw [toList_negSucc, List.mem_cons, not_or]
    exact ⟨by decide, fun member => absurd (digits_isDigit member) (by decide)⟩

theorem lineInteger_toString {n : Int} (low : -2 ^ 63 ≤ n) (high : n < 2 ^ 63) :
    lineInteger (utf8 (toString n)) = .ok (Int64.ofInt n) := by
  have read : fromUtf8 (utf8 (toString n)) = some (toString n) :=
    Library.Utf8.strict_encoded _
  simp only [lineInteger, read, Option.bind_eq_bind, Option.bind_some, parseI64_toString low high]

theorem length_one_line (m : Nat) : 10 ∉ utf8 (toString m) := toString_one_line m

theorem lineInteger_absent : lineInteger (utf8 "-1") = .ok (-1) := rfl

theorem integerHead_toString (n : Int64) :
    integerHead (utf8 (toString n)) = .ok (.done (.integer n)) := by
  have line := lineInteger_toString n.le_toInt n.toInt_lt
  rw [Int64.ofInt_toInt] at line
  simp only [integerHead]
  rw [show toString n = toString n.toInt from rfl, line]

/-- A printed length is read as that length. -/
theorem lineInteger_length {m : Nat} (fits : m < 2 ^ 63) :
    ∃ n : Int64, lineInteger (utf8 (toString m)) = .ok n ∧ n ≠ -1 ∧ ¬ n < -1 ∧
      n.toNatClampNeg = m := by
  have value : (Int64.ofInt m).toInt = m := Int64.toInt_ofInt_of_le (by omega) (by omega)
  refine ⟨Int64.ofInt m, lineInteger_toString (n := m) (by omega) (by omega), ?_, ?_, ?_⟩
  · intro minus
    have absent := congrArg Int64.toInt minus
    rw [value] at absent
    exact absurd absent (by simp)
  · rw [Int64.lt_iff_toInt_lt, value]
    simp
  · rw [← Int64.toNat_toInt, value, Int.toNat_natCast]

theorem bulkHead_length {m : Nat} (fits : m ≤ maxValueSize) :
    bulkHead (utf8 (toString m)) = .ok (.bulk m) := by
  have small : m < 2 ^ 63 := Nat.lt_of_le_of_lt fits (by decide)
  obtain ⟨n, line, present, valid, rfl⟩ := lineInteger_length small
  simp only [bulkHead, line, if_neg present, if_neg valid, if_neg (Nat.not_lt.mpr fits)]

theorem arrayHead_length [Layout] {m : Nat} (fits : m * Layout.sizeOfRespValue ≤ isizeMax) :
    arrayHead (utf8 (toString m)) = .ok (.array m) := by
  have small : m < 2 ^ 63 := by
    have bound := Nat.le_trans (Nat.le_mul_of_pos_right m Layout.respValue_positive) fits
    exact Nat.lt_of_le_of_lt bound (by decide)
  obtain ⟨n, line, present, valid, rfl⟩ := lineInteger_length small
  simp only [arrayHead, line, if_neg present, if_neg valid, if_neg (Nat.not_lt.mpr fits)]

/-! What is serialized is a stream of frames. -/

mutual

theorem serializeValue_eq (value : RespValue) (buf : Bytes) :
    serializeValue value buf = buf ++ serializeResp2 value := by
  match value with
  | .simpleString s => rfl
  | .error s => rfl
  | .integer n => rfl
  | .bulkString none => rfl
  | .bulkString (some data) => rfl
  | .array none => rfl
  | .array (some elements) =>
    simp only [serializeResp2, serializeValue, serializeElements_eq elements, List.nil_append,
      List.append_assoc]

theorem serializeElements_eq (elements : List RespValue) (buf : Bytes) :
    serializeElements elements buf = buf ++ (elements.map serializeResp2).flatten := by
  match elements with
  | [] => simp only [serializeElements, List.map_nil, List.flatten_nil, List.append_nil]
  | elem :: elements =>
    rw [serializeElements, serializeElements_eq elements, serializeValue_eq elem, List.map_cons,
      List.flatten_cons, List.append_assoc]

end

theorem serializeResp2_array (elements : List RespValue) :
    serializeResp2 (.array (some elements)) = 42 :: (utf8 (toString elements.length) ++
      (crlf ++ (elements.map serializeResp2).flatten)) := by
  rw [serializeResp2, serializeValue, serializeElements_eq]
  simp only [List.nil_append, List.cons_append, List.append_assoc]

/-- Strings of one line, bulk data the parser takes, and arrays that a `Vec` can hold. -/
inductive Sendable [Layout] : RespValue → Prop where
  | simpleString {s : String} (one_line : '\n' ∉ s.toList) : Sendable (.simpleString s)
  | error {s : String} (one_line : '\n' ∉ s.toList) : Sendable (.error s)
  | integer (n : Int64) : Sendable (.integer n)
  | nullBulk : Sendable (.bulkString none)
  | bulk {data : Bytes} (fits : data.length ≤ maxValueSize) : Sendable (.bulkString (some data))
  | nullArray : Sendable (.array none)
  | array {elements : List RespValue}
      (allocates : elements.length * Layout.sizeOfRespValue ≤ isizeMax)
      (members : ∀ element ∈ elements, Sendable element) : Sendable (.array (some elements))

theorem one_line_bytes {s : String} (one_line : '\n' ∉ s.toList) : 10 ∉ utf8 s := by
  unfold utf8
  rw [Library.Utf8.lineFeed_mem_encoded]
  exact one_line

section
variable [Layout]

theorem frames_flatten {values : List RespValue}
    (each : ∀ value ∈ values, Frames (serializeResp2 value) [value]) :
    Frames (values.map serializeResp2).flatten values := by
  induction values with
  | nil => exact .nil
  | cons value values ih =>
    rw [List.forall_mem_cons] at each
    exact each.1.append (ih each.2)

theorem Sendable.frames {value : RespValue} (h : Sendable value) :
    Frames (serializeResp2 value) [value] := by
  induction h with
  | @simpleString s one_line =>
    have read : head 43 (utf8 s) = .ok (.done (.simpleString s)) := by
      simp only [head, fromUtf8Lossy, utf8, Library.Utf8.lossy_encoded]
    exact .line (by decide) (one_line_bytes one_line) read .nil
  | @error s one_line =>
    have read : head 45 (utf8 s) = .ok (.done (.error s)) := by
      simp only [head, fromUtf8Lossy, utf8, Library.Utf8.lossy_encoded]
    exact .line (by decide) (one_line_bytes one_line) read .nil
  | integer n =>
    exact .line (by decide) (toString_one_line n.toInt) (integerHead_toString n) .nil
  | nullBulk =>
    have read : head 36 (utf8 "-1") = .ok (.done (.bulkString none)) := by
      simp only [head, bulkHead, lineInteger_absent, if_true]
    exact .line (by decide) (by decide) read .nil
  | @bulk data fits =>
    have read : head 36 (utf8 (toString data.length)) = .ok (.bulk data.length) :=
      bulkHead_length fits
    exact .bulk (by decide) (length_one_line _) read .nil
  | nullArray =>
    have read : head 42 (utf8 "-1") = .ok (.done (.array none)) := by
      change arrayHead (utf8 "-1") = _
      simp only [arrayHead, lineInteger_absent, if_true]
    exact .line (by decide) (by decide) read .nil
  | @array elements allocates _ ih =>
    have read : head 42 (utf8 (toString elements.length)) = .ok (.array elements.length) :=
      arrayHead_length allocates
    have frame := Frames.array (by decide) (length_one_line _) read (frames_flatten ih) .nil
    rw [serializeResp2_array]
    simpa only [List.append_nil] using frame

theorem Frames.parse_one {bytes : Bytes} {value : RespValue} (h : Frames bytes [value])
    {depth : Nat} (deep : bytes.length ≤ depth) (rest : Bytes) :
    parseValue depth (bytes ++ rest) = .ok (value, rest) := by
  have parsed := h.parse depth rest deep
  cases first : parseValue depth (bytes ++ rest) with
  | error e =>
    rw [List.length_singleton, parseElements, first, error_bind] at parsed
    cases parsed
  | ok out =>
    rw [List.length_singleton, parseElements_cons first] at parsed
    cases parsed
    rfl

/-- Calling `parse` until it answers `Ok(None)`. -/
inductive RespParser.ParsesAll : RespParser → List RespValue → RespParser → Prop where
  | done {p last : RespParser} (waits : p.parse = (.ok none, last)) : ParsesAll p [] last
  | value {p next last : RespParser} {value : RespValue} {values : List RespValue}
      (parses : p.parse = (.ok (some value), next)) (more : ParsesAll next values last) :
      ParsesAll p (value :: values) last

/-- Calling `parse` once for each value. -/
inductive RespParser.ParsesTo : RespParser → List RespValue → RespParser → Prop where
  | done {p : RespParser} : ParsesTo p [] p
  | value {p next last : RespParser} {value : RespValue} {values : List RespValue}
      (parses : p.parse = (.ok (some value), next)) (more : ParsesTo next values last) :
      ParsesTo p (value :: values) last

theorem RespParser.ParsesTo.all {p q last : RespParser} {values : List RespValue}
    (parses : p.ParsesTo values q) (waits : q.parse = (.ok none, last)) : p.ParsesAll values last := by
  induction parses with
  | done => exact .done waits
  | value first _ ih => exact .value first (ih waits)

/-- A parser in front of whole frames parses them and stops where they end. -/
theorem parsesTo_serialized {values : List RespValue} (sendable : ∀ v ∈ values, Sendable v)
    (rest : Bytes) : ∀ p : RespParser, p.pending = (values.map serializeResp2).flatten ++ rest →
      ∃ last, p.ParsesTo values last ∧ last.buffer = p.buffer ∧ last.pending = rest := by
  induction values with
  | nil => exact fun p pending => ⟨p, .done, rfl, pending⟩
  | cons value values ih =>
    intro p pending
    rw [List.forall_mem_cons] at sendable
    rw [List.map_cons, List.flatten_cons, List.append_assoc] at pending
    have parsed : parseValue p.pending.length p.pending =
        .ok (value, (values.map serializeResp2).flatten ++ rest) := by
      have deep : (serializeResp2 value).length ≤ p.pending.length := by
        rw [pending, List.length_append]
        exact Nat.le_add_right _ _
      have one := sendable.1.frames.parse_one deep ((values.map serializeResp2).flatten ++ rest)
      rw [← pending] at one
      exact one
    obtain ⟨last, more, buffer, left⟩ := ih sendable.2 _ (RespParser.pending_advance pending)
    exact ⟨last, .value (RespParser.parse_ok parsed) more, buffer, left⟩

theorem parsesAll_serialized {values : List RespValue} (sendable : ∀ v ∈ values, Sendable v)
    (p : RespParser) (pending : p.pending = (values.map serializeResp2).flatten) :
    ∃ last, p.ParsesAll values last ∧ last.buffer = p.buffer ∧ last.cursor = last.buffer.length := by
  obtain ⟨last, parses, buffer, nothing⟩ :=
    parsesTo_serialized sendable [] p (pending.trans (List.append_nil _).symm)
  have at_end : last.buffer.length ≤ last.cursor := List.drop_eq_nil_iff.mp nothing
  have waits : last.parse = (.ok none, last) := if_pos at_end
  exact ⟨last, parses.all waits, buffer, Nat.le_antisymm last.inside at_end⟩

/-- A stream of serialized values, fed to a new parser, parses as those values,
and nothing of it is left. -/
theorem stream_round_trip (values : List RespValue) (sendable : ∀ v ∈ values, Sendable v) :
    ∃ last, (RespParser.new.feed (values.map serializeResp2).flatten).ParsesAll values last ∧
      last.buffer = (values.map serializeResp2).flatten ∧ last.cursor = last.buffer.length := by
  exact parsesAll_serialized sendable _ (by rw [RespParser.pending_feed]; rfl)

end

/-- A nested array, a lone carriage return, and bulk data with line ends in it. -/
theorem stream_round_trip_nested :
    ∃ last, @RespParser.ParsesAll linux64
      (RespParser.new.feed ([RespValue.array (some [.simpleString "a\rb", .array none]),
        .bulkString (some (utf8 "\r\n*1"))].map serializeResp2).flatten)
      [.array (some [.simpleString "a\rb", .array none]), .bulkString (some (utf8 "\r\n*1"))] last ∧
      last.buffer = utf8 "*2\r\n+a\rb\r\n*-1\r\n$4\r\n\r\n*1\r\n" ∧
      last.cursor = last.buffer.length := by
  let _ := linux64
  have bytes : utf8 "*2\r\n+a\rb\r\n*-1\r\n$4\r\n\r\n*1\r\n" =
      ([RespValue.array (some [.simpleString "a\rb", .array none]),
        .bulkString (some (utf8 "\r\n*1"))].map serializeResp2).flatten := by decide
  rw [bytes]
  apply stream_round_trip
  simp only [List.forall_mem_cons, List.not_mem_nil, false_implies, implies_true, and_true]
  refine ⟨.array (by decide) ?_, .bulk (by decide)⟩
  simp only [List.forall_mem_cons, List.not_mem_nil, false_implies, implies_true, and_true]
  exact ⟨.simpleString (by decide), .nullArray⟩

end RsDragonfly
