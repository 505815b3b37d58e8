import RsDragonfly.Library.Utf8

/-! What a scraper reads: a message of head lines and a body of the length that one of
them gives, and in a text one sample for each line that is not a comment. -/
namespace Library.Scrape

def readNumber (digits : List Char) : Option Nat :=
  if digits ≠ [] ∧ digits.all Char.isDigit = true then some (Nat.ofDigitChars 10 digits 0) else none

theorem readNumber_toDigits (n : Nat) : readNumber (Nat.toDigits 10 n) = some n := by
  have digits : (Nat.toDigits 10 n).all Char.isDigit = true :=
    List.all_eq_true.mpr fun _ member => Nat.isDigit_of_mem_toDigits (by decide) (by decide) member
  rw [readNumber, if_pos ⟨Nat.toDigits_ne_nil, digits⟩, Nat.ofDigitChars_toDigits] <;> decide

structure Sample where
  series : List Char
  value : Nat
deriving DecidableEq

inductive Line where
  | comment (text : List Char)
  | sample (s : Sample)

namespace Line

def write : Line → List Char
  | comment text => '#' :: text
  | sample s => s.series ++ ' ' :: Nat.toDigits 10 s.value

def sample? : Line → Option Sample
  | comment _ => none
  | sample s => some s

end Line

/-- One word that does not begin a comment. -/
structure Word (name : List Char) : Prop where
  named : name ≠ []
  no_comment : name.head? ≠ some '#'
  one_word : ' ' ∉ name
  one_line : '\n' ∉ name

instance (name : List Char) : Decidable (Word name) :=
  decidable_of_iff (name ≠ [] ∧ name.head? ≠ some '#' ∧ ' ' ∉ name ∧ '\n' ∉ name)
    ⟨fun all => ⟨all.1, all.2.1, all.2.2.1, all.2.2.2⟩,
      fun word => ⟨word.named, word.no_comment, word.one_word, word.one_line⟩⟩

theorem Word.append {name more : List Char} (word : Word name) (one_word : ' ' ∉ more)
    (one_line : '\n' ∉ more) : Word (name ++ more) := by
  constructor
  · simp [word.named]
  · cases found : name.head? with
    | none => exact absurd (List.head?_eq_none_iff.mp found) word.named
    | some c => simpa [List.head?_append, found] using word.no_comment
  · simp [word.one_word, one_word]
  · simp [word.one_line, one_line]

/-- A comment on one line, or the sample of a series whose name is one word. -/
inductive Line.Plain : Line → Prop where
  | comment {text : List Char} (one_line : '\n' ∉ text) : Plain (.comment text)
  | sample {s : Sample} (word : Word s.series) : Plain (.sample s)

def writeLines (lines : List Line) : List Char := lines.flatMap fun line => line.write ++ ['\n']

def readLine (line : List Char) : Option (List Sample) :=
  if line = [] ∨ line.head? = some '#' then some []
  else (readNumber (line.dropWhile (· ≠ ' ')).tail).map fun n => [⟨line.takeWhile (· ≠ ' '), n⟩]

def readLines : List (List Char) → Option (List Sample)
  | [] => some []
  | line :: lines => do
    let first ← readLine line
    let rest ← readLines lines
    return first ++ rest

def readSamples (text : List Char) : Option (List Sample) := readLines (text.splitOn '\n')

theorem readLine_write {line : Line} (plain : line.Plain) :
    readLine line.write = some line.sample?.toList := by
  cases plain with
  | comment one_line => rfl
  | @sample s word =>
    have spaceless : ∀ c ∈ s.series, (decide (c ≠ ' ')) = true := by
      intro c member
      exact decide_eq_true fun space => word.one_word (space ▸ member)
    have shown : ¬ (s.series ++ ' ' :: Nat.toDigits 10 s.value = [] ∨
        (s.series ++ ' ' :: Nat.toDigits 10 s.value).head? = some '#') := by
      cases found : s.series.head? with
      | none => exact absurd (List.head?_eq_none_iff.mp found) word.named
      | some c => simpa [List.head?_append, found] using word.no_comment
    rw [readLine, Line.write, if_neg shown, List.dropWhile_append_of_pos spaceless,
      List.takeWhile_append_of_pos spaceless]
    simp [readNumber_toDigits, Line.sample?]

theorem one_line_write {line : Line} (plain : line.Plain) : '\n' ∉ line.write := by
  cases plain with
  | comment one_line => simp [Line.write, one_line]
  | @sample s word =>
    have digits : '\n' ∉ Nat.toDigits 10 s.value := by
      intro member
      have digit := Nat.isDigit_of_mem_toDigits (by decide) (by decide) member
      exact absurd digit (by decide)
    simp [Line.write, word.one_line, digits]

theorem splitOn_writeLines {lines : List Line} (plain : ∀ line ∈ lines, line.Plain) :
    (writeLines lines).splitOn '\n' = lines.map Line.write ++ [[]] := by
  induction lines with
  | nil => rfl
  | cons line lines ih =>
    rw [List.forall_mem_cons] at plain
    have split : writeLines (line :: lines) = line.write ++ '\n' :: writeLines lines := by
      simp [writeLines]
    rw [split, List.splitOn_append_cons_self_of_not_mem (one_line_write plain.1), ih plain.2]
    rfl

/-- A page of plain lines is read back as its samples, in their order. -/
theorem readSamples_writeLines {lines : List Line} (plain : ∀ line ∈ lines, line.Plain) :
    readSamples (writeLines lines) = some (lines.filterMap Line.sample?) := by
  rw [readSamples, splitOn_writeLines plain]
  induction lines with
  | nil => rfl
  | cons line lines ih =>
    rw [List.forall_mem_cons] at plain
    rw [List.map_cons, List.cons_append, readLines, readLine_write plain.1, Option.bind_eq_bind,
      Option.bind_some, ih plain.2]
    cases line <;> rfl

/-- The text is made of plain lines, with these samples among them. -/
def Shows (text : List Char) (samples : List Sample) : Prop :=
  ∃ lines : List Line, (∀ line ∈ lines, line.Plain) ∧ text = writeLines lines ∧
    lines.filterMap Line.sample? = samples

theorem Shows.read {text : List Char} {samples : List Sample} (shows_ : Shows text samples) :
    readSamples text = some samples := by
  obtain ⟨lines, plain, rfl, rfl⟩ := shows_
  exact readSamples_writeLines plain

theorem Shows.append {first second : List Char} {samples more : List Sample}
    (left : Shows first samples) (right : Shows second more) :
    Shows (first ++ second) (samples ++ more) := by
  obtain ⟨lines, plain, rfl, rfl⟩ := left
  obtain ⟨others, plain', rfl, rfl⟩ := right
  refine ⟨lines ++ others, ?_, ?_, List.filterMap_append⟩
  · intro line member
    exact (List.mem_append.mp member).elim (plain line) (plain' line)
  · exact List.flatMap_append.symm

theorem Shows.comment (text : List Char) (one_line : '\n' ∉ text) :
    Shows ('#' :: text ++ ['\n']) [] := by
  refine ⟨[.comment text], ?_, ?_, rfl⟩
  · intro line member
    rw [List.mem_singleton.mp member]
    exact .comment one_line
  · simp [writeLines, Line.write]

theorem Shows.sample {s : Sample} (word : Word s.series) :
    Shows (s.series ++ ' ' :: Nat.toDigits 10 s.value ++ ['\n']) [s] := by
  refine ⟨[.sample s], ?_, ?_, rfl⟩
  · intro line member
    rw [List.mem_singleton.mp member]
    exact .sample word
  · simp [writeLines, Line.write]

theorem Shows.flatMap {α : Type} {f : α → List Char} {g : α → List Sample} {xs : List α}
    (each : ∀ x ∈ xs, Shows (f x) (g x)) : Shows (xs.flatMap f) (xs.flatMap g) := by
  induction xs with
  | nil => exact ⟨[], by simp, rfl, rfl⟩
  | cons x xs ih =>
    rw [List.forall_mem_cons] at each
    exact each.1.append (ih each.2)

/-- The bytes up to the next line feed, and what is behind it. -/
def takeLine : List UInt8 → Option (List UInt8 × List UInt8)
  | [] => none
  | b :: rest =>
    if b = 10 then some ([], rest)
    else (takeLine rest).map fun out => (b :: out.1, out.2)

def dropReturn (line : List UInt8) : List UInt8 :=
  if line.getLast? = some 13 then line.dropLast else line

/-- The lines up to the next empty one. -/
def takeHead : Nat → List UInt8 → Option (List (List UInt8) × List UInt8)
  | 0, _ => none
  | n + 1, bytes => do
    let (raw, rest) ← takeLine bytes
    if dropReturn raw = [] then return ([], rest)
    else
      let (lines, rest) ← takeHead n rest
      return (dropReturn raw :: lines, rest)

def contentLengthOf (line : List UInt8) : Option Nat :=
  let label := "Content-Length: ".toList
  let text := (Utf8.lossy line).toList
  if label.isPrefixOf text then readNumber (text.drop label.length) else none

/-- The head, a body of the length that the head gives, and what is behind it. -/
def readMessage (bytes : List UInt8) : Option (List (List UInt8) × List UInt8 × List UInt8) := do
  let (head, rest) ← takeHead bytes.length bytes
  let size ← head.findSome? contentLengthOf
  if size ≤ rest.length then return (head, rest.take size, rest.drop size) else none

def writeMessage (head : List (List UInt8)) (body : List UInt8) : List UInt8 :=
  head.flatMap (fun line => line ++ [13, 10]) ++ 13 :: 10 :: body

theorem takeLine_append {line : List UInt8} (one_line : 10 ∉ line) (rest : List UInt8) :
    takeLine (line ++ 13 :: 10 :: rest) = some (line ++ [13], rest) := by
  induction line with
  | nil => rfl
  | cons b line ih =>
    rw [List.mem_cons, not_or] at one_line
    rw [List.cons_append, takeLine, if_neg fun same => one_line.1 same.symm, ih one_line.2]
    rfl

theorem dropReturn_append (line : List UInt8) : dropReturn (line ++ [13]) = line := by
  rw [dropReturn, if_pos List.getLast?_concat, List.dropLast_concat]

theorem takeHead_append {head : List (List UInt8)} (lines : ∀ line ∈ head, line ≠ [] ∧ 10 ∉ line)
    (rest : List UInt8) {n : Nat} (enough : head.length < n) :
    takeHead n (head.flatMap (fun line => line ++ [13, 10]) ++ 13 :: 10 :: rest) =
      some (head, rest) := by
  induction head generalizing n with
  | nil =>
    obtain ⟨m, rfl⟩ := Nat.exists_eq_succ_of_ne_zero (Nat.ne_of_gt enough)
    rfl
  | cons line head ih =>
    rw [List.forall_mem_cons] at lines
    obtain ⟨m, rfl⟩ := Nat.exists_eq_succ_of_ne_zero (Nat.ne_of_gt (Nat.zero_lt_of_lt enough))
    rw [List.flatMap_cons, List.append_assoc, List.append_assoc, takeHead, List.cons_append,
      List.cons_append, List.nil_append, takeLine_append lines.1.2, Option.bind_eq_bind,
      Option.bind_some]
    simp only [dropReturn_append, lines.1.1, if_false, ih lines.2 (Nat.lt_of_succ_lt_succ enough)]
    rfl

theorem length_lt_writeMessage (head : List (List UInt8)) (body : List UInt8) :
    head.length < (writeMessage head body).length := by
  induction head with
  | nil => simp [writeMessage]
  | cons line head ih =>
    simp only [writeMessage, List.flatMap_cons, List.length_append, List.length_cons] at ih ⊢
    omega

/-- A message whose head gives the length of its body is read back, whatever follows it. -/
theorem readMessage_append {head : List (List UInt8)} {body : List UInt8}
    (lines : ∀ line ∈ head, line ≠ [] ∧ 10 ∉ line)
    (length : head.findSome? contentLengthOf = some body.length) (rest : List UInt8) :
    readMessage (writeMessage head body ++ rest) = some (head, body, rest) := by
  have enough : head.length < (writeMessage head body ++ rest).length := by
    have short := length_lt_writeMessage head body
    rw [List.length_append]
    omega
  have whole : writeMessage head body ++ rest =
      head.flatMap (fun line => line ++ [13, 10]) ++ 13 :: 10 :: (body ++ rest) := by
    simp [writeMessage]
  have found : takeHead (writeMessage head body ++ rest).length (writeMessage head body ++ rest) =
      some (head, body ++ rest) := by
    generalize (writeMessage head body ++ rest).length = n at enough
    rw [whole]
    exact takeHead_append lines _ enough
  unfold readMessage
  rw [found]
  simp [length]

/-- The samples in the body of a message that ends with it. -/
def scrape (bytes : List UInt8) : Option (List Sample) := do
  let (_, body, rest) ← readMessage bytes
  if rest = [] then readSamples (Utf8.lossy body).toList else none

end Library.Scrape
