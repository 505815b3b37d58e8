import RsDragonfly.Protocol.Resp

/-! Decimal text over bytes, and `str::parse::<i64>` on the bytes a client sent. -/
namespace RsDragonfly

def isDigitByte (b : UInt8) : Prop := 48 ≤ b.toNat ∧ b.toNat ≤ 57

def decimalValue (digits : Bytes) : Nat :=
  digits.foldl (fun n b => 10 * n + (b.toNat - 48)) 0

/-- Decimal digits after an optional sign, and their value. -/
inductive DecimalText : Bytes → Int → Prop where
  | plain {digits : Bytes} (some_digit : digits ≠ []) (each : ∀ b ∈ digits, isDigitByte b) :
      DecimalText digits (decimalValue digits)
  | plus {digits : Bytes} (some_digit : digits ≠ []) (each : ∀ b ∈ digits, isDigitByte b) :
      DecimalText (43 :: digits) (decimalValue digits)
  | minus {digits : Bytes} (some_digit : digits ≠ []) (each : ∀ b ∈ digits, isDigitByte b) :
      DecimalText (45 :: digits) (-(decimalValue digits : Int))

/-- The character of an ASCII byte. -/
def asciiChar (b : UInt8) : Char := Char.ofNat b.toNat

theorem asciiChar_toNat {b : UInt8} (small : b.toNat < 128) : (asciiChar b).toNat = b.toNat :=
  Library.Utf8.toNat_char (by omega)

theorem isDigit_asciiChar {b : UInt8} (small : b.toNat < 128) :
    (asciiChar b).isDigit = true ↔ isDigitByte b := by
  have value := asciiChar_toNat small
  unfold Char.isDigit isDigitByte
  rw [← value, Bool.and_eq_true, decide_eq_true_eq, decide_eq_true_eq]
  exact Iff.rfl

theorem parseDigits_eq_some {cs : List Char} {n : Nat} :
    parseDigits cs = some n ↔ cs ≠ [] ∧ (∀ c ∈ cs, c.isDigit = true) ∧
      n = cs.foldl (fun n c => 10 * n + (c.toNat - 48)) 0 := by
  have loop (cs : List Char) (init : Nat) :
      cs.foldlM (fun n c => if c.isDigit then some (10 * n + (c.toNat - 48)) else none) init =
        some n ↔ (∀ c ∈ cs, c.isDigit = true) ∧
          n = cs.foldl (fun n c => 10 * n + (c.toNat - 48)) init := by
    induction cs generalizing init with
    | nil =>
      constructor
      · intro found
        cases found
        exact ⟨by simp, rfl⟩
      · rintro ⟨_, rfl⟩
        rfl
    | cons c cs ih =>
      rw [List.foldlM_cons, List.foldl_cons, List.forall_mem_cons]
      split
      · rename_i digit
        rw [Option.bind_eq_bind, Option.bind_some, ih]
        simp [digit]
      · rename_i other
        simp [other]
  unfold parseDigits
  split
  · simp
  · rename_i some_digit
    rw [loop]
    exact (and_iff_right some_digit).symm

theorem parseDigits_ascii {digits : Bytes} (small : ∀ b ∈ digits, b.toNat < 128) {n : Nat} :
    parseDigits (digits.map asciiChar) = some n ↔
      digits ≠ [] ∧ (∀ b ∈ digits, isDigitByte b) ∧ n = decimalValue digits := by
  have value (init : Nat) : (digits.map asciiChar).foldl (fun n c => 10 * n + (c.toNat - 48)) init =
      digits.foldl (fun n b => 10 * n + (b.toNat - 48)) init := by
    rw [List.foldl_map]
    induction digits generalizing init with
    | nil => rfl
    | cons b digits ih =>
      rw [List.forall_mem_cons] at small
      rw [List.foldl_cons, List.foldl_cons, asciiChar_toNat small.1, ih small.2]
  have each : (∀ c ∈ digits.map asciiChar, c.isDigit = true) ↔ ∀ b ∈ digits, isDigitByte b := by
    rw [List.forall_mem_map]
    constructor
    · intro all b member
      exact (isDigit_asciiChar (small b member)).mp (all b member)
    · intro all b member
      exact (isDigit_asciiChar (small b member)).mpr (all b member)
  rw [parseDigits_eq_some, value, each, ne_eq, List.map_eq_nil_iff]
  rfl

theorem inRange_eq_some {k : Int} {n : Int64} :
    (if -(2 ^ 63) ≤ k ∧ k < 2 ^ 63 then some (Int64.ofInt k) else none) = some n ↔ n.toInt = k := by
  constructor
  · intro found
    split at found
    · rename_i range
      cases found
      exact Int64.toInt_ofInt_of_le range.1 range.2
    · cases found
  · rintro rfl
    rw [if_pos ⟨n.le_toInt, n.toInt_lt⟩, Int64.ofInt_toInt]

theorem parseDigits_sign {c : Char} (sign : c.isDigit = false) (cs : List Char) :
    parseDigits (c :: cs) = none := by
  rw [Option.eq_none_iff_forall_ne_some]
  intro n found
  have each := (parseDigits_eq_some.mp found).2.1
  have digit := each c List.mem_cons_self
  rw [sign] at digit
  cases digit

theorem parseI64_eq_some {s : String} {n : Int64} : parseI64 s = some n ↔
    (∃ m, parseDigits s.toList = some m ∧ n.toInt = m) ∨
    (∃ digits m, s.toList = '+' :: digits ∧ parseDigits digits = some m ∧ n.toInt = m) ∨
    (∃ digits m, s.toList = '-' :: digits ∧ parseDigits digits = some m ∧ n.toInt = -(m : Int)) := by
  unfold parseI64
  split
  · rename_i digits minus
    have not_plain := parseDigits_sign (c := '-') rfl digits
    simp only [Option.bind_eq_bind, Option.bind_eq_some_iff, inRange_eq_some]
    simp [minus, not_plain]
  · rename_i digits plus
    have not_plain := parseDigits_sign (c := '+') rfl digits
    simp only [Option.bind_eq_bind, Option.bind_eq_some_iff, inRange_eq_some]
    simp [plus, not_plain]
  · rename_i not_minus not_plus
    simp only [Option.bind_eq_bind, Option.bind_eq_some_iff, inRange_eq_some]
    constructor
    · exact Or.inl
    · rintro (plain | ⟨digits, _, plus, _⟩ | ⟨digits, _, minus, _⟩)
      · exact plain
      · exact absurd plus (not_plus digits)
      · exact absurd minus (not_minus digits)

theorem DecimalText.small {bytes : Bytes} {n : Int} (h : DecimalText bytes n) :
    ∀ b ∈ bytes, b.toNat < 128 := by
  have digit {digits : Bytes} (each : ∀ b ∈ digits, isDigitByte b) :
      ∀ b ∈ digits, b.toNat < 128 := by
    intro b member
    have range := each b member
    unfold isDigitByte at range
    omega
  cases h with
  | plain _ each => exact digit each
  | plus _ each => exact List.forall_mem_cons.mpr ⟨by decide, digit each⟩
  | minus _ each => exact List.forall_mem_cons.mpr ⟨by decide, digit each⟩

theorem asciiChar_eq {b : UInt8} (small : b.toNat < 128) {c : Char} :
    asciiChar b = c ↔ b.toNat = c.toNat := by
  rw [← Char.toNat_inj, asciiChar_toNat small]

theorem signed_ascii {bytes : Bytes} (small : ∀ b ∈ bytes, b.toNat < 128) (sign : UInt8)
    {digits : List Char} (signed : bytes.map asciiChar = asciiChar sign :: digits)
    (sign_small : sign.toNat < 128) :
    ∃ tail, bytes = sign :: tail ∧ digits = tail.map asciiChar := by
  obtain ⟨b, tail, rfl, head, rest⟩ := List.map_eq_cons_iff.mp signed
  have first := small b List.mem_cons_self
  rw [asciiChar_eq first, asciiChar_toNat sign_small, UInt8.toNat_inj] at head
  exact ⟨tail, head ▸ rfl, rest.symm⟩

/-- `str::parse::<i64>` on ASCII bytes reads decimal text within the range. -/
theorem parseI64_ascii {bytes : Bytes} (small : ∀ b ∈ bytes, b.toNat < 128) {n : Int64} :
    parseI64 (String.ofList (bytes.map asciiChar)) = some n ↔ DecimalText bytes n.toInt := by
  rw [parseI64_eq_some, String.toList_ofList]
  constructor
  · rintro (⟨m, read, value⟩ | ⟨digits, m, signed, read, value⟩ | ⟨digits, m, signed, read, value⟩)
    · obtain ⟨some_digit, each, rfl⟩ := (parseDigits_ascii small).mp read
      rw [value]
      exact .plain some_digit each
    · obtain ⟨tail, rfl, rfl⟩ := signed_ascii small 43 signed (by decide)
      obtain ⟨some_digit, each, rfl⟩ :=
        (parseDigits_ascii (List.forall_mem_cons.mp small).2).mp read
      rw [value]
      exact .plus some_digit each
    · obtain ⟨tail, rfl, rfl⟩ := signed_ascii small 45 signed (by decide)
      obtain ⟨some_digit, each, rfl⟩ :=
        (parseDigits_ascii (List.forall_mem_cons.mp small).2).mp read
      rw [value]
      exact .minus some_digit each
  · intro text
    generalize value : n.toInt = k at text
    cases text with
    | plain some_digit each =>
      exact .inl ⟨_, (parseDigits_ascii small).mpr ⟨some_digit, each, rfl⟩, rfl⟩
    | plus some_digit each =>
      have tail_small := (List.forall_mem_cons.mp small).2
      exact .inr (.inl ⟨_, _, rfl, (parseDigits_ascii tail_small).mpr ⟨some_digit, each, rfl⟩,
        rfl⟩)
    | minus some_digit each =>
      have tail_small := (List.forall_mem_cons.mp small).2
      exact .inr (.inr ⟨_, _, rfl, (parseDigits_ascii tail_small).mpr ⟨some_digit, each, rfl⟩,
        rfl⟩)

theorem ascii_of_parseI64 {s : String} {n : Int64} (read : parseI64 s = some n) :
    ∀ c ∈ s.toList, c.toNat < 128 := by
  have digits_small {cs : List Char} {m : Nat} (read : parseDigits cs = some m) :
      ∀ c ∈ cs, c.toNat < 128 := by
    intro c member
    have digit := (parseDigits_eq_some.mp read).2.1 c member
    have high := (Char.isDigit_iff_toNat.mp digit).2
    exact Nat.lt_of_le_of_lt high (by decide)
  rcases parseI64_eq_some.mp read with ⟨m, read, _⟩ | ⟨digits, m, plus, read, _⟩ |
    ⟨digits, m, minus, read, _⟩
  · exact digits_small read
  · rw [plus]
    exact List.forall_mem_cons.mpr ⟨by decide, digits_small read⟩
  · rw [minus]
    exact List.forall_mem_cons.mpr ⟨by decide, digits_small read⟩

/-- The code repairs the bytes before it reads the number, which lets no other text pass. -/
theorem parseI64_lossy {bytes : Bytes} {n : Int64} :
    parseI64 (fromUtf8Lossy bytes) = some n ↔ DecimalText bytes n.toInt := by
  constructor
  · intro read
    have small := Library.Utf8.ascii_of_lossy (ascii_of_parseI64 read)
    rw [fromUtf8Lossy, Library.Utf8.lossy_ascii small] at read
    exact (parseI64_ascii small).mp read
  · intro text
    rw [fromUtf8Lossy, Library.Utf8.lossy_ascii text.small]
    exact (parseI64_ascii text.small).mpr text

end RsDragonfly
