import Mathlib.Tactic.SplitIfs

/-! UTF-8 decoding of byte lists, strict and lossy, and its inverse on encoded strings.
One decoding step looks at a leading byte and at what follows it. An ill-formed
sequence is cut after its longest prefix that could start a character, as the
Unicode standard recommends for replacement. -/
namespace Library.Utf8

def isContinuation (b : UInt8) : Bool := 0x80 ≤ b && b ≤ 0xBF

/-- The second bytes a leading byte of width three or four allows. -/
def allowsSecond (lead second : UInt8) : Bool :=
  if lead = 0xE0 then 0xA0 ≤ second && second ≤ 0xBF
  else if lead = 0xED then 0x80 ≤ second && second ≤ 0x9F
  else if lead = 0xF0 then 0x90 ≤ second && second ≤ 0xBF
  else if lead = 0xF4 then 0x80 ≤ second && second ≤ 0x8F
  else isContinuation second

def width (lead : UInt8) : Nat :=
  if lead < 0x80 then 1
  else if 0xC2 ≤ lead && lead ≤ 0xDF then 2
  else if 0xE0 ≤ lead && lead ≤ 0xEF then 3
  else if 0xF0 ≤ lead && lead ≤ 0xF4 then 4
  else 0

def low6 (b : UInt8) : Nat := b.toNat % 64

/-- One character, or none for an ill-formed sequence, and how many bytes after
the leading one belong to it. -/
def decodeOne (lead : UInt8) (rest : List UInt8) : Option Char × Nat :=
  match width lead, rest with
  | 1, _ => (some (Char.ofNat lead.toNat), 0)
  | 2, b :: _ =>
    if isContinuation b then (some (Char.ofNat (lead.toNat % 32 * 64 + low6 b)), 1) else (none, 0)
  | 3, b :: tail =>
    if allowsSecond lead b then
      match tail with
      | c :: _ =>
        if isContinuation c then
          (some (Char.ofNat ((lead.toNat % 16 * 64 + low6 b) * 64 + low6 c)), 2)
        else (none, 1)
      | [] => (none, 1)
    else (none, 0)
  | 4, b :: tail =>
    if allowsSecond lead b then
      match tail with
      | c :: tail =>
        if isContinuation c then
          match tail with
          | d :: _ =>
            if isContinuation d then
              (some (Char.ofNat (((lead.toNat % 8 * 64 + low6 b) * 64 + low6 c) * 64 + low6 d)), 3)
            else (none, 2)
          | [] => (none, 2)
        else (none, 1)
      | [] => (none, 1)
    else (none, 0)
  | _, _ => (none, 0)

/-- The decoded sequence, after the next `skip` bytes. -/
def decode : Nat → List UInt8 → List (Option Char)
  | _, [] => []
  | skip + 1, _ :: rest => decode skip rest
  | 0, lead :: rest =>
    let one := decodeOne lead rest
    one.1 :: decode one.2 rest

def replacement : Char := Char.ofNat 0xFFFD

def lossy (bytes : List UInt8) : String :=
  String.ofList ((decode 0 bytes).map (fun c => c.getD replacement))

def strict (bytes : List UInt8) : Option String :=
  ((decode 0 bytes).mapM id).map String.ofList

/-! A character decodes from its own encoding. -/

theorem toNat_byte {n : Nat} (small : n < 256) : (UInt8.ofNat n).toNat = n :=
  UInt8.toNat_ofNat_of_lt' small

theorem byte_le_iff {m n : Nat} (hm : m < 256) (hn : n < 256) :
    UInt8.ofNat m ≤ UInt8.ofNat n ↔ m ≤ n := by
  rw [UInt8.le_iff_toNat_le, toNat_byte hm, toNat_byte hn]

theorem byte_eq_iff {m n : Nat} (hm : m < 256) (hn : n < 256) :
    UInt8.ofNat m = UInt8.ofNat n ↔ m = n := by
  rw [← UInt8.toNat_inj, toNat_byte hm, toNat_byte hn]

theorem width_byte {n : Nat} (small : n < 256) : width (UInt8.ofNat n) =
    if n < 128 then 1
    else if 194 ≤ n ∧ n ≤ 223 then 2
    else if 224 ≤ n ∧ n ≤ 239 then 3
    else if 240 ≤ n ∧ n ≤ 244 then 4
    else 0 := by
  have one : (UInt8.ofNat n < 0x80) ↔ n < 128 := by
    rw [UInt8.lt_iff_toNat_lt, toNat_byte small]
    rfl
  have two : (0xC2 ≤ UInt8.ofNat n) ↔ 194 ≤ n := byte_le_iff (by decide) small
  have two' : (UInt8.ofNat n ≤ 0xDF) ↔ n ≤ 223 := byte_le_iff small (by decide)
  have three : (0xE0 ≤ UInt8.ofNat n) ↔ 224 ≤ n := byte_le_iff (by decide) small
  have three' : (UInt8.ofNat n ≤ 0xEF) ↔ n ≤ 239 := byte_le_iff small (by decide)
  have four : (0xF0 ≤ UInt8.ofNat n) ↔ 240 ≤ n := byte_le_iff (by decide) small
  have four' : (UInt8.ofNat n ≤ 0xF4) ↔ n ≤ 244 := byte_le_iff small (by decide)
  simp only [width, one, two, two', three, three', four, four', Bool.and_eq_true,
    decide_eq_true_eq]

theorem isContinuation_byte {n : Nat} (small : n < 64) :
    isContinuation (UInt8.ofNat (n + 128)) = true := by
  have low : (0x80 ≤ UInt8.ofNat (n + 128)) ↔ 128 ≤ n + 128 := byte_le_iff (by decide) (by omega)
  have high : (UInt8.ofNat (n + 128) ≤ 0xBF) ↔ n + 128 ≤ 191 := byte_le_iff (by omega) (by decide)
  simp only [isContinuation, low, high, Bool.and_eq_true, decide_eq_true_eq]
  omega

theorem low6_byte {n : Nat} (small : n < 64) : low6 (UInt8.ofNat (n + 128)) = n := by
  rw [low6, toNat_byte (by omega)]
  omega

/-- The second byte keeps the shortest form, no surrogate and the last code point. -/
theorem allowsSecond_byte {lead n : Nat} (hlead : lead < 256) (small : n < 64)
    (shortest : lead = 224 → 32 ≤ n) (surrogate : lead = 237 → n < 32)
    (shortest' : lead = 240 → 16 ≤ n) (last : lead = 244 → n < 16) :
    allowsSecond (UInt8.ofNat lead) (UInt8.ofNat (n + 128)) = true := by
  have e0 : (UInt8.ofNat lead = 0xE0) ↔ lead = 224 := byte_eq_iff hlead (by decide)
  have ed : (UInt8.ofNat lead = 0xED) ↔ lead = 237 := byte_eq_iff hlead (by decide)
  have f0 : (UInt8.ofNat lead = 0xF0) ↔ lead = 240 := byte_eq_iff hlead (by decide)
  have f4 : (UInt8.ofNat lead = 0xF4) ↔ lead = 244 := byte_eq_iff hlead (by decide)
  have within (low high : Nat) (hlow : low < 256) (hhigh : high < 256) (above : low ≤ n + 128)
      (below : n + 128 ≤ high) : (decide (UInt8.ofNat low ≤ UInt8.ofNat (n + 128)) &&
        decide (UInt8.ofNat (n + 128) ≤ UInt8.ofNat high)) = true := by
    rw [Bool.and_eq_true, decide_eq_true_eq, decide_eq_true_eq, byte_le_iff hlow (by omega),
      byte_le_iff (by omega) hhigh]
    exact ⟨above, below⟩
  simp only [allowsSecond, e0, ed, f0, f4]
  split_ifs with first second third fourth
  · have := shortest first
    exact within 160 191 (by decide) (by decide) (by omega) (by omega)
  · have := surrogate second
    exact within 128 159 (by decide) (by decide) (by omega) (by omega)
  · have := shortest' third
    exact within 144 191 (by decide) (by decide) (by omega) (by omega)
  · have := last fourth
    exact within 128 143 (by decide) (by decide) (by omega) (by omega)
  · exact isContinuation_byte small

theorem decodeOne_two {v : Nat} (low : 127 < v) (high : v ≤ 2047) (rest : List UInt8) :
    decodeOne (UInt8.ofNat (v / 64 % 32 + 192)) (UInt8.ofNat (v % 64 + 128) :: rest) =
      (some (Char.ofNat v), 1) := by
  have wide : width (UInt8.ofNat (v / 64 % 32 + 192)) = 2 := by
    rw [width_byte (by omega), if_neg (by omega), if_pos (by omega)]
  have value : (v / 64 % 32 + 192) % 32 * 64 + v % 64 = v := by omega
  have last : v % 64 < 64 := by omega
  simp only [decodeOne, wide, isContinuation_byte last, low6_byte last,
    toNat_byte (show v / 64 % 32 + 192 < 256 by omega), value, if_true]

theorem decodeOne_three {v : Nat} (low : 2047 < v) (high : v ≤ 65535)
    (scalar : v < 55296 ∨ 57343 < v) (rest : List UInt8) :
    decodeOne (UInt8.ofNat (v / 4096 % 16 + 224))
      (UInt8.ofNat (v / 64 % 64 + 128) :: UInt8.ofNat (v % 64 + 128) :: rest) =
      (some (Char.ofNat v), 2) := by
  have wide : width (UInt8.ofNat (v / 4096 % 16 + 224)) = 3 := by
    rw [width_byte (by omega), if_neg (by omega), if_neg (by omega), if_pos (by omega)]
  have allowed : allowsSecond (UInt8.ofNat (v / 4096 % 16 + 224))
      (UInt8.ofNat (v / 64 % 64 + 128)) = true :=
    allowsSecond_byte (by omega) (by omega) (by omega) (by omega) (by omega) (by omega)
  have value : ((v / 4096 % 16 + 224) % 16 * 64 + v / 64 % 64) * 64 + v % 64 = v := by omega
  have middle : v / 64 % 64 < 64 := by omega
  have last : v % 64 < 64 := by omega
  simp only [decodeOne, wide, allowed, isContinuation_byte last, low6_byte last, low6_byte middle,
    toNat_byte (show v / 4096 % 16 + 224 < 256 by omega), value, if_true]

theorem decodeOne_four {v : Nat} (low : 65535 < v) (high : v < 1114112) (rest : List UInt8) :
    decodeOne (UInt8.ofNat (v / 262144 % 8 + 240))
      (UInt8.ofNat (v / 4096 % 64 + 128) :: UInt8.ofNat (v / 64 % 64 + 128) ::
        UInt8.ofNat (v % 64 + 128) :: rest) =
      (some (Char.ofNat v), 3) := by
  have wide : width (UInt8.ofNat (v / 262144 % 8 + 240)) = 4 := by
    rw [width_byte (by omega), if_neg (by omega), if_neg (by omega), if_neg (by omega),
      if_pos (by omega)]
  have allowed : allowsSecond (UInt8.ofNat (v / 262144 % 8 + 240))
      (UInt8.ofNat (v / 4096 % 64 + 128)) = true :=
    allowsSecond_byte (by omega) (by omega) (by omega) (by omega) (by omega) (by omega)
  have value : (((v / 262144 % 8 + 240) % 8 * 64 + v / 4096 % 64) * 64 + v / 64 % 64) * 64 +
      v % 64 = v := by omega
  have second : v / 4096 % 64 < 64 := by omega
  have third : v / 64 % 64 < 64 := by omega
  have last : v % 64 < 64 := by omega
  simp only [decodeOne, wide, allowed, isContinuation_byte third, isContinuation_byte last,
    low6_byte second, low6_byte third, low6_byte last,
    toNat_byte (show v / 262144 % 8 + 240 < 256 by omega), value, if_true]

theorem decodeOne_encoded (c : Char) (rest : List UInt8) :
    ∃ lead tail, String.utf8EncodeChar c = lead :: tail ∧
      decodeOne lead (tail ++ rest) = (some c, tail.length) := by
  have same : Char.ofNat c.val.toNat = c := Char.ofNat_toNat c
  have valid : c.val.toNat < 55296 ∨ 57343 < c.val.toNat ∧ c.val.toNat < 1114112 := c.valid
  unfold String.utf8EncodeChar
  generalize c.val.toNat = v at same valid
  rw [← same]
  dsimp only
  split_ifs with one two three
  · refine ⟨_, [], rfl, ?_⟩
    have wide : width (UInt8.ofNat v) = 1 := by
      rw [width_byte (by omega), if_pos (by omega)]
    simp only [decodeOne, wide, toNat_byte (show v < 256 by omega), List.length_nil]
  · exact ⟨_, _, rfl, decodeOne_two (by omega) two rest⟩
  · exact ⟨_, _, rfl, decodeOne_three (by omega) three (by omega) rest⟩
  · exact ⟨_, _, rfl, decodeOne_four (by omega) (by omega) rest⟩

theorem decode_skip (skipped rest : List UInt8) :
    decode skipped.length (skipped ++ rest) = decode 0 rest := by
  induction skipped with
  | nil => rfl
  | cons _ skipped ih => exact ih

theorem decode_encoded (cs : List Char) :
    decode 0 (cs.flatMap String.utf8EncodeChar) = cs.map some := by
  induction cs with
  | nil => rfl
  | cons c cs ih =>
    obtain ⟨lead, tail, encoded, one⟩ :=
      decodeOne_encoded c (cs.flatMap String.utf8EncodeChar)
    rw [List.flatMap_cons, encoded, List.cons_append, decode, one, List.map_cons]
    simp only
    rw [decode_skip, ih]

theorem bytes_of_string (s : String) :
    s.toUTF8.data.toList = s.toList.flatMap String.utf8EncodeChar := by
  rw [String.toUTF8_eq_toByteArray, ← String.utf8Encode_toList]
  simp [List.utf8Encode]

theorem bytes_append (s t : String) :
    (s ++ t).toUTF8.data.toList = s.toUTF8.data.toList ++ t.toUTF8.data.toList := by
  simp only [bytes_of_string, String.toList_append, List.flatMap_append]

theorem lossy_encoded (s : String) : lossy s.toUTF8.data.toList = s := by
  rw [bytes_of_string, lossy, decode_encoded, List.map_map]
  simp [Function.comp_def]

theorem strict_encoded (s : String) : strict s.toUTF8.data.toList = some s := by
  have all (cs : List Char) : cs.mapM some = some cs := by
    induction cs with
    | nil => rfl
    | cons c cs ih => simp [ih]
  rw [bytes_of_string, strict, decode_encoded]
  simp [List.mapM_map, all]

/-- A line feed is its own encoding, and no other character contains its byte. -/
theorem lineFeed_mem_encodeChar (c : Char) : 10 ∈ String.utf8EncodeChar c ↔ c = '\n' := by
  have feed (n : Nat) (small : n < 256) : (10 = UInt8.ofNat n) ↔ 10 = n :=
    byte_eq_iff (by decide) small
  have value : c = '\n' ↔ c.val.toNat = 10 := by
    rw [← Char.toNat_inj]
    rfl
  rw [value]
  unfold String.utf8EncodeChar
  generalize c.val.toNat = v
  dsimp only
  split_ifs
  · rw [List.mem_singleton, feed v (by omega), eq_comm]
  · change 10 ∈ [UInt8.ofNat (v / 64 % 32 + 192), UInt8.ofNat (v % 64 + 128)] ↔ v = 10
    simp only [List.mem_cons, List.not_mem_nil, or_false,
      feed _ (show v / 64 % 32 + 192 < 256 by omega),
      feed _ (show v % 64 + 128 < 256 by omega)]
    omega
  · change 10 ∈ [UInt8.ofNat (v / 4096 % 16 + 224), UInt8.ofNat (v / 64 % 64 + 128),
      UInt8.ofNat (v % 64 + 128)] ↔ v = 10
    simp only [List.mem_cons, List.not_mem_nil, or_false,
      feed _ (show v / 4096 % 16 + 224 < 256 by omega),
      feed _ (show v / 64 % 64 + 128 < 256 by omega), feed _ (show v % 64 + 128 < 256 by omega)]
    omega
  · change 10 ∈ [UInt8.ofNat (v / 262144 % 8 + 240), UInt8.ofNat (v / 4096 % 64 + 128),
      UInt8.ofNat (v / 64 % 64 + 128), UInt8.ofNat (v % 64 + 128)] ↔ v = 10
    simp only [List.mem_cons, List.not_mem_nil, or_false,
      feed _ (show v / 262144 % 8 + 240 < 256 by omega),
      feed _ (show v / 4096 % 64 + 128 < 256 by omega),
      feed _ (show v / 64 % 64 + 128 < 256 by omega), feed _ (show v % 64 + 128 < 256 by omega)]
    omega

theorem lineFeed_mem_encoded (s : String) : 10 ∈ s.toUTF8.data.toList ↔ '\n' ∈ s.toList := by
  rw [bytes_of_string, List.mem_flatMap]
  constructor
  · rintro ⟨c, member, feed⟩
    rw [← (lineFeed_mem_encodeChar c).mp feed]
    exact member
  · intro member
    exact ⟨'\n', member, (lineFeed_mem_encodeChar _).mpr rfl⟩

/-! A character below 128 is decoded from its own byte, and from no longer sequence. -/

theorem width_eq (lead : UInt8) : width lead =
    if lead.toNat < 128 then 1
    else if 194 ≤ lead.toNat ∧ lead.toNat ≤ 223 then 2
    else if 224 ≤ lead.toNat ∧ lead.toNat ≤ 239 then 3
    else if 240 ≤ lead.toNat ∧ lead.toNat ≤ 244 then 4
    else 0 := by
  have h := width_byte lead.toNat_lt
  rwa [UInt8.ofNat_toNat] at h

theorem width_range (lead : UInt8) : (width lead = 1 → lead.toNat < 128) ∧
    (width lead = 2 → 194 ≤ lead.toNat ∧ lead.toNat ≤ 223) ∧
    (width lead = 3 → 224 ≤ lead.toNat ∧ lead.toNat ≤ 239) ∧
    (width lead = 4 → 240 ≤ lead.toNat ∧ lead.toNat ≤ 244) := by
  have value := width_eq lead
  refine ⟨?_, ?_, ?_, ?_⟩ <;> intro wide <;> rw [wide] at value <;> split_ifs at value <;> omega

theorem isContinuation_bounds {b : UInt8} (h : isContinuation b = true) :
    low6 b + 128 = b.toNat ∧ low6 b < 64 := by
  simp only [isContinuation, Bool.and_eq_true, decide_eq_true_eq, UInt8.le_iff_toNat_le,
    UInt8.reduceToNat] at h
  unfold low6
  omega

/-- The second byte of a longer character leaves out what a shorter one could say,
the surrogates and what is past the last code point. -/
theorem allowsSecond_bounds {lead second : UInt8} (h : allowsSecond lead second = true) :
    low6 second < 64 ∧ (lead.toNat = 224 → 32 ≤ low6 second) ∧
      (lead.toNat = 237 → low6 second < 32) ∧ (lead.toNat = 240 → 16 ≤ low6 second) ∧
      (lead.toNat = 244 → low6 second < 16) := by
  have is_byte (n : Nat) (small : n < 256) : lead = UInt8.ofNat n ↔ lead.toNat = n := by
    rw [← UInt8.toNat_inj, toNat_byte small]
  have e0 : lead = 0xE0 ↔ lead.toNat = 224 := is_byte 224 (by decide)
  have ed : lead = 0xED ↔ lead.toNat = 237 := is_byte 237 (by decide)
  have f0 : lead = 0xF0 ↔ lead.toNat = 240 := is_byte 240 (by decide)
  have f4 : lead = 0xF4 ↔ lead.toNat = 244 := is_byte 244 (by decide)
  simp only [allowsSecond, e0, ed, f0, f4] at h
  unfold low6
  split_ifs at h <;>
    simp only [isContinuation, Bool.and_eq_true, decide_eq_true_eq, UInt8.le_iff_toNat_le,
      UInt8.reduceToNat] at h <;> omega

theorem toNat_char {v : Nat} (valid : v < 55296 ∨ 57343 < v ∧ v < 1114112) :
    (Char.ofNat v).toNat = v := by
  rw [Char.ofNat, dif_pos valid]
  rfl

theorem decodeOne_ascii {lead : UInt8} (small : lead.toNat < 128) (rest : List UInt8) :
    decodeOne lead rest = (some (Char.ofNat lead.toNat), 0) := by
  have wide : width lead = 1 := by rw [width_eq, if_pos small]
  simp only [decodeOne, wide]

theorem decodeOne_some {lead : UInt8} {rest : List UInt8} {c : Char}
    (found : (decodeOne lead rest).1 = some c) : c.toNat = lead.toNat ∨ 128 ≤ c.toNat := by
  have range := width_range lead
  unfold decodeOne at found
  split at found
  · rename_i one
    cases found
    have small := range.1 one
    exact .inl (toNat_char (by omega))
  · rename_i b _ two
    split_ifs at found with continues
    cases found
    have tail := isContinuation_bounds continues
    have lead_range := range.2.1 two
    right
    rw [toNat_char (by omega)]
    omega
  · rename_i b after three
    split_ifs at found with allowed
    split at found
    · rename_i c _
      split_ifs at found with continues
      cases found
      have second := allowsSecond_bounds allowed
      have tail := isContinuation_bounds continues
      have lead_range := range.2.2.1 three
      right
      rw [toNat_char (by omega)]
      omega
    · cases found
  · rename_i b after four
    split_ifs at found with allowed
    split at found
    · rename_i c more
      split_ifs at found with continues
      split at found
      · rename_i d _
        split_ifs at found with ends
        cases found
        have second := allowsSecond_bounds allowed
        have third := isContinuation_bounds continues
        have tail := isContinuation_bounds ends
        have lead_range := range.2.2.2 four
        right
        rw [toNat_char (by omega)]
        omega
      · cases found
    · cases found
  · cases found

theorem mem_of_mem_decode {c : Char} (small : c.toNat < 128) (bytes : List UInt8) (skip : Nat)
    (member : some c ∈ decode skip bytes) : ∃ b ∈ bytes, b.toNat = c.toNat := by
  induction bytes generalizing skip with
  | nil =>
    cases skip <;> cases member
  | cons lead rest ih =>
    cases skip with
    | succ skip =>
      obtain ⟨b, later, same⟩ := ih skip member
      exact ⟨b, List.mem_cons_of_mem _ later, same⟩
    | zero =>
      rcases List.mem_cons.mp member with first | member
      · rcases decodeOne_some first.symm with same | large
        · exact ⟨lead, List.mem_cons_self, same.symm⟩
        · omega
      · obtain ⟨b, later, same⟩ := ih _ member
        exact ⟨b, List.mem_cons_of_mem _ later, same⟩

/-- Repairing ill-formed bytes never makes up an ASCII character. -/
theorem mem_of_mem_lossy {c : Char} (small : c.toNat < 128) {bytes : List UInt8}
    (member : c ∈ (lossy bytes).toList) : ∃ b ∈ bytes, b.toNat = c.toNat := by
  rw [lossy, String.toList_ofList] at member
  obtain ⟨decoded, listed, value⟩ := List.mem_map.mp member
  cases decoded with
  | some d =>
    cases value
    exact mem_of_mem_decode small bytes 0 listed
  | none =>
    cases value
    exact absurd small (by decide)

theorem decode_ascii {bytes : List UInt8} (small : ∀ b ∈ bytes, b.toNat < 128) :
    decode 0 bytes = bytes.map fun b => some (Char.ofNat b.toNat) := by
  induction bytes with
  | nil => rfl
  | cons lead rest ih =>
    obtain ⟨first, later⟩ := List.forall_mem_cons.mp small
    rw [decode, decodeOne_ascii first, List.map_cons, ih later]

theorem lossy_ascii {bytes : List UInt8} (small : ∀ b ∈ bytes, b.toNat < 128) :
    lossy bytes = String.ofList (bytes.map fun b => Char.ofNat b.toNat) := by
  rw [lossy, decode_ascii small, List.map_map]
  rfl

/-- Bytes that decode to ASCII characters only are those characters. -/
theorem ascii_of_lossy {bytes : List UInt8} (small : ∀ c ∈ (lossy bytes).toList, c.toNat < 128) :
    ∀ b ∈ bytes, b.toNat < 128 := by
  rw [lossy, String.toList_ofList, List.forall_mem_map] at small
  induction bytes with
  | nil => simp
  | cons lead rest ih =>
    rw [decode, List.forall_mem_cons] at small
    obtain ⟨first, later⟩ := small
    have plain : lead.toNat < 128 := by
      cases one : (decodeOne lead rest).1 with
      | none =>
        rw [one] at first
        exact absurd first (by decide)
      | some c =>
        rw [one] at first
        rcases decodeOne_some one with same | large
        · exact same ▸ first
        · exact absurd first (Nat.not_lt.mpr large)
    rw [decodeOne_ascii plain] at later
    exact List.forall_mem_cons.mpr ⟨plain, ih later⟩

end Library.Utf8
