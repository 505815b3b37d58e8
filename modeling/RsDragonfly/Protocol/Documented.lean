import RsDragonfly.Protocol.Command
import RsDragonfly.Protocol.Decimal

/-! The documented commands as a grammar, and `from_resp` against it.
`Arguments` is what the code takes after a name it has recognised;
`DocumentedArguments` is written from the documentation, and takes less. -/
namespace RsDragonfly

/-- `u8::to_ascii_uppercase`. -/
def asciiUpper (b : UInt8) : UInt8 := if 97 ≤ b.toNat ∧ b.toNat ≤ 122 then b - 32 else b

/-- The bytes spell the word, ignoring ASCII case. -/
def Spells (word : String) (bytes : Bytes) : Prop := bytes.map asciiUpper = utf8 word

inductive CommandName where
  | ping
  | set
  | get
  | del
  | expire
  | ttl
  | info

def CommandName.word : CommandName → String
  | .ping => "PING"
  | .set => "SET"
  | .get => "GET"
  | .del => "DEL"
  | .expire => "EXPIRE"
  | .ttl => "TTL"
  | .info => "INFO"

inductive GivesInteger : RespValue → Int64 → Prop where
  | integer (n : Int64) : GivesInteger (.integer n) n
  | text {bytes : Bytes} {n : Int64} (decimal : DecimalText bytes n.toInt) :
      GivesInteger (.bulkString (some bytes)) n

def Seconds (arg : RespValue) (seconds : UInt64) : Prop :=
  ∃ n : Int64, GivesInteger arg n ∧ 0 ≤ n.toInt ∧ (seconds.toNat : Int) = n.toInt

/-- PING [message], SET key value [EX seconds], GET key, DEL key [key ...],
EXPIRE key seconds, TTL key, INFO [section]. -/
inductive DocumentedArguments : CommandName → List RespValue → Command → Prop where
  | ping : DocumentedArguments .ping [] (.ping none)
  | pingMessage {message : Bytes} :
      DocumentedArguments .ping [.bulkString (some message)] (.ping (some message))
  | set {key value : Bytes} :
      DocumentedArguments .set [.bulkString (some key), .bulkString (some value)]
        (.set key (.string value) none)
  | setEx {key value option : Bytes} {arg : RespValue} {seconds : UInt64}
      (ex : Spells "EX" option) (number : Seconds arg seconds) :
      DocumentedArguments .set
        [.bulkString (some key), .bulkString (some value), .bulkString (some option), arg]
        (.set key (.string value) (some seconds))
  | get {key : Bytes} : DocumentedArguments .get [.bulkString (some key)] (.get key)
  | del {keys : List Bytes} (some_key : keys ≠ []) :
      DocumentedArguments .del (keys.map fun key => .bulkString (some key)) (.del keys)
  | expire {key : Bytes} {arg : RespValue} {seconds : UInt64} (number : Seconds arg seconds) :
      DocumentedArguments .expire [.bulkString (some key), arg] (.expire key seconds)
  | ttl {key : Bytes} : DocumentedArguments .ttl [.bulkString (some key)] (.ttl key)
  | info : DocumentedArguments .info [] (.info none)
  | infoSection {section_ : Bytes} :
      DocumentedArguments .info [.bulkString (some section_)]
        (.info (some (fromUtf8Lossy section_)))

inductive Documented : RespValue → Command → Prop where
  | spelled {command : CommandName} {name : Bytes} {args : List RespValue} {c : Command}
      (spelled : Spells command.word name) (arguments : DocumentedArguments command args c) :
      Documented (.array (some (.bulkString (some name) :: args))) c

/-! What the code takes. -/

section
variable (toUppercase : String → String)

/-- One or more options, of which the last one sets the TTL. -/
inductive Options : List RespValue → UInt64 → Prop where
  | last {option : Bytes} {arg : RespValue} {seconds : UInt64}
      (ex : toUppercase (fromUtf8Lossy option) = "EX") (number : Seconds arg seconds) :
      Options [.bulkString (some option), arg] seconds
  | more {option : Bytes} {arg : RespValue} {rest : List RespValue} {dropped seconds : UInt64}
      (ex : toUppercase (fromUtf8Lossy option) = "EX") (number : Seconds arg dropped)
      (later : Options rest seconds) :
      Options (.bulkString (some option) :: arg :: rest) seconds

inductive Arguments : CommandName → List RespValue → Command → Prop where
  | ping : Arguments .ping [] (.ping none)
  | pingMessage {message : Bytes} :
      Arguments .ping [.bulkString (some message)] (.ping (some message))
  | set {key value : Bytes} :
      Arguments .set [.bulkString (some key), .bulkString (some value)]
        (.set key (.string value) none)
  | setOptions {key value : Bytes} {options : List RespValue} {seconds : UInt64}
      (given : Options toUppercase options seconds) :
      Arguments .set (.bulkString (some key) :: .bulkString (some value) :: options)
        (.set key (.string value) (some seconds))
  | get {key : Bytes} : Arguments .get [.bulkString (some key)] (.get key)
  | del {keys : List Bytes} (some_key : keys ≠ []) :
      Arguments .del (keys.map fun key => .bulkString (some key)) (.del keys)
  | expire {key : Bytes} {arg : RespValue} {seconds : UInt64} (number : Seconds arg seconds) :
      Arguments .expire [.bulkString (some key), arg] (.expire key seconds)
  | ttl {key : Bytes} : Arguments .ttl [.bulkString (some key)] (.ttl key)
  | info : Arguments .info [] (.info none)
  | infoSection {section_ : Bytes} {extra : List RespValue} :
      Arguments .info (.bulkString (some section_) :: extra)
        (.info (some (fromUtf8Lossy section_)))

/-- Commands outside the documentation that the code takes. -/
inductive Undocumented : RespValue → Prop where
  | respelledName {command : CommandName} {name : Bytes} {args : List RespValue} {c : Command}
      (read : toUppercase (fromUtf8Lossy name) = command.word)
      (respelled : ¬ Spells command.word name) (arguments : Arguments toUppercase command args c) :
      Undocumented (.array (some (.bulkString (some name) :: args)))
  | respelledOption {name key value option : Bytes} {arg : RespValue} {seconds : UInt64}
      (spelled : Spells CommandName.set.word name) (ex : toUppercase (fromUtf8Lossy option) = "EX")
      (respelled : ¬ Spells "EX" option) (number : Seconds arg seconds) :
      Undocumented (.array (some [.bulkString (some name), .bulkString (some key),
        .bulkString (some value), .bulkString (some option), arg]))
  | repeatedOption {name key value : Bytes} {options : List RespValue} {seconds : UInt64}
      (spelled : Spells CommandName.set.word name) (given : Options toUppercase options seconds)
      (repeated : 2 < options.length) :
      Undocumented (.array (some (.bulkString (some name) :: .bulkString (some key) ::
        .bulkString (some value) :: options)))
  | extraInfo {name section_ : Bytes} {extra : RespValue} {more : List RespValue}
      (spelled : Spells CommandName.info.word name) :
      Undocumented (.array (some (.bulkString (some name) :: .bulkString (some section_) ::
        extra :: more)))

end

theorem bind_ok_iff {α β : Type} {x : Except CommandError α} {f : α → Except CommandError β}
    {b : β} : (x >>= f) = .ok b ↔ ∃ a, x = .ok a ∧ f a = .ok b := by
  cases x with
  | error e =>
    constructor
    · intro h
      cases h
    · rintro ⟨_, h, _⟩
      cases h
  | ok a =>
    constructor
    · intro h
      exact ⟨a, rfl, h⟩
    · rintro ⟨_, h, done⟩
      cases h
      exact done

theorem pure_ok_iff {α : Type} {a b : α} :
    (pure a : Except CommandError α) = .ok b ↔ a = b := by
  change Except.ok a = Except.ok b ↔ a = b
  rw [Except.ok.injEq]

theorem extractBulkString_ok_iff {arg : RespValue} {bytes : Bytes} :
    extractBulkString arg = .ok bytes ↔ arg = .bulkString (some bytes) := by
  constructor
  · intro h
    unfold extractBulkString at h
    split at h <;> cases h
    rfl
  · rintro rfl
    rfl

theorem extractInteger_ok_iff {arg : RespValue} {n : Int64} :
    extractInteger arg = .ok n ↔ GivesInteger arg n := by
  constructor
  · intro h
    unfold extractInteger at h
    split at h
    · cases h
      exact .integer n
    · split at h
      · rename_i read
        cases h
        exact .text (parseI64_lossy.mp read)
      · cases h
    · cases h
    · cases h
  · intro h
    cases h with
    | integer => rfl
    | text decimal =>
      simp only [extractInteger]
      rw [parseI64_lossy.mpr decimal]

theorem nonNegativeSeconds_ok_iff {n : Int64} {seconds : UInt64} :
    nonNegativeSeconds n = .ok seconds ↔ 0 ≤ n.toInt ∧ (seconds.toNat : Int) = n.toInt := by
  simp only [nonNegativeSeconds, Int64.lt_iff_toInt_lt, Int64.toInt_zero]
  split
  · rename_i negative
    constructor
    · intro h
      cases h
    · rintro ⟨not_negative, _⟩
      exact absurd negative (Int.not_lt.mpr not_negative)
  · rename_i not_negative
    have range : (0 : Int64) ≤ n := by
      rw [Int64.le_iff_toInt_le, Int64.toInt_zero]
      omega
    have cast : (n.toUInt64.toNat : Int) = n.toInt := by
      rw [Int64.toNat_toUInt64_of_le range, Int64.toNatClampNeg]
      omega
    rw [Except.ok.injEq, ← UInt64.toNat_inj]
    omega

theorem seconds_ok_iff {arg : RespValue} {seconds : UInt64} :
    (extractInteger arg >>= nonNegativeSeconds) = .ok seconds ↔ Seconds arg seconds := by
  rw [bind_ok_iff]
  simp only [extractInteger_ok_iff, nonNegativeSeconds_ok_iff]
  exact Iff.rfl

theorem extractBulkStrings_ok_iff {args : List RespValue} {keys : List Bytes} :
    args.mapM extractBulkString = .ok keys ↔
      args = keys.map fun key => .bulkString (some key) := by
  induction args generalizing keys with
  | nil =>
    rw [List.mapM_nil, pure_ok_iff, eq_comm, eq_comm (a := []), List.map_eq_nil_iff]
  | cons arg args ih =>
    rw [List.mapM_cons]
    simp only [bind_ok_iff, pure_ok_iff, extractBulkString_ok_iff, ih]
    rw [eq_comm (a := arg :: args), List.map_eq_cons_iff]
    constructor
    · rintro ⟨key, rfl, keys, rfl, rfl⟩
      exact ⟨key, keys, rfl, rfl, rfl⟩
    · rintro ⟨key, keys, rfl, rfl, rfl⟩
      exact ⟨key, rfl, keys, rfl, rfl⟩

section
variable {toUppercase : String → String}

/-! The compiled recursion is opened by hand: its second match also carries the recursive
result, and no equation is generated for it. -/

theorem parseSetOptions_one (arg : RespValue) (before : Option UInt64) :
    Command.parseSetOptions toUppercase [arg] before =
      (extractBulkString arg >>= fun option =>
        if toUppercase (fromUtf8Lossy option) = "EX" then .error .wrongArgCount
        else .error .invalidArgument) := by
  delta Command.parseSetOptions
  change (extractBulkString arg >>= _) = _
  congr 1
  funext option
  by_cases ex : toUppercase (fromUtf8Lossy option) = "EX"
  · rw [if_pos ex, ex]
    rfl
  · rw [if_neg ex]
    simp [ex]

theorem parseSetOptions_two (arg number : RespValue) (rest : List RespValue)
    (before : Option UInt64) :
    Command.parseSetOptions toUppercase (arg :: number :: rest) before =
      (extractBulkString arg >>= fun option =>
        if toUppercase (fromUtf8Lossy option) = "EX" then
          (extractInteger number >>= nonNegativeSeconds) >>= fun seconds =>
            Command.parseSetOptions toUppercase rest (some seconds)
        else .error .invalidArgument) := by
  delta Command.parseSetOptions
  change (extractBulkString arg >>= _) = _
  congr 1
  funext option
  by_cases ex : toUppercase (fromUtf8Lossy option) = "EX"
  · rw [if_pos ex, ex, bind_assoc]
    rfl
  · rw [if_neg ex]
    simp [ex]

theorem parseSetOptions_two_ok_iff {arg number : RespValue} {rest : List RespValue}
    {before found : Option UInt64} :
    Command.parseSetOptions toUppercase (arg :: number :: rest) before = .ok found ↔
      ∃ option seconds, arg = .bulkString (some option) ∧
        toUppercase (fromUtf8Lossy option) = "EX" ∧ Seconds number seconds ∧
        Command.parseSetOptions toUppercase rest (some seconds) = .ok found := by
  rw [parseSetOptions_two, bind_ok_iff]
  simp only [extractBulkString_ok_iff]
  constructor
  · rintro ⟨option, rfl, read⟩
    split_ifs at read with ex
    obtain ⟨seconds, given, read⟩ := bind_ok_iff.mp read
    exact ⟨option, seconds, rfl, ex, seconds_ok_iff.mp given, read⟩
  · rintro ⟨option, seconds, rfl, ex, given, read⟩
    refine ⟨option, rfl, ?_⟩
    rw [if_pos ex, bind_ok_iff]
    exact ⟨seconds, seconds_ok_iff.mpr given, read⟩

theorem parseSetOptions_ok_iff {options : List RespValue} {before found : Option UInt64} :
    Command.parseSetOptions toUppercase options before = .ok found ↔
      (options = [] ∧ found = before) ∨
        ∃ seconds, found = some seconds ∧ Options toUppercase options seconds := by
  match options with
  | [] =>
    have read : Command.parseSetOptions toUppercase [] before = .ok before := rfl
    rw [read, Except.ok.injEq, eq_comm]
    constructor
    · intro same
      exact .inl ⟨rfl, same⟩
    · rintro (⟨_, same⟩ | ⟨_, _, given⟩)
      · exact same
      · cases given
  | [arg] =>
    constructor
    · intro read
      rw [parseSetOptions_one, bind_ok_iff] at read
      obtain ⟨_, _, read⟩ := read
      split_ifs at read
    · rintro (⟨missing, _⟩ | ⟨_, _, given⟩)
      · cases missing
      · cases given
  | arg :: number :: rest =>
    rw [parseSetOptions_two_ok_iff]
    constructor
    · rintro ⟨option, seconds, rfl, ex, given, read⟩
      rcases parseSetOptions_ok_iff.mp read with ⟨rfl, rfl⟩ | ⟨last, rfl, others⟩
      · exact .inr ⟨seconds, rfl, .last ex given⟩
      · exact .inr ⟨last, rfl, .more ex given others⟩
    · rintro (⟨missing, _⟩ | ⟨seconds, rfl, given⟩)
      · cases missing
      · cases given with
        | last ex number =>
          exact ⟨_, _, rfl, ex, number, parseSetOptions_ok_iff.mpr (.inl ⟨rfl, rfl⟩)⟩
        | more ex number later =>
          exact ⟨_, _, rfl, ex, number, parseSetOptions_ok_iff.mpr (.inr ⟨_, rfl, later⟩)⟩

/-! One lemma for each command. -/

theorem parsePing_ok_iff {args : List RespValue} {c : Command} :
    Command.parsePing args = .ok c ↔ Arguments toUppercase .ping args c := by
  constructor
  · intro h
    unfold Command.parsePing at h
    split at h
    · cases h
      exact .ping
    · simp only [bind_ok_iff, extractBulkString_ok_iff, pure_ok_iff] at h
      obtain ⟨message, rfl, rfl⟩ := h
      exact .pingMessage
    · cases h
  · intro h
    cases h <;> rfl

theorem parseSet_ok_iff {args : List RespValue} {c : Command} :
    Command.parseSet toUppercase args = .ok c ↔ Arguments toUppercase .set args c := by
  constructor
  · intro h
    unfold Command.parseSet at h
    split at h
    · simp only [bind_ok_iff, extractBulkString_ok_iff, pure_ok_iff, parseSetOptions_ok_iff] at h
      obtain ⟨key, rfl, value, rfl, found, ⟨rfl, rfl⟩ | ⟨seconds, rfl, given⟩, rfl⟩ := h
      · exact .set
      · exact .setOptions given
    · cases h
  · intro h
    cases h with
    | set => rfl
    | setOptions given =>
      simp only [Command.parseSet, bind_ok_iff, extractBulkString_ok_iff, pure_ok_iff]
      exact ⟨_, rfl, _, rfl, _, parseSetOptions_ok_iff.mpr (.inr ⟨_, rfl, given⟩), rfl⟩

theorem parseGet_ok_iff {args : List RespValue} {c : Command} :
    Command.parseGet args = .ok c ↔ Arguments toUppercase .get args c := by
  constructor
  · intro h
    unfold Command.parseGet at h
    split at h
    · simp only [bind_ok_iff, extractBulkString_ok_iff, pure_ok_iff] at h
      obtain ⟨key, rfl, rfl⟩ := h
      exact .get
    · cases h
  · intro h
    cases h
    rfl

theorem parseDel_ok_iff {args : List RespValue} {c : Command} :
    Command.parseDel args = .ok c ↔ Arguments toUppercase .del args c := by
  constructor
  · intro h
    unfold Command.parseDel at h
    split at h
    · cases h
    · rename_i some_arg
      simp only [bind_ok_iff, extractBulkStrings_ok_iff, pure_ok_iff] at h
      obtain ⟨keys, rfl, rfl⟩ := h
      refine .del ?_
      rintro rfl
      exact some_arg rfl
  · intro h
    cases h with
    | @del keys some_key =>
      unfold Command.parseDel
      split
      · rename_i empty
        exact absurd (List.map_eq_nil_iff.mp empty) some_key
      · rw [extractBulkStrings_ok_iff.mpr rfl]
        rfl

theorem parseExpire_ok_iff {args : List RespValue} {c : Command} :
    Command.parseExpire args = .ok c ↔ Arguments toUppercase .expire args c := by
  have checked (key number : RespValue) : Command.parseExpire [key, number] =
      (extractBulkString key >>= fun key =>
        (extractInteger number >>= nonNegativeSeconds) >>= fun seconds =>
          pure (.expire key seconds)) := by
    simp only [bind_assoc]
    rfl
  constructor
  · intro h
    match args with
    | [key, number] =>
      simp only [checked, bind_ok_iff (x := extractBulkString key), extractBulkString_ok_iff] at h
      obtain ⟨key, rfl, read⟩ := h
      obtain ⟨seconds, given, done⟩ := bind_ok_iff.mp read
      cases pure_ok_iff.mp done
      exact .expire (seconds_ok_iff.mp given)
    | [] | [_] | _ :: _ :: _ :: _ => cases h
  · intro h
    cases h with
    | expire number =>
      rw [checked, bind_ok_iff]
      exact ⟨_, rfl, bind_ok_iff.mpr ⟨_, seconds_ok_iff.mpr number, rfl⟩⟩

theorem parseTtl_ok_iff {args : List RespValue} {c : Command} :
    Command.parseTtl args = .ok c ↔ Arguments toUppercase .ttl args c := by
  constructor
  · intro h
    unfold Command.parseTtl at h
    split at h
    · simp only [bind_ok_iff, extractBulkString_ok_iff, pure_ok_iff] at h
      obtain ⟨key, rfl, rfl⟩ := h
      exact .ttl
    · cases h
  · intro h
    cases h
    rfl

theorem parseInfo_ok_iff {args : List RespValue} {c : Command} :
    Command.parseInfo args = .ok c ↔ Arguments toUppercase .info args c := by
  constructor
  · intro h
    unfold Command.parseInfo at h
    split at h
    · cases h
      exact .info
    · simp only [bind_ok_iff, extractBulkString_ok_iff, pure_ok_iff] at h
      obtain ⟨section_, rfl, rfl⟩ := h
      exact .infoSection
  · intro h
    cases h <;> rfl

theorem CommandName.word_injective {first second : CommandName}
    (same : first.word = second.word) : first = second := by
  cases first <;> cases second <;> first | rfl | exact absurd same (by decide)

theorem fromResp_array_ok_iff {name : Bytes} {args : List RespValue} {c : Command} :
    Command.fromResp toUppercase (.array (some (.bulkString (some name) :: args))) = .ok c ↔
      ∃ command : CommandName, toUppercase (fromUtf8Lossy name) = command.word ∧
        Arguments toUppercase command args c := by
  have only (command : CommandName) (read : toUppercase (fromUtf8Lossy name) = command.word) :
      (∃ other : CommandName, toUppercase (fromUtf8Lossy name) = other.word ∧
        Arguments toUppercase other args c) ↔ Arguments toUppercase command args c := by
    constructor
    · rintro ⟨other, read_other, arguments⟩
      rw [read] at read_other
      exact CommandName.word_injective read_other ▸ arguments
    · intro arguments
      exact ⟨command, read, arguments⟩
  simp only [Command.fromResp]
  split
  · rename_i read
    rw [only .ping read]
    exact parsePing_ok_iff
  · rename_i read
    rw [only .set read]
    exact parseSet_ok_iff
  · rename_i read
    rw [only .get read]
    exact parseGet_ok_iff
  · rename_i read
    rw [only .del read]
    exact parseDel_ok_iff
  · rename_i read
    rw [only .expire read]
    exact parseExpire_ok_iff
  · rename_i read
    rw [only .ttl read]
    exact parseTtl_ok_iff
  · rename_i read
    rw [only .info read]
    exact parseInfo_ok_iff
  · constructor
    · intro h
      cases h
    · rintro ⟨command, read, _⟩
      cases command <;> contradiction

/-- `from_resp` takes a recognised name with arguments of its grammar, and nothing else. -/
theorem fromResp_ok_iff {v : RespValue} {c : Command} :
    Command.fromResp toUppercase v = .ok c ↔
      ∃ (command : CommandName) (name : Bytes) (args : List RespValue),
        v = .array (some (.bulkString (some name) :: args)) ∧
        toUppercase (fromUtf8Lossy name) = command.word ∧
        Arguments toUppercase command args c := by
  constructor
  · intro h
    unfold Command.fromResp at h
    split at h
    · obtain ⟨command, read, arguments⟩ := fromResp_array_ok_iff.mp h
      exact ⟨command, _, _, rfl, read, arguments⟩
    · cases h
    · cases h
    · cases h
  · rintro ⟨command, name, args, rfl, read, arguments⟩
    exact fromResp_array_ok_iff.mpr ⟨command, read, arguments⟩

/-! Words in ASCII, in either case. -/

/-- What `to_uppercase` does on ASCII text. -/
def UppercasesAscii (toUppercase : String → String) : Prop :=
  ∀ s : String, (∀ c ∈ s.toList, c.toNat < 128) →
    toUppercase s = String.ofList (s.toList.map Char.toUpper)

theorem toUpper_ascii {b : UInt8} (small : b.toNat < 128) :
    (Char.ofNat b.toNat).toUpper = Char.ofNat (asciiUpper b).toNat := by
  have all : ∀ n : Fin 128, (Char.ofNat n.val).toUpper =
      Char.ofNat (asciiUpper (UInt8.ofNat n.val)).toNat := by decide
  have here := all ⟨b.toNat, small⟩
  rwa [UInt8.ofNat_toNat] at here

theorem ascii_of_asciiUpper {b : UInt8} (small : (asciiUpper b).toNat < 128) : b.toNat < 128 := by
  unfold asciiUpper at small
  split at small
  · omega
  · exact small

theorem Spells.toUppercase_eq (ascii : UppercasesAscii toUppercase) {word : String} {bytes : Bytes}
    (spelled : Spells word bytes) (word_ascii : ∀ b ∈ utf8 word, b.toNat < 128) :
    toUppercase (fromUtf8Lossy bytes) = word := by
  have bytes_eq : bytes.map asciiUpper = utf8 word := spelled
  rw [← bytes_eq, List.forall_mem_map] at word_ascii
  have small : ∀ b ∈ bytes, b.toNat < 128 := by
    intro b member
    exact ascii_of_asciiUpper (word_ascii b member)
  have chars : (bytes.map fun b => Char.ofNat b.toNat).map Char.toUpper =
      (bytes.map asciiUpper).map fun b => Char.ofNat b.toNat := by
    rw [List.map_map, List.map_map]
    apply List.map_congr_left
    intro b member
    exact toUpper_ascii (small b member)
  have decoded : fromUtf8Lossy (bytes.map asciiUpper) =
      String.ofList ((bytes.map asciiUpper).map fun b => Char.ofNat b.toNat) :=
    Library.Utf8.lossy_ascii (List.forall_mem_map.mpr word_ascii)
  rw [fromUtf8Lossy, Library.Utf8.lossy_ascii small, ascii, String.toList_ofList, chars, ← decoded,
    bytes_eq]
  · exact Library.Utf8.lossy_encoded word
  · rw [String.toList_ofList, List.forall_mem_map]
    intro b member
    have b_small := small b member
    rw [Library.Utf8.toNat_char (by omega)]
    exact b_small

theorem all_ascii {bytes : Bytes} (all : bytes.all (fun b => decide (b.toNat < 128)) = true) :
    ∀ b ∈ bytes, b.toNat < 128 := by
  simpa using all

theorem CommandName.word_ascii (command : CommandName) :
    ∀ b ∈ utf8 command.word, b.toNat < 128 := by
  cases command <;> exact all_ascii rfl

theorem Spells.word_eq {first second : CommandName} {name : Bytes}
    (spelled : Spells first.word name) (also : Spells second.word name) : first = second := by
  have same : utf8 first.word = utf8 second.word := Eq.trans (Eq.symm spelled) also
  cases first <;> cases second <;> first | rfl | exact absurd same (by decide)

/-! The documentation against the code. -/

theorem DocumentedArguments.arguments (ascii : UppercasesAscii toUppercase)
    {command : CommandName} {args : List RespValue} {c : Command}
    (h : DocumentedArguments command args c) : Arguments toUppercase command args c := by
  cases h with
  | ping => exact .ping
  | pingMessage => exact .pingMessage
  | set => exact .set
  | setEx ex number => exact .setOptions (.last (ex.toUppercase_eq ascii (all_ascii rfl)) number)
  | get => exact .get
  | del some_key => exact .del some_key
  | expire number => exact .expire number
  | ttl => exact .ttl
  | info => exact .info
  | infoSection => exact .infoSection

theorem Documented.accepted (ascii : UppercasesAscii toUppercase) {v : RespValue} {c : Command}
    (h : Documented v c) : Command.fromResp toUppercase v = .ok c := by
  obtain ⟨spelled, arguments⟩ := h
  exact fromResp_array_ok_iff.mpr
    ⟨_, spelled.toUppercase_eq ascii (CommandName.word_ascii _), arguments.arguments ascii⟩

/-- The documentation's arguments are those of the name it spells. -/
theorem Documented.of_spelled {command : CommandName} {name : Bytes} {args : List RespValue}
    {c : Command} (spelled : Spells command.word name)
    (h : Documented (.array (some (.bulkString (some name) :: args))) c) :
    DocumentedArguments command args c := by
  obtain ⟨also, arguments⟩ := h
  exact also.word_eq spelled ▸ arguments

theorem Options.long_or_one {options : List RespValue} {seconds : UInt64}
    (h : Options toUppercase options seconds) : 2 < options.length ∨
      ∃ option number, options = [.bulkString (some option), number] ∧
        toUppercase (fromUtf8Lossy option) = "EX" ∧ Seconds number seconds := by
  cases h with
  | last ex number => exact .inr ⟨_, _, rfl, ex, number⟩
  | more _ _ later =>
    left
    cases later <;> simp

theorem documented_or_undocumented {v : RespValue} {c : Command}
    (accepted : Command.fromResp toUppercase v = .ok c) :
    Documented v c ∨ Undocumented toUppercase v := by
  obtain ⟨command, name, args, rfl, read, arguments⟩ := fromResp_ok_iff.mp accepted
  by_cases spelled : Spells command.word name
  · cases arguments with
    | ping => exact .inl (.spelled spelled .ping)
    | pingMessage => exact .inl (.spelled spelled .pingMessage)
    | set => exact .inl (.spelled spelled .set)
    | setOptions given =>
      rcases given.long_or_one with repeated | ⟨option, number, rfl, ex, seconds⟩
      · exact .inr (.repeatedOption spelled given repeated)
      · by_cases spelled_ex : Spells "EX" option
        · exact .inl (.spelled spelled (.setEx spelled_ex seconds))
        · exact .inr (.respelledOption spelled ex spelled_ex seconds)
    | get => exact .inl (.spelled spelled .get)
    | del some_key => exact .inl (.spelled spelled (.del some_key))
    | expire number => exact .inl (.spelled spelled (.expire number))
    | ttl => exact .inl (.spelled spelled .ttl)
    | info => exact .inl (.spelled spelled .info)
    | @infoSection _ extra =>
      cases extra with
      | nil => exact .inl (.spelled spelled .infoSection)
      | cons extra more => exact .inr (.extraInfo spelled)
  · exact .inr (.respelledName read spelled arguments)

theorem Undocumented.accepted (ascii : UppercasesAscii toUppercase) {v : RespValue}
    (h : Undocumented toUppercase v) :
    ∃ c, Command.fromResp toUppercase v = .ok c ∧ ¬ Documented v c := by
  cases h with
  | respelledName read respelled arguments =>
    refine ⟨_, fromResp_array_ok_iff.mpr ⟨_, read, arguments⟩, ?_⟩
    rintro ⟨spelled, _⟩
    have read_other := spelled.toUppercase_eq ascii (CommandName.word_ascii _)
    rw [read] at read_other
    exact respelled (CommandName.word_injective read_other ▸ spelled)
  | respelledOption spelled ex respelled number =>
    have read := spelled.toUppercase_eq ascii (CommandName.word_ascii _)
    refine ⟨_, fromResp_array_ok_iff.mpr ⟨.set, read, .setOptions (.last ex number)⟩, ?_⟩
    intro documented
    cases documented.of_spelled spelled with
    | setEx spelled_ex _ => exact respelled spelled_ex
  | repeatedOption spelled given repeated =>
    have read := spelled.toUppercase_eq ascii (CommandName.word_ascii _)
    refine ⟨_, fromResp_array_ok_iff.mpr ⟨.set, read, .setOptions given⟩, ?_⟩
    intro documented
    cases documented.of_spelled spelled with
    | setEx => exact absurd repeated (by simp)
  | extraInfo spelled =>
    have read := spelled.toUppercase_eq ascii (CommandName.word_ascii _)
    refine ⟨_, fromResp_array_ok_iff.mpr ⟨.info, read, .infoSection⟩, ?_⟩
    intro documented
    cases documented.of_spelled spelled

/-- `from_resp` takes the documented commands with their arguments, and what it takes
besides are the undocumented forms. -/
theorem fromResp_documented_iff (ascii : UppercasesAscii toUppercase) (v : RespValue) :
    (∀ c, Command.fromResp toUppercase v = .ok c ↔ Documented v c) ↔
      ¬ Undocumented toUppercase v := by
  constructor
  · intro exact_ undocumented
    obtain ⟨c, accepted, outside⟩ := undocumented.accepted ascii
    exact outside ((exact_ c).mp accepted)
  · intro none_outside c
    constructor
    · intro accepted
      exact (documented_or_undocumented accepted).resolve_right none_outside
    · intro documented
      exact documented.accepted ascii

end

theorem toUpper_eq (s : String) : s.toUpper = String.ofList (s.toList.map Char.toUpper) := by
  rw [String.toUpper, ← String.toList_map, String.ofList_toList]

theorem toUpper_uppercasesAscii : UppercasesAscii String.toUpper := fun s _ => toUpper_eq s

theorem lower_case_ping_documented :
    Documented (.array (some [.bulkString (some (utf8 "ping")), .bulkString (some [0, 255])]))
      (.ping (some [0, 255])) ∧
    ∀ c, Command.fromResp String.toUpper
        (.array (some [.bulkString (some (utf8 "ping")), .bulkString (some [0, 255])])) = .ok c ↔
      Documented (.array (some [.bulkString (some (utf8 "ping")), .bulkString (some [0, 255])])) c := by
  have spelled : Spells CommandName.ping.word (utf8 "ping") := by
    unfold Spells
    decide
  refine ⟨.spelled spelled .pingMessage, ?_⟩
  refine (fromResp_documented_iff toUpper_uppercasesAscii _).mpr ?_
  intro undocumented
  cases undocumented with
  | respelledName read respelled _ =>
    rw [spelled.toUppercase_eq toUpper_uppercasesAscii (CommandName.word_ascii _)] at read
    exact respelled (CommandName.word_injective read ▸ spelled)

theorem extra_info_argument_accepted :
    Command.fromResp String.toUpper (.array (some [.bulkString (some (utf8 "INFO")),
        .bulkString (some (utf8 "server")), .bulkString (some (utf8 "stats"))])) =
      .ok (.info (some "server")) ∧
    ¬ Documented (.array (some [.bulkString (some (utf8 "INFO")),
        .bulkString (some (utf8 "server")), .bulkString (some (utf8 "stats"))]))
      (.info (some "server")) := by
  have spelled : Spells CommandName.info.word (utf8 "INFO") := by
    unfold Spells
    decide
  have read := spelled.toUppercase_eq toUpper_uppercasesAscii (CommandName.word_ascii _)
  constructor
  · rw [fromResp_array_ok_iff]
    exact ⟨.info, read, .infoSection⟩
  · intro documented
    cases documented.of_spelled spelled

end RsDragonfly
