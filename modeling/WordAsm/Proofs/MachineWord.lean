import WordAsm.Encoder
import WordAsm.Proofs.Binary
import WordAsm.Proofs.Operands

/-!
# The word of a first reading

A fresh encoder, read once, gives a head of sixteen digits and a low half.  The head has four
zeros, the opcode and two registers.  The low half is set by the operands alone or by a
number, and this number is what the value operand denotes: a literal, the address of a label,
or the distance to a label for a branch.

The low half has sixteen digits exactly when the format has room for the number.  No reading
checks this for labels, and for literals it is checked on one side only.
-/

namespace WordAsm

/-! ## Opcodes -/

/-- The number in the opcode bits of a command's words. -/
def Mnemonic.opcode : Mnemonic → Fin 16
  | add => ⟨0, by decide⟩
  | sub => ⟨1, by decide⟩
  | slt => ⟨2, by decide⟩
  | or => ⟨3, by decide⟩
  | and => ⟨4, by decide⟩
  | addi => ⟨5, by decide⟩
  | slti => ⟨6, by decide⟩
  | ori => ⟨7, by decide⟩
  | lui => ⟨8, by decide⟩
  | lw => ⟨9, by decide⟩
  | sw => ⟨10, by decide⟩
  | beq => ⟨11, by decide⟩
  | jalr => ⟨12, by decide⟩
  | j => ⟨13, by decide⟩
  | halt => ⟨14, by decide⟩

namespace Format

/-- A command stands in the table of its own format and in no other. -/
theorem mem_commands_iff {f : Format} {m : Mnemonic} : m ∈ f.commands ↔ m.format = f := by
  cases f <;> cases m <;> decide

theorem opcode?_eq (f : Format) (m : Mnemonic) :
    f.opcode? m = if m.format = f then some (Encoder.nibble m.opcode) else none := by
  cases f <;> cases m <;> rfl

/-- The tables of opcodes and of commands line up: a format has an opcode for each of its commands
and for no other. -/
theorem opcode?_eq_some_iff {f : Format} {m : Mnemonic} {digits : Text} :
    f.opcode? m = some digits ↔ m ∈ f.commands ∧ digits = Encoder.nibble m.opcode := by
  rw [mem_commands_iff, opcode?_eq]
  split
  · rename_i hformat
    simp [hformat, eq_comm]
  · rename_i hformat
    simp [hformat]

end Format

/-- Whether the command has an opcode in the format in which the operands were read. -/
def Encoder.isFit (e : Encoder) : Bool :=
  e.opcode?.isSome

theorem Encoder.opcode?_eq_some_iff {e : Encoder} {digits : Text} :
    e.opcode? = some digits ↔ e.instruction.format = e.operands.format ∧
      digits = nibble e.instruction.mnemonic.opcode := by
  rw [opcode?, Format.opcode?_eq_some_iff, Format.mem_commands_iff]
  rfl

theorem Encoder.isFit_iff {e : Encoder} :
    e.isFit = true ↔ e.instruction.format = e.operands.format := by
  simp [isFit, Option.isSome_iff_exists, opcode?_eq_some_iff]

/-! ## Values -/

namespace Format

/-- The numbers that the low half of a word has room for. -/
def Holds (f : Format) (n : Int) : Prop :=
  (if f = .jump then 0 else -65536) ≤ n ∧ n < 65536

instance (f : Format) (n : Int) : Decidable (f.Holds n) :=
  inferInstanceAs (Decidable (_ ∧ _))

/-- The text of a number in the low half. -/
def lowText (f : Format) (n : Int) : Text :=
  if f = .jump then Binary.padded 16 n else Binary.complementText 16 n

theorem lowText_isDigits_iff (f : Format) (n : Int) :
    Binary.IsDigits 16 (f.lowText n) ↔ f.Holds n := by
  unfold lowText Holds
  split
  · exact Binary.padded_isDigits_iff (by omega) n
  · exact Binary.complementText_isDigits_iff (by omega) n

theorem lowText_of_holds {f : Format} {n : Int} (h : f.Holds n) :
    f.lowText n = Binary.bits 16 (n % 65536).toNat := by
  unfold Holds at h
  unfold lowText
  split
  · rename_i hjump
    rw [if_pos hjump] at h
    obtain ⟨k, rfl⟩ := Int.eq_ofNat_of_zero_le h.1
    have hk : k < 2 ^ 16 := by omega
    rw [Binary.padded_of_lt (by omega) hk]
    congr 1
    omega
  · rename_i hjump
    rw [if_neg hjump] at h
    exact Binary.complementText_of_fits (by omega) h.1 h.2

end Format

namespace Operands

/-- The register in the first place after the opcode. -/
def firstPlace : Operands → Register
  | register _ s _ | immediate _ s _ | link _ s => s
  | upper .. | jump _ | halt => .zero

/-- The register in the second place after the opcode. -/
def secondPlace : Operands → Register
  | register _ _ t => t
  | immediate d _ _ | upper d _ | link d _ => d
  | jump _ | halt => .zero

/-- The low half of a word without a value: a third register stands at its top. -/
def lowHalf : Operands → Nat
  | register d _ _ => 4096 * d
  | _ => 0

end Operands

namespace Encoder

/-- The first sixteen digits of a word. -/
def headText (m : Mnemonic) (o : Operands) : Text :=
  Binary.bits 4 0 ++ (nibble m.opcode ++ (nibble o.firstPlace ++ nibble o.secondPlace))

theorem headText_isDigits (m : Mnemonic) (o : Operands) : Binary.IsDigits 16 (headText m o) :=
  (Binary.bits_isDigits 4 _).append ((Binary.bits_isDigits 4 _).append
    ((Binary.bits_isDigits 4 _).append (Binary.bits_isDigits 4 _)))

/-- The number that a label with value `n` stands for: the distance from the line after it in a
branch, and `n` elsewhere.  A branch without a line has none. -/
def labelNumber? (i : Instruction) (n : Int) : Option Int :=
  if i.mnemonic = .beq then i.line.map fun line => n - line - 1 else some n

/-- The number that the value of an encoder denotes under a table, if it has one. -/
def number? (e : Encoder) (table : LabelTable) : Option Int :=
  match e.operands.value? with
  | none => none
  | some (.settled n) => some n
  | some (.written text) =>
      if Numeral.isNumeral text then (Numeral.read text).toOption
      else (table.find? text).bind (labelNumber? e.instruction)

@[simp] theorem writeHead_instruction (e : Encoder) (opcode : Text) :
    (e.writeHead opcode).instruction = e.instruction :=
  rfl

@[simp] theorem writeHead_operands (e : Encoder) (opcode : Text) :
    (e.writeHead opcode).operands = e.operands :=
  rfl

@[simp] theorem nibble_length (n : Fin 16) : (nibble n).length = 4 :=
  Binary.bits_length 4 n

theorem patch_past {pre : Text} (hpre : pre.length = 4) (start stop : Nat) (text field : Text) :
    patch (start + 4) (stop + 4) text (pre ++ field) = pre ++ patch start stop text field := by
  have htake : (pre ++ field).take (start + 4) = pre ++ field.take start := by
    rw [Nat.add_comm, ← hpre, List.take_length_add_append]
  have hdrop : (pre ++ field).drop (stop + 4) = field.drop stop := by
    rw [Nat.add_comm, ← hpre, List.drop_length_add_append]
  rw [patch, htake, hdrop, patch, List.append_assoc, List.append_assoc, List.append_assoc]

theorem patch_first {old : Text} (hold : old.length = 4) (text post : Text) :
    patch 0 4 text (old ++ post) = text ++ post := by
  rw [patch, List.take_zero, List.nil_append, List.drop_left' hold]

theorem blankField_eq : blankField =
    Binary.bits 4 0 ++ (Binary.bits 4 0 ++ (nibble Register.zero ++ (nibble Register.zero ++
      (nibble Register.zero ++ Binary.bits 12 0)))) := by
  decide

theorem lowHalf_bits (d : Register) :
    Binary.bits 16 (4096 * d) = nibble d ++ Binary.bits 12 0 := by
  simpa [nibble] using Binary.bits_append 4 12 d (Nat.two_pow_pos 12)

/-- The head is written over the first sixteen zeros of a fresh field. -/
theorem writeHead_field (i : Instruction) (o : Operands) :
    ((Encoder.mk i o blankField).writeHead (nibble i.mnemonic.opcode)).field =
      headText i.mnemonic o ++ Binary.bits 16 o.lowHalf := by
  have hzero : Binary.bits 16 0 = nibble Register.zero ++ Binary.bits 12 0 := by decide
  cases o <;>
    simp (disch := simp) only [writeHead, writeRegisters, blankField_eq, headText,
      Operands.firstPlace, Operands.secondPlace, Operands.lowHalf, lowHalf_bits, hzero,
      patch_past, patch_first, List.append_assoc]

theorem patch_low {head low : Text} (hhead : head.length = 16) (hlow : low.length = 16)
    (text : Text) : patch 16 32 text (head ++ low) = head ++ text := by
  have htake : (head ++ low).take 16 = head := List.take_left' hhead
  have hdrop : (head ++ low).drop 32 = [] := List.drop_eq_nil_of_le (by simp [hhead, hlow])
  rw [patch, htake, hdrop, List.append_nil]

/-- A value is written over the low half. -/
theorem writeValue_field (i : Instruction) (o o' : Operands) (text : Text) :
    ({ (Encoder.mk i o blankField).writeHead (nibble i.mnemonic.opcode) with
        operands := o' }.writeValue text).field = headText i.mnemonic o ++ text := by
  rw [writeValue, writeHead_field]
  exact patch_low (headText_isDigits _ _).1 (Binary.bits_length 16 _) text

/-- A jump writes its literals as the others do, but for the negative ones, which it refuses. -/
theorem jumpLiteral_eq (line : Option Int) (n : Int) :
    jumpLiteral line n = if n < 0 then .error (.negativeJump line) else registerLiteral line n := by
  unfold jumpLiteral registerLiteral
  by_cases hn : n < 0
  · rw [if_neg (by omega), if_pos hn, if_pos hn]
  · have hcomplement : Binary.complementText 16 n = Binary.padded 16 n := by
      rw [Binary.complementText, Binary.complement, if_pos (by omega)]
    rw [if_neg hn, if_neg hn, hcomplement]

theorem literalText_of_jump {e : Encoder} (h : e.operands.format = .jump) (n : Int) :
    e.literalText n = jumpLiteral e.instruction.line n := by
  unfold literalText
  cases ho : e.operands <;> simp_all [Operands.format]

theorem literalText_of_ne_jump {e : Encoder} (h : e.operands.format ≠ .jump) (n : Int) :
    e.literalText n = registerLiteral e.instruction.line n := by
  unfold literalText
  cases ho : e.operands <;> simp_all [Operands.format]

/-- What becomes of a literal, in all formats: it is too large, or negative in a jump, or it is
written as its number. -/
theorem literalText_eq (e : Encoder) (n : Int) :
    e.literalText n =
      if 65536 ≤ n then .error (.largeValue n e.instruction.line)
      else if e.operands.format = .jump ∧ n < 0 then .error (.negativeJump e.instruction.line)
      else .ok (e.operands.format.lowText n) := by
  by_cases hjump : e.operands.format = .jump
  · rw [literalText_of_jump hjump]
    simp only [jumpLiteral, Format.lowText, hjump, true_and, if_true]
  · rw [literalText_of_ne_jump hjump]
    simp only [registerLiteral, Format.lowText, hjump, false_and, if_false]

/-- A literal that is not refused is written as its number. -/
theorem literalText_eq_ok {e : Encoder} {n : Int} {text : Text}
    (h : e.literalText n = .ok text) : text = e.operands.format.lowText n := by
  rw [literalText_eq] at h
  split at h
  · cases h
  · split at h
    · cases h
    · exact (Except.ok.inj h).symm

/-- A literal that the format has room for is not refused. -/
theorem literalText_of_holds {e : Encoder} {n : Int} (h : e.operands.format.Holds n) :
    e.literalText n = .ok (e.operands.format.lowText n) := by
  unfold Format.Holds at h
  rw [literalText_eq, if_neg (by omega), if_neg]
  rintro ⟨hjump, hn⟩
  rw [if_pos hjump] at h
  omega

/-- A label is written as the number that it stands for. -/
theorem labelText_eq {e : Encoder} (hfit : e.instruction.format = e.operands.format) (n : Int) :
    e.labelText n =
      match labelNumber? e.instruction n with
      | none => .error .unplacedBranch
      | some k => .ok (e.operands.format.lowText k) := by
  unfold labelText labelNumber? Format.lowText
  by_cases hbeq : e.instruction.mnemonic = .beq
  · have hformat : e.operands.format = .immediate := by
      rw [← hfit, Instruction.format, hbeq]
      rfl
    cases ho : e.operands <;> simp [ho, Operands.format] at hformat
    cases hline : e.instruction.line <;> simp [hbeq, branchDistance, Operands.format]
  · cases ho : e.operands <;> simp [hbeq, Operands.format]

section FirstReading

variable {i : Instruction} {o : Operands} (table : LabelTable)

theorem read_of_fit (hfit : i.format = o.format) :
    (Encoder.mk i o blankField).read table =
      ((Encoder.mk i o blankField).writeHead (nibble i.mnemonic.opcode)).readValue table := by
  have hopcode : (Encoder.mk i o blankField).opcode? = some (nibble i.mnemonic.opcode) :=
    opcode?_eq_some_iff.2 ⟨hfit, rfl⟩
  simp only [read, hopcode]

/-- Without a value, a first reading gives the head and a low half set by the operands. -/
theorem read_without_value (hfit : i.format = o.format) (hvalue : o.value? = none) :
    ((Encoder.mk i o blankField).read table).1 =
      .ok (headText i.mnemonic o ++ Binary.bits 16 o.lowHalf) := by
  rw [read_of_fit table hfit, ← writeHead_field]
  simp [readValue, hvalue]

/-- A first reading that succeeds writes the number that the value denotes. -/
theorem number?_of_read (hfit : i.format = o.format) {text word : Text}
    (hvalue : o.value? = some (.written text))
    (h : ((Encoder.mk i o blankField).read table).1 = .ok word) :
    ∃ n, (Encoder.mk i o blankField).number? table = some n ∧
      word = headText i.mnemonic o ++ o.format.lowText n := by
  have hread : (((Encoder.mk i o blankField).writeHead (nibble i.mnemonic.opcode)).readWritten
      table text).1 = .ok word := by
    rw [read_of_fit table hfit] at h
    simpa [readValue, hvalue] using h
  unfold readWritten at hread
  split at hread
  · rename_i hnumeral
    split at hread
    · cases hread
    · rename_i n hn
      split at hread
      · cases hread
      · -- The encoder is settled before its value is written, which leaves the field alone.
        rename_i digits hdigits
        refine ⟨n, by simp [number?, hvalue, hnumeral, hn, Except.toOption], ?_⟩
        obtain rfl := literalText_eq_ok hdigits
        exact (Except.ok.inj hread).symm.trans (writeValue_field i o _ _)
  · rename_i hnumeral
    split at hread
    · cases hread
    · rename_i digits hdigits
      unfold lookUp at hdigits
      split at hdigits
      · cases hdigits
      · rename_i n hn
        rw [labelText_eq hfit] at hdigits
        split at hdigits
        · cases hdigits
        · rename_i k hk
          obtain rfl := Except.ok.inj hdigits
          refine ⟨k, by simpa [number?, hvalue, hnumeral, hn] using hk, ?_⟩
          exact (Except.ok.inj hread).symm.trans (writeValue_field i o o _)

/-- A number that the format has room for is written. -/
theorem read_of_number? (hfit : i.format = o.format) {text : Text} {n : Int}
    (hvalue : o.value? = some (.written text))
    (hnumber : (Encoder.mk i o blankField).number? table = some n) (hholds : o.format.Holds n) :
    ((Encoder.mk i o blankField).read table).1 =
      .ok (headText i.mnemonic o ++ o.format.lowText n) := by
  have hread : ((Encoder.mk i o blankField).read table).1 =
      (((Encoder.mk i o blankField).writeHead (nibble i.mnemonic.opcode)).readWritten
        table text).1 := by
    rw [read_of_fit table hfit]
    simp [readValue, hvalue]
  rw [hread]
  simp only [number?, hvalue] at hnumber
  unfold readWritten
  split at hnumber
  · rename_i hnumeral
    rw [if_pos hnumeral]
    cases hn : Numeral.read text with
    | error fault => simp [hn, Except.toOption] at hnumber
    | ok k =>
        obtain rfl : k = n := by simpa [hn, Except.toOption] using hnumber
        have hliteral : ((Encoder.mk i o blankField).writeHead
            (nibble i.mnemonic.opcode)).literalText k = .ok (o.format.lowText k) :=
          literalText_of_holds hholds
        simp only [hliteral]
        exact congrArg Except.ok (writeValue_field i o _ _)
  · rename_i hnumeral
    rw [if_neg hnumeral]
    obtain ⟨k, hk, hlabel⟩ := Option.bind_eq_some_iff.1 hnumber
    have hlookUp : ((Encoder.mk i o blankField).writeHead (nibble i.mnemonic.opcode)).lookUp
        table text = .ok (o.format.lowText n) := by
      have hlabelText := labelText_eq
        (e := (Encoder.mk i o blankField).writeHead (nibble i.mnemonic.opcode)) hfit k
      simp only [lookUp, hk, hlabelText, writeHead_instruction, hlabel]
      rfl
    rw [hlookUp]
    exact congrArg Except.ok (writeValue_field i o o _)

end FirstReading

theorem ofInstruction_eq_ok_iff {f : Format} {i : Instruction} {e : Encoder} :
    ofInstruction f i = .ok e ↔ ∃ o, Operands.read f i = .ok o ∧ e = ⟨i, o, blankField⟩ := by
  unfold ofInstruction
  cases Operands.read f i <;> simp [Except.map, eq_comm]

/-- The two shapes of a first word: the operands alone set its low half, or a number does. -/
theorem word_of_read {i : Instruction} {e : Encoder} {table : LabelTable} {word : Text}
    (he : ofInstruction i.format i = .ok e) (h : (e.read table).1 = .ok word) :
    (e.operands.value? = none ∧ e.number? table = none ∧
      word = headText i.mnemonic e.operands ++ Binary.bits 16 e.operands.lowHalf) ∨
    (e.operands.value? ≠ none ∧ ∃ n, e.number? table = some n ∧
      word = headText i.mnemonic e.operands ++ i.format.lowText n) := by
  obtain ⟨o, ho, rfl⟩ := ofInstruction_eq_ok_iff.1 he
  have hfit : i.format = o.format := (Operands.format_of_read ho).symm
  cases hvalue : o.value? with
  | none =>
      rw [read_without_value table hfit hvalue] at h
      exact .inl ⟨rfl, by simp [number?, hvalue], (Except.ok.inj h).symm⟩
  | some v =>
      obtain ⟨text, rfl⟩ := Operands.value?_of_read ho hvalue
      obtain ⟨n, hn, hword⟩ := number?_of_read table hfit hvalue h
      rw [← hfit] at hword
      exact .inr ⟨by simp, n, hn, hword⟩

end Encoder

namespace Instruction

/-- The number that an instruction writes under a table, if it has one. -/
def number? (i : Instruction) (table : LabelTable) : Option Int :=
  match Encoder.ofInstruction i.format i with
  | .error _ => none
  | .ok e => e.number? table

theorem code_eq_ok_iff {i : Instruction} {table : LabelTable} {word : Text} :
    i.code table = .ok word ↔
      ∃ e, Encoder.ofInstruction i.format i = .ok e ∧ (e.read table).1 = .ok word := by
  unfold code
  cases Encoder.ofInstruction i.format i <;> simp

/-- A word has thirty-two digits exactly when there is room for the number that it writes. -/
theorem code_isDigits_iff {i : Instruction} {table : LabelTable} {word : Text}
    (h : i.code table = .ok word) :
    Binary.IsDigits 32 word ↔ ∀ n, i.number? table = some n → i.format.Holds n := by
  obtain ⟨e, he, hread⟩ := code_eq_ok_iff.1 h
  have hhead := Encoder.headText_isDigits i.mnemonic e.operands
  have hnumber : i.number? table = e.number? table := by rw [number?, he]
  rcases Encoder.word_of_read he hread with ⟨-, hn, rfl⟩ | ⟨-, n, hn, rfl⟩
  · have hdigits := hhead.append (Binary.bits_isDigits 16 e.operands.lowHalf)
    simp [hnumber, hn, hdigits]
  · rw [Binary.isDigits_append_iff (b := 16) hhead, Format.lowText_isDigits_iff]
    simp [hnumber, hn]

end Instruction

end WordAsm
