import WordAsm.Proofs.LabelOperand
import WordAsm.Proofs.SettledReading

/-!
# One value in several formats

Three formats have a value, and a first reading writes it behind the head.  What stands there is set
by the value, the table and the line whatever the command, with two exceptions.  A jump takes no
negative literal and does not bring a negative label into two's complement.  A branch to a label
counts from the line after its own, as if the label stood that much lower.
-/

namespace WordAsm

namespace Format

theorem lowText_of_ne_jump {f : Format} (h : f ≠ .jump) (n : Int) :
    f.lowText n = Binary.complementText 16 n := by
  rw [lowText, if_neg h]

/-- A number that is not negative is written in one way by all formats. -/
theorem lowText_of_nonneg (f : Format) {n : Int} (h : 0 ≤ n) :
    f.lowText n = Binary.complementText 16 n := by
  unfold lowText
  split
  · rw [Binary.complementText, Binary.complement, if_pos h]
  · rfl

end Format

theorem Mnemonic.format_eq_jump_iff (m : Mnemonic) : m.format = .jump ↔ m = .j := by
  cases m <;> simp [format]

namespace Encoder

/-- What a reading gives from place sixteen on. -/
def lowPart (answer : Except Error Text) : Except Error Text :=
  answer.map (·.drop 16)

theorem lowPart_ok {m : Mnemonic} {o : Operands} (text : Text) :
    lowPart (.ok (headText m o ++ text)) = .ok text :=
  congrArg Except.ok (List.drop_left' (headText_length m o))

/-- An encoder as it was made: with a command that it knows, a value as written, and a line or
none. -/
structure Fresh (e : Encoder) (m : Mnemonic) (v : Text) (line : Option Int) : Prop where
  made : ∃ f, ofInstruction f e.instruction = .ok e
  fit : e.isFit = true
  command : e.instruction.mnemonic = m
  value : e.operands.value? = some (.written v)
  line : e.instruction.line = line

/-- What stands behind the head for a value whose command is no jump and no branch. -/
def plainText (v : Text) (table : LabelTable) (line : Option Int) : Except Error Text :=
  if Numeral.isNumeral v then
    match Numeral.read v with
    | .error fault => .error (.rejected (.numeral fault))
    | .ok n =>
        if 65536 ≤ n then .error (.rejected (.largeValue n line))
        else .ok (Binary.complementText 16 n)
  else
    match table.find? v with
    | none => .error (.rejected (.undefinedLabel v line))
    | some n => .ok (Binary.complementText 16 n)

namespace Fresh

variable {e : Encoder} {m : Mnemonic} {v : Text} {line : Option Int}

theorem read_eq (h : e.Fresh m v line) (table : LabelTable) :
    e.read table = (Encoder.mk e.instruction e.operands blankField).read table := by
  obtain ⟨f, hf⟩ := h.made
  obtain ⟨o, -, he⟩ := ofInstruction_eq_ok_iff.1 hf
  rw [he]

theorem format_eq (h : e.Fresh m v line) : e.instruction.format = e.operands.format :=
  isFit_iff.1 h.fit

theorem format_eq_jump_iff (h : e.Fresh m v line) : e.operands.format = .jump ↔ m = .j := by
  rw [← h.format_eq, Instruction.format, h.command, Mnemonic.format_eq_jump_iff]

/-- A literal is written as its number, if the number is in range. -/
theorem lowPart_of_numeral (h : e.Fresh m v line) (hnumeral : Numeral.isNumeral v = true)
    (table : LabelTable) :
    lowPart (e.read table).1 =
      match Numeral.read v with
      | .error fault => .error (.rejected (.numeral fault))
      | .ok n =>
          if 65536 ≤ n then .error (.rejected (.largeValue n line))
          else if m = .j ∧ n < 0 then .error (.rejected (.negativeJump line))
          else .ok (e.operands.format.lowText n) := by
  rw [h.read_eq, read_of_numeral h.format_eq h.value hnumeral]
  cases Numeral.read v with
  | error fault => rfl
  | ok n =>
      refine (congrArg lowPart (literalAnswer_eq e.instruction e.operands n).symm).trans ?_
      simp only [literalAnswer, h.format_eq_jump_iff, h.line]
      by_cases hlarge : 65536 ≤ n
      · rw [if_pos hlarge, if_pos hlarge]
        rfl
      · rw [if_neg hlarge, if_neg hlarge]
        by_cases hjump : m = .j ∧ n < 0
        · rw [if_pos hjump, if_pos hjump]
          rfl
        · rw [if_neg hjump, if_neg hjump, lowPart_ok]

/-- A label is written as the number that it stands for. -/
theorem lowPart_of_label (h : e.Fresh m v line) (hnumeral : Numeral.isNumeral v = false)
    (table : LabelTable) :
    lowPart (e.read table).1 =
      match table.find? v with
      | none => .error (.rejected (.undefinedLabel v line))
      | some n =>
          match labelNumber? e.instruction n with
          | none => .error (.misused .unplacedBranch)
          | some k => .ok (e.operands.format.lowText k) := by
  have hlabel := Operands.labelOperand?_eq_some_iff.2 ⟨h.value, hnumeral⟩
  rw [h.read_eq, read_of_label h.format_eq hlabel, h.line]
  cases table.find? v with
  | none => rfl
  | some n =>
      simp only
      cases labelNumber? e.instruction n with
      | none => rfl
      | some k => exact lowPart_ok _

/-- A number is written in two's complement, unless the command is a jump and it is negative. -/
theorem lowText_eq (h : e.Fresh m v line) {n : Int} (hn : m = .j → 0 ≤ n) :
    e.operands.format.lowText n = Binary.complementText 16 n := by
  by_cases hm : m = .j
  · exact Format.lowText_of_nonneg _ (hn hm)
  · exact Format.lowText_of_ne_jump (fun hformat => hm (h.format_eq_jump_iff.1 hformat)) n

theorem labelNumber?_eq (h : e.Fresh m v line) (hbranch : m ≠ .beq) (n : Int) :
    labelNumber? e.instruction n = some n := by
  rw [labelNumber?, if_neg (by rw [h.command]; exact hbranch)]

/-- A value whose command is no branch is written as the plain text, unless its command is a jump
and it denotes a negative number. -/
theorem lowPart_eq_plainText (h : e.Fresh m v line) (hbranch : m ≠ .beq) {table : LabelTable}
    (hjump : m = .j → ∀ n, Statement.operandNumber? table v = some n → 0 ≤ n) :
    lowPart (e.read table).1 = plainText v table line := by
  cases hnumeral : Numeral.isNumeral v with
  | true =>
      rw [h.lowPart_of_numeral hnumeral, plainText, if_pos hnumeral]
      cases hread : Numeral.read v with
      | error fault => rfl
      | ok n =>
          have hn : m = .j → 0 ≤ n := fun hm =>
            hjump hm n (by simp [Statement.operandNumber?, hnumeral, hread, Except.toOption])
          have hallowed : ¬ (m = .j ∧ n < 0) := by
            rintro ⟨hm, hneg⟩
            have hnonneg := hn hm
            omega
          simp only [if_neg hallowed, h.lowText_eq hn]
  | false =>
      rw [h.lowPart_of_label hnumeral, plainText, hnumeral]
      simp only [Bool.false_eq_true, if_false, h.labelNumber?_eq hbranch]
      cases hfind : table.find? v with
      | none => rfl
      | some n =>
          have hn : m = .j → 0 ≤ n := fun hm =>
            hjump hm n (by simp [Statement.operandNumber?, hnumeral, hfind])
          simp only [h.lowText_eq hn]

/-- In a branch, literals and labels that are not bound are like in the plain formats. -/
theorem lowPart_branch_eq_plainText (h : e.Fresh .beq v line) {table : LabelTable}
    (hvalue : Numeral.isNumeral v = true ∨ table.find? v = none) :
    lowPart (e.read table).1 = plainText v table line := by
  cases hnumeral : Numeral.isNumeral v with
  | true =>
      rw [h.lowPart_of_numeral hnumeral, plainText, if_pos hnumeral]
      simp [h.lowText_eq nofun]
  | false =>
      have hfind : table.find? v = none := hvalue.resolve_left (by simp [hnumeral])
      rw [h.lowPart_of_label hnumeral, plainText, hnumeral, hfind]
      rfl

/-- In a branch, a label that is bound is like in the plain formats with a lower value. -/
theorem lowPart_branch_of_label {index : Int} (h : e.Fresh .beq v (some index))
    (hnumeral : Numeral.isNumeral v = false) {table : LabelTable} {n : Int}
    (hfind : table.find? v = some n) :
    lowPart (e.read table).1 = .ok (Binary.complementText 16 (n - (index + 1))) ∧
      plainText v (table.insert v (n - (index + 1))) (some index) =
        .ok (Binary.complementText 16 (n - (index + 1))) := by
  have hnumber : labelNumber? e.instruction n = some (n - (index + 1)) := by
    rw [labelNumber?, if_pos h.command, h.line, Option.map_some, Int.sub_sub]
  constructor
  · rw [h.lowPart_of_label hnumeral, hfind]
    simp only [hnumber, h.lowText_eq nofun]
  · rw [plainText, hnumeral]
    simp [LabelTable.find?_insert]

end Fresh

/-- Two encoders with the same value and line have the same text behind the head after a first
reading, or fail for the same cause.  One of them has a command with a value that is no branch and
no jump.  The other one has such a command too; or it is a jump and the value does not denote a
negative number; or it is a branch and the value is a numeral or a label that is not bound.  For a
branch to a label that is bound, the text is the one with the label's value less by the line and
one. -/
theorem value_is_written_alike {e e' : Encoder} {m m' : Mnemonic} {v : Text} {line : Option Int}
    (h : e.Fresh m v line) (h' : e'.Fresh m' v line)
    (hm : m.format = .immediate ∧ m ≠ .beq ∨ m = .lui) (table : LabelTable) :
    (m'.format = .immediate ∧ m' ≠ .beq ∨ m' = .lui →
      lowPart (e'.read table).1 = lowPart (e.read table).1) ∧
    (m' = .j → (∀ n, Statement.operandNumber? table v = some n → 0 ≤ n) →
      lowPart (e'.read table).1 = lowPart (e.read table).1) ∧
    (m' = .beq →
      (Numeral.isNumeral v = true ∨ table.find? v = none →
        lowPart (e'.read table).1 = lowPart (e.read table).1) ∧
      ∀ n index, Numeral.isNumeral v = false → table.find? v = some n → line = some index →
        ∃ text, lowPart (e'.read table).1 = .ok text ∧
          lowPart (e.read (table.insert v (n - (index + 1)))).1 = .ok text) := by
  have hplain {m : Mnemonic} (hm : m.format = .immediate ∧ m ≠ .beq ∨ m = .lui) :
      m ≠ .beq ∧ m ≠ .j := by
    rcases hm with ⟨hformat, hbranch⟩ | rfl
    · refine ⟨hbranch, ?_⟩
      rintro rfl
      cases hformat
    · decide
  have htext (table : LabelTable) : lowPart (e.read table).1 = plainText v table line :=
    h.lowPart_eq_plainText (hplain hm).1 fun hjump => absurd hjump (hplain hm).2
  refine ⟨?_, ?_, ?_⟩
  · intro hm'
    rw [htext]
    exact h'.lowPart_eq_plainText (hplain hm').1 fun hjump => absurd hjump (hplain hm').2
  · rintro rfl hnonneg
    rw [htext]
    exact h'.lowPart_eq_plainText (by decide) fun _ => hnonneg
  · rintro rfl
    refine ⟨?_, ?_⟩
    · intro hvalue
      rw [htext]
      exact h'.lowPart_branch_eq_plainText hvalue
    · rintro n index hnumeral hfind rfl
      obtain ⟨hbranch, hlower⟩ := h'.lowPart_branch_of_label hnumeral hfind
      exact ⟨_, hbranch, (htext _).trans hlower⟩

/-- A fresh encoder of a load of a label. -/
def upperTop : Encoder :=
  ⟨⟨.lui, "3,top".toList, some 5⟩, .upper (.ofNumber 3) (.written "top".toList), blankField⟩

/-- A fresh encoder of a branch to the same label, on the same line. -/
def branchTop : Encoder :=
  ⟨⟨.beq, "1,2,top".toList, some 5⟩,
    .immediate (.ofNumber 1) (.ofNumber 2) (.written "top".toList), blankField⟩

/-- On line five, a branch back to two is a load of minus four. -/
theorem value_is_written_alike_branchTop :
    upperTop.Fresh .lui "top".toList (some 5) ∧ branchTop.Fresh .beq "top".toList (some 5) ∧
      lowPart (branchTop.read ((∅ : LabelTable).insert "top".toList 2)).1 =
        .ok "1111111111111100".toList ∧
      lowPart (upperTop.read (((∅ : LabelTable).insert "top".toList 2).insert "top".toList
        (2 - (5 + 1)))).1 = .ok "1111111111111100".toList := by
  have hupper : upperTop.Fresh .lui "top".toList (some 5) :=
    ⟨⟨.upper, by decide +kernel⟩, rfl, rfl, rfl, rfl⟩
  have hbranch : branchTop.Fresh .beq "top".toList (some 5) :=
    ⟨⟨.immediate, by decide +kernel⟩, rfl, rfl, rfl, rfl⟩
  have hword : lowPart (branchTop.read ((∅ : LabelTable).insert "top".toList 2)).1 =
      .ok "1111111111111100".toList := by decide +kernel
  obtain ⟨-, -, hbeq⟩ := value_is_written_alike hupper hbranch (.inr rfl)
    ((∅ : LabelTable).insert "top".toList 2)
  obtain ⟨text, htext, hlower⟩ :=
    (hbeq rfl).2 2 5 (by decide +kernel) (by decide +kernel) rfl
  obtain rfl := Except.ok.inj (htext.symm.trans hword)
  exact ⟨hupper, hbranch, hword, hlower⟩

end Encoder

end WordAsm
