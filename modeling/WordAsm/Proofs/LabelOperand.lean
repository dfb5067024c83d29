import WordAsm.Proofs.Layout
import WordAsm.Proofs.Reading

/-!
# The label that an instruction names

An instruction names at most one label: its value operand, when that is no numeral.  Its word
depends on the table at this label only.  So tables that agree on the labels of a program give
the same code, or the same failure, whatever else stands in them.
-/

namespace WordAsm

namespace Operands

/-- The label that stands as the value, if the value is one. -/
def labelOperand? (o : Operands) : Option Text :=
  match o.value? with
  | some (.written text) => if Numeral.isNumeral text then none else some text
  | _ => none

theorem labelOperand?_eq_some_iff {o : Operands} {name : Text} :
    o.labelOperand? = some name ↔
      o.value? = some (.written name) ∧ Numeral.isNumeral name = false := by
  unfold labelOperand?
  cases hvalue : o.value? with
  | none => simp
  | some v =>
      cases v with
      | settled n => simp
      | written text => by_cases hnumeral : Numeral.isNumeral text = true <;> grind

/-- Operands are read from the command and the operand text; the line only shows in faults. -/
theorem read_line {f : Format} {i : Instruction} {o : Operands} (h : read f i = .ok o)
    (line : Option Int) : read f { i with line := line } = .ok o := by
  rw [read_eq_ok_iff] at h ⊢
  exact h

end Operands

namespace Encoder

section FirstReading

variable {i : Instruction} {o : Operands} {name : Text}

/-- A first reading with a label looks it up, and writes the number that it stands for. -/
theorem read_of_label (hfit : i.format = o.format) (hlabel : o.labelOperand? = some name)
    (table : LabelTable) :
    ((Encoder.mk i o blankField).read table).1 =
      match table.find? name with
      | none => .error (.rejected (.undefinedLabel name i.line))
      | some n =>
          match labelNumber? i n with
          | none => .error (.misused .unplacedBranch)
          | some k => .ok (headText i.mnemonic o ++ o.format.lowText k) := by
  obtain ⟨hvalue, hnumeral⟩ := Operands.labelOperand?_eq_some_iff.1 hlabel
  rw [blankField_eq_append, read_label hfit (.inl rfl) hvalue hnumeral]
  cases table.find? name with
  | none => rfl
  | some n =>
      simp only
      cases labelNumber? i n with
      | none => rfl
      | some k => simp

/-- A first reading with a numeral writes its value, if that is in range. -/
theorem read_of_numeral (hfit : i.format = o.format) (hvalue : o.value? = some (.written name))
    (hnumeral : Numeral.isNumeral name = true) (table : LabelTable) :
    ((Encoder.mk i o blankField).read table).1 =
      match Numeral.read name with
      | .error fault => .error (.rejected (.numeral fault))
      | .ok n =>
          match (Encoder.mk i o blankField).literalText n with
          | .error why => .error (.rejected why)
          | .ok digits => .ok (headText i.mnemonic o ++ digits) := by
  rw [blankField_eq_append, read_numeral hfit (.inl rfl) hvalue hnumeral]
  cases Numeral.read name with
  | error fault => rfl
  | ok n =>
      simp only [← blankField_eq_append]
      cases (Encoder.mk i o blankField).literalText n with
      | error why => rfl
      | ok digits => simp

/-- Without a label a reading does not look at the table. -/
theorem read_of_no_label {e : Encoder} (hlabel : e.operands.labelOperand? = none)
    (table table' : LabelTable) : e.read table = e.read table' := by
  unfold read
  split
  · rfl
  · unfold readValue
    rw [writeHead_operands]
    cases hvalue : e.operands.value? with
    | none => rfl
    | some v =>
        cases v with
        | settled n => rfl
        | written text =>
            have hnumeral : Numeral.isNumeral text = true := by
              simpa [Operands.labelOperand?, hvalue] using hlabel
            simp only [readWritten, hnumeral, if_true]

end FirstReading

end Encoder

namespace Instruction

theorem read_eq_ok_iff {command operands : Text} {line : Option Int} {i : Instruction} :
    read command operands line = .ok i ↔
      ∃ m, Mnemonic.ofText? command = some m ∧ i = ⟨m, operands, line⟩ := by
  unfold read
  cases Mnemonic.ofText? command <;> simp [eq_comm]

/-- The label that the operands of an instruction name, if they can be read and name one. -/
def labelOperand? (i : Instruction) : Option Text :=
  match Operands.read i.format i with
  | .ok o => o.labelOperand?
  | .error _ => none

theorem labelOperand?_eq_some_iff {i : Instruction} {name : Text} :
    i.labelOperand? = some name ↔
      ∃ o, Operands.read i.format i = .ok o ∧ o.labelOperand? = some name := by
  unfold labelOperand?
  cases Operands.read i.format i <;> simp

theorem labelOperand?_line (i : Instruction) (line : Option Int) :
    ({ i with line := line } : Instruction).labelOperand? = i.labelOperand? := by
  apply Option.ext
  intro name
  rw [labelOperand?_eq_some_iff, labelOperand?_eq_some_iff]
  constructor
  · rintro ⟨o, ho, hname⟩
    exact ⟨o, Operands.read_line ho i.line, hname⟩
  · rintro ⟨o, ho, hname⟩
    exact ⟨o, Operands.read_line ho line, hname⟩

theorem code_of_read {i : Instruction} {o : Operands} (ho : Operands.read i.format i = .ok o)
    (table : LabelTable) :
    i.code table = ((Encoder.mk i o Encoder.blankField).read table).1 := by
  rw [code, Encoder.ofInstruction_eq_ok_iff.2 ⟨o, ho, rfl⟩]

/-- The word of an instruction depends on the table at the label that it names. -/
theorem code_congr {i : Instruction} {table table' : LabelTable}
    (h : ∀ name, i.labelOperand? = some name → table.find? name = table'.find? name) :
    i.code table = i.code table' := by
  cases ho : Operands.read i.format i with
  | error why => simp [code, Encoder.ofInstruction, ho, Except.map]
  | ok o =>
      rw [code_of_read ho, code_of_read ho]
      cases hlabel : o.labelOperand? with
      | none => rw [Encoder.read_of_no_label hlabel table table']
      | some name =>
          have hfit : i.format = o.format := (Operands.format_of_read ho).symm
          have hfind := h name (labelOperand?_eq_some_iff.2 ⟨o, ho, hlabel⟩)
          rw [Encoder.read_of_label hfit hlabel, Encoder.read_of_label hfit hlabel, hfind]

/-- An instruction that names a label has a word only where the label is bound. -/
theorem find?_of_code {i : Instruction} {table : LabelTable} {word name : Text}
    (h : i.code table = .ok word) (hname : i.labelOperand? = some name) :
    ∃ n, table.find? name = some n := by
  obtain ⟨o, ho, hlabel⟩ := labelOperand?_eq_some_iff.1 hname
  rw [code_of_read ho, Encoder.read_of_label (Operands.format_of_read ho).symm hlabel] at h
  cases hfind : table.find? name with
  | none => simp [hfind] at h
  | some n => exact ⟨n, rfl⟩

end Instruction

namespace Entry

/-- The label that an entry names: a finished word names none. -/
def labelOperand? : Entry → Option Text
  | word _ => none
  | instruction i => i.labelOperand?

/-- The labels that the entries of a program name. -/
def labelOperands (entries : List Entry) : List Text :=
  entries.filterMap labelOperand?

theorem code_congr {entry : Entry} {table table' : LabelTable}
    (h : ∀ name, entry.labelOperand? = some name → table.find? name = table'.find? name) :
    entry.code table = entry.code table' := by
  cases entry with
  | word digits => rfl
  | instruction i => exact Instruction.code_congr h

/-- The code of a program depends on the table at the labels that it names. -/
theorem words_congr {entries : List Entry} {table table' : LabelTable}
    (h : ∀ name ∈ labelOperands entries, table.find? name = table'.find? name) :
    words table entries = words table' entries := by
  induction entries with
  | nil => rfl
  | cons entry rest ih =>
      have hhere : entry.code table = entry.code table' := by
        apply code_congr
        intro name hname
        exact h name (List.mem_filterMap.2 ⟨entry, List.mem_cons_self, hname⟩)
      have hrest : words table rest = words table' rest := by
        apply ih
        intro name hname
        obtain ⟨other, hother, hlabel⟩ := List.mem_filterMap.1 hname
        exact h name (List.mem_filterMap.2 ⟨other, List.mem_cons_of_mem entry hother, hlabel⟩)
      rw [words, words, hhere, hrest]

theorem exists_code_of_mem {entries : List Entry} {table : LabelTable} {digits : List Text}
    (h : words table entries = .ok digits) {entry : Entry} (hentry : entry ∈ entries) :
    ∃ word, entry.code table = .ok word := by
  have hall := words_eq_ok_iff.1 h
  obtain ⟨k, hk, rfl⟩ := List.getElem_of_mem hentry
  have hword : k < digits.length := by rwa [← hall.length_eq]
  exact ⟨_, hall.get hk hword⟩

/-- A program has code only where every label that it names is bound. -/
theorem find?_of_words {entries : List Entry} {table : LabelTable} {digits : List Text}
    (h : words table entries = .ok digits) {name : Text} (hname : name ∈ labelOperands entries) :
    ∃ n, table.find? name = some n := by
  obtain ⟨entry, hentry, hlabel⟩ := List.mem_filterMap.1 hname
  obtain ⟨word, hword⟩ := exists_code_of_mem h hentry
  cases entry with
  | word digits => cases hlabel
  | instruction i => exact Instruction.find?_of_code hword hlabel

end Entry

end WordAsm
