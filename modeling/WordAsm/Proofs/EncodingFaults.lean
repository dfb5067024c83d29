import WordAsm.Proofs.LabelOperand

/-!
# How an encoding can fail

An encoder can be misused in three ways: with a command of another format, by a second reading
of a settled value, and by a branch to a label that starts from no line.  A program that was
laid out does none of this.  Each of its instructions stands on a line, its command is read
again from the stripped text, and it is encoded by a fresh encoder of its own format.  So
encoding the program fails only with a rejection, whatever the table is by then.

Of all rejections one is over by then: encoding never says that a command is unknown.
-/

namespace WordAsm

/-- Every error of a computation satisfies a predicate. -/
def FailsOnly {ε α : Type} (P : ε → Prop) (x : Except ε α) : Prop :=
  ∀ e, x = .error e → P e

namespace FailsOnly

variable {ε ε' α β : Type} {P : ε → Prop}

theorem ok (a : α) : FailsOnly P (.ok a) := by
  intro e h
  cases h

theorem error {e : ε} (he : P e) : FailsOnly P (.error e : Except ε α) := by
  intro e' h
  cases h
  exact he

theorem bind {x : Except ε α} {next : α → Except ε β} (hx : FailsOnly P x)
    (hnext : ∀ a, FailsOnly P (next a)) : FailsOnly P (x >>= next) := by
  cases x with
  | error e => exact error (hx e rfl)
  | ok a => exact hnext a

theorem map {x : Except ε α} (hx : FailsOnly P x) (f : α → β) : FailsOnly P (x.map f) := by
  cases x with
  | error e => exact error (hx e rfl)
  | ok a => exact ok (f a)

theorem mapError (x : Except ε' α) {f : ε' → ε} (hf : ∀ e, P (f e)) :
    FailsOnly P (x.mapError f) := by
  cases x with
  | error e => exact error (hf e)
  | ok a => exact ok a

/-- What is returned, if it is no error of the kind. -/
theorem ok_or_error {x : Except ε α} (hx : FailsOnly P x) :
    (∃ a, x = .ok a) ∨ ∃ e, x = .error e ∧ P e := by
  cases x with
  | error e => exact .inr ⟨e, rfl, hx e rfl⟩
  | ok a => exact .inl ⟨a, rfl⟩

end FailsOnly

namespace Rejection

/-- The rejections that an encoding can end with. -/
def AtEncoding : Rejection → Prop
  | numeral _ | operandShape _ _ | registers _ _ _ | haltOperands _ | largeValue _ _
  | negativeJump _ | undefinedLabel _ _ => True
  | _ => False

end Rejection

namespace Operands

theorem readNumber_failsOnly (digits : Text) :
    FailsOnly Rejection.AtEncoding (readNumber digits) :=
  .mapError _ fun _ => trivial

theorem unlessFaulty_failsOnly (f : Format) (line : Option Int) (faults : List RegisterFault)
    (o : Operands) : FailsOnly Rejection.AtEncoding (unlessFaulty f line faults o) := by
  unfold unlessFaulty
  split
  · exact .ok o
  · exact .error trivial

theorem ofGroups_failsOnly (f : Format) (i : Instruction) (parts : List Text) :
    FailsOnly Rejection.AtEncoding (ofGroups f i parts) := by
  unfold ofGroups
  split
  · exact .bind (readNumber_failsOnly _) fun _ => .bind (readNumber_failsOnly _) fun _ =>
      .bind (readNumber_failsOnly _) fun _ => unlessFaulty_failsOnly _ _ _ _
  · exact .bind (readNumber_failsOnly _) fun _ => .bind (readNumber_failsOnly _) fun _ =>
      unlessFaulty_failsOnly _ _ _ _
  · exact .bind (readNumber_failsOnly _) fun _ => unlessFaulty_failsOnly _ _ _ _
  · exact .bind (readNumber_failsOnly _) fun _ => .bind (readNumber_failsOnly _) fun _ =>
      unlessFaulty_failsOnly _ _ _ _
  · exact .ok _
  · exact .error trivial

theorem read_failsOnly (f : Format) (i : Instruction) :
    FailsOnly Rejection.AtEncoding (read f i) := by
  unfold read
  split
  · split
    · exact .ok _
    · exact .error trivial
  · exact ofGroups_failsOnly _ _ _

end Operands

namespace Error

/-- A failed encoding that is a rejection. -/
def IsRejection (err : Error) : Prop :=
  ∃ why : Rejection, err = .rejected why ∧ why.AtEncoding

theorem isRejection_rejected {why : Rejection} (h : why.AtEncoding) :
    IsRejection (.rejected why) :=
  ⟨why, rfl, h⟩

end Error

namespace Encoder

theorem literalText_failsOnly (e : Encoder) (n : Int) :
    FailsOnly Rejection.AtEncoding (e.literalText n) := by
  rw [literalText_eq]
  split
  · exact .error trivial
  · split
    · exact .error trivial
    · exact .ok _

/-- Only a branch that starts from no line can leave a label without a number. -/
theorem line_of_labelNumber? {i : Instruction} {n : Int} (h : labelNumber? i n = none) :
    i.line = none := by
  unfold labelNumber? at h
  split at h
  · exact Option.map_eq_none_iff.1 h
  · cases h

/-- A fresh encoder of an instruction that stands on a line fails only with a rejection. -/
theorem read_failsOnly {i : Instruction} {e : Encoder} (he : ofInstruction i.format i = .ok e)
    {line : Int} (hline : i.line = some line) (table : LabelTable) :
    FailsOnly Error.IsRejection (e.read table).1 := by
  obtain ⟨o, ho, rfl⟩ := ofInstruction_eq_ok_iff.1 he
  have hfit : i.format = o.format := (Operands.format_of_read ho).symm
  cases hvalue : o.value? with
  | none =>
      rw [read_without_value table hfit hvalue]
      exact .ok _
  | some v =>
      -- The operands are as they were read, so the value is not settled yet.
      obtain ⟨text, rfl⟩ := Operands.value?_of_read ho hvalue
      cases hnumeral : Numeral.isNumeral text with
      | true =>
          rw [read_of_numeral hfit hvalue hnumeral]
          split
          · exact .error (Error.isRejection_rejected trivial)
          · split
            · rename_i why hwhy
              exact .error (Error.isRejection_rejected (literalText_failsOnly _ _ why hwhy))
            · exact .ok _
      | false =>
          have hlabel := Operands.labelOperand?_eq_some_iff.2 ⟨hvalue, hnumeral⟩
          rw [read_of_label hfit hlabel]
          split
          · exact .error (Error.isRejection_rejected trivial)
          · split
            · rename_i hnone
              rw [line_of_labelNumber? hnone] at hline
              cases hline
            · exact .ok _

/-- An encoder of an instruction in its own format has room for its command. -/
theorem isFit_of_ofInstruction {i : Instruction} {e : Encoder}
    (he : ofInstruction i.format i = .ok e) : e.isFit = true := by
  obtain ⟨o, ho, rfl⟩ := ofInstruction_eq_ok_iff.1 he
  exact isFit_iff.2 (Operands.format_of_read ho).symm

end Encoder

namespace Instruction

theorem code_failsOnly {i : Instruction} {line : Int} (hline : i.line = some line)
    (table : LabelTable) : FailsOnly Error.IsRejection (i.code table) := by
  unfold code
  split
  · rename_i why hwhy
    have hread := (Operands.read_failsOnly i.format i).map
      fun o => Encoder.mk i o Encoder.blankField
    exact .error (Error.isRejection_rejected (hread why hwhy))
  · rename_i e he
    exact Encoder.read_failsOnly he hline table

end Instruction

/-! ## Commands are read again -/

namespace Mnemonic

theorem trim_name (m : Mnemonic) : Text.trim m.name.toList = m.name.toList := by
  cases m <;> decide +kernel

/-- A text writes a command exactly up to the white space that the command ignores. -/
theorem trim_of_ofText? {text : Text} {m : Mnemonic} (h : ofText? text = some m) :
    text.trim = m.name.toList := by
  have hwritten := List.find?_some h
  simp only [isWrittenAs, decide_eq_true_eq] at hwritten
  -- Some commands are compared as they stand and some stripped.
  split at hwritten
  · exact hwritten.symm
  · rw [← hwritten, trim_name]

end Mnemonic

namespace Instruction

/-- An instruction that its encoder can take: it stands on a line, it was read from a command
which stripped is the name of its mnemonic and is read as the same instruction again, and the
mnemonic is one of the format in which the operands are read. -/
structure Ready (i : Instruction) (lines : Nat) : Prop where
  line : ∃ index : Nat, index < lines ∧ i.line = some (index : Int)
  command : ∃ command, read command i.operands i.line = .ok i ∧
    command.trim = i.mnemonic.name.toList ∧ read command.trim i.operands i.line = .ok i
  fit : ∀ e, Encoder.ofInstruction i.format i = .ok e → e.isFit = true

/-- What was read at a line is ready for its encoder. -/
theorem ready_of_read {command operands : Text} {index lines : Nat} {i : Instruction}
    (hindex : index < lines) (h : read command operands (some (index : Int)) = .ok i) :
    i.Ready lines := by
  obtain ⟨m, hm, rfl⟩ := read_eq_ok_iff.1 h
  have htrim := Mnemonic.trim_of_ofText? hm
  have hagain : read command.trim operands (some (index : Int)) =
      .ok ⟨m, operands, some (index : Int)⟩ := by
    rw [htrim]
    exact read_eq_ok_iff.2 ⟨m, m.ofText?_name, rfl⟩
  exact ⟨⟨index, hindex, rfl⟩, ⟨command, h, htrim, hagain⟩,
    fun _ => Encoder.isFit_of_ofInstruction⟩

end Instruction

/-! ## Whole programs -/

theorem Statement.Placed.ready {table : LabelTable} {index lines : Nat} {s : Statement}
    {entries : List Entry} (h : s.Placed table index entries) (hindex : index < lines)
    {i : Instruction} (hi : .instruction i ∈ entries) : i.Ready lines := by
  cases h with
  | fill hnumber hroom hnew => simp at hi
  | space hnumber hpos hroom hnew => simp at hi
  | halt hlabel =>
      -- A halt is not read from a text, but it is what its name would be read as.
      obtain rfl : i = ⟨.halt, [], some (index : Int)⟩ := by simpa using hi
      have hread : Instruction.read Mnemonic.halt.name.toList [] (some (index : Int)) =
          .ok ⟨.halt, [], some (index : Int)⟩ :=
        Instruction.read_eq_ok_iff.2 ⟨.halt, Mnemonic.ofText?_name .halt, rfl⟩
      exact Instruction.ready_of_read hindex hread
  | instruction hlabel hread =>
      obtain rfl : i = _ := by simpa using hi
      exact Instruction.ready_of_read hindex hread

/-- Every instruction of a layout is ready for its encoder. -/
theorem Laid.ready {table final : LabelTable} {index : Nat} {lines : List Text}
    {entries : List Entry} (h : Laid table index lines final entries) {i : Instruction}
    (hi : .instruction i ∈ entries) : i.Ready (index + lines.length) := by
  induction h with
  | nil => cases hi
  | @cons table final index line rest s here more hline hplaced hrest ih =>
      rcases List.mem_append.1 hi with hhere | hmore
      · exact hplaced.ready (by simp) hhere
      · have hready := ih hmore
        rwa [show index + (line :: rest).length = index + 1 + rest.length by simp; omega]

namespace Entry

/-- A program fails only as its entries do. -/
theorem words_failsOnly {P : Error → Prop} {table : LabelTable} {entries : List Entry}
    (h : ∀ entry ∈ entries, FailsOnly P (entry.code table)) :
    FailsOnly P (words table entries) := by
  induction entries with
  | nil => exact .ok []
  | cons entry rest ih =>
      rw [List.forall_mem_cons] at h
      unfold words
      split
      · rename_i err herr
        exact .error (h.1 err herr)
      · exact (ih h.2).map _

end Entry

/-- Once a program is laid out, each of its instructions stands on one of its lines, is read again
from its stripped command and fits an encoder of its own format.  So with any table the program
has code or is rejected, for a cause other than an unknown command. -/
theorem encoding_fails_only_with_rejection {start : LabelTable} {lines : List Text}
    {entries : List Entry} (h : (Layout.ofLines start lines).result = .ok entries) :
    (∀ i, .instruction i ∈ entries → i.Ready (Line.kept lines).length) ∧
    ∀ table, (∃ text, Entry.programCode table entries = .ok text) ∨
      ∃ why : Rejection, Entry.programCode table entries = .error (.rejected why) ∧
        why.AtEncoding := by
  have hlayout : Layout.ofLines start lines =
      ⟨(Layout.ofLines start lines).table, .ok entries⟩ := by
    rw [← h]
  have hlaid := Layout.ofLines_eq_ok_iff.1 hlayout
  have hready : ∀ i, .instruction i ∈ entries → i.Ready (Line.kept lines).length := by
    intro i hi
    simpa using hlaid.ready hi
  refine ⟨hready, fun table => ?_⟩
  -- Finished words cannot fail, and the instructions all stand on a line.
  have hwords : FailsOnly Error.IsRejection (Entry.words table entries) := by
    apply Entry.words_failsOnly
    intro entry hentry
    cases entry with
    | word digits => exact .ok digits
    | instruction i =>
        obtain ⟨index, -, hline⟩ := (hready i hentry).line
        exact Instruction.code_failsOnly hline table
  have hcode : FailsOnly Error.IsRejection (Entry.programCode table entries) := hwords.map _
  rcases hcode.ok_or_error with hok | ⟨_, hfail, why, rfl, hwhy⟩
  · exact .inl hok
  · exact .inr ⟨why, hfail, hwhy⟩

/-- A branch to a label of a later line. -/
def branchAhead : List Text :=
  ["\ttop beq 1,2,end # leave".toList, "end halt".toList]

/-- The entries of `branchAhead`. -/
def branchAheadEntries : List Entry :=
  [.instruction ⟨.beq, "1,2,end".toList, some 0⟩, .instruction ⟨.halt, [], some 1⟩]

/-- The branch has its word with the table of its own layout, and is rejected with an empty
one. -/
theorem encoding_fails_only_with_rejection_branchAhead :
    (Layout.ofLines ∅ branchAhead).result = .ok branchAheadEntries ∧
      (∀ i, .instruction i ∈ branchAheadEntries → i.Ready 2) ∧
      Entry.programCode (Layout.ofLines ∅ branchAhead).table branchAheadEntries =
        .ok "00001011001000010000000000000000\n00001110000000000000000000000000\n".toList ∧
      ∃ why : Rejection, Entry.programCode ∅ branchAheadEntries = .error (.rejected why) ∧
        why.AtEncoding := by
  have hresult : (Layout.ofLines ∅ branchAhead).result = .ok branchAheadEntries := by
    decide +kernel
  have hlength : (Line.kept branchAhead).length = 2 := by decide +kernel
  obtain ⟨hready, hcode⟩ := encoding_fails_only_with_rejection hresult
  rw [hlength] at hready
  refine ⟨hresult, hready, by decide +kernel, ?_⟩
  rcases hcode ∅ with ⟨text, htext⟩ | hwhy
  · have hundefined : Entry.programCode ∅ branchAheadEntries =
        .error (.rejected (.undefinedLabel "end".toList (some 0))) := by decide +kernel
    rw [hundefined] at htext
    cases htext
  · exact hwhy

end WordAsm
