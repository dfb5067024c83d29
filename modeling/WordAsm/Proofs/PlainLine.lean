import WordAsm.Proofs.LineByLine
import WordAsm.Proofs.StatementFields

/-!
# Instructions without a label

A line of a command, a single space and operands is the instruction that it writes, at every place
in every program, and it defines no label.

The operands may be any text without white space, with one exception.  If they are the text `halt`
then the line is a halt, and the command is the label of the halt.
-/

namespace WordAsm

namespace Statement

theorem ofLine?_plain {m : Mnemonic} {operands : Text} (h : Line.IsField operands)
    (hhalt : operands ≠ Mnemonic.halt.name.toList) :
    ofLine? (m.name.toList ++ ' ' :: operands) =
      some (.instruction none m.name.toList operands) := by
  rw [ofLine?_two m.isField_name h, ofFields_instruction m.name_ne_directive hhalt]
  rfl

theorem ofLine?_plain_halt (m : Mnemonic) :
    ofLine? (m.name.toList ++ ' ' :: Mnemonic.halt.name.toList) =
      some (.halt (some m.name.toList)) := by
  rw [ofLine?_two m.isField_name (Mnemonic.isField_name .halt), ofFields_halt m.name_ne_directive]

end Statement

/-- When a layout gets past a line of a command, a single space and operands, the line has added one
entry.  It is the instruction with this command and these operands, and the table is as it was
before.  Only when the operands read `halt`, the entry is a halt, and the line has defined the
command as a new label. -/
theorem plain_line_is_read_as_written {start table : LabelTable} {lines : List Text} {k : Nat}
    {m : Mnemonic} {operands : Text} {entries : List Entry} (hoperands : Line.IsField operands)
    (hline : (Line.kept lines)[k]? = some (m.name.toList ++ ' ' :: operands))
    (hpast : Layout.placeFrom start 0 ((Line.kept lines).take (k + 1)) = ⟨table, .ok entries⟩) :
    ∃ middle before,
      Layout.placeFrom start 0 ((Line.kept lines).take k) = ⟨middle, .ok before⟩ ∧
      Layout.ofLines start lines =
        (Layout.placeFrom table (k + 1) ((Line.kept lines).drop (k + 1))).prepend entries ∧
      (operands ≠ Mnemonic.halt.name.toList →
        entries = before ++ [.instruction ⟨m, operands, some k⟩] ∧ table = middle) ∧
      (operands = Mnemonic.halt.name.toList →
        entries = before ++ [.instruction ⟨.halt, [], some k⟩] ∧
          middle.contains m.name.toList = false ∧ table = middle.insert m.name.toList k) := by
  by_cases hhalt : operands = Mnemonic.halt.name.toList
  · subst hhalt
    obtain ⟨middle, before, here, hbefore, hplaced, rfl, htable, hrest⟩ :=
      Layout.placed_of_past hline (Statement.ofLine?_plain_halt m) hpast
    have hnew := hplaced.label_new m.name.toList rfl
    cases hplaced
    exact ⟨middle, before, hbefore, hrest, fun h => absurd rfl h, fun _ => ⟨rfl, hnew, htable⟩⟩
  · obtain ⟨middle, before, here, hbefore, hplaced, rfl, htable, hrest⟩ :=
      Layout.placed_of_past hline (Statement.ofLine?_plain hoperands hhalt) hpast
    cases hplaced with
    | @instruction _ _ _ i hlabel hread =>
        -- The name of a command is read as the command.
        obtain rfl : i = ⟨m, operands, some k⟩ := by
          simpa [Instruction.read, m.ofText?_name, eq_comm] using hread
        exact ⟨middle, before, hbefore, hrest, fun _ => ⟨rfl, htable⟩, fun h => absurd h hhalt⟩

/-- A jump back to a labelled line. -/
def jumpBack : List Text :=
  ["start  add 1,1,2".toList, "# again".toList, "j start".toList]

/-- The second kept line is a jump with the operand `start`. -/
theorem plain_line_is_read_as_written_jumpBack :
    (Line.kept jumpBack)[1]? = some (Mnemonic.j.name.toList ++ ' ' :: "start".toList) ∧
      ∃ table before, Layout.placeFrom ∅ 0 ((Line.kept jumpBack).take 1) = ⟨table, .ok before⟩ ∧
        Layout.placeFrom ∅ 0 ((Line.kept jumpBack).take 2) =
          ⟨table, .ok (before ++ [.instruction ⟨.j, "start".toList, some 1⟩])⟩ := by
  have hline : (Line.kept jumpBack)[1]? =
      some (Mnemonic.j.name.toList ++ ' ' :: "start".toList) := by
    decide +kernel
  have hresult : (Layout.placeFrom ∅ 0 ((Line.kept jumpBack).take 2)).result =
      .ok [.instruction ⟨.add, "1,1,2".toList, some 0⟩,
        .instruction ⟨.j, "start".toList, some 1⟩] := by
    decide +kernel
  have hpast : Layout.placeFrom ∅ 0 ((Line.kept jumpBack).take 2) =
      ⟨(Layout.placeFrom ∅ 0 ((Line.kept jumpBack).take 2)).table,
        (Layout.placeFrom ∅ 0 ((Line.kept jumpBack).take 2)).result⟩ :=
    rfl
  rw [hresult] at hpast
  obtain ⟨middle, before, hbefore, -, hplain, -⟩ :=
    plain_line_is_read_as_written (by decide +kernel) hline hpast
  obtain ⟨hentries, htable⟩ := hplain (by decide)
  refine ⟨hline, middle, before, hbefore, ?_⟩
  rw [hpast, hentries, htable]
  rfl

/-- A jump to the label `halt` is a halt with the label `j`. -/
theorem jump_to_halt_is_a_halt :
    Mnemonic.j ≠ .halt ∧ Line.IsField "halt".toList ∧
      Line.kept ["j halt".toList] = [Mnemonic.j.name.toList ++ ' ' :: "halt".toList] ∧
      (Layout.ofLines ∅ ["j halt".toList]).result = .ok [.instruction ⟨.halt, [], some 0⟩] ∧
      (Layout.ofLines ∅ ["j halt".toList]).result ≠
        .ok [.instruction ⟨.j, "halt".toList, some 0⟩] ∧
      (Layout.ofLines ∅ ["j halt".toList]).table.find? "j".toList = some 0 := by
  decide +kernel

end WordAsm
