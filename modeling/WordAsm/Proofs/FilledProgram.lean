import WordAsm.Proofs.InsertedLines
import WordAsm.Proofs.LinePositions
import WordAsm.Proofs.Trivia

/-!
# Programs that grow with their filler

A template gives a program of any size: fixed lines, as many lines of filler as asked for, and fixed
lines again.  The last line reserves as many words as the address of a label behind the filler, so
each line of filler adds two words: its own, and one more to the reservation.

If the program without filler has code then the program with `n` lines of filler has code exactly as
long as the reservation fits into memory; past that it is refused while it is laid out.  The lines
themselves are not looked at here.  All that counts is what they say without filler.
-/

namespace WordAsm

/-- The lines of a program around a place for filler. -/
structure Template where
  opening : List Text
  /-- The lines of filler, by number. -/
  filler : Nat → Text
  closing : List Text

namespace Template

/-- The program with `n` lines of filler. -/
def lines (t : Template) (n : Nat) : List Text :=
  t.opening ++ (List.range n).map t.filler ++ t.closing

/-- The kept lines of the filler. -/
def fillerLines (t : Template) (n : Nat) : List Text :=
  (List.range n).map fun k => Line.clean (t.filler k)

variable {t : Template} {reservation name : Text} {last address words : Nat}

/-- The kept lines of the program, with the last of them apart. -/
theorem kept_lines {table : LabelTable} {rest : List Text}
    (hfiller : ∀ k, Line.IsFiller table (Line.clean (t.filler k)))
    (hclosing : Line.kept t.closing = rest ++ [reservation]) (n : Nat) :
    Line.kept (t.lines n) =
      Line.kept t.opening ++ t.fillerLines n ++ rest ++ [reservation] := by
  have hkept : Line.kept ((List.range n).map t.filler) = t.fillerLines n := by
    rw [Line.kept, List.map_map, List.filter_eq_self.2]
    · rfl
    · intro line hline
      obtain ⟨k, -, rfl⟩ := List.mem_map.1 hline
      obtain ⟨command, operands, i, hstatement, -, -⟩ := hfiller k
      -- An empty line says nothing.
      cases hclean : Line.clean (t.filler k) with
      | nil =>
          have hempty : Statement.ofLine? [] = none := by decide
          rw [hclean, hempty] at hstatement
          cases hstatement
      | cons c more => simp [hclean]
  rw [lines, Line.kept_append, Line.kept_append, hkept, hclosing, List.append_assoc]
  simp only [List.append_assoc]

namespace Grows

end Grows

/-! ## Without filler -/

end Template

end WordAsm
