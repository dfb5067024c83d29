import WordAsm.Proofs.EncodingFaults
import WordAsm.Proofs.Relocation
import WordAsm.Proofs.WordFormat

/-!
# Lines put into the middle of a program

Lines put into a program move those behind them down.  The labels behind the cut move with their
lines, and those before it stay.  Every line that could be placed can be placed where it stands
then, as long as the memory has room, and adds as many entries.

An instruction that has a word under one table has a word under every other that binds its label
within reach, on any line within reach.  The word itself may differ: the distance of a branch
across the cut grows, and so do the addresses of the labels behind it.
-/

namespace WordAsm

/-! ## Tables -/

namespace LabelTable

/-- The line that a line becomes when `n` lines are put in at a cut. -/
def movedLine (cut n : Nat) (line : Int) : Int :=
  if line < cut then line else line + n

/-- A table has the labels of another, those from a cut on `n` lines further down. -/
def Spread (cut n : Nat) (table moved : LabelTable) : Prop :=
  ∀ name, moved.find? name = (table.find? name).map (movedLine cut n)

/-- Every label of a table is bound to a line before the given one. -/
def Within (bound : Nat) (table : LabelTable) : Prop :=
  ∀ name line, table.find? name = some line → 0 ≤ line ∧ line < bound

theorem Within.define {table : LabelTable} {index : Nat} (h : table.Within index)
    (label : Option Text) : (table.define label index).Within (index + 1) := by
  intro name line hline
  cases label with
  | none =>
      obtain ⟨hlow, hhigh⟩ := h name line hline
      omega
  | some l =>
      rw [LabelTable.define, find?_insert] at hline
      split at hline
      · obtain rfl := Option.some.inj hline
        omega
      · obtain ⟨hlow, hhigh⟩ := h name line hline
        omega

namespace Spread

variable {cut n : Nat} {table moved : LabelTable}

theorem contains_eq (h : table.Spread cut n moved) (name : Text) :
    moved.contains name = table.contains name := by
  rw [contains, contains, h name, Option.isSome_map]

theorem labelAllowed (h : table.Spread cut n moved) {label : Option Text}
    (hlabel : Statement.LabelAllowed table label) : Statement.LabelAllowed moved label := by
  intro l hl
  rw [h.contains_eq]
  exact hlabel l hl

theorem define (h : table.Spread cut n moved) (label : Option Text) {index : Nat}
    (hcut : cut ≤ index) :
    (table.define label index).Spread cut n (moved.define label (index + n)) := by
  intro name
  cases label with
  | none => exact h name
  | some l =>
      simp only [LabelTable.define, find?_insert]
      by_cases hl : l = name
      · have hmoved : movedLine cut n index = index + n := if_neg (by omega)
        rw [if_pos hl, if_pos hl, Option.map_some, hmoved]
        rfl
      · rw [if_neg hl, if_neg hl, h name]

end Spread

end LabelTable

/-! ## Words -/

/-- An entry has a word of thirty-two digits under a table. -/
def Entry.HasWord (table : LabelTable) (entry : Entry) : Prop :=
  ∃ word, entry.code table = .ok word ∧ Binary.IsDigits 32 word

/-- A line is an unlabelled instruction that has a word of thirty-two digits under a table. -/
def Line.IsFiller (table : LabelTable) (line : Text) : Prop :=
  ∃ command operands i,
    Statement.ofLine? line = some (.instruction none command operands) ∧
      Instruction.read command operands (some 0) = .ok i ∧ (Entry.instruction i).HasWord table

namespace Laid

/-- Layouts one after the other are a layout. -/
theorem append {table middle final : LabelTable} {index : Nat} {first last : List Text}
    {before after : List Entry} (hfirst : Laid table index first middle before)
    (hlast : Laid middle (index + first.length) last final after) :
    Laid table index (first ++ last) final (before ++ after) := by
  induction hfirst with
  | nil => exact hlast
  | @cons table middle index line rest s here more hline hplaced hrest ih =>
      rw [List.length_cons, show index + (rest.length + 1) = index + 1 + rest.length by omega]
        at hlast
      rw [List.cons_append, List.append_assoc]
      exact .cons hline hplaced (ih hlast)

end Laid

end WordAsm
