import WordAsm.Binary
import WordAsm.Instruction
import WordAsm.LabelTable
import WordAsm.Line

/-!
# Statements and their placement

A kept line is a statement: a directive, a halt, or another instruction, with or without a
label.  A line whose rest is `halt` is a halt, and its command field is the label.

Placing a statement at a line index gives the label it defines and the entries it adds to the
program, or why it is refused.  A label is defined as the index of its line.  A refused
statement defines no label, but for one case: the label of an instruction is defined before
its command is looked at.
-/

namespace WordAsm

/-- What a kept line says. -/
inductive Statement where
  | directive (directive : Directive) (label operand : Text)
  | halt (label : Option Text)
  | instruction (label : Option Text) (command operands : Text)
  deriving DecidableEq, Repr

/-- One entry of a program: a finished word, or an instruction still to be encoded. -/
inductive Entry where
  | word (digits : Text)
  | instruction (i : Instruction)
  deriving DecidableEq, Repr

/-- What a line does: the label it defines, and the entries it adds or why it is refused. -/
structure Placement where
  defines : Option Text
  result : Except Rejection (List Entry)

namespace Statement

/-- The number of words that directives may use. -/
def memorySize : Nat := 8192

/-- The most characters in the label of an instruction. -/
def labelLimit : Nat := 6

/-- A label field, absent when it is empty. -/
def labelOf (t : Text) : Option Text :=
  if t.isEmpty then none else some t

/-- The statement with the given fields. -/
def ofFields (label command rest : Text) : Statement :=
  if command = Directive.fill.name.toList then .directive .fill label rest
  else if command = Directive.space.name.toList then .directive .space label rest
  else if rest = Mnemonic.halt.name.toList then .halt (some command)
  else .instruction (labelOf label) command rest

/-- The statement that a kept line writes. -/
def ofLine? (line : Text) : Option Statement :=
  match Line.split? line with
  | some f => some (ofFields f.label f.command.trim f.rest.trim)
  | none => if line = Mnemonic.halt.name.toList then some (.halt none) else none

/-- The value of a directive's operand. -/
def operandValue (table : LabelTable) (d : Directive) (index : Nat) (operand : Text) :
    Except Rejection Int :=
  if Numeral.isNumeral operand then (Numeral.read operand).mapError .numeral
  else
    match table.find? operand with
    | some n => .ok n
    | none => .error (.directiveOperand d index)

/-- Put words into memory under a label that must be new; they may reach up to `top`. -/
def placeData (table : LabelTable) (d : Directive) (index : Nat) (label : Text) (top : Int)
    (words : Unit → List Entry) : Placement :=
  if (memorySize : Int) < top then ⟨none, .error (.memoryFull index)⟩
  else if table.contains label then ⟨none, .error (.directiveLabel d index)⟩
  else ⟨some label, .ok (words ())⟩

/-- Place a directive: its operand comes first, then the memory, then the label. -/
def placeDirective (table : LabelTable) (d : Directive) (index : Nat) (label operand : Text) :
    Placement :=
  match operandValue table d index operand with
  | .error why => ⟨none, .error why⟩
  | .ok n =>
      match d with
      | .fill =>
          placeData table d index label index fun _ => [.word (Binary.complementText 32 n)]
      | .space =>
          if n ≤ 0 then ⟨none, .error (.emptySpace index)⟩
          else placeData table d index label (index + n) fun _ =>
            List.replicate n.toNat (.word (Binary.padded 32 0))

/-- Define the label of an instruction, if it has one, then place the instruction. -/
def placeLabelled (table : LabelTable) (index : Nat) (label : Option Text)
    (instruction : Except Rejection Instruction) : Placement :=
  match label with
  | none => ⟨none, instruction.map fun i => [.instruction i]⟩
  | some l =>
      if labelLimit < l.length then ⟨none, .error (.longLabel l index)⟩
      else if table.contains l then ⟨none, .error (.definedLabel l index)⟩
      else ⟨some l, instruction.map fun i => [.instruction i]⟩

/-- Place a statement at a line index. -/
def place (table : LabelTable) (index : Nat) : Statement → Placement
  | .directive d label operand => placeDirective table d index label operand
  | .halt label => placeLabelled table index label (.ok ⟨.halt, [], some index⟩)
  | .instruction label command operands =>
      placeLabelled table index label (Instruction.read command operands (some index))

end Statement

namespace Placement

/-- Place a kept line. -/
def ofLine (table : LabelTable) (index : Nat) (line : Text) : Placement :=
  match Statement.ofLine? line with
  | some s => s.place table index
  | none => ⟨none, .error (.unreadableLine index)⟩

/-- The table after a line at `index`. -/
def tableAfter (p : Placement) (table : LabelTable) (index : Nat) : LabelTable :=
  match p.defines with
  | some label => table.insert label index
  | none => table

end Placement

end WordAsm
