import WordAsm.Error

/-!
# Instructions

An instruction is a command with its operand text as written and the line it stands on, if
any.  The operand text is left to the encoder.
-/

namespace WordAsm

/-- A command of the instruction set with its operands as written. -/
structure Instruction where
  mnemonic : Mnemonic
  operands : Text
  /-- The line the instruction stands on. -/
  line : Option Int
  deriving DecidableEq, Repr

namespace Instruction

/-- The instruction that a command and its operands write. -/
def read (command operands : Text) (line : Option Int) : Except Rejection Instruction :=
  match Mnemonic.ofText? command with
  | some m => .ok ⟨m, operands, line⟩
  | none => .error (.unknownCommand command line)

/-- The format of an instruction's operands. -/
def format (i : Instruction) : Format :=
  i.mnemonic.format

end Instruction

end WordAsm
