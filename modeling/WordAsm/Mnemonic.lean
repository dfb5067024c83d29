import WordAsm.Text.Basic

/-!
# The instruction set

Fifteen commands in six formats.  A word has its opcode in bits 4 to 7 and its operands
below, laid out by the format.

A format has its commands in one table and their opcodes in another.
-/

namespace WordAsm

/-- The operand layouts of the instruction set. -/
inductive Format where
  /-- Three registers. -/
  | register
  /-- Two registers and a value. -/
  | immediate
  /-- One register and a value. -/
  | upper
  /-- Two registers. -/
  | link
  /-- A value. -/
  | jump
  /-- No operands. -/
  | halt
  deriving DecidableEq, Repr

namespace Format

/-- Every format. -/
def all : List Format :=
  [register, immediate, upper, link, jump, halt]

/-- The short name of a format. -/
def tag : Format → String
  | register => "R"
  | immediate => "I1"
  | upper => "I2"
  | link => "I3"
  | jump => "J"
  | halt => "H"

end Format

/-- The commands of the instruction set. -/
inductive Mnemonic where
  | add | sub | slt | or | and
  | addi | ori | slti | lw | sw | beq
  | lui
  | jalr
  | j
  | halt
  deriving DecidableEq, Repr

namespace Format

/-- The commands of a format. -/
def commands : Format → List Mnemonic
  | register => [.add, .sub, .slt, .or, .and]
  | immediate => [.addi, .ori, .slti, .lw, .sw, .beq]
  | upper => [.lui]
  | link => [.jalr]
  | jump => [.j]
  | halt => [.halt]

/-- The opcodes of a format, in binary digits, with the commands that they stand for. -/
def opcodes : Format → List (Mnemonic × String)
  | register =>
      [(.add, "0000"), (.sub, "0001"), (.slt, "0010"), (.or, "0011"), (.and, "0100")]
  | immediate =>
      [(.addi, "0101"), (.ori, "0111"), (.slti, "0110"), (.lw, "1001"), (.sw, "1010"),
        (.beq, "1011")]
  | upper => [(.lui, "1000")]
  | link => [(.jalr, "1100")]
  | jump => [(.j, "1101")]
  | halt => [(.halt, "1110")]

/-- The opcode of a command in a format. -/
def opcode? (f : Format) (m : Mnemonic) : Option Text :=
  (f.opcodes.lookup m).map String.toList

end Format

namespace Mnemonic

/-- Every command, by format. -/
def all : List Mnemonic :=
  Format.all.flatMap Format.commands

/-- The command as it is written. -/
def name : Mnemonic → String
  | add => "add"
  | sub => "sub"
  | slt => "slt"
  | or => "or"
  | and => "and"
  | addi => "addi"
  | ori => "ori"
  | slti => "slti"
  | lw => "lw"
  | sw => "sw"
  | beq => "beq"
  | lui => "lui"
  | jalr => "jalr"
  | j => "j"
  | halt => "halt"

/-- The format that a command's operands have. -/
def format : Mnemonic → Format
  | add | sub | slt | or | and => .register
  | addi | ori | slti | lw | sw | beq => .immediate
  | lui => .upper
  | jalr => .link
  | j => .jump
  | halt => .halt

/-- White space around a command is ignored in the two formats with several commands. -/
def ignoresBlanks (m : Mnemonic) : Bool :=
  match m.format with
  | .register | .immediate => true
  | _ => false

/-- Whether `text` writes the command `m`. -/
def isWrittenAs (m : Mnemonic) (text : Text) : Bool :=
  m.name.toList = if m.ignoresBlanks then text.trim else text

/-- The command that a text writes. -/
def ofText? (text : Text) : Option Mnemonic :=
  all.find? (isWrittenAs · text)

end Mnemonic

end WordAsm
