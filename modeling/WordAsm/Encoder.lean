import WordAsm.LabelTable
import WordAsm.Operands

/-!
# Encoding

An encoder holds an instruction with its operands and the field in which its word is built:
binary digits, thirty-two of them at first.  Reading it writes the opcode, the registers and
then the value, and gives the field.

The value is looked up at every reading, so a reading depends on the table at that time.  A
numeral is settled to its number by the first reading, and no later reading takes a settled
value.  A value of more than sixteen digits makes the field longer; a later reading replaces
the first sixteen of those digits only.
-/

namespace WordAsm

/-- An instruction with its operands, and the field in which its word is built. -/
structure Encoder where
  instruction : Instruction
  operands : Operands
  field : Text
  deriving DecidableEq, Repr

namespace Encoder

/-- The field before anything is written to it. -/
def blankField : Text := List.replicate 32 '0'

/-- An encoder of an instruction in format `f`. -/
def ofInstruction (f : Format) (i : Instruction) : Except Rejection Encoder :=
  (Operands.read f i).map fun operands => ⟨i, operands, blankField⟩

/-- Put `text` in the place of the characters from `start` up to `stop`. -/
def patch (start stop : Nat) (text field : Text) : Text :=
  field.take start ++ text ++ field.drop stop

/-- Four binary digits. -/
def nibble (n : Fin 16) : Text :=
  Binary.bits 4 n

/-- Write the registers. -/
def writeRegisters (operands : Operands) (field : Text) : Text :=
  match operands with
  | .register d s t =>
      patch 16 20 (nibble d) (patch 12 16 (nibble t) (patch 8 12 (nibble s) field))
  | .immediate d s _ => patch 12 16 (nibble d) (patch 8 12 (nibble s) field)
  | .upper d _ => patch 12 16 (nibble d) field
  | .link d s => patch 12 16 (nibble d) (patch 8 12 (nibble s) field)
  | .jump _ => field
  | .halt => field

/-- Write the opcode and the registers. -/
def writeHead (e : Encoder) (opcode : Text) : Encoder :=
  { e with field := writeRegisters e.operands (patch 4 8 opcode e.field) }

/-- Write the text of the value. -/
def writeValue (e : Encoder) (text : Text) : Encoder :=
  { e with field := patch 16 32 text e.field }

/-- Settle the value to a number. -/
def settle (e : Encoder) (n : Int) : Encoder :=
  { e with operands := e.operands.setValue (.settled n) }

/-- The text of a literal value beside registers. -/
def registerLiteral (line : Option Int) (n : Int) : Except Rejection Text :=
  if 65536 ≤ n then .error (.largeValue n line) else .ok (Binary.complementText 16 n)

/-- The text of a literal value of a jump, which may not be negative. -/
def jumpLiteral (line : Option Int) (n : Int) : Except Rejection Text :=
  if 65536 ≤ n then .error (.largeValue n line)
  else if n < 0 then .error (.negativeJump line)
  else .ok (Binary.padded 16 n)

/-- The text of a literal value. -/
def literalText (e : Encoder) (n : Int) : Except Rejection Text :=
  match e.operands with
  | .jump _ => jumpLiteral e.instruction.line n
  | _ => registerLiteral e.instruction.line n

/-- The text of the distance that a branch goes to a label, from the line after its own. -/
def branchDistance (line : Option Int) (n : Int) : Except Misuse Text :=
  match line with
  | none => .error .unplacedBranch
  | some line => .ok (Binary.complementText 16 (n - line - 1))

/-- The text of a label's value: a jump has it as it is, the others in two's complement, and a
branch has the distance. -/
def labelText (e : Encoder) (n : Int) : Except Misuse Text :=
  match e.operands with
  | .jump _ => .ok (Binary.padded 16 n)
  | .immediate .. =>
      if e.instruction.mnemonic = .beq then branchDistance e.instruction.line n
      else .ok (Binary.complementText 16 n)
  | _ => .ok (Binary.complementText 16 n)

/-- The text of a label. -/
def lookUp (e : Encoder) (table : LabelTable) (name : Text) : Except Error Text :=
  match table.find? name with
  | none => .error (.rejected (.undefinedLabel name e.instruction.line))
  | some n => (e.labelText n).mapError .misused

/-- Write a value that stands as text, and give the field. -/
def readWritten (e : Encoder) (table : LabelTable) (text : Text) :
    Except Error Text × Encoder :=
  if Numeral.isNumeral text then
    match Numeral.read text with
    | .error fault => (.error (.rejected (.numeral fault)), e)
    | .ok n =>
        match e.literalText n with
        | .error why => (.error (.rejected why), e.settle n)
        | .ok digits => (.ok ((e.settle n).writeValue digits).field, (e.settle n).writeValue digits)
  else
    match e.lookUp table text with
    | .error err => (.error err, e)
    | .ok digits => (.ok (e.writeValue digits).field, e.writeValue digits)

/-- Write the value, if there is one, and give the field. -/
def readValue (e : Encoder) (table : LabelTable) : Except Error Text × Encoder :=
  match e.operands.value? with
  | none => (.ok e.field, e)
  | some (.settled _) => (.error (.misused .settledValue), e)
  | some (.written text) => e.readWritten table text

/-- The opcode of the command in the format of the operands, if it has one there. -/
def opcode? (e : Encoder) : Option Text :=
  e.operands.format.opcode? e.instruction.mnemonic

/-- Build the word and give the field; also what becomes of the encoder. -/
def read (e : Encoder) (table : LabelTable) : Except Error Text × Encoder :=
  match e.opcode? with
  | none => (.error (.misused (.foreignCommand e.instruction.mnemonic)), e)
  | some opcode => (e.writeHead opcode).readValue table

end Encoder

namespace Instruction

/-- The word of an instruction, read in the format of its command. -/
def code (i : Instruction) (table : LabelTable) : Except Error Text :=
  match Encoder.ofInstruction i.format i with
  | .error why => .error (.rejected why)
  | .ok e => (e.read table).1

end Instruction

end WordAsm
