import WordAsm.Binary
import WordAsm.Instruction
import WordAsm.Pattern
import WordAsm.Text.WordChar

/-!
# Operands

The operands of an instruction are read from its operand text by the shape of a format.  The
first match in the text counts, wherever it stands; what surrounds it is ignored.  Register
numbers are then checked, all of them before any fault is reported; only the format with two
registers and no value stops at the first.

The format may differ from that of the command.  Whether the command fits is asked when the
instruction is encoded.
-/

namespace WordAsm

/-- A register of the machine. -/
abbrev Register := Fin 16

/-- The register with a number, which counts modulo sixteen. -/
def Register.ofNumber (n : Nat) : Register :=
  ⟨n % 16, Nat.mod_lt n (by decide)⟩

/-- Register zero, which only a branch may name as its destination. -/
def Register.zero : Register :=
  .ofNumber 0

/-- The value operand of an instruction. -/
inductive Immediate where
  /-- A numeral or label as written. -/
  | written (text : Text)
  /-- The number that the numeral was read as. -/
  | settled (value : Int)
  deriving DecidableEq, Repr

/-- The operands of an instruction, by format. -/
inductive Operands where
  | register (destination source target : Register)
  | immediate (destination source : Register) (value : Immediate)
  | upper (destination : Register) (value : Immediate)
  | link (destination source : Register)
  | jump (value : Immediate)
  | halt
  deriving DecidableEq, Repr

namespace Format

/-- A run of ASCII digits. -/
def numberPiece : Piece := .oneOrMore Text.isAsciiDigit

/-- A run of word characters and hyphens. -/
def wordPiece : Piece := .oneOrMore Text.isOperandChar

/-- A comma. -/
def commaPiece : Piece := .single (· == ',')

/-- The shape of the operands of a format; a halt has none to look for. -/
def pieces : Format → List Piece
  | register => [numberPiece, commaPiece, numberPiece, commaPiece, numberPiece]
  | immediate => [numberPiece, commaPiece, numberPiece, commaPiece, wordPiece]
  | upper => [numberPiece, commaPiece, wordPiece]
  | link => [numberPiece, commaPiece, numberPiece]
  | jump => [wordPiece]
  | halt => []

/-- The texts at even places: a match without its commas. -/
def groups : List Text → List Text
  | [] => []
  | [t] => [t]
  | t :: _ :: rest => t :: groups rest

/-- All operands of a format that stand in a text, each without its commas. -/
def findOperands (f : Format) (t : Text) : List (List Text) :=
  (Pattern.allMatches (Pattern.matchStart f.pieces) t).map groups

end Format

namespace Operands

/-- The format of operands. -/
def format : Operands → Format
  | register .. => .register
  | immediate .. => .immediate
  | upper .. => .upper
  | link .. => .link
  | jump .. => .jump
  | halt => .halt

/-- The destination register, in the formats that have one. -/
def destination? : Operands → Option Register
  | register d _ _ | immediate d _ _ | upper d _ | link d _ => some d
  | jump _ | halt => none

/-- The source register, in the formats that have one. -/
def source? : Operands → Option Register
  | register _ s _ | immediate _ s _ | link _ s => some s
  | upper .. | jump _ | halt => none

/-- The target register, in the format that has one. -/
def target? : Operands → Option Register
  | register _ _ t => some t
  | _ => none

/-- The value, in the formats that have one. -/
def value? : Operands → Option Immediate
  | immediate _ _ v | upper _ v | jump v => some v
  | register .. | link .. | halt => none

/-- Put another value in the place of the value. -/
def setValue (v : Immediate) : Operands → Operands
  | immediate d s _ => immediate d s v
  | upper d _ => upper d v
  | jump _ => jump v
  | o => o

/-- The fault of a number that is above the last register. -/
def boundFaults (fault : RegisterFault) (n : Nat) : List RegisterFault :=
  if n > 15 then [fault] else []

/-- What is wrong with a destination number; some commands may name register zero. -/
def destinationFaults (zeroAllowed : Bool) (n : Nat) : List RegisterFault :=
  if n = 0 && !zeroAllowed then [.zeroDestination] else boundFaults .largeDestination n

/-- Read a register number. -/
def readNumber (digits : Text) : Except Rejection Nat :=
  (Numeral.readDigits digits).mapError .numeral

/-- Give the operands unless there are faults. -/
def unlessFaulty (f : Format) (line : Option Int) (faults : List RegisterFault)
    (operands : Operands) : Except Rejection Operands :=
  match faults with
  | [] => .ok operands
  | _ => .error (.registers f faults line)

/-- Read the operands of format `f` from the parts of a match. -/
def ofGroups (f : Format) (i : Instruction) (parts : List Text) : Except Rejection Operands :=
  match f, parts with
  | .register, [d, s, t] => do
      let d ← readNumber d
      let s ← readNumber s
      let t ← readNumber t
      unlessFaulty f i.line
        (destinationFaults false d ++ boundFaults .largeSource s ++ boundFaults .largeTarget t)
        (.register (Register.ofNumber d) (Register.ofNumber s) (Register.ofNumber t))
  | .immediate, [d, s, v] => do
      let d ← readNumber d
      let s ← readNumber s
      unlessFaulty f i.line
        (destinationFaults (i.mnemonic = .beq) d ++ boundFaults .largeSource s)
        (.immediate (Register.ofNumber d) (Register.ofNumber s) (.written v))
  | .upper, [d, v] => do
      let d ← readNumber d
      unlessFaulty f i.line (destinationFaults false d)
        (.upper (Register.ofNumber d) (.written v))
  | .link, [d, s] => do
      let d ← readNumber d
      let s ← readNumber s
      unlessFaulty f i.line
        ((destinationFaults false d ++ boundFaults .largeSource s).take 1)
        (.link (Register.ofNumber d) (Register.ofNumber s))
  | .jump, [v] => .ok (.jump (.written v))
  | _, _ => .error (.operandShape f i.line)

/-- Read the operands of an instruction in format `f`. -/
def read (f : Format) (i : Instruction) : Except Rejection Operands :=
  match f with
  | .halt => if i.operands.isEmpty then .ok .halt else .error (.haltOperands i.line)
  | _ => ofGroups f i ((f.findOperands i.operands).head?.getD [])

end Operands

end WordAsm
