import WordAsm.Mnemonic
import WordAsm.Numeral
import WordAsm.Text.Utf8

/-!
# Faults

A rejection is a fault of the source: the assembler refuses it and says why.  A misuse is a
fault of whoever drives an encoder; it says nothing about the source.  Each fault is a cause,
and its wording is given here alone.

Line numbers count the kept lines from zero.  An instruction read on its own may have none,
and then its faults name no line.
-/

namespace WordAsm

/-- What is wrong with a register number. -/
inductive RegisterFault where
  | zeroDestination
  | largeDestination
  | largeSource
  | largeTarget
  deriving DecidableEq, Repr

/-- The directives that put data into memory. -/
inductive Directive where
  /-- One word with a given value. -/
  | fill
  /-- A number of zero words. -/
  | space
  deriving DecidableEq, Repr

/-- Why a source is refused. -/
inductive Rejection where
  /-- The bytes of the source are no text. -/
  | encoding (fault : Utf8.Fault)
  /-- A numeral has no value. -/
  | numeral (fault : Numeral.Fault)
  /-- The command is not of the instruction set. -/
  | unknownCommand (command : Text) (line : Option Int)
  /-- The operands do not have the shape of their format. -/
  | operandShape (format : Format) (line : Option Int)
  /-- Register numbers are out of range. -/
  | registers (format : Format) (faults : List RegisterFault) (line : Option Int)
  /-- A halt has operands. -/
  | haltOperands (line : Option Int)
  /-- A literal value needs more than sixteen bits. -/
  | largeValue (value : Int) (line : Option Int)
  /-- A jump has a negative literal. -/
  | negativeJump (line : Option Int)
  /-- An operand is no label of the table. -/
  | undefinedLabel (name : Text) (line : Option Int)
  /-- A line has no fields. -/
  | unreadableLine (line : Nat)
  /-- The operand of a directive is no label of the table. -/
  | directiveOperand (directive : Directive) (line : Nat)
  /-- The label of a directive is in the table already. -/
  | directiveLabel (directive : Directive) (line : Nat)
  /-- A reservation is not positive. -/
  | emptySpace (line : Nat)
  /-- A directive lies beyond the memory. -/
  | memoryFull (line : Nat)
  /-- The label of an instruction is too long. -/
  | longLabel (label : Text) (line : Nat)
  /-- The label of an instruction is in the table already. -/
  | definedLabel (label : Text) (line : Nat)
  deriving DecidableEq, Repr

/-- What an encoder must not be asked for. -/
inductive Misuse where
  /-- The command is not of the encoder's format. -/
  | foreignCommand (command : Mnemonic)
  /-- The value was settled by an earlier reading. -/
  | settledValue
  /-- A branch to a label has no line to start from. -/
  | unplacedBranch
  deriving DecidableEq, Repr

/-- A failed encoding. -/
inductive Error where
  | rejected (why : Rejection)
  | misused (how : Misuse)
  deriving DecidableEq, Repr

/-- Where an instruction stands, as its faults put it. -/
def onLine (line : Option Int) (after : String) : String :=
  match line with
  | none => ""
  | some i => " on line : " ++ toString i ++ after

namespace RegisterFault

/-- The wording differs by one letter between the formats. -/
def message (format : Format) : RegisterFault → String
  | zeroDestination => "Destination register can not be zero"
  | largeDestination =>
      match format with
      | .immediate => "Destination register must be lest than 16"
      | _ => "Destination register must be less than 16"
  | largeSource => "Source register must be less than 16"
  | largeTarget => "Target register must be less than 16"

end RegisterFault

namespace Directive

/-- A directive as it is written. -/
def name : Directive → String
  | fill => ".fill"
  | space => ".space"

end Directive

namespace Rejection

/-- The shape that the operands of a format miss. -/
def shapeMessage : Format → String
  | .register | .link => "Wrong register numbers"
  | .immediate | .upper => "Wrong register numbers or immediate(offset) value"
  | .jump | .halt => "Wrong label value"

/-- The wording of a rejection. -/
def message : Rejection → String
  | encoding fault => fault.message
  | numeral fault => fault.message
  | unknownCommand command line =>
      "No such command found : " ++ String.ofList command ++
        (match line with
          | none => ""
          | some i => " on line " ++ toString i ++ " ") ++ "."
  | operandShape format line => shapeMessage format ++ onLine line "" ++ "."
  | registers format faults line =>
      ", ".intercalate (faults.map (RegisterFault.message format)) ++ onLine line "" ++ "."
  | haltOperands line => "Redundant halt instruction" ++ onLine line "" ++ "."
  | largeValue value line =>
      "Immediate(offset) value is too large : " ++ toString value ++ onLine line " " ++ "."
  | negativeJump line =>
      "Immediate(offset) value couldn't be negative inside a jump" ++ onLine line " " ++ "."
  | undefinedLabel name line =>
      "Undefined label : " ++ String.ofList name ++ onLine line "" ++ "."
  | unreadableLine line => "No such instructions found on line " ++ toString line ++ "."
  | directiveOperand directive line =>
      "No such label in table after " ++ directive.name ++ " directive on line " ++
        toString line ++ "."
  | directiveLabel directive line =>
      "Label already exists after " ++ directive.name ++ " directive on line " ++
        toString line ++ "."
  | emptySpace line =>
      "No non-positive space reservation accepted on line " ++ toString line ++ "."
  | memoryFull line => "Stack overflow! on line " ++ toString line ++ "."
  | longLabel label line =>
      "Instruction label's size shouldn't be more than 6 : " ++ String.ofList label ++
        " on line " ++ toString line ++ "."
  | definedLabel label line =>
      "Label already defined : " ++ String.ofList label ++ " on line " ++ toString line ++ "."

end Rejection

namespace Misuse

/-- The wording of a misuse. -/
def message : Misuse → String
  | foreignCommand command => "'" ++ command.name ++ "'"
  | settledValue => "'int' object has no attribute 'lstrip'"
  | unplacedBranch => "unsupported operand type(s) for -: 'int' and 'NoneType'"

end Misuse

namespace Error

/-- The wording of a failed encoding. -/
def message : Error → String
  | rejected why => why.message
  | misused how => how.message

end Error

end WordAsm
