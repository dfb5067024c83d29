import WordAsm.Text.Digit
import WordAsm.Text.Quoted

/-!
# Decimal numerals

A numeral is a run of decimal digits of any script after any number of hyphens.  It has a
value when there is at most one hyphen and there are at most `digitLimit` digits; leading
zeros count as digits.
-/

namespace WordAsm

namespace Numeral

/-- The most digits a numeral may have. -/
def digitLimit : Nat := 4300

/-- Why a numeral has no value. -/
inductive Fault where
  /-- More than one hyphen stands before the digits. -/
  | malformed (text : Text)
  /-- There are too many digits. -/
  | tooLong (digits : Nat)
  deriving DecidableEq, Repr

/-- The text after the leading hyphens. -/
def body (t : Text) : Text :=
  t.dropWhile (· == '-')

/-- Whether a text is a numeral: digits, at least one, after any number of hyphens. -/
def isNumeral (t : Text) : Bool :=
  !(body t).isEmpty && (body t).all Text.isDigit

/-- The number that a run of digits denotes. -/
def magnitude (digits : Text) : Nat :=
  digits.foldl (fun n c => 10 * n + (Text.digitValue? c).getD 0) 0

/-- Read a run of digits. -/
def readDigits (digits : Text) : Except Fault Nat :=
  if digits.length ≤ digitLimit then .ok (magnitude digits)
  else .error (.tooLong digits.length)

/-- Read a numeral. -/
def read (t : Text) : Except Fault Int :=
  match t with
  | '-' :: rest =>
      if (body rest).length = rest.length then (readDigits rest).map fun n => -(n : Int)
      else .error (.malformed t)
  | _ => (readDigits t).map fun n => (n : Int)

/-- The malformed numeral is shown quoted and cut after two hundred characters. -/
def Fault.message : Fault → String
  | .malformed t =>
      "invalid literal for int() with base 10: " ++ String.ofList ((Text.quoted t).take 200)
  | .tooLong digits =>
      "Exceeds the limit (" ++ toString digitLimit ++
        " digits) for integer string conversion: value has " ++ toString digits ++
        " digits; use sys.set_int_max_str_digits() to increase the limit"

end Numeral

end WordAsm
