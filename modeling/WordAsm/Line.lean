import WordAsm.Pattern
import WordAsm.Text.Basic
import WordAsm.Text.Quoted
import WordAsm.Text.WordChar

/-!
# Lines and their fields

A source line is what stands before its comment, with no white space at either end; lines of
which nothing is left are dropped.  The rest have up to three fields, a label, a command and
the rest, parted by spaces and tabs.

The split is greedy: the label and the gap after it take what they can as long as a command
and a rest remain, and the command reaches to the last gap.  A gap of three or more blanks
can therefore leave one of them as the command.
-/

namespace WordAsm

/-- The fields of a line. -/
structure LineFields where
  /-- The label and the gap after it; empty without a label. -/
  lead : Text
  label : Text
  command : Text
  rest : Text
  deriving DecidableEq, Repr

namespace Line

/-- What stands before the comment, without white space around it. -/
def clean (t : Text) : Text :=
  Text.trim (t.takeWhile (· != '#'))

/-- The lines that are kept: cleaned, and not empty. -/
def kept (lines : List Text) : List Text :=
  (lines.map clean).filter (!·.isEmpty)

/-- A character that does not end a line. -/
def inLine (c : Char) : Bool :=
  c != '\n'

/-- A command, a gap and the rest, with blanks allowed in front. -/
def bodyPieces : List Piece :=
  [.zeroOrMore Text.isGap, .oneOrMore inLine, .oneOrMore Text.isGap, .zeroOrMore inLine]

/-- A label and a gap, then as without a label. -/
def labelledPieces : List Piece :=
  .single Text.isAsciiLetter :: .zeroOrMore Text.isWordChar :: .oneOrMore Text.isGap :: bodyPieces

/-- Match a line at the start of a text, with a label if there can be one. -/
def matchStart (t : Text) : Option (List Text) :=
  match Pattern.matchStart labelledPieces t with
  | some ts => some ts
  | none => Pattern.matchStart bodyPieces t

/-- The fields that a match found. -/
def fieldsOf : List Text → Option LineFields
  | [first, more, gap, _, command, _, rest] =>
      some ⟨first ++ more ++ gap, first ++ more, command, rest⟩
  | [_, command, _, rest] => some ⟨[], [], command, rest⟩
  | _ => none

/-- The fields of every line that a text holds. -/
def findFields (t : Text) : List LineFields :=
  (Pattern.allMatches matchStart t).filterMap fieldsOf

/-- The fields of a line. -/
def split? (t : Text) : Option LineFields :=
  (findFields t).head?

end Line

end WordAsm
