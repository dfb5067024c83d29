import WordAsm.Encoder
import WordAsm.Statement

/-!
# Layout of a program

The kept lines are placed one after the other, each with the labels of those before it.  The
first refused line ends the layout; the labels defined until then stay.  Once all lines are
placed the entries are encoded, with the table as it is by then.
-/

namespace WordAsm

/-- What placing some lines comes to: the table after it, and all entries or a refusal. -/
structure Layout where
  table : LabelTable
  result : Except Rejection (List Entry)

namespace Layout

/-- Put entries in front of those of a layout. -/
def prepend (entries : List Entry) (l : Layout) : Layout :=
  { l with result := l.result.map (entries ++ ·) }

/-- Place kept lines, the first of them at `index`. -/
def placeFrom (table : LabelTable) (index : Nat) : List Text → Layout
  | [] => ⟨table, .ok []⟩
  | line :: rest =>
      let p := Placement.ofLine table index line
      match p.result with
      | .error why => ⟨p.tableAfter table index, .error why⟩
      | .ok entries => (placeFrom (p.tableAfter table index) (index + 1) rest).prepend entries

/-- Lay out source lines with the labels of a table. -/
def ofLines (table : LabelTable) (lines : List Text) : Layout :=
  placeFrom table 0 (Line.kept lines)

end Layout

namespace Entry

/-- The digits of an entry's word. -/
def code (table : LabelTable) : Entry → Except Error Text
  | .word digits => .ok digits
  | .instruction i => i.code table

/-- The words of a program, in order. -/
def words (table : LabelTable) : List Entry → Except Error (List Text)
  | [] => .ok []
  | entry :: rest =>
      match entry.code table with
      | .error err => .error err
      | .ok digits => (words table rest).map (digits :: ·)

/-- The code of a program: its words, each on a line of its own. -/
def programCode (table : LabelTable) (entries : List Entry) : Except Error Text :=
  (words table entries).map fun ws => ws.flatMap (· ++ ['\n'])

end Entry

/-- How an assembly ends: with code, or refused at placing or at encoding. -/
inductive Outcome where
  | code (text : Text)
  | misplaced (why : Rejection)
  | failed (err : Error)
  deriving DecidableEq

/-- Assemble source lines: the outcome, and the table after it. -/
def assemble (table : LabelTable) (lines : List Text) : Outcome × LabelTable :=
  let l := Layout.ofLines table lines
  match l.result with
  | .error why => (.misplaced why, l.table)
  | .ok entries =>
      match Entry.programCode l.table entries with
      | .error err => (.failed err, l.table)
      | .ok text => (.code text, l.table)

end WordAsm
