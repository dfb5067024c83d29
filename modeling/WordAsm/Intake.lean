import WordAsm.Layout

/-!
# Taking in a program

The lines of a program come in a list that belongs to the caller, and taking the program in changes
this list.  All lines are cleaned in place first, and the places of those of which nothing is left
are noted.  The kept lines are the others, and they are laid out.

The cleaning is over before the first line is placed, so all lines are clean also when one of them
is refused.
-/

namespace WordAsm

/-- What taking in a program leaves behind. -/
structure Intake where
  /-- The caller's lines. -/
  lines : List Text
  /-- The lines that are laid out. -/
  kept : List Text
  layout : Layout

namespace Intake

/-- Clean lines, the first of them at `place`; also the places of those that are empty then. -/
def cleanFrom (place : Nat) : List Text → List Text × List Nat
  | [] => ([], [])
  | line :: rest =>
      let after := cleanFrom (place + 1) rest
      (Line.clean line :: after.1,
        if (Line.clean line).isEmpty then place :: after.2 else after.2)

/-- The lines that do not stand at one of the given places, the first of them at `place`. -/
def keepFrom (dropped : List Nat) (place : Nat) : List Text → List Text
  | [] => []
  | line :: rest =>
      if dropped.contains place then keepFrom dropped (place + 1) rest
      else line :: keepFrom dropped (place + 1) rest

/-- Take in a program with the labels of a table. -/
def ofLines (table : LabelTable) (lines : List Text) : Intake :=
  let cleaned := cleanFrom 0 lines
  let kept := keepFrom cleaned.2 0 cleaned.1
  ⟨cleaned.1, kept, Layout.placeFrom table 0 kept⟩

end Intake

end WordAsm
