import WordAsm.Layout

/-!
# Sessions

A session lays out programs and encodes them, in any order and any number of times, over one
table.  Programs are numbered from zero as they come; a refused one has a number too, but
there is nothing to encode.
-/

namespace WordAsm

/-- The table shared by the programs of a session, and their entries. -/
structure Session where
  table : LabelTable
  /-- The programs by number; a refused one has no entries. -/
  programs : List (Option (List Entry))

namespace Session

/-- One step of a session. -/
inductive Step where
  /-- Lay out a new program. -/
  | layOut (lines : List Text)
  /-- Encode a program. -/
  | encode (program : Nat)
  /-- Show the entries of a program. -/
  | inspect (program : Nat)
  /-- Bind a label. -/
  | define (name : Text) (value : Int)
  /-- Remove a label. -/
  | remove (name : Text)
  /-- Remove all labels. -/
  | clear

/-- What a step is answered with. -/
inductive Answer where
  /-- A program was laid out: the number of its kept lines and of its entries. -/
  | placed (lines entries : Nat)
  | refused (why : Rejection)
  | code (text : Text)
  | failed (err : Error)
  | entries (entries : List Entry)
  /-- There is no such program, or it was refused. -/
  | skipped
  /-- The table was changed. -/
  | done

/-- A session with an empty table and no programs. -/
def start : Session := ⟨∅, []⟩

/-- The entries of a program. -/
def entries? (s : Session) (program : Nat) : Option (List Entry) :=
  (s.programs[program]?).join

/-- Lay out a new program. -/
def layOut (s : Session) (lines : List Text) : Answer × Session :=
  let l := Layout.ofLines s.table lines
  match l.result with
  | .error why => (.refused why, ⟨l.table, s.programs ++ [none]⟩)
  | .ok entries =>
      (.placed (Line.kept lines).length entries.length, ⟨l.table, s.programs ++ [some entries]⟩)

/-- Encode a program with the table as it is. -/
def encode (s : Session) (program : Nat) : Answer :=
  match s.entries? program with
  | none => .skipped
  | some entries =>
      match Entry.programCode s.table entries with
      | .error err => .failed err
      | .ok text => .code text

/-- Take one step. -/
def step (s : Session) : Step → Answer × Session
  | .layOut lines => s.layOut lines
  | .encode program => (s.encode program, s)
  | .inspect program => ((s.entries? program).elim .skipped .entries, s)
  | .define name value => (.done, { s with table := s.table.insert name value })
  | .remove name => (.done, { s with table := s.table.erase name })
  | .clear => (.done, { s with table := ∅ })

end Session

end WordAsm
