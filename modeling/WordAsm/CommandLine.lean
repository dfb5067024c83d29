import WordAsm.Directory
import WordAsm.Layout
import WordAsm.Text.Utf8

/-!
# The command line

The arguments are the name of the command, the file to assemble and the file to write.  The
written file holds the code, or the reason of a refusal after a hash sign; the same reason, or
a word of success, is printed.  Under any other name the command does nothing.

An argument is asked for only when it is used, and the output file is emptied before the
entries are encoded.
-/

namespace WordAsm.CommandLine

/-- How a run stops short. -/
inductive Stop where
  /-- The command was called by another name. -/
  | otherName
  /-- An argument is missing. -/
  | missingArgument
  /-- A file cannot be opened. -/
  | file (fault : Directory.Fault)
  /-- An encoder was misused. -/
  | misuse (how : Misuse)
  deriving DecidableEq

/-- The exit code of a run that stops short. -/
def Stop.exitCode : Stop → Nat
  | otherName => 0
  | missingArgument | file _ | misuse _ => 1

/-- The wording of a stop. -/
def Stop.message : Stop → String
  | otherName => ""
  | missingArgument => "list index out of range"
  | file fault => fault.message
  | misuse how => how.message

/-- What a run leaves behind. -/
structure Run where
  printed : Text
  directory : Directory
  table : LabelTable
  /-- How the run stopped short, if it did. -/
  stop : Option Stop

/-- The line that is printed after success. -/
def successText : Text := "Assembled successfully!".toList

/-- A run that stops short without printing anything. -/
def Run.stopped (d : Directory) (table : LabelTable) (why : Stop) : Run :=
  ⟨[], d, table, some why⟩

/-- Open the output file, emptied, and go on with the directory and the path. -/
def withOutput (d : Directory) (table : LabelTable) (output : Option Text)
    (next : Text → Directory → Run) : Run :=
  match output with
  | none => .stopped d table .missingArgument
  | some path =>
      match d.write path [] with
      | .error fault => .stopped d table (.file fault)
      | .ok emptied => next path emptied

/-- Write a text to the output file and print a line. -/
def finish (table : LabelTable) (path : Text) (d : Directory) (written printed : Text) : Run :=
  match d.write path (Utf8.encode written) with
  | .error fault => .stopped d table (.file fault)
  | .ok d => ⟨printed ++ ['\n'], d, table, none⟩

/-- Report a refusal. -/
def report (d : Directory) (table : LabelTable) (output : Option Text) (why : Rejection) : Run :=
  withOutput d table output fun path d =>
    finish table path d ("# ".toList ++ why.message.toList) why.message.toList

/-- Encode a program into the output file. -/
def encodeTo (d : Directory) (table : LabelTable) (output : Option Text) (entries : List Entry) :
    Run :=
  withOutput d table output fun path emptied =>
    match Entry.programCode table entries with
    | .ok text => finish table path emptied text successText
    | .error (.rejected why) => report emptied table output why
    | .error (.misused how) => .stopped emptied table (.misuse how)

/-- Assemble the bytes of a source file. -/
def assembleTo (d : Directory) (output : Option Text) (bytes : List UInt8) : Run :=
  match Utf8.decode bytes with
  | .error fault => report d ∅ output (.encoding fault)
  | .ok text =>
      let l := Layout.ofLines ∅ (Text.fileLines text)
      match l.result with
      | .error why => report d l.table output why
      | .ok entries => encodeTo d l.table output entries

/-- Run the command, whose own name is `name`, in a directory. -/
def run (name : Text) (arguments : List Text) (d : Directory) : Run :=
  match arguments with
  | [] => .stopped d ∅ .missingArgument
  | called :: files =>
      if called ≠ name then .stopped d ∅ .otherName
      else
        match files[0]? with
        | none => .stopped d ∅ .missingArgument
        | some input =>
            match d.read input with
            | .error fault => .stopped d ∅ (.file fault)
            | .ok bytes => assembleTo d files[1]? bytes

end WordAsm.CommandLine
