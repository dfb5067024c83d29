import Std.Data.ExtTreeMap
import WordAsm.Text.Quoted

/-!
# A directory of plain files

A directory holds files by name and no directories.  A path names a file of it, the directory
itself, or nothing; one that leads out of the directory is taken to name nothing.  Writing to a
file replaces all it holds, and makes the file if need be.

A name with slashes after it asks for a directory.  To read there is none of that name; to write,
it is refused as a directory even where there is nothing yet.
-/

namespace WordAsm

/-- The files of a directory, by name. -/
structure Directory where
  files : Std.ExtTreeMap Text (List UInt8) compare

namespace Directory

/-- Why a path cannot be opened. -/
inductive Fault where
  | notFound (path : Text)
  | notDirectory (path : Text)
  | isDirectory (path : Text)
  deriving DecidableEq, Repr

/-- What a path leads to. -/
inductive Place where
  | file (name : Text)
  /-- The name of a file with slashes after it. -/
  | slashed (name : Text)
  /-- Something below the name of a file. -/
  | below (name : Text)
  | directory
  | nowhere
  deriving DecidableEq, Repr

/-- The parts of a path between slashes. -/
def parts : Text → List Text
  | [] => [[]]
  | c :: rest =>
      if c = '/' then [] :: parts rest
      else
        match parts rest with
        | [] => [[c]]
        | part :: more => (c :: part) :: more

/-- A part of a path that leads to a directory: it stays, or goes up. -/
def isDirectoryPart (part : Text) : Bool :=
  part = [] || part = ['.'] || part = ['.', '.']

/-- A part of a path that stays where it is. -/
def isStay (part : Text) : Bool :=
  part = [] || part = ['.']

/-- What a name leads to with the parts that follow it. -/
def placeOf (name : Text) (rest : List Text) : Place :=
  if rest.isEmpty then .file name
  else if rest.all List.isEmpty then .slashed name
  else .below name

/-- Follow a path from the directory.  A file is named by its name, after any number of steps
that stay. -/
def place (path : Text) : Place :=
  if path.isEmpty then .nowhere
  else if (parts path).all isDirectoryPart then .directory
  else if path.head? = some '/' then .nowhere
  else
    match (parts path).dropWhile isStay with
    | [] => .nowhere
    | name :: rest => if isDirectoryPart name then .nowhere else placeOf name rest

/-- The directory of a list of files, in which a later one wins. -/
def ofList (files : List (Text × List UInt8)) : Directory :=
  ⟨files.foldl (fun d f => d.insert f.1 f.2) ∅⟩

/-- The files with what they hold, sorted by name. -/
def toList (d : Directory) : List (Text × List UInt8) :=
  d.files.toList

/-- Why a path that goes on after a name cannot be followed. -/
def faultBelow (d : Directory) (name path : Text) : Fault :=
  if d.files.contains name then .notDirectory path else .notFound path

/-- What the file at a path holds. -/
def read (d : Directory) (path : Text) : Except Fault (List UInt8) :=
  match place path with
  | .directory => .error (.isDirectory path)
  | .nowhere => .error (.notFound path)
  | .slashed name | .below name => .error (d.faultBelow name path)
  | .file name =>
      match d.files[name]? with
      | some bytes => .ok bytes
      | none => .error (.notFound path)

/-- Write the file at a path. -/
def write (d : Directory) (path : Text) (bytes : List UInt8) : Except Fault Directory :=
  match place path with
  | .directory | .slashed _ => .error (.isDirectory path)
  | .nowhere => .error (.notFound path)
  | .below name => .error (d.faultBelow name path)
  | .file name => .ok ⟨d.files.insert name bytes⟩

/-- The wording of a fault. -/
def Fault.message : Fault → String
  | notFound path => "[Errno 2] No such file or directory: " ++ String.ofList path.quoted
  | notDirectory path => "[Errno 20] Not a directory: " ++ String.ofList path.quoted
  | isDirectory path => "[Errno 21] Is a directory: " ++ String.ofList path.quoted

end Directory

end WordAsm
