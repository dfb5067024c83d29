import WordAsm.CommandLine

/-!
# The program

The command reads the file that its first argument names and writes the one that its second
names.  What is written and printed is settled without them; only the bytes pass through here.
-/

namespace WordAsm

/-- The name of the command. -/
def commandName : String := "wordasm"

/-- What the source file is called inside a run. -/
def sourceName : Text := "source".toList

/-- What the written file is called inside a run. -/
def codeName : Text := "code".toList

/-- Assemble the bytes of a source, with an output file if one was named. -/
def runOn (bytes : ByteArray) (output : Option String) : CommandLine.Run :=
  let files := sourceName :: output.toList.map fun _ => codeName
  CommandLine.run commandName.toList (commandName.toList :: files)
    (.ofList [(sourceName, bytes.toList)])

/-- Write the code file of a run to a path. -/
def writeCode (run : CommandLine.Run) (path : String) : IO Unit :=
  match run.directory.read codeName with
  | .ok bytes => IO.FS.writeBinFile path (ByteArray.mk bytes.toArray)
  | .error _ => pure ()

/-- Print why a run stopped short, and give its exit code. -/
def stopWith (stop : CommandLine.Stop) : IO UInt32 := do
  IO.eprintln stop.message
  return UInt32.ofNat stop.exitCode

/-- Assemble the first argument into the second. -/
def runProgram (arguments : List String) : IO UInt32 := do
  match arguments with
  | [] => stopWith .missingArgument
  | input :: rest =>
      match ← (IO.FS.readBinFile input).toBaseIO with
      | .error _ => stopWith (.file (.notFound input.toList))
      | .ok bytes =>
          let run := runOn bytes rest.head?
          match run.stop with
          | some stop => stopWith stop
          | none =>
              rest.head?.forM (writeCode run)
              IO.print (String.ofList run.printed)
              return 0

end WordAsm

/-- The entry point. -/
def main (arguments : List String) : IO UInt32 :=
  WordAsm.runProgram arguments
