import WordAsm.Proofs.CommandLine
import WordAsm.Proofs.Trivia
import WordAsm.Proofs.Utf8

/-!
# Line ends of a source file

The lines of a source file may end with a line feed, a carriage return or both, each in its own
way, and the last may have no end.  A run of the command comes to the same whatever the ends are:
it is the assembly of the lines.

The file may have fewer lines than were written.  A carriage return and an empty line that ends
with a line feed read as one line end, and an empty last line without an end is no line.  What is
lost in this way is empty, and empty lines are not kept.
-/

namespace WordAsm

namespace Text

/-- The ways to end a line. -/
inductive LineEnd where
  | lineFeed
  | carriageReturn
  | both
  deriving DecidableEq, Repr

/-- A line end as it is written. -/
def LineEnd.text : LineEnd → Text
  | lineFeed => ['\n']
  | carriageReturn => ['\r']
  | both => ['\r', '\n']

/-- A text in which lines are written one after the other, each with some end.  The last line may
have none. -/
inductive Written : List Text → Text → Prop
  | nil : Written [] []
  | last (line : Text) : Written [line] line
  | cons (line : Text) (ending : LineEnd) {lines : List Text} {t : Text} (h : Written lines t) :
      Written (line :: lines) (line ++ (ending.text ++ t))

/-- A line has no line end inside. -/
def IsOneLine (line : Text) : Prop :=
  '\r' ∉ line ∧ '\n' ∉ line

/-! ## The lines of a file -/

section FileLines

variable {line t : Text} {lines rest : List Text}

theorem fileLines_cons {c : Char} (hr : c ≠ '\r') (hn : c ≠ '\n') (t : Text) :
    fileLines (c :: t) = consLine c (fileLines t) := by
  rw [fileLines]
  · rintro u rfl
    exact absurd rfl hr
  · rintro rfl
    exact absurd rfl hr
  · rintro rfl
    exact absurd rfl hn

/-- A line reaches to the first line end. -/
theorem fileLines_append (hline : IsOneLine line) (h : fileLines t = [] :: rest) :
    fileLines (line ++ t) = line :: rest := by
  induction line with
  | nil => exact h
  | cons c line ih =>
      obtain ⟨hr, hn⟩ := hline
      rw [List.mem_cons, not_or] at hr hn
      rw [List.cons_append, fileLines_cons (Ne.symm hr.1) (Ne.symm hn.1), ih ⟨hr.2, hn.2⟩]
      rfl

/-- A text without line ends is one line, or none if it is empty. -/
theorem fileLines_of_isOneLine (hline : IsOneLine line) :
    fileLines line = if line = [] then [] else [line] := by
  induction line with
  | nil => rfl
  | cons c line ih =>
      obtain ⟨hr, hn⟩ := hline
      rw [List.mem_cons, not_or] at hr hn
      rw [fileLines_cons (Ne.symm hr.1) (Ne.symm hn.1), ih ⟨hr.2, hn.2⟩]
      split
      · rename_i hnil
        rw [hnil]
        rfl
      · rfl

/-- A line end starts an empty line.  The lines after it are those of what follows, but for an empty
line that may be lost. -/
theorem fileLines_lineEnd (ending : LineEnd) (t : Text) :
    ∃ rest, fileLines (ending.text ++ t) = [] :: rest ∧
      Line.kept rest = Line.kept (fileLines t) := by
  cases ending with
  | lineFeed => exact ⟨fileLines t, rfl, rfl⟩
  | both => exact ⟨fileLines t, rfl, rfl⟩
  | carriageReturn =>
      by_cases hfeed : ∃ u, t = '\n' :: u
      · -- The two read as one end, and the empty line between them is lost.
        obtain ⟨u, rfl⟩ := hfeed
        exact ⟨fileLines u, rfl, (Line.kept_cons_of_nil rfl _).symm⟩
      · have hend : fileLines ('\r' :: t) = [] :: fileLines t := by
          rw [fileLines]
          rintro u rfl
          exact hfeed ⟨u, rfl⟩
        exact ⟨fileLines t, hend, rfl⟩

/-- The kept lines of a file are those that were written, whatever their ends. -/
theorem Written.kept_fileLines (h : Written lines t) (hlines : ∀ line ∈ lines, IsOneLine line) :
    Line.kept (fileLines t) = Line.kept lines := by
  induction h with
  | nil => rfl
  | last line =>
      rw [fileLines_of_isOneLine (hlines line List.mem_cons_self)]
      split
      · rename_i hnil
        rw [hnil]
        rfl
      · rfl
  | @cons line ending lines t _ ih =>
      rw [List.forall_mem_cons] at hlines
      obtain ⟨rest, hend, hkept⟩ := fileLines_lineEnd ending t
      rw [fileLines_append hlines.1 hend]
      calc Line.kept (line :: rest) = Line.kept [line] ++ Line.kept rest :=
            Line.kept_append [line] rest
        _ = Line.kept [line] ++ Line.kept lines := by rw [hkept, ih hlines.2]
        _ = Line.kept (line :: lines) := (Line.kept_append [line] lines).symm

end FileLines

end Text

/-! ## What a run makes of an outcome -/

/-- The text that is written for an outcome: the code, or why there is none after a hash sign. -/
def Outcome.written : Outcome → Text
  | code text => text
  | misplaced why => "# ".toList ++ why.message.toList
  | failed err => "# ".toList ++ err.message.toList

/-- The line that is printed for an outcome. -/
def Outcome.printed : Outcome → Text
  | code _ => CommandLine.successText
  | misplaced why => why.message.toList
  | failed err => err.message.toList

namespace CommandLine

/-- A source that is a text is assembled into the output file, and the table is that of the
assembly. -/
theorem assembleTo_eq_outcome {path file text : Text} {bytes : List UInt8}
    (hfile : Directory.place path = .file file) (htext : Utf8.decode bytes = .ok text)
    (d : Directory) :
    assembleTo d (some path) bytes =
      ⟨(assemble ∅ (Text.fileLines text)).1.printed ++ ['\n'],
        d.put file (Utf8.encode (assemble ∅ (Text.fileLines text)).1.written),
        (assemble ∅ (Text.fileLines text)).2, none⟩ := by
  cases hlayout : Layout.ofLines ∅ (Text.fileLines text) with
  | mk table result =>
      cases result with
      | error why =>
          simp only [assembleTo, assemble, htext, hlayout, report_of_file hfile]
          rfl
      | ok entries =>
          have hlaid := Layout.ofLines_eq_ok_iff.1 hlayout
          cases hcode : Entry.programCode table entries with
          | ok code =>
              simp only [assembleTo, assemble, htext, hlayout, encodeTo, hcode,
                withOutput_of_file hfile, finish_of_file hfile, Directory.put_put]
              rfl
          | error err =>
              -- An encoder is not misused by a program that was laid out.
              obtain ⟨why, rfl, -⟩ := hlaid.programCode_failsOnly table err hcode
              simp only [assembleTo, assemble, htext, hlayout, encodeTo, hcode,
                withOutput_of_file hfile, report_of_file hfile, Directory.put_put]
              rfl

variable {lines : List Text} {t : Text}

/-- A run on a file with the given lines is the assembly of the lines. -/
theorem run_of_written (hlines : ∀ line ∈ lines, Text.IsOneLine line)
    (h : Text.Written lines t) (name : Text) {input output source target : Text}
    (hinput : Directory.place input = .file source)
    (houtput : Directory.place output = .file target) (more : List Text) (d : Directory) :
    run name (name :: input :: output :: more) (d.put source (Utf8.encode t)) =
      ⟨(assemble ∅ lines).1.printed ++ ['\n'],
        (d.put source (Utf8.encode t)).put target (Utf8.encode (assemble ∅ lines).1.written),
        (assemble ∅ lines).2, none⟩ := by
  have hread : (d.put source (Utf8.encode t)).read input = .ok (Utf8.encode t) := by
    simp [Directory.read, hinput, Directory.files_put]
  have hassemble : assemble ∅ (Text.fileLines t) = assemble ∅ lines :=
    assemble_congr (h.kept_fileLines hlines) ∅
  rw [run_of_read rfl rfl hread, ← hassemble]
  exact assembleTo_eq_outcome houtput (Utf8.decode_encode t) _

/-- Two files with the same lines and any line ends are assembled alike.  The output file, what is
printed and the table are those of the assembly of the lines. -/
theorem run_ignores_line_ends (hlines : ∀ line ∈ lines, Text.IsOneLine line)
    {first second : Text} (hfirst : Text.Written lines first)
    (hsecond : Text.Written lines second) (name : Text) {input output source target : Text}
    (hinput : Directory.place input = .file source)
    (houtput : Directory.place output = .file target) (more : List Text) (d : Directory) :
    let runOn := fun t =>
      run name (name :: input :: output :: more) (d.put source (Utf8.encode t))
    ((runOn first).directory.files[target]? = (runOn second).directory.files[target]? ∧
      (runOn first).printed = (runOn second).printed ∧
      (runOn first).table = (runOn second).table ∧
      (runOn first).stop = (runOn second).stop) ∧
    (runOn first).directory.files[target]? =
        some (Utf8.encode (assemble ∅ lines).1.written) ∧
      (runOn first).printed = (assemble ∅ lines).1.printed ++ ['\n'] ∧
      (runOn first).table = (assemble ∅ lines).2 ∧ (runOn first).stop = none := by
  dsimp only
  rw [run_of_written hlines hfirst name hinput houtput more d,
    run_of_written hlines hsecond name hinput houtput more d]
  simp [Directory.files_put]

/-- A loop of two instructions with an empty line between them, and characters that end lines
elsewhere. -/
def spacedLoop : List Text :=
  ["loop add 1,2,3".toList, [], "\u0085beq 1,1,loop # \u2028é".toList]

/-- The loop in a file.  A carriage return, an empty line and a line feed read as one line end, and
the last line has no end. -/
def joinedEnds : Text :=
  "loop add 1,2,3\r\n\u0085beq 1,1,loop # \u2028é".toList

/-- The loop in a file with other line ends. -/
def separateEnds : Text :=
  "loop add 1,2,3\n\r\n\u0085beq 1,1,loop # \u2028é\r".toList

/-- The code of the loop. -/
def spacedLoopCode : Text :=
  "00000000001000110001000000000000\n00001011000100011111111111111110\n".toList

/-- The two files have different numbers of lines, and the same code is written for them. -/
theorem run_ignores_line_ends_spacedLoop :
    (Text.fileLines joinedEnds).length = 2 ∧ (Text.fileLines separateEnds).length = 3 ∧
      ∀ t ∈ [joinedEnds, separateEnds],
        (run "wordasm".toList ["wordasm".toList, "in".toList, "./out".toList]
          (Directory.put ⟨∅⟩ "in".toList (Utf8.encode t))).directory.files["out".toList]? =
            some (Utf8.encode spacedLoopCode) := by
  have hlines : ∀ line ∈ spacedLoop, Text.IsOneLine line := by
    unfold Text.IsOneLine
    decide +kernel
  have hjoined : Text.Written spacedLoop joinedEnds := by
    have htext : joinedEnds = "loop add 1,2,3".toList ++ (['\r'] ++ ([] ++ (['\n'] ++
        "\u0085beq 1,1,loop # \u2028é".toList))) := by decide +kernel
    rw [htext]
    exact .cons _ .carriageReturn (.cons [] .lineFeed (.last _))
  have hseparate : Text.Written spacedLoop separateEnds := by
    have htext : separateEnds = "loop add 1,2,3".toList ++ (['\n'] ++ ([] ++ (['\r', '\n'] ++
        ("\u0085beq 1,1,loop # \u2028é".toList ++ (['\r'] ++ []))))) := by decide +kernel
    rw [htext]
    exact .cons _ .lineFeed (.cons [] .both (.cons _ .carriageReturn .nil))
  have hinput : Directory.place "in".toList = .file "in".toList := by decide
  have houtput : Directory.place "./out".toList = .file "out".toList := by decide
  have hcode : (assemble ∅ spacedLoop).1.written = spacedLoopCode := by decide +kernel
  obtain ⟨⟨hsame, -⟩, hfile, -⟩ :=
    run_ignores_line_ends hlines hjoined hseparate "wordasm".toList hinput houtput [] ⟨∅⟩
  rw [hcode] at hfile
  refine ⟨by decide +kernel, by decide +kernel, ?_⟩
  rw [List.forall_mem_cons, List.forall_mem_singleton]
  exact ⟨hfile, hsame.symm.trans hfile⟩

end CommandLine

end WordAsm
