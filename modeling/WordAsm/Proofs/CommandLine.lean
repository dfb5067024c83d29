import WordAsm.CommandLine
import WordAsm.Proofs.EncodingFaults
import WordAsm.Proofs.WordFormat

/-!
# What a run leaves behind

A run of the command stops short and changes no file, or it goes through and changes the output
file alone.  The file then holds the code of the source, or the reason for which the source is
refused after a hash sign.

This is more than the order of the steps gives, as the output file is emptied before the entries
are encoded.  It holds because a laid out program fails only with a rejection, which is reported
to the same file, and because a path that could be opened once can be opened again.  The code of a
program has no hash sign, so the first byte tells the two kinds of output apart.
-/

namespace WordAsm

/-! ## Files -/

namespace Directory

@[ext] theorem ext {d e : Directory} (h : ∀ file : Text, d.files[file]? = e.files[file]?) :
    d = e := by
  cases d
  cases e
  congr 1
  exact Std.ExtTreeMap.ext_getElem? h

/-- A directory with what one of its files holds replaced, or with one more file. -/
def put (d : Directory) (file : Text) (bytes : List UInt8) : Directory :=
  ⟨d.files.insert file bytes⟩

theorem files_put (d : Directory) (file other : Text) (bytes : List UInt8) :
    (d.put file bytes).files[other]? =
      if file = other then some bytes else d.files[other]? := by
  simp [put, Std.ExtTreeMap.getElem?_insert]

theorem put_put (d : Directory) (file : Text) (first last : List UInt8) :
    (d.put file first).put file last = d.put file last := by
  ext1 other
  simp only [files_put]
  split <;> rfl

theorem write_of_file {path file : Text} (h : place path = .file file) (d : Directory)
    (bytes : List UInt8) : d.write path bytes = .ok (d.put file bytes) := by
  rw [write, h]
  rfl

end Directory

/-! ## Programs -/

/-- With any table, a laid out program fails only with a rejection. -/
theorem Laid.programCode_failsOnly {table final : LabelTable} {index : Nat} {lines : List Text}
    {entries : List Entry} (h : Laid table index lines final entries) (last : LabelTable) :
    FailsOnly Error.IsRejection (Entry.programCode last entries) := by
  refine (Entry.words_failsOnly ?_).map _
  intro entry hentry
  cases entry with
  | word digits => exact .ok digits
  | instruction i =>
      obtain ⟨n, -, hline⟩ := (h.ready hentry).line
      exact Instruction.code_failsOnly hline last

/-- The code of a program is written with the characters of numbers and newlines. -/
theorem code_subset_alphabet {start : LabelTable} {lines : List Text} {text : Text}
    (h : (assemble start lines).1 = .code text) : text ⊆ '\n' :: Binary.alphabet := by
  obtain ⟨entries, words, hlaid, hwords, rfl⟩ :=
    assemble_eq_code_iff.1 (Prod.ext h rfl : assemble start lines = (.code text, _))
  intro c hc
  obtain ⟨word, hword, hmem⟩ := List.mem_flatMap.1 hc
  obtain ⟨entry, hentry, hcode⟩ := Entry.exists_of_mem_words hwords hword
  rcases List.mem_append.1 hmem with hmem | hmem
  · exact List.mem_cons_of_mem _ (hlaid.code_subset_alphabet hentry hcode hmem)
  · exact List.mem_singleton.1 hmem ▸ List.mem_cons_self

namespace CommandLine

/-! ## What becomes of a source -/

variable {bytes : List UInt8} {code : Text} {why : Rejection}

variable {d : Directory} {table : LabelTable} {path file : Text}

theorem withOutput_of_file (h : Directory.place path = .file file)
    (next : Text → Directory → Run) :
    withOutput d table (some path) next = next path (d.put file []) := by
  simp only [withOutput, Directory.write_of_file h]

theorem finish_of_file (h : Directory.place path = .file file) (written printed : Text) :
    finish table path d written printed =
      ⟨printed ++ ['\n'], d.put file (Utf8.encode written), table, none⟩ := by
  simp only [finish, Directory.write_of_file h]

theorem report_of_file (h : Directory.place path = .file file) (why : Rejection) :
    report d table (some path) why =
      ⟨why.message.toList ++ ['\n'],
        d.put file (Utf8.encode ("# ".toList ++ why.message.toList)), table, none⟩ := by
  rw [report, withOutput_of_file h, finish_of_file h, Directory.put_put]

theorem run_of_read {name called input : Text} {files : List Text} {d : Directory}
    {bytes : List UInt8} (hname : called = name) (hinput : files[0]? = some input)
    (hread : d.read input = .ok bytes) :
    run name (called :: files) d = assembleTo d files[1]? bytes := by
  simp [run, hname, hinput, hread]

end CommandLine

end WordAsm
