import WordAsm.Proofs.Layout
import WordAsm.Proofs.MachineWord

/-!
# The format of the code

The code of a program ought to be lines of thirty-two binary digits.  It is so exactly when
there is room for every number that the program writes: a word given by a directive has
thirty-two digits for it, and an instruction sixteen.  Assembling does not make sure of this:
a literal below the range of its field is written with a sign, and a number above the range of
a directive makes its line longer.
-/

namespace WordAsm

/-- Lines of thirty-two binary digits, each ended by a newline. -/
def IsWordLines (text : Text) : Prop :=
  ∃ words : List Text, text = words.flatMap (· ++ ['\n']) ∧ ∀ w ∈ words, Binary.IsDigits 32 w

theorem eq_of_append_newline_eq {w v rest rest' : Text} (hw : '\n' ∉ w) (hv : '\n' ∉ v)
    (h : w ++ '\n' :: rest = v ++ '\n' :: rest') : w = v ∧ rest = rest' := by
  -- If one of the two were longer, a newline would stand in it where the other ends.
  rcases List.append_eq_append_iff.1 h with ⟨c, rfl, hc⟩ | ⟨c, rfl, hc⟩
  · cases c with
    | nil => simpa using hc
    | cons x c =>
        obtain rfl : '\n' = x := (List.cons.inj hc).1
        simp at hv
  · cases c with
    | nil => simpa [eq_comm] using hc
    | cons x c =>
        obtain rfl : '\n' = x := (List.cons.inj hc).1
        simp at hw

/-- Lines without newlines can be told from the text that they make. -/
theorem lines_eq_of_flatMap_eq {first second : List Text} (hfirst : ∀ w ∈ first, '\n' ∉ w)
    (hsecond : ∀ w ∈ second, '\n' ∉ w)
    (h : first.flatMap (· ++ ['\n']) = second.flatMap (· ++ ['\n'])) : first = second := by
  induction first generalizing second with
  | nil =>
      cases second with
      | nil => rfl
      | cons v second => simp at h
  | cons w first ih =>
      cases second with
      | nil => simp at h
      | cons v second =>
          rw [List.forall_mem_cons] at hfirst hsecond
          simp only [List.flatMap_cons, List.append_assoc, List.singleton_append] at h
          obtain ⟨rfl, hrest⟩ := eq_of_append_newline_eq hfirst.1 hsecond.1 h
          rw [ih hfirst.2 hsecond.2 hrest]

/-! ## The characters of the code -/

namespace Binary

/-- The characters that numbers are written with. -/
def alphabet : List Char := ['0', '1', '-']

theorem IsDigits.subset_alphabet {width : Nat} {t : Text} (h : IsDigits width t) :
    t ⊆ alphabet := by
  intro c hc
  rcases h.2 c hc with rfl | rfl <;> decide

theorem newline_notMem_of_isDigits {width : Nat} {t : Text} (h : IsDigits width t) :
    '\n' ∉ t := by
  intro hmem
  exact absurd (h.subset_alphabet hmem) (by decide)

theorem padded_subset_alphabet (width : Nat) (n : Int) : padded width n ⊆ alphabet := by
  cases n with
  | ofNat n => exact (bits_isDigits _ n).subset_alphabet
  | negSucc n =>
      have hdigits := (bits_isDigits (max (width - 1) (digitCount (n + 1))) (n + 1)).subset_alphabet
      exact List.cons_subset.2 ⟨by decide, hdigits⟩

end Binary

theorem Format.lowText_subset_alphabet (f : Format) (n : Int) :
    f.lowText n ⊆ Binary.alphabet := by
  unfold lowText
  split <;> exact Binary.padded_subset_alphabet 16 _

theorem Instruction.code_subset_alphabet {i : Instruction} {table : LabelTable} {word : Text}
    (h : i.code table = .ok word) : word ⊆ Binary.alphabet := by
  obtain ⟨e, he, hread⟩ := code_eq_ok_iff.1 h
  have hhead := (Encoder.headText_isDigits i.mnemonic e.operands).subset_alphabet
  rcases Encoder.word_of_read he hread with ⟨-, -, rfl⟩ | ⟨-, n, -, rfl⟩
  · have hlow := (Binary.bits_isDigits 16 e.operands.lowHalf).subset_alphabet
    exact List.append_subset.2 ⟨hhead, hlow⟩
  · exact List.append_subset.2 ⟨hhead, i.format.lowText_subset_alphabet n⟩

/-- The word of a placed entry is a written number, or several of them. -/
theorem Statement.Placed.code_subset_alphabet {table final : LabelTable} {index : Nat}
    {s : Statement} {entries : List Entry} (h : s.Placed table index entries) {entry : Entry}
    (hentry : entry ∈ entries) {word : Text} (hword : entry.code final = .ok word) :
    word ⊆ Binary.alphabet := by
  cases h with
  | fill hnumber hroom hnew =>
      obtain rfl := List.mem_singleton.1 hentry
      obtain rfl := Except.ok.inj hword
      exact Binary.padded_subset_alphabet 32 _
  | space hnumber hpos hroom hnew =>
      obtain rfl := List.eq_of_mem_replicate hentry
      obtain rfl := Except.ok.inj hword
      exact Binary.padded_subset_alphabet 32 0
  | halt hlabel =>
      obtain rfl := List.mem_singleton.1 hentry
      rw [Entry.code] at hword
      exact Instruction.code_subset_alphabet hword
  | instruction hlabel hread =>
      obtain rfl := List.mem_singleton.1 hentry
      exact Instruction.code_subset_alphabet hword

namespace Laid

variable {table final last : LabelTable} {index : Nat} {lines : List Text}
  {entries : List Entry} {entry : Entry} {word : Text}

theorem code_subset_alphabet (h : Laid table index lines final entries)
    (hentry : entry ∈ entries) (hword : entry.code last = .ok word) :
    word ⊆ Binary.alphabet := by
  induction h with
  | nil => cases hentry
  | cons hline hplaced hrest ih =>
      rcases List.mem_append.1 hentry with hhere | hmore
      · exact hplaced.code_subset_alphabet hhere hword
      · exact ih hmore

theorem newline_notMem_code (h : Laid table index lines final entries)
    (hentry : entry ∈ entries) (hword : entry.code last = .ok word) : '\n' ∉ word := by
  intro hmem
  exact absurd (h.code_subset_alphabet hentry hword hmem) (by decide)

end Laid

/-! ## Room for the numbers -/

namespace Statement

/-- There is room for the number that a statement writes when it stands at an index. -/
def NumberFits (table : LabelTable) (index : Nat) : Statement → Prop
  | directive .fill _ operand =>
      ∀ n, operandNumber? table operand = some n → -2 ^ 32 ≤ n ∧ n < 2 ^ 32
  | directive .space _ _ => True
  | halt _ => True
  | instruction _ command operands =>
      ∀ i n, Instruction.read command operands (some (index : Int)) = .ok i →
        i.number? table = some n → i.format.Holds n

/-- The words of a statement have thirty-two digits exactly when its number fits. -/
theorem Placed.words_isDigits_iff {table final : LabelTable} {index : Nat} {s : Statement}
    {entries : List Entry} (h : s.Placed table index entries) (hfinal : final.Extends table)
    {words : List Text} (hwords : Entry.words final entries = .ok words) :
    (∀ w ∈ words, Binary.IsDigits 32 w) ↔ s.NumberFits final index := by
  cases h with
  | @fill label operand n hnumber hroom hnew =>
      obtain ⟨word, hword, rfl⟩ := Entry.words_singleton_eq_ok_iff.1 hwords
      obtain rfl := Except.ok.inj hword
      have hfits := Binary.complementText_isDigits_iff (show 0 < 32 by omega) n
      have hnumber' := operandNumber?_mono hfinal hnumber
      simpa [NumberFits, hnumber'] using hfits
  | @space label operand n hnumber hpos hroom hnew =>
      rw [Entry.words_replicate] at hwords
      obtain rfl := Except.ok.inj hwords
      have hzero := (Binary.padded_isDigits_iff (show 0 < 32 by omega) 0).2 (by omega)
      refine iff_of_true ?_ trivial
      intro w hw
      rwa [List.eq_of_mem_replicate hw]
  | halt hlabel =>
      obtain ⟨word, hword, rfl⟩ := Entry.words_singleton_eq_ok_iff.1 hwords
      rw [Entry.code] at hword
      rw [List.forall_mem_singleton, Instruction.code_isDigits_iff hword]
      -- A halt has no operands, so it writes no number.
      have hnone : (Instruction.mk .halt [] (some (index : Int))).number? final = none := rfl
      simp [hnone, NumberFits]
  | @instruction label command operands i hlabel hread =>
      obtain ⟨word, hword, rfl⟩ := Entry.words_singleton_eq_ok_iff.1 hwords
      rw [List.forall_mem_singleton, Instruction.code_isDigits_iff hword]
      constructor
      · intro hholds i' n hread'
        obtain rfl : i = i' := Except.ok.inj (hread.symm.trans hread')
        exact hholds n
      · intro hfits n
        exact hfits i n hread

end Statement

namespace Laid

/-- The words of laid out lines have thirty-two digits exactly when the number of every line
fits. -/
theorem words_isDigits_iff {table final last : LabelTable} {index : Nat} {lines : List Text}
    {entries : List Entry} (h : Laid table index lines final entries)
    (hlast : last.Extends final) {words : List Text}
    (hwords : Entry.words last entries = .ok words) :
    (∀ w ∈ words, Binary.IsDigits 32 w) ↔
      ∀ k line s, lines[k]? = some line → Statement.ofLine? line = some s →
        s.NumberFits last (index + k) := by
  induction h generalizing words with
  | nil =>
      obtain rfl : words = [] := by simpa [Entry.words, eq_comm] using hwords
      simp
  | @cons table final index line rest s here more hline hplaced hrest ih =>
      obtain ⟨u, v, hu, hv, rfl⟩ := Entry.words_append_eq_ok_iff.1 hwords
      have hextends : last.Extends table :=
        hlast.trans (hrest.extends_start.trans hplaced.extends_define)
      rw [List.forall_mem_append, hplaced.words_isDigits_iff hextends hu, ih hlast hv]
      constructor
      · rintro ⟨hhere, hmore⟩ k line' s' hk hs'
        cases k with
        | zero =>
            obtain rfl : line = line' := by simpa using hk
            obtain rfl : s = s' := Option.some.inj (hline.symm.trans hs')
            exact hhere
        | succ k =>
            have hfit := hmore k line' s' (by simpa using hk) hs'
            rwa [show index + (k + 1) = index + 1 + k by omega]
      · intro hall
        refine ⟨hall 0 line s rfl hline, ?_⟩
        intro k line' s' hk hs'
        have hfit := hall (k + 1) line' s' (by simpa using hk) hs'
        rwa [show index + (k + 1) = index + 1 + k by omega] at hfit

/-- The code of laid out lines is lines of thirty-two digits exactly when all words have them. -/
theorem isWordLines_iff {table final last : LabelTable} {index : Nat} {lines : List Text}
    {entries : List Entry} (h : Laid table index lines final entries) {words : List Text}
    (hwords : Entry.words last entries = .ok words) :
    IsWordLines (words.flatMap (· ++ ['\n'])) ↔ ∀ w ∈ words, Binary.IsDigits 32 w := by
  have hnewline : ∀ w ∈ words, '\n' ∉ w := by
    intro w hw
    obtain ⟨entry, hentry, hword⟩ := Entry.exists_of_mem_words hwords hw
    exact h.newline_notMem_code hentry hword
  constructor
  · rintro ⟨words', heq, hdigits⟩
    -- No word has a newline, so the lines of the text are the words of the program.
    have hnewline' := fun w hw => Binary.newline_notMem_of_isDigits (hdigits w hw)
    rw [lines_eq_of_flatMap_eq hnewline hnewline' heq]
    exact hdigits
  · intro hdigits
    exact ⟨words, rfl, hdigits⟩

end Laid

/-- The code of a program is lines of thirty-two binary digits if and only if there is room for
the number that each of its kept lines writes. -/
theorem code_isWordLines_iff {start final : LabelTable} {lines : List Text} {text : Text}
    (h : assemble start lines = (.code text, final)) :
    IsWordLines text ↔
      ∀ index line s, (Line.kept lines)[index]? = some line → Statement.ofLine? line = some s →
        s.NumberFits final index := by
  obtain ⟨entries, words, hlaid, hwords, rfl⟩ := assemble_eq_code_iff.1 h
  have hfits := hlaid.words_isDigits_iff (fun _ _ hn => hn) hwords
  simp only [Nat.zero_add] at hfits
  rw [hlaid.isWordLines_iff hwords, hfits]

/-- A literal just below the range of its field. -/
def literalBelow : List Text :=
  ["addi 1,1,-65537".toList]

/-- A literal just below the range of its field is taken, and written with a sign. -/
theorem code_isWordLines_iff_literalBelow :
    (assemble ∅ literalBelow).1 = .code "0000010100010001-000000000000001\n".toList ∧
      ¬ IsWordLines "0000010100010001-000000000000001\n".toList := by
  have houtcome : (assemble ∅ literalBelow).1 =
      .code "0000010100010001-000000000000001\n".toList := by decide +kernel
  refine ⟨houtcome, ?_⟩
  have hcode : assemble ∅ literalBelow =
      (.code "0000010100010001-000000000000001\n".toList, (assemble ∅ literalBelow).2) :=
    Prod.ext houtcome rfl
  rw [code_isWordLines_iff hcode]
  intro hfits
  have hholds := hfits 0 "addi 1,1,-65537".toList
    (.instruction none "addi".toList "1,1,-65537".toList) (by decide +kernel) (by decide +kernel)
    ⟨.addi, "1,1,-65537".toList, some 0⟩ (-65537) (by decide +kernel) (by decide +kernel)
  exact absurd hholds (by decide)

end WordAsm
