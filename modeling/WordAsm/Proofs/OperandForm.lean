import Mathlib.Data.List.TakeWhile
import WordAsm.Proofs.MachineWord

/-!
# Operand texts and their form

The operands of a format have a form: some numbers, or numbers and a word, with commas between
them.  An operand text ought to be of the form as a whole.  An encoder asks for less.  It takes the
first place where the form starts and as much as the form can take there, and ignores what stands
before and after.  So the text as a whole is of the form exactly when nothing does.
-/

namespace WordAsm

namespace Format

/-- The classes of the operands of a format, in order: a number has ASCII digits, and a word has
word characters and hyphens. -/
def classes : Format → List (Char → Bool)
  | register => [Text.isAsciiDigit, Text.isAsciiDigit, Text.isAsciiDigit]
  | immediate => [Text.isAsciiDigit, Text.isAsciiDigit, Text.isOperandChar]
  | upper => [Text.isAsciiDigit, Text.isOperandChar]
  | link => [Text.isAsciiDigit, Text.isAsciiDigit]
  | jump => [Text.isOperandChar]
  | halt => []

/-- Parts of a format: for each class a nonempty text of it. -/
def IsParts (f : Format) (parts : List Text) : Prop :=
  List.Forall₂ (fun p => (Piece.oneOrMore p).Takes) f.classes parts

/-- A text of the form of a format: its parts with commas between them. -/
def IsForm (f : Format) (t : Text) : Prop :=
  ∃ parts, f.IsParts parts ∧ t = [','].intercalate parts

/-- The form of a format starts a text. -/
def Starts (f : Format) (t : Text) : Prop :=
  ∃ parts rest, f.IsParts parts ∧ t = [','].intercalate parts ++ rest

/-- The first form in a text, with what stands before and after it.  It starts at no earlier
place, and it cannot go on where it ends. -/
structure FirstForm (f : Format) (t before : Text) (parts : List Text) (after : Text) : Prop where
  text_eq : t = before ++ ([','].intercalate parts ++ after)
  isParts : f.IsParts parts
  first : ∀ j < before.length, ¬ f.Starts (t.drop j)
  stops : ∀ c ∈ after.head?, ∀ p ∈ f.classes.getLast?, p c = false

end Format

/-! ## Runs between commas -/

namespace Pattern

/-- Runs of the given classes, with commas between them. -/
def runPieces : List (Char → Bool) → List Piece
  | [] => []
  | [p] => [.oneOrMore p]
  | p :: q :: ps => .oneOrMore p :: Format.commaPiece :: runPieces (q :: ps)

theorem matchStart_commaPiece_iff {ps : List Piece} {s : Text} {ts : List Text} :
    matchStart (Format.commaPiece :: ps) s = some ts ↔
      ∃ rest us, s = ',' :: rest ∧ matchStart ps rest = some us ∧ ts = [','] :: us := by
  cases s with
  | nil => simp [Format.commaPiece, matchStart]
  | cons c s =>
      by_cases hc : c = ','
      · subst hc
        simp [Format.commaPiece, matchStart, Option.map_eq_some_iff, eq_comm (b := ts)]
      · simp [Format.commaPiece, matchStart, hc]

/-- A run before a comma takes all up to the comma. -/
theorem matchStart_run_comma_iff {p : Char → Bool} (hp : p ',' = false) {ps : List Piece}
    {s : Text} {ts : List Text} :
    matchStart (.oneOrMore p :: Format.commaPiece :: ps) s = some ts ↔
      ∃ a rest us, (Piece.oneOrMore p).Takes a ∧ s = a ++ ',' :: rest ∧
        matchStart ps rest = some us ∧ ts = a :: [','] :: us := by
  constructor
  · intro h
    obtain ⟨a, b, us, rfl, rfl, ha, hb⟩ := matchStart_oneOrMore_takes h
    obtain ⟨rest, vs, rfl, hvs, rfl⟩ := matchStart_commaPiece_iff.1 hb
    exact ⟨a, rest, vs, ha, rfl, hvs, rfl⟩
  · rintro ⟨a, rest, us, ⟨hne, ha⟩, rfl, hus, rfl⟩
    have hcomma : matchStart (Format.commaPiece :: ps) (',' :: rest) = some ([','] :: us) :=
      matchStart_commaPiece_iff.2 ⟨rest, us, rfl, hus, rfl⟩
    exact matchStart_oneOrMore_stop hne ha hp hcomma

/-- Runs with commas between them match at the start of a text exactly when the text starts so and
the last run cannot go on. -/
theorem matchStart_runPieces_iff {ps : List (Char → Bool)} (hne : ps ≠ [])
    (hcomma : ∀ p ∈ ps, p ',' = false) {s : Text} {ts : List Text} :
    matchStart (runPieces ps) s = some ts ↔
      ∃ parts rest, List.Forall₂ (fun p => (Piece.oneOrMore p).Takes) ps parts ∧
        s = [','].intercalate parts ++ rest ∧
        (∀ c ∈ rest.head?, ∀ p ∈ ps.getLast?, p c = false) ∧ ts = parts.intersperse [','] := by
  -- Every run but the last ends at a comma, which is in no class; so only the last has a choice.
  induction ps generalizing s ts with
  | nil => exact absurd rfl hne
  | cons p ps ih =>
      cases ps with
      | nil =>
          rw [runPieces, matchStart_oneOrMore_last_iff]
          constructor
          · rintro ⟨a, b, rfl, rfl, ha, hb⟩
            exact ⟨[a], b, .cons ha .nil, by simp, by simpa using hb, rfl⟩
          · rintro ⟨parts, rest, hparts, rfl, hstop, rfl⟩
            obtain ⟨a, us, ha, hus, rfl⟩ := List.forall₂_cons_left_iff.1 hparts
            obtain rfl := List.forall₂_nil_left_iff.1 hus
            exact ⟨a, rest, rfl, by simp, ha, by simpa using hstop⟩
      | cons q ps =>
          rw [List.forall_mem_cons] at hcomma
          rw [runPieces, matchStart_run_comma_iff hcomma.1]
          constructor
          · rintro ⟨a, rest, us, ha, rfl, hus, rfl⟩
            obtain ⟨parts, after, hparts, rfl, hstop, rfl⟩ :=
              (ih (List.cons_ne_nil q ps) hcomma.2).1 hus
            obtain ⟨b, bs, -, -, rfl⟩ := List.forall₂_cons_left_iff.1 hparts
            exact ⟨a :: b :: bs, after, .cons ha hparts, by simp, by simpa using hstop, rfl⟩
          · rintro ⟨parts, after, hparts, rfl, hstop, rfl⟩
            obtain ⟨a, us, ha, hus, rfl⟩ := List.forall₂_cons_left_iff.1 hparts
            obtain ⟨b, bs, -, -, rfl⟩ := List.forall₂_cons_left_iff.1 hus
            refine ⟨a, [','].intercalate (b :: bs) ++ after, _, ha, by simp, ?_, rfl⟩
            exact (ih (List.cons_ne_nil q ps) hcomma.2).2
              ⟨b :: bs, after, hus, rfl, by simpa using hstop, rfl⟩

/-- Where the runs start a text they match, for the last run can be made as long as it gets. -/
theorem exists_matchStart_runPieces {ps : List (Char → Bool)} (hne : ps ≠ [])
    (hcomma : ∀ p ∈ ps, p ',' = false) {parts : List Text}
    (hparts : List.Forall₂ (fun p => (Piece.oneOrMore p).Takes) ps parts) (rest : Text) :
    ∃ ts, matchStart (runPieces ps) ([','].intercalate parts ++ rest) = some ts := by
  induction hparts with
  | nil => exact absurd rfl hne
  | @cons p a ps parts ha hparts ih =>
      cases hparts with
      | nil =>
          refine ⟨_, matchStart_oneOrMore_last_iff.2
            ⟨a ++ rest.takeWhile p, rest.dropWhile p, rfl, by simp, ⟨by simp [ha.1], ?_⟩, ?_⟩⟩
          · intro c hc
            rcases List.mem_append.1 hc with hc | hc
            · exact ha.2 c hc
            · exact List.mem_takeWhile_imp hc
          · intro c hc
            have hstop := List.head?_dropWhile_not p rest
            rwa [hc] at hstop
      | cons hb hparts =>
          rw [List.forall_mem_cons] at hcomma
          obtain ⟨us, hus⟩ := ih (List.cons_ne_nil _ _) hcomma.2
          exact ⟨_, (matchStart_run_comma_iff hcomma.1).2 ⟨a, _, us, ha, by simp, hus, rfl⟩⟩

end Pattern

/-! ## The first form in a text -/

namespace Format

theorem pieces_eq (f : Format) : f.pieces = Pattern.runPieces f.classes := by
  cases f <;> rfl

theorem classes_ne_nil {f : Format} (hf : f ≠ .halt) : f.classes ≠ [] := by
  cases f with
  | halt => exact absurd rfl hf
  | _ => exact List.cons_ne_nil _ _

theorem classes_comma (f : Format) : ∀ p ∈ f.classes, p ',' = false := by
  have hdigit : Text.isAsciiDigit ',' = false := by decide
  have hword : Text.isOperandChar ',' = false := by decide +kernel
  cases f <;> simp [classes, hdigit, hword]

theorem groups_intersperse (parts : List Text) (sep : Text) :
    groups (parts.intersperse sep) = parts := by
  induction parts with
  | nil => rfl
  | cons a parts ih =>
      cases parts with
      | nil => rfl
      | cons b parts => rw [List.intersperse_cons_cons, groups, ih]

/-- A format matches at the start of a text exactly when its form starts the text and cannot go
on. -/
theorem matchStart_pieces_iff {f : Format} (hf : f ≠ .halt) {t : Text} {ts : List Text} :
    Pattern.matchStart f.pieces t = some ts ↔
      ∃ parts rest, f.IsParts parts ∧ t = [','].intercalate parts ++ rest ∧
        (∀ c ∈ rest.head?, ∀ p ∈ f.classes.getLast?, p c = false) ∧
        ts = parts.intersperse [','] := by
  rw [pieces_eq]
  exact Pattern.matchStart_runPieces_iff (classes_ne_nil hf) f.classes_comma

theorem starts_iff {f : Format} (hf : f ≠ .halt) (t : Text) :
    f.Starts t ↔ Pattern.matchStart f.pieces t ≠ none := by
  rw [Option.ne_none_iff_exists']
  constructor
  · rintro ⟨parts, rest, hparts, rfl⟩
    rw [pieces_eq]
    exact Pattern.exists_matchStart_runPieces (classes_ne_nil hf) f.classes_comma hparts rest
  · rintro ⟨ts, hts⟩
    obtain ⟨parts, rest, hparts, rfl, -, -⟩ := (matchStart_pieces_iff hf).1 hts
    exact ⟨parts, rest, hparts, rfl⟩

theorem IsParts.length_pos {f : Format} (hf : f ≠ .halt) {parts : List Text}
    (h : f.IsParts parts) : 0 < ([','].intercalate parts).length := by
  obtain ⟨p, ps, hclasses⟩ := List.exists_cons_of_ne_nil (classes_ne_nil hf)
  rw [IsParts, hclasses] at h
  obtain ⟨a, us, ⟨hne, -⟩, -, rfl⟩ := List.forall₂_cons_left_iff.1 h
  cases us with
  | nil => simpa [List.length_pos_iff] using hne
  | cons b us => exact List.length_pos_iff.2 (by simp)

/-- The operands found first in a text are the parts of its first form. -/
theorem findOperands_head?_eq_some_iff {f : Format} (hf : f ≠ .halt) {t : Text}
    {parts : List Text} :
    (f.findOperands t).head? = some parts ↔ ∃ before after, f.FirstForm t before parts after := by
  rw [findOperands, List.head?_map, Option.map_eq_some_iff]
  constructor
  · rintro ⟨ts, hts, rfl⟩
    obtain ⟨k, hk, hmatch, hfirst⟩ := Pattern.allMatches_head?_eq_some_iff.1 hts
    obtain ⟨parts, after, hparts, hdrop, hstop, rfl⟩ := (matchStart_pieces_iff hf).1 hmatch
    rw [groups_intersperse]
    refine ⟨t.take k, after, by rw [← hdrop, List.take_append_drop], hparts, ?_, hstop⟩
    intro j hj
    rw [starts_iff hf, not_not]
    exact hfirst j (by simp at hj; omega)
  · rintro ⟨before, after, h⟩
    refine ⟨parts.intersperse [','], Pattern.allMatches_head?_eq_some_iff.2 ?_,
      groups_intersperse parts [',']⟩
    have hpos := h.isParts.length_pos hf
    have hdrop : t.drop before.length = [','].intercalate parts ++ after := by
      rw [h.text_eq, List.drop_left]
    refine ⟨before.length, ?_, ?_, ?_⟩
    · rw [h.text_eq]
      simp only [List.length_append]
      omega
    · exact (matchStart_pieces_iff hf).2 ⟨parts, after, h.isParts, hdrop, h.stops, rfl⟩
    · intro j hj
      exact not_not.1 (mt (starts_iff hf _).2 (h.first j hj))

/-- A text is of the form as a whole exactly when its first form leaves nothing unused. -/
theorem FirstForm.isForm_iff {f : Format} (hf : f ≠ .halt) {t before : Text} {parts : List Text}
    {after : Text} (h : f.FirstForm t before parts after) :
    f.IsForm t ↔ before = [] ∧ after = [] := by
  constructor
  · rintro ⟨whole, hwhole, ht⟩
    -- The form starts the text, so it is found there.
    have hbefore : before = [] := by
      by_contra hne
      exact h.first 0 (List.length_pos_iff.2 hne) ⟨whole, [], hwhole, by simpa using ht⟩
    subst hbefore
    -- A match at the start of the text has one way to go, so it takes the whole text.
    have hmatch := (matchStart_pieces_iff hf).2 ⟨parts, after, h.isParts, h.text_eq, h.stops, rfl⟩
    have hmatch' := (matchStart_pieces_iff hf).2
      ⟨whole, [], hwhole, by simpa using ht, by simp, rfl⟩
    have hparts : parts = whole := by
      have hsame := Option.some.inj (hmatch.symm.trans hmatch')
      rw [← groups_intersperse parts [','], hsame, groups_intersperse]
    refine ⟨rfl, ?_⟩
    have htext := h.text_eq
    rw [ht, hparts] at htext
    simpa using htext
  · rintro ⟨rfl, rfl⟩
    exact ⟨parts, h.isParts, by simpa using h.text_eq⟩

end Format

/-! ## Acceptance -/

namespace Operands

theorem Denotes.parts_ne_nil {m : Mnemonic} {f : Format} {parts : List Text} {o : Operands}
    (h : Denotes m f parts o) : parts ≠ [] := by
  cases h <;> exact List.cons_ne_nil _ _

theorem read_eq_ok_iff_firstForm {f : Format} (hf : f ≠ .halt) {i : Instruction} {o : Operands} :
    read f i = .ok o ↔ ∃ before parts after, f.FirstForm i.operands before parts after ∧
      Denotes i.mnemonic f parts o := by
  simp only [read_eq_ok_iff, hf, false_and, false_or, ne_eq, not_false_eq_true, true_and]
  constructor
  · intro h
    cases hfound : (f.findOperands i.operands).head? with
    | none =>
        rw [hfound] at h
        exact absurd rfl h.parts_ne_nil
    | some parts =>
        rw [hfound] at h
        obtain ⟨before, after, hfirst⟩ := (Format.findOperands_head?_eq_some_iff hf).1 hfound
        exact ⟨before, parts, after, hfirst, h⟩
  · rintro ⟨before, parts, after, hfirst, h⟩
    rw [(Format.findOperands_head?_eq_some_iff hf).2 ⟨before, after, hfirst⟩]
    exact h

end Operands

/-- An encoder accepts an operand text exactly when the first form in it denotes operands, whatever
stands around that form.  The text as a whole is of the form exactly when nothing does. -/
theorem ofInstruction_accepts_first_form {f : Format} (hf : f ≠ .halt) (i : Instruction) :
    (∀ e, Encoder.ofInstruction f i = .ok e ↔
      ∃ before parts after o, f.FirstForm i.operands before parts after ∧
        Operands.Denotes i.mnemonic f parts o ∧ e = ⟨i, o, Encoder.blankField⟩) ∧
    ∀ before parts after, f.FirstForm i.operands before parts after →
      (f.IsForm i.operands ↔ before = [] ∧ after = []) := by
  refine ⟨fun e => ?_, fun before parts after h => h.isForm_iff hf⟩
  rw [Encoder.ofInstruction_eq_ok_iff]
  constructor
  · rintro ⟨o, ho, rfl⟩
    obtain ⟨before, parts, after, hfirst, hdenotes⟩ :=
      (Operands.read_eq_ok_iff_firstForm hf).1 ho
    exact ⟨before, parts, after, o, hfirst, hdenotes, rfl⟩
  · rintro ⟨before, parts, after, o, hfirst, hdenotes, rfl⟩
    exact ⟨o, (Operands.read_eq_ok_iff_firstForm hf).2 ⟨before, parts, after, hfirst, hdenotes⟩,
      rfl⟩

/-- A hyphen before the first number is passed over, and the text is accepted all the same. -/
theorem ofInstruction_accepts_first_form_hyphen :
    Encoder.ofInstruction .register ⟨.add, "-1,2,3".toList, none⟩ =
      .ok ⟨⟨.add, "-1,2,3".toList, none⟩, .register 1 2 3, Encoder.blankField⟩ ∧
    ¬ Format.register.IsForm "-1,2,3".toList := by
  have hfirst : Format.register.FirstForm "-1,2,3".toList ['-'] [['1'], ['2'], ['3']] [] := by
    refine ⟨rfl, ?_, ?_, by simp⟩
    · have hrun : ∀ c, Text.isAsciiDigit c = true →
          (Piece.oneOrMore Text.isAsciiDigit).Takes [c] :=
        fun c hc => ⟨List.cons_ne_nil c [], by simpa using hc⟩
      exact .cons (hrun '1' rfl) (.cons (hrun '2' rfl) (.cons (hrun '3' rfl) .nil))
    · intro j hj
      obtain rfl : j = 0 := by simpa using hj
      rw [Format.starts_iff (by decide)]
      decide
  obtain ⟨haccepts, hform⟩ :=
    ofInstruction_accepts_first_form (f := .register) (by decide) ⟨.add, "-1,2,3".toList, none⟩
  constructor
  · exact (haccepts _).2 ⟨_, _, _, _, hfirst, .register rfl rfl rfl (by decide), rfl⟩
  · rw [hform _ _ _ hfirst]
    simp

end WordAsm
