import Mathlib.Logic.Relation
import WordAsm.Intake
import WordAsm.Proofs.LineFields

/-!
# Comments, empty lines and outer white space

Some of a source is not there to be read: lines with nothing but white space or a comment, comments
at the end of other lines, and white space around what a line says.  Programs that differ in this
alone have the same kept lines, and so they are laid out and encoded alike, with the same line
numbers.  Every list of lines comes from its kept lines in this way, so nothing else is cut off.

Taking in a program writes the cleaned lines back.  Taking them in once more changes nothing.
White space inside a line is another matter, since its width may change what the line says.
-/

namespace WordAsm

namespace Line

/-- White space of any kind, possibly none. -/
def IsBlankRun (w : Text) : Prop :=
  ∀ c ∈ w, Text.isBlank c = true

/-- What may stand at the end of a line: nothing, or a hash sign and any text. -/
def IsRemark (u : Text) : Prop :=
  u = [] ∨ ∃ v, u = '#' :: v

/-- A line with nothing to read: white space and a remark. -/
inductive IsIdle : Text → Prop
  | intro {w u : Text} (hw : IsBlankRun w) (hu : IsRemark u) : IsIdle (w ++ u)

/-- One change to what is not read of a line. -/
inductive Retouch : Text → Text → Prop
  /-- A comment is added at the end. -/
  | comment (t u : Text) : Retouch t (t ++ '#' :: u)
  /-- White space is added at the start. -/
  | indent {w : Text} (hw : IsBlankRun w) (t : Text) : Retouch t (w ++ t)
  /-- White space is added before the comment, or at the end of a line without one. -/
  | space {a w u : Text} (ha : '#' ∉ a) (hw : IsBlankRun w) (hu : IsRemark u) :
      Retouch (a ++ u) (a ++ (w ++ u))

/-- One change to what is not read of a program. -/
inductive ProgramRetouch : List Text → List Text → Prop
  /-- A line with nothing to read is added. -/
  | insert (first last : List Text) {line : Text} (h : IsIdle line) :
      ProgramRetouch (first ++ last) (first ++ line :: last)
  /-- One of the lines is changed. -/
  | change (first last : List Text) {line line' : Text} (h : Retouch line line') :
      ProgramRetouch (first ++ line :: last) (first ++ line' :: last)

/-! ## Cleaning -/

/-- A line is what may be read of it and a remark. -/
theorem exists_eq_append_remark (t : Text) : ∃ a u, '#' ∉ a ∧ IsRemark u ∧ t = a ++ u := by
  refine ⟨t.takeWhile (· != '#'), t.dropWhile (· != '#'), ?_, ?_,
    List.takeWhile_append_dropWhile.symm⟩
  · intro hmem
    have hne := List.mem_takeWhile_imp hmem
    simp at hne
  · cases hrest : t.dropWhile (· != '#') with
    | nil => exact .inl rfl
    | cons c v =>
        have hnot := List.head?_dropWhile_not (· != '#') t
        rw [hrest] at hnot
        have hc : c = '#' := by simpa using hnot
        exact .inr ⟨v, by rw [hc]⟩

/-- The remark is cut off, and the white space around the rest. -/
theorem clean_append_remark {a u : Text} (ha : '#' ∉ a) (hu : IsRemark u) :
    clean (a ++ u) = Text.trim a := by
  have hkeep : ∀ c ∈ a, (c != '#') = true := by
    intro c hc
    have hne : c ≠ '#' := fun heq => ha (heq ▸ hc)
    simpa using hne
  have hcut : u.takeWhile (· != '#') = [] := by
    rcases hu with rfl | ⟨v, rfl⟩ <;> simp
  rw [clean, List.takeWhile_append_of_pos hkeep, hcut, List.append_nil]

theorem hash_notMem_of_isBlankRun {w : Text} (hw : IsBlankRun w) : '#' ∉ w := by
  intro hmem
  exact absurd (hw '#' hmem) (by decide)

theorem trim_of_isBlankRun {w : Text} (hw : IsBlankRun w) : Text.trim w = [] := by
  show Text.trim ([] ++ w) = []
  rw [Text.trim_append_blank [] hw]
  rfl

/-- A line with nothing to read is cleaned to nothing. -/
theorem IsIdle.clean_eq {t : Text} (h : IsIdle t) : clean t = [] := by
  cases h with
  | intro hw hu =>
      rw [clean_append_remark (hash_notMem_of_isBlankRun hw) hu, trim_of_isBlankRun hw]

/-- A line that is cleaned to nothing has nothing to read. -/
theorem isIdle_of_clean_eq_nil {t : Text} (h : clean t = []) : IsIdle t := by
  obtain ⟨a, u, ha, hu, rfl⟩ := exists_eq_append_remark t
  rw [clean_append_remark ha hu] at h
  obtain ⟨v, w, hv, hw, heq⟩ := Text.exists_eq_append_trim a
  rw [h, List.nil_append] at heq
  refine .intro ?_ hu
  intro c hc
  rw [heq] at hc
  exact (List.mem_append.1 hc).elim (hv c) (hw c)

theorem Retouch.clean_eq {t t' : Text} (h : Retouch t t') : clean t' = clean t := by
  cases h with
  | comment t u =>
      obtain ⟨a, v, ha, hv, rfl⟩ := exists_eq_append_remark t
      have hremark : IsRemark (v ++ '#' :: u) := by
        rcases hv with rfl | ⟨x, rfl⟩
        · exact .inr ⟨u, rfl⟩
        · exact .inr ⟨x ++ '#' :: u, rfl⟩
      rw [List.append_assoc, clean_append_remark ha hremark, clean_append_remark ha hv]
  | @indent w hw t =>
      obtain ⟨a, u, ha, hu, rfl⟩ := exists_eq_append_remark t
      have hwa : '#' ∉ w ++ a := by
        simp [ha, hash_notMem_of_isBlankRun hw]
      rw [← List.append_assoc, clean_append_remark hwa hu, clean_append_remark ha hu,
        Text.trim_blank_append hw]
  | @space a w u ha hw hu =>
      have haw : '#' ∉ a ++ w := by
        simp [ha, hash_notMem_of_isBlankRun hw]
      rw [← List.append_assoc, clean_append_remark haw hu, clean_append_remark ha hu,
        Text.trim_append_blank a hw]

/-- Any line comes from the cleaned one by such changes. -/
theorem retouches_clean (t : Text) : Relation.ReflTransGen Retouch (clean t) t := by
  obtain ⟨a, u, ha, hu, rfl⟩ := exists_eq_append_remark t
  obtain ⟨v, w, hv, hw, heq⟩ := Text.exists_eq_append_trim a
  have hclean : clean (a ++ u) = Text.trim a := clean_append_remark ha hu
  have htrim : '#' ∉ Text.trim a := by
    intro hmem
    apply ha
    rw [heq]
    simp [hmem]
  have hremark : Relation.ReflTransGen Retouch (Text.trim a) (Text.trim a ++ u) := by
    rcases hu with rfl | ⟨x, rfl⟩
    · rw [List.append_nil]
    · exact .single (.comment _ x)
  have hspace : Retouch (Text.trim a ++ u) (Text.trim a ++ (w ++ u)) := .space htrim hw hu
  have hindent : Retouch (Text.trim a ++ (w ++ u)) (v ++ (Text.trim a ++ (w ++ u))) :=
    .indent hv _
  have hline : a ++ u = v ++ (Text.trim a ++ (w ++ u)) := by
    conv_lhs => rw [heq]
    simp
  rw [hclean, hline]
  exact (hremark.tail hspace).tail hindent

/-- What is left of a line is clean. -/
theorem isClean_clean {t : Text} (h : clean t ≠ []) : IsClean (clean t) := by
  obtain ⟨a, u, ha, hu, rfl⟩ := exists_eq_append_remark t
  rw [clean_append_remark ha hu] at h ⊢
  obtain ⟨v, w, -, -, heq⟩ := Text.exists_eq_append_trim a
  refine ⟨h, fun c hc => Text.not_isBlank_of_mem_head?_trim hc,
    fun c hc => Text.not_isBlank_of_mem_getLast?_trim hc, ?_⟩
  rintro c hc rfl
  apply ha
  rw [heq]
  simp [hc]

theorem clean_clean (t : Text) : clean (clean t) = clean t := by
  by_cases hnil : clean t = []
  · rw [hnil]
    rfl
  · exact (isClean_clean hnil).clean_eq

/-! ## Kept lines -/

theorem kept_append (first last : List Text) : kept (first ++ last) = kept first ++ kept last := by
  simp [kept]

theorem kept_cons_of_nil {line : Text} (h : clean line = []) (rest : List Text) :
    kept (line :: rest) = kept rest := by
  simp [kept, h]

theorem kept_cons_of_ne_nil {line : Text} (h : clean line ≠ []) (rest : List Text) :
    kept (line :: rest) = clean line :: kept rest := by
  simp [kept, h]

theorem isClean_of_mem_kept {lines : List Text} {line : Text} (h : line ∈ kept lines) :
    IsClean line := by
  obtain ⟨hmem, hne⟩ := List.mem_filter.1 h
  obtain ⟨t, -, rfl⟩ := List.mem_map.1 hmem
  exact isClean_clean (by simpa using hne)

theorem map_clean_clean (lines : List Text) : (lines.map clean).map clean = lines.map clean := by
  rw [List.map_map]
  exact List.map_congr_left fun line _ => clean_clean line

theorem kept_map_clean (lines : List Text) : kept (lines.map clean) = kept lines := by
  rw [kept, map_clean_clean, kept]

theorem ProgramRetouch.kept_eq {lines lines' : List Text} (h : ProgramRetouch lines lines') :
    kept lines' = kept lines := by
  cases h with
  | insert first last hidle =>
      rw [kept_append, kept_cons_of_nil hidle.clean_eq, ← kept_append]
  | change first last hline =>
      rw [kept, kept]
      simp [hline.clean_eq]

theorem ProgramRetouch.cons {lines lines' : List Text} (h : ProgramRetouch lines lines')
    (line : Text) : ProgramRetouch (line :: lines) (line :: lines') := by
  cases h with
  | insert first last hidle => exact .insert (line :: first) last hidle
  | change first last hline => exact .change (line :: first) last hline

/-- Any list of lines comes from its kept lines by changes to what is not read. -/
theorem retouches_kept (lines : List Text) :
    Relation.ReflTransGen ProgramRetouch (kept lines) lines := by
  induction lines with
  | nil => exact .refl
  | cons line rest ih =>
      by_cases hnil : clean line = []
      · rw [kept_cons_of_nil hnil]
        exact ih.tail (.insert [] rest (isIdle_of_clean_eq_nil hnil))
      · rw [kept_cons_of_ne_nil hnil]
        -- First the other lines are changed, then this one.
        have hrest : Relation.ReflTransGen ProgramRetouch (clean line :: kept rest)
            (clean line :: rest) := ih.lift (clean line :: ·) fun _ _ h => h.cons (clean line)
        have hline : Relation.ReflTransGen ProgramRetouch (clean line :: rest) (line :: rest) :=
          (retouches_clean line).lift (· :: rest) fun _ _ h => .change [] rest h
        exact hrest.trans hline

/-- Programs have the same kept lines exactly when they differ in what is not read. -/
theorem eqvGen_retouch_iff {lines lines' : List Text} :
    Relation.EqvGen ProgramRetouch lines lines' ↔ kept lines = kept lines' := by
  constructor
  · intro h
    induction h with
    | rel lines lines' h => exact h.kept_eq.symm
    | refl lines => rfl
    | symm lines lines' _ ih => exact ih.symm
    | trans lines middle lines' _ _ ih ih' => exact ih.trans ih'
  · intro h
    have hfirst := Relation.EqvGen.reflTransGen_le_eqvGen _ _ _ (retouches_kept lines)
    have hsecond := Relation.EqvGen.reflTransGen_le_eqvGen _ _ _ (retouches_kept lines')
    rw [← h] at hsecond
    exact .trans _ _ _ (.symm _ _ hfirst) hsecond

end Line

/-! ## Taking in a program -/

namespace Intake

theorem cleanFrom_fst (place : Nat) (lines : List Text) :
    (cleanFrom place lines).1 = lines.map Line.clean := by
  induction lines generalizing place with
  | nil => rfl
  | cons line rest ih => rw [cleanFrom, List.map_cons, ih]

/-- The noted places are those at which nothing is left. -/
theorem mem_cleanFrom_snd_iff {place : Nat} {lines : List Text} {k : Nat} :
    k ∈ (cleanFrom place lines).2 ↔
      ∃ i, k = place + i ∧ (lines.map Line.clean)[i]? = some [] := by
  induction lines generalizing place with
  | nil => simp [cleanFrom]
  | cons line rest ih =>
      rw [← Nat.or_exists_add_one]
      have hrest : (∃ i, k = place + (i + 1) ∧
          ((line :: rest).map Line.clean)[i + 1]? = some []) ↔
            k ∈ (cleanFrom (place + 1) rest).2 := by
        rw [ih]
        simp [Nat.add_assoc, Nat.add_comm 1]
      rw [hrest, cleanFrom]
      by_cases hnil : Line.clean line = [] <;> simp [hnil]

/-- Dropping the places of the empty lines keeps the other lines. -/
theorem keepFrom_eq_filter {dropped : List Nat} {place : Nat} {lines : List Text}
    (h : ∀ i line, lines[i]? = some line → (place + i ∈ dropped ↔ line = [])) :
    keepFrom dropped place lines = lines.filter (!·.isEmpty) := by
  induction lines generalizing place with
  | nil => rfl
  | cons line rest ih =>
      have hrest : keepFrom dropped (place + 1) rest = rest.filter (!·.isEmpty) := by
        apply ih
        intro i line' hline'
        rw [show place + 1 + i = place + (i + 1) by omega]
        exact h (i + 1) line' hline'
      have hhere : place ∈ dropped ↔ line = [] := h 0 line rfl
      rw [keepFrom, hrest]
      by_cases hnil : line = [] <;> simp [hhere, hnil]

/-- Taking in a program cleans the caller's lines, all of them, and lays the kept ones out. -/
theorem ofLines_eq (table : LabelTable) (lines : List Text) :
    ofLines table lines = ⟨lines.map Line.clean, Line.kept lines, Layout.ofLines table lines⟩ := by
  have hkept : keepFrom (cleanFrom 0 lines).2 0 (lines.map Line.clean) = Line.kept lines := by
    apply keepFrom_eq_filter
    intro i line hline
    rw [mem_cleanFrom_snd_iff]
    constructor
    · rintro ⟨i', hi, hnil⟩
      obtain rfl : i = i' := by omega
      exact Option.some.inj (hline.symm.trans hnil)
    · rintro rfl
      exact ⟨i, rfl, hline⟩
  rw [ofLines, cleanFrom_fst]
  simp only [hkept, Layout.ofLines]

end Intake

/-- An assembly depends on the kept lines. -/
theorem assemble_congr {lines lines' : List Text} (h : Line.kept lines = Line.kept lines')
    (table : LabelTable) : assemble table lines = assemble table lines' := by
  rw [assemble, assemble, Layout.ofLines, Layout.ofLines, h]

/-- Programs that differ in comments, empty lines and outer white space only have the same kept
lines, layout, line numbers, labels and code, or the same refusal.  The lines as they are written
back by taking in a program are taken in again with the same outcome, and are not changed. -/
theorem retouched_program_is_the_same {lines lines' : List Text}
    (h : Relation.EqvGen Line.ProgramRetouch lines lines') (table : LabelTable) :
    (Intake.ofLines table lines').kept = (Intake.ofLines table lines).kept ∧
      (Intake.ofLines table lines').layout = (Intake.ofLines table lines).layout ∧
      assemble table lines' = assemble table lines ∧
      Intake.ofLines table (Intake.ofLines table lines).lines = Intake.ofLines table lines ∧
      assemble table (Intake.ofLines table lines).lines = assemble table lines := by
  have hkept : Line.kept lines' = Line.kept lines := (Line.eqvGen_retouch_iff.1 h).symm
  have hagain := Line.kept_map_clean lines
  simp only [Intake.ofLines_eq, Layout.ofLines, hkept, hagain, Line.map_clean_clean]
  exact ⟨trivial, trivial, assemble_congr hkept table, trivial, assemble_congr hagain table⟩

/-- A loop that ends nowhere, and a halt with a label that is there already. -/
def bareLoop : List Text :=
  ["loop beq 1,2,loop".toList, "loop halt".toList]

/-- The same with comments, empty lines and white space of several kinds. -/
def remarkedLoop : List Text :=
  ["".toList, " \u2003# start".toList, "\t loop beq 1,2,loop \t# again # and again".toList,
    "\u00a0".toList, "loop halt#".toList]

theorem retouched_program_is_the_same_loop :
    Relation.EqvGen Line.ProgramRetouch bareLoop remarkedLoop ∧
      (assemble ∅ bareLoop).1 = .misplaced (.definedLabel "loop".toList 1) ∧
      (assemble ∅ remarkedLoop).1 = .misplaced (.definedLabel "loop".toList 1) ∧
      (Intake.ofLines ∅ remarkedLoop).kept = bareLoop := by
  have hedits : Relation.EqvGen Line.ProgramRetouch bareLoop remarkedLoop :=
    Line.eqvGen_retouch_iff.2 (by decide +kernel)
  have hrefused : (assemble ∅ bareLoop).1 = .misplaced (.definedLabel "loop".toList 1) := by
    decide +kernel
  have hbare : (Intake.ofLines ∅ bareLoop).kept = bareLoop := by decide +kernel
  obtain ⟨hkept, -, hassemble, -⟩ := retouched_program_is_the_same hedits ∅
  exact ⟨hedits, hrefused, by rw [hassemble, hrefused], hkept.trans hbare⟩

end WordAsm
