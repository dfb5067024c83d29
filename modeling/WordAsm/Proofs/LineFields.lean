import Mathlib.Data.List.TakeWhile
import WordAsm.Line
import WordAsm.Proofs.Character
import WordAsm.Proofs.Pattern

/-!
# Lines of fields

A line that starts and ends with a field is kept as it is.  Its command reaches to the last
blank, and before it stands a label if the first field can be one and a blank is left over for
the command to end at.

With single gaps the split gives the fields back: three of them if the first is a label, two of
them without a label.  A gap of three or more blanks after a label has room for a command of one
blank and a gap, so of two fields that far apart the first is taken for a label.
-/

namespace WordAsm.Line

/-- A field: a nonempty text without white space and without the comment sign. -/
structure IsField (t : Text) : Prop where
  ne_nil : t ≠ []
  not_blank : ∀ c ∈ t, Text.isBlank c = false
  not_comment : ∀ c ∈ t, c ≠ '#'

instance (t : Text) : Decidable (IsField t) :=
  decidable_of_iff
    (t ≠ [] ∧ t.all (!Text.isBlank ·) = true ∧ t.all (· != '#') = true)
    ⟨fun h => ⟨h.1, by simpa using h.2.1, by simpa using h.2.2⟩,
      fun h => ⟨h.ne_nil, by simpa using h.not_blank, by simpa using h.not_comment⟩⟩

/-- A label: a letter and then word characters. -/
def IsLabel : Text → Prop
  | [] => False
  | c :: s => Text.isAsciiLetter c = true ∧ s.all Text.isWordChar = true

instance : (t : Text) → Decidable (IsLabel t)
  | [] => isFalse id
  | _ :: _ => inferInstanceAs (Decidable (_ ∧ _))

/-- A line that cleaning leaves as it is. -/
structure IsClean (t : Text) : Prop where
  ne_nil : t ≠ []
  first : ∀ c ∈ t.head?, Text.isBlank c = false
  last : ∀ c ∈ t.getLast?, Text.isBlank c = false
  not_comment : ∀ c ∈ t, c ≠ '#'

theorem IsField.isClean {t : Text} (h : IsField t) : IsClean t :=
  ⟨h.ne_nil, fun c hc => h.not_blank c (List.mem_of_mem_head? hc),
    fun c hc => h.not_blank c (List.mem_of_mem_getLast? hc), h.not_comment⟩

/-- A gap: spaces and tabs, at least one. -/
structure IsGapRun (g : Text) : Prop where
  ne_nil : g ≠ []
  isGap : ∀ c ∈ g, Text.isGap c = true

instance (g : Text) : Decidable (IsGapRun g) :=
  decidable_of_iff (g ≠ [] ∧ g.all Text.isGap = true)
    ⟨fun h => ⟨h.1, List.all_eq_true.1 h.2⟩, fun h => ⟨h.ne_nil, List.all_eq_true.2 h.isGap⟩⟩

theorem IsGapRun.single : IsGapRun [' '] := by
  decide

theorem IsClean.append_gapRun {a g b : Text} (ha : IsClean a) (hg : IsGapRun g) (hb : IsClean b) :
    IsClean (a ++ (g ++ b)) := by
  obtain ⟨x, a, rfl⟩ := List.exists_cons_of_ne_nil ha.ne_nil
  refine ⟨List.cons_ne_nil _ _, ha.first, ?_, ?_⟩
  · have hlast : (x :: a ++ (g ++ b)).getLast? = b.getLast? := by
      rw [← List.append_assoc, List.getLast?_append_of_ne_nil _ hb.ne_nil]
    rw [hlast]
    exact hb.last
  · intro c hc
    rcases List.mem_append.1 hc with hc | hc
    · exact ha.not_comment c hc
    · rcases List.mem_append.1 hc with hc | hc
      · rintro rfl
        exact absurd (hg.isGap _ hc) (by decide)
      · exact hb.not_comment c hc

theorem IsClean.append_gap {a b : Text} (ha : IsClean a) (hb : IsClean b) :
    IsClean (a ++ ' ' :: b) :=
  ha.append_gapRun .single hb

theorem IsClean.clean_eq {t : Text} (h : IsClean t) : clean t = t := by
  have htake : t.takeWhile (· != '#') = t := by
    rw [List.takeWhile_eq_self_iff]
    intro c hc
    simpa using h.not_comment c hc
  rw [clean, htake, Text.trim_of_ends h.first h.last]

theorem kept_of_isClean {lines : List Text} (h : ∀ line ∈ lines, IsClean line) :
    kept lines = lines := by
  have hclean : lines.map clean = lines := by
    rw [List.map_congr_left (g := id) fun line hline => (h line hline).clean_eq, List.map_id]
  rw [kept, hclean, List.filter_eq_self]
  intro line hline
  simpa using (h line hline).ne_nil

theorem IsField.inLine {t : Text} (h : IsField t) : ∀ c ∈ t, inLine c = true := by
  intro c hc
  have hne := Text.ne_of_isBlank (d := '\n') (h.not_blank c hc) (by decide)
  simpa [Line.inLine] using hne

theorem IsField.not_gap {t : Text} (h : IsField t) : ∀ c ∈ t, Text.isGap c = false :=
  fun c hc => Text.not_isGap_of_not_isBlank (h.not_blank c hc)

theorem IsLabel.exists_cons {t : Text} (h : IsLabel t) : ∃ c s, t = c :: s ∧
    Text.isAsciiLetter c = true ∧ ∀ d ∈ s, Text.isWordChar d = true := by
  cases t with
  | nil => cases h
  | cons c s => exact ⟨c, s, rfl, h.1, List.all_eq_true.1 h.2⟩

theorem IsLabel.isWordChar {t : Text} (h : IsLabel t) : ∀ c ∈ t, Text.isWordChar c = true := by
  obtain ⟨c, s, rfl, hc, hs⟩ := h.exists_cons
  intro d hd
  rcases List.mem_cons.1 hd with rfl | hd
  · exact Text.isWordChar_of_isAsciiLetter hc
  · exact hs d hd

theorem isField_of_isOperandChar {t : Text} (hne : t ≠ [])
    (h : ∀ c ∈ t, Text.isOperandChar c = true) : IsField t :=
  ⟨hne, fun c hc => Text.not_isBlank_of_isOperandChar (h c hc),
    fun c hc => Text.ne_of_isOperandChar (h c hc) (by decide +kernel)⟩

theorem IsLabel.isField {t : Text} (h : IsLabel t) : IsField t := by
  have hne : t ≠ [] := by
    obtain ⟨c, s, rfl, -⟩ := h.exists_cons
    exact List.cons_ne_nil c s
  exact isField_of_isOperandChar hne
    fun c hc => Text.isOperandChar_of_isWordChar (h.isWordChar c hc)

theorem IsGapRun.exists_last {g : Text} (h : IsGapRun g) :
    ∃ before x, g = before ++ [x] ∧ (∀ c ∈ before, Text.isGap c = true) ∧
      Text.isGap x = true := by
  refine ⟨g.dropLast, g.getLast h.ne_nil, (List.dropLast_append_getLast h.ne_nil).symm, ?_, ?_⟩
  · exact fun c hc => h.isGap c (List.dropLast_subset g hc)
  · exact h.isGap _ (List.getLast_mem h.ne_nil)

/-- A wide gap is a gap with two more blanks. -/
theorem IsGapRun.exists_wide {g : Text} (h : IsGapRun g) (hwide : 3 ≤ g.length) :
    ∃ before x y, g = before ++ [x, y] ∧ IsGapRun before ∧ Text.isGap x = true ∧
      Text.isGap y = true := by
  obtain ⟨init, y, rfl, hinit, hy⟩ := h.exists_last
  rw [List.length_append, List.length_singleton] at hwide
  have hrun : IsGapRun init := ⟨List.ne_nil_of_length_pos (by omega), hinit⟩
  obtain ⟨before, x, rfl, hbefore, hx⟩ := hrun.exists_last
  rw [List.length_append, List.length_singleton] at hwide
  exact ⟨before, x, y, by simp, ⟨List.ne_nil_of_length_pos (by omega), hbefore⟩, hx, hy⟩

theorem inLine_of_isGap {c : Char} (h : Text.isGap c = true) : inLine c = true := by
  simp only [Text.isGap, Bool.or_eq_true, decide_eq_true_eq] at h
  rcases h with rfl | rfl <;> decide

theorem inLine_append_gap {t u : Text} (ht : ∀ c ∈ t, inLine c = true)
    (hu : ∀ c ∈ u, Text.isGap c = true) : ∀ c ∈ t ++ u, inLine c = true := by
  intro c hc
  rcases List.mem_append.1 hc with hc | hc
  · exact ht c hc
  · exact inLine_of_isGap (hu c hc)

theorem IsField.not_gap_first {t : Text} (h : IsField t) (u : Text) :
    ∀ c ∈ (t ++ u).head?, Text.isGap c = false := by
  obtain ⟨x, t, rfl⟩ := List.exists_cons_of_ne_nil h.ne_nil
  intro c hc
  obtain rfl : x = c := Option.some.inj hc
  exact h.not_gap x List.mem_cons_self

/-- Blanks after a clean text are cut off. -/
theorem IsClean.trim_append_gap {t u : Text} (h : IsClean t)
    (hu : ∀ c ∈ u, Text.isGap c = true) : Text.trim (t ++ u) = t := by
  rw [Text.trim_append_blank t fun c hc => Text.isBlank_of_isGap (hu c hc),
    Text.trim_of_ends h.first h.last]

theorem not_isWordChar_of_isGap {c : Char} (h : Text.isGap c = true) :
    Text.isWordChar c = false := by
  cases hword : Text.isWordChar c with
  | false => rfl
  | true =>
      have hblank := Text.not_isBlank_of_isWordChar hword
      rw [Text.isBlank_of_isGap h] at hblank
      contradiction

/-! ## Where a command can end -/

section Command

variable {a r t : Text} {g : Char}

/-- A command, a gap and the rest. -/
def commandPieces : List Piece :=
  [.oneOrMore inLine, .oneOrMore Text.isGap, .zeroOrMore inLine]

/-- A gap and the rest are found nowhere in a text without gaps. -/
theorem matchStart_gap_of_no_gap (ht : ∀ c ∈ t, Text.isGap c = false) (ps : List Piece) :
    Pattern.matchStart (.oneOrMore Text.isGap :: ps) t = none := by
  cases t with
  | nil => rfl
  | cons c t => exact Pattern.matchStart_oneOrMore_of_not (ht c List.mem_cons_self) ps t

/-- A command is not empty, and a gap comes after it. -/
theorem exists_gap_of_command {ts : List Text} (h : Pattern.matchStart commandPieces t = some ts) :
    ∃ a g b, t = a ++ g :: b ∧ a ≠ [] ∧ Text.isGap g = true := by
  obtain ⟨a, b, us, -, rfl, ⟨hne, -⟩, hus⟩ := Pattern.matchStart_oneOrMore_takes h
  obtain ⟨gap, rest, vs, -, rfl, ⟨hgap, hgaps⟩, -⟩ := Pattern.matchStart_oneOrMore_takes hus
  obtain ⟨g, gap, rfl⟩ := List.exists_cons_of_ne_nil hgap
  exact ⟨a, g, gap ++ rest, rfl, hne, hgaps g List.mem_cons_self⟩

/-- There is no command when all characters but the first are no gaps. -/
theorem matchStart_command_eq_none (ht : ∀ c ∈ t.tail, Text.isGap c = false) :
    Pattern.matchStart commandPieces t = none := by
  by_contra hsome
  obtain ⟨ts, hts⟩ := Option.ne_none_iff_exists'.1 hsome
  obtain ⟨a, g, b, rfl, hne, hg⟩ := exists_gap_of_command hts
  obtain ⟨x, a, rfl⟩ := List.exists_cons_of_ne_nil hne
  rw [ht g (by simp)] at hg
  contradiction

theorem mem_tail_append {b e : Text} {c : Char} (h : c ∈ e.tail) : c ∈ (b ++ e).tail := by
  cases b with
  | nil => exact h
  | cons x b => exact List.mem_append_right b (List.mem_of_mem_tail h)

theorem matchStart_body_eq_none (ht : ∀ c ∈ t.tail, Text.isGap c = false) :
    Pattern.matchStart bodyPieces t = none := by
  change Pattern.longestRun Text.isGap (Pattern.matchStart commandPieces) t = none
  apply Pattern.longestRun_eq_none
  rintro a b rfl -
  exact matchStart_command_eq_none fun c hc => ht c (mem_tail_append hc)

/-- The command is all before the last gap. -/
theorem matchStart_command (ha : a ≠ []) (haline : ∀ c ∈ a, inLine c = true)
    (hg : Text.isGap g = true) (hr : ∀ c ∈ r, Text.isGap c = false)
    (hrline : ∀ c ∈ r, inLine c = true) :
    Pattern.matchStart commandPieces (a ++ g :: r) = some [a, [g], r] := by
  obtain ⟨x, a, rfl⟩ := List.exists_cons_of_ne_nil ha
  have htail : Pattern.matchStart [.zeroOrMore inLine] r = some [r] :=
    Pattern.longestRun_of_end hrline rfl
  have hgap : Pattern.matchStart [.oneOrMore Text.isGap, .zeroOrMore inLine] (g :: r) =
      some [[g], r] := by
    cases r with
    | nil => simp [Pattern.matchStart, Pattern.longestRun, hg, Pattern.consFirst]
    | cons y r =>
        exact Pattern.matchStart_oneOrMore_stop (List.cons_ne_nil g []) (by simpa using hg)
          (hr y List.mem_cons_self) htail
  have hrun : Pattern.longestRun inLine
      (Pattern.matchStart [.oneOrMore Text.isGap, .zeroOrMore inLine]) (a ++ g :: r) =
        some [a, [g], r] := by
    refine Pattern.longestRun_of_last (fun c hc => haline c (List.mem_cons_of_mem x hc)) hgap ?_
    -- The run of the command would go on past the gap, but no other gap comes after it.
    intro b e he
    refine matchStart_gap_of_no_gap (fun c hc => hr c ?_) _
    rw [he]
    exact List.mem_append_right b hc
  rw [commandPieces, List.cons_append,
    Pattern.matchStart_oneOrMore_cons (haline x List.mem_cons_self), hrun]
  rfl

/-- Before a command that does not start with a gap no blanks are taken. -/
theorem matchStart_body (ha : a ≠ []) (hfirst : ∀ c ∈ a.head?, Text.isGap c = false)
    (haline : ∀ c ∈ a, inLine c = true) (hg : Text.isGap g = true)
    (hr : ∀ c ∈ r, Text.isGap c = false) (hrline : ∀ c ∈ r, inLine c = true) :
    Pattern.matchStart bodyPieces (a ++ g :: r) = some [[], a, [g], r] := by
  have hcommand := matchStart_command ha haline hg hr hrline
  obtain ⟨x, a, rfl⟩ := List.exists_cons_of_ne_nil ha
  change Pattern.longestRun Text.isGap (Pattern.matchStart commandPieces) _ = _
  rw [List.cons_append, Pattern.longestRun_cons_of_not (hfirst x rfl), ← List.cons_append,
    hcommand]
  rfl

end Command

/-! ## What stands before the command -/

section Label

variable {a g r u : Text} {x y : Char}

/-- Two blanks with no gap after them are a command and the gap after it. -/
theorem matchStart_body_blanks (hx : Text.isGap x = true) (hy : Text.isGap y = true)
    (hr : ∀ c ∈ r, Text.isGap c = false) (hrline : ∀ c ∈ r, inLine c = true) :
    Pattern.matchStart bodyPieces (x :: y :: r) = some [[], [x], [y], r] := by
  have hxline : ∀ c ∈ [x], inLine c = true := by simpa using inLine_of_isGap hx
  have hcommand := matchStart_command (List.cons_ne_nil x []) hxline hy hr hrline
  refine Pattern.longestRun_of_last (a := []) (by simp) hcommand fun b e he => ?_
  refine matchStart_command_eq_none fun c hc => hr c ?_
  have htail : c ∈ (y :: r).tail := he ▸ mem_tail_append hc
  exact htail

/-- A gap before two blanks leaves them to the command. -/
theorem matchStart_gap_blanks (hg : IsGapRun g) (hx : Text.isGap x = true)
    (hy : Text.isGap y = true) (hr : ∀ c ∈ r, Text.isGap c = false)
    (hrline : ∀ c ∈ r, inLine c = true) :
    Pattern.matchStart (.oneOrMore Text.isGap :: bodyPieces) (g ++ x :: y :: r) =
      some [g, [], [x], [y], r] := by
  obtain ⟨z, g, rfl⟩ := List.exists_cons_of_ne_nil hg.ne_nil
  have hrun : Pattern.longestRun Text.isGap (Pattern.matchStart bodyPieces) (g ++ x :: y :: r) =
      some [g, [], [x], [y], r] := by
    refine Pattern.longestRun_of_last (fun c hc => hg.isGap c (List.mem_cons_of_mem z hc))
      (matchStart_body_blanks hx hy hr hrline) fun b e he => ?_
    refine matchStart_body_eq_none fun c hc => hr c ?_
    have htail : c ∈ (y :: r).tail := he ▸ mem_tail_append hc
    exact htail
  rw [List.cons_append, Pattern.matchStart_oneOrMore_cons (hg.isGap z List.mem_cons_self), hrun]
  rfl

/-- A gap of one or two blanks with no gap after it has no room for a command. -/
theorem matchStart_gap_eq_none (hg : g.length ≤ 2) (hr : ∀ c ∈ r, Text.isGap c = false) :
    Pattern.matchStart (.oneOrMore Text.isGap :: bodyPieces) (g ++ r) = none := by
  by_contra hsome
  obtain ⟨ts, hts⟩ := Option.ne_none_iff_exists'.1 hsome
  obtain ⟨a, b, us, -, hab, ⟨hne, -⟩, hus⟩ := Pattern.matchStart_oneOrMore_takes hts
  obtain ⟨d, e, vs, -, rfl, -, hvs⟩ := Pattern.longestRun_takes hus
  obtain ⟨w, z, f, rfl, hw, hz⟩ := exists_gap_of_command hvs
  -- A blank, a command and a gap stand in this order, and all of them belong to `g`.
  have hsplit : g ++ r = (a ++ d ++ w) ++ z :: f := by
    rw [hab]
    simp
  rcases List.append_eq_append_iff.1 hsplit with ⟨s, -, rfl⟩ | ⟨s, rfl, hs⟩
  · rw [hr z (by simp)] at hz
    contradiction
  · have hpos := List.length_pos_iff.2 hne
    have hpos' := List.length_pos_iff.2 hw
    cases s with
    | nil =>
        obtain rfl : r = z :: f := by simpa using hs.symm
        rw [hr z List.mem_cons_self] at hz
        contradiction
    | cons _ s =>
        simp only [List.length_append, List.length_cons] at hg
        omega

/-- A label takes all word characters before a gap. -/
theorem matchStart_label {c : Char} {s : Text} (hc : Text.isAsciiLetter c = true)
    (hs : ∀ d ∈ s, Text.isWordChar d = true) (hg : IsGapRun g) :
    Pattern.matchStart labelledPieces (c :: s ++ (g ++ u)) =
      (Pattern.matchStart (.oneOrMore Text.isGap :: bodyPieces) (g ++ u)).map
        fun ts => [c] :: s :: ts := by
  obtain ⟨x, g, rfl⟩ := List.exists_cons_of_ne_nil hg.ne_nil
  have hx := not_isWordChar_of_isGap (hg.isGap x List.mem_cons_self)
  have hword : Pattern.longestRun Text.isWordChar
      (Pattern.matchStart (.oneOrMore Text.isGap :: bodyPieces)) (s ++ x :: (g ++ u)) =
        (Pattern.matchStart (.oneOrMore Text.isGap :: bodyPieces) (x :: (g ++ u))).map
          (s :: ·) := by
    cases hbody : Pattern.matchStart (.oneOrMore Text.isGap :: bodyPieces) (x :: (g ++ u)) with
    | some ts => exact Pattern.longestRun_of_stop hs hx hbody
    | none =>
        apply Pattern.longestRun_eq_none
        intro d e hde hd
        rcases List.append_eq_append_iff.1 hde with ⟨f, rfl, hf⟩ | ⟨f, rfl, rfl⟩
        · cases f with
          | nil =>
              obtain rfl : e = x :: (g ++ u) := hf.symm
              exact hbody
          | cons z f =>
              obtain ⟨rfl, -⟩ := List.cons.inj hf
              have hz := hd x (by simp)
              rw [hx] at hz
              contradiction
        -- A shorter label is followed by a word character, which is no gap.
        · cases f with
          | nil => exact hbody
          | cons z f =>
              have hz := Text.not_isBlank_of_isWordChar (hs z (by simp))
              exact Pattern.matchStart_oneOrMore_of_not (Text.not_isGap_of_not_isBlank hz) _ _
  have hletter : Pattern.matchStart labelledPieces (c :: s ++ (x :: g ++ u)) =
      (Pattern.longestRun Text.isWordChar
        (Pattern.matchStart (.oneOrMore Text.isGap :: bodyPieces))
        (s ++ x :: (g ++ u))).map ([c] :: ·) :=
    if_pos hc
  rw [hletter, hword, Option.map_map]
  rfl

/-- What stands before the first gap is determined by the text. -/
theorem takeWhile_gap (ha : ∀ c ∈ a, Text.isGap c = false) (hx : Text.isGap x = true) :
    (a ++ x :: u).takeWhile (!Text.isGap ·) = a := by
  rw [List.takeWhile_append_of_pos (by simpa using ha), List.takeWhile_cons_of_neg (by simp [hx]),
    List.append_nil]

/-- Without a label before the first gap there is no match with a label. -/
theorem matchStart_label_eq_none (ha : ∀ c ∈ a, Text.isGap c = false) (hlabel : ¬ IsLabel a)
    (hx : Text.isGap x = true) :
    Pattern.matchStart labelledPieces (a ++ x :: u) = none := by
  by_contra hsome
  obtain ⟨ts, hts⟩ := Option.ne_none_iff_exists'.1 hsome
  obtain ⟨after, hafter⟩ := Pattern.matchStart_append hts
  have htakes := Pattern.matchStart_takes hts
  rcases htakes with _ | ⟨⟨c, hc, rfl⟩, _ | ⟨hs, _ | ⟨⟨hne, hgaps⟩, -⟩⟩⟩
  rename_i s gap more
  obtain ⟨y, gap, rfl⟩ := List.exists_cons_of_ne_nil hne
  have hcs : IsLabel (c :: s) := ⟨hc, List.all_eq_true.2 hs⟩
  have htext : a ++ x :: u = c :: s ++ y :: (gap ++ (more.flatten ++ after)) := by
    rw [hafter]
    simp
  have heq : a = c :: s := by
    rw [← takeWhile_gap (u := u) ha hx, htext]
    exact takeWhile_gap hcs.isField.not_gap (hgaps y List.mem_cons_self)
  exact hlabel (heq ▸ hcs)

/-- Of two fields the first is no label, unless it could be one and the gap is wide. -/
theorem matchStart_label_eq_none_of_narrow (ha : ∀ c ∈ a, Text.isGap c = false) (hg : IsGapRun g)
    (hnarrow : IsLabel a → g.length ≤ 2) (hr : ∀ c ∈ r, Text.isGap c = false) :
    Pattern.matchStart labelledPieces (a ++ (g ++ r)) = none := by
  by_cases hlabel : IsLabel a
  · obtain ⟨c, s, rfl, hc, hs⟩ := hlabel.exists_cons
    rw [matchStart_label hc hs hg, matchStart_gap_eq_none (hnarrow hlabel) hr]
    rfl
  · obtain ⟨x, g, rfl⟩ := List.exists_cons_of_ne_nil hg.ne_nil
    exact matchStart_label_eq_none ha hlabel (hg.isGap x List.mem_cons_self)

end Label

/-! ## The split -/

section Split

variable {label command rest gap : Text} {x y : Char}

/-- A match at the start of a line gives its fields. -/
theorem split?_of_matchStart {t : Text} {ts : List Text} {fields : LineFields} (hne : t ≠ [])
    (h : matchStart t = some ts) (hfields : fieldsOf ts = some fields) :
    split? t = some fields := by
  obtain ⟨more, hmore⟩ := List.head?_eq_some_iff.1 (Pattern.allMatches_head? hne h)
  rw [split?, findFields, hmore, List.filterMap_cons_some hfields]
  rfl

/-- A label is split off with a gap after it if a command, a gap and the rest remain. -/
theorem split?_of_matchStart_gap {u : Text} (hlabel : IsLabel label) (hgap : IsGapRun gap)
    (h : Pattern.matchStart (.oneOrMore Text.isGap :: bodyPieces) (gap ++ u) =
      some [gap, [], command, [x], rest]) :
    split? (label ++ (gap ++ u)) = some ⟨label ++ gap, label, command, rest⟩ := by
  obtain ⟨c, s, rfl, hc, hs⟩ := hlabel.exists_cons
  have hmatch := matchStart_label (u := u) hc hs hgap
  rw [h] at hmatch
  exact split?_of_matchStart (List.cons_ne_nil _ _) (by rw [matchStart, hmatch]; rfl) rfl

/-- The command after a label is all before the last gap. -/
theorem split?_of_label (hlabel : IsLabel label) (hgap : IsGapRun gap) (hne : command ≠ [])
    (hfirst : ∀ c ∈ command.head?, Text.isGap c = false) (hline : ∀ c ∈ command, inLine c = true)
    (hx : Text.isGap x = true) (hrest : ∀ c ∈ rest, Text.isGap c = false)
    (hrestLine : ∀ c ∈ rest, inLine c = true) :
    split? (label ++ (gap ++ (command ++ x :: rest))) =
      some ⟨label ++ gap, label, command, rest⟩ := by
  have hbody := matchStart_body hne hfirst hline hx hrest hrestLine
  obtain ⟨y, command, rfl⟩ := List.exists_cons_of_ne_nil hne
  exact split?_of_matchStart_gap hlabel hgap
    (Pattern.matchStart_oneOrMore_stop hgap.ne_nil hgap.isGap (hfirst y rfl) hbody)

/-- A wide gap after a label holds a command of one blank and the gap after it. -/
theorem split?_of_wide (hlabel : IsLabel label) (hgap : IsGapRun gap) (hx : Text.isGap x = true)
    (hy : Text.isGap y = true) (hrest : ∀ c ∈ rest, Text.isGap c = false)
    (hrestLine : ∀ c ∈ rest, inLine c = true) :
    split? (label ++ (gap ++ x :: y :: rest)) = some ⟨label ++ gap, label, [x], rest⟩ :=
  split?_of_matchStart_gap hlabel hgap
    (matchStart_gap_blanks hgap hx hy hrest hrestLine)

/-- Without a label the command is all before the last gap. -/
theorem split?_of_no_label
    (hlabel : Pattern.matchStart labelledPieces (command ++ x :: rest) = none)
    (hne : command ≠ []) (hfirst : ∀ c ∈ command.head?, Text.isGap c = false)
    (hline : ∀ c ∈ command, inLine c = true) (hx : Text.isGap x = true)
    (hrest : ∀ c ∈ rest, Text.isGap c = false) (hrestLine : ∀ c ∈ rest, inLine c = true) :
    split? (command ++ x :: rest) = some ⟨[], [], command, rest⟩ := by
  have hbody := matchStart_body hne hfirst hline hx hrest hrestLine
  exact split?_of_matchStart (by simp) (by rw [matchStart, hlabel, hbody]) rfl

/-- A match with a label gives a label, and one without gives none. -/
theorem label_of_matchStart {t : Text} {ts : List Text} {fields : LineFields}
    (h : matchStart t = some ts) (hfields : fieldsOf ts = some fields) :
    fields.label = [] ∨ IsLabel fields.label := by
  unfold matchStart at h
  split at h
  · rename_i us hus
    obtain rfl := Option.some.inj h
    obtain _ | ⟨⟨c, hc, rfl⟩, _ | ⟨hmore, _ | ⟨-, hbody⟩⟩⟩ := Pattern.matchStart_takes hus
    obtain _ | ⟨-, _ | ⟨-, _ | ⟨-, _ | ⟨-, _ | _⟩⟩⟩⟩ := hbody
    obtain rfl := Option.some.inj hfields
    exact .inr ⟨hc, List.all_eq_true.2 hmore⟩
  · obtain _ | ⟨-, _ | ⟨-, _ | ⟨-, _ | ⟨-, _ | _⟩⟩⟩⟩ := Pattern.matchStart_takes h
    obtain rfl := Option.some.inj hfields
    exact .inl rfl

/-- The label of a line is a label, or it is empty. -/
theorem label_of_split? {t : Text} {fields : LineFields} (h : split? t = some fields) :
    fields.label = [] ∨ IsLabel fields.label := by
  obtain ⟨ts, hts, hfields⟩ := List.mem_filterMap.1 (List.mem_of_mem_head? h)
  obtain ⟨k, hk⟩ := Pattern.exists_of_mem_allMatchesFrom hts
  exact label_of_matchStart hk hfields

end Split

end WordAsm.Line
