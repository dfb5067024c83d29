import WordAsm.Proofs.LineByLine
import WordAsm.Proofs.StatementFields

/-!
# The width of gaps

A line of up to three fields is read by its fields, and the gaps between them may have any width,
but for two kinds of lines.  Of two fields with a gap of three or more blanks, the first is taken
for a label if it can be one, and the command is empty.  Of three fields of which the first can
be no label, the command is the first two with the gap between them.

So the outcome of an assembly may change when every gap becomes a single space.  It stays the same
exactly when the layout comes to no line of these kinds: what such a line defines, or why it is
refused, is something that no later line can bring about.
-/

namespace WordAsm

namespace Line

/-- A text that is a field. -/
abbrev Field := {t : Text // IsField t}

/-- A text that is a gap. -/
abbrev Gap := {g : Text // IsGapRun g}

/-- The gap of a single space. -/
def Gap.single : Gap := ⟨[' '], .single⟩

end Line

/-- A line of one to three fields with the gaps between them. -/
inductive SpacedLine where
  | one (a : Line.Field)
  | two (a : Line.Field) (gap : Line.Gap) (b : Line.Field)
  | three (a : Line.Field) (gap : Line.Gap) (b : Line.Field) (gap' : Line.Gap) (c : Line.Field)

namespace SpacedLine

/-- The line as it is written. -/
def text : SpacedLine → Text
  | one a => a.1
  | two a gap b => a.1 ++ (gap.1 ++ b.1)
  | three a gap b gap' c => a.1 ++ (gap.1 ++ (b.1 ++ (gap'.1 ++ c.1)))

/-- The line with a single space for every gap. -/
def singleSpaced : SpacedLine → SpacedLine
  | one a => one a
  | two a _ b => two a .single b
  | three a _ b _ c => three a .single b .single c

/-- A line for which the width of a gap matters: a wide gap after a label that is not followed by
two more fields, or a gap that becomes part of the command. -/
def Misread : SpacedLine → Prop
  | one _ => False
  | two a gap _ => Line.IsLabel a.1 ∧ 3 ≤ gap.1.length
  | three a gap _ _ _ => ¬ Line.IsLabel a.1 ∧ gap.1 ≠ [' ']

theorem isClean_text (l : SpacedLine) : Line.IsClean l.text := by
  cases l with
  | one a => exact a.2.isClean
  | two a gap b => exact a.2.isClean.append_gapRun gap.2 b.2.isClean
  | three a gap b gap' c =>
      exact a.2.isClean.append_gapRun gap.2 (b.2.isClean.append_gapRun gap'.2 c.2.isClean)

theorem kept_text (lines : List SpacedLine) : Line.kept (lines.map text) = lines.map text := by
  apply Line.kept_of_isClean
  intro line hline
  obtain ⟨l, -, rfl⟩ := List.mem_map.1 hline
  exact l.isClean_text

end SpacedLine

/-- A line for which the width of its gaps does not matter is read by its fields. -/
theorem SpacedLine.ofLine?_singleSpaced {l : SpacedLine} (h : ¬ l.Misread) :
    Statement.ofLine? l.singleSpaced.text = Statement.ofLine? l.text := by
  cases l with
  | one a => rfl
  | two a gap b =>
      have hnarrow : Line.IsLabel a.1 → gap.1.length ≤ 2 := by
        intro hlabel
        by_contra hwide
        exact h ⟨hlabel, by omega⟩
      exact (Statement.ofLine?_narrow a.2 .single (by simp) b.2).trans
        (Statement.ofLine?_narrow a.2 gap.2 hnarrow b.2).symm
  | three a gap b gap' c =>
      by_cases hlabel : Line.IsLabel a.1
      · exact (Statement.ofLine?_label hlabel .single b.2 .single c.2).trans
          (Statement.ofLine?_label hlabel gap.2 b.2 gap'.2 c.2).symm
      · have hgap : gap.1 = [' '] := by
          by_contra hne
          exact h ⟨hlabel, hne⟩
        refine (Statement.ofLine?_no_label a.2 hlabel .single b.2 .single c.2).trans ?_
        rw [show [' '] = gap.1 from hgap.symm]
        exact (Statement.ofLine?_no_label a.2 hlabel gap.2 b.2 gap'.2 c.2).symm

/-! ## Lines whose effect no later line can bring about -/

namespace Placement

/-- Two placements at an index define different labels, or the first is refused by naming the
index and the second is not refused for the same cause. -/
def Apart (index : Nat) (p q : Placement) : Prop :=
  p.defines ≠ q.defines ∨
    ∃ why, p.result = .error why ∧ why.line? = some (index : Int) ∧ q.result ≠ .error why

end Placement

namespace Layout

/-- Two layouts have different tables, or the first is refused and the second is not refused for
the same cause. -/
def Apart (l l' : Layout) : Prop :=
  l.table ≠ l'.table ∨ ∃ why, l.result = .error why ∧ l'.result ≠ .error why

theorem Apart.prepend {l l' : Layout} (h : Apart l l') (entries : List Entry) :
    Apart (l.prepend entries) (l'.prepend entries) := by
  rcases h with htable | ⟨why, hwhy, hne⟩
  · exact .inl htable
  · exact .inr ⟨why, prepend_result_eq_error_iff.2 hwhy,
      fun h => hne (prepend_result_eq_error_iff.1 h)⟩

variable {table : LabelTable} {index : Nat} {line line' : Text}

/-- A label that one line defines and another does not is bound to different values ever after. -/
theorem find?_ne_of_defines {label : Text}
    (h : (Placement.ofLine table index line).defines = some label)
    (h' : (Placement.ofLine table index line').defines ≠ some label) (rest rest' : List Text) :
    (placeFrom table index (line :: rest)).table.find? label ≠
      (placeFrom table index (line' :: rest')).table.find? label := by
  have hnew := LabelTable.contains_eq_false_iff.1 (Placement.ofLine_defines h)
  have hvalue : (placeFrom table index (line :: rest)).table.find? label = some (index : Int) :=
    find?_placeFrom_iff.2 (.inr ⟨0, definesAt_cons_zero.2 h, rfl⟩)
  rw [hvalue]
  intro hvalue'
  rcases find?_placeFrom_iff.1 hvalue'.symm with hold | ⟨k, hk, hindex⟩
  · rw [hnew] at hold
    contradiction
  · -- Every later line has a higher index.
    obtain rfl : k = 0 := by omega
    exact h' (definesAt_cons_zero.1 hk)

theorem apart_of_placement
    (h : (Placement.ofLine table index line).Apart index (Placement.ofLine table index line'))
    (rest rest' : List Text) :
    Apart (placeFrom table index (line :: rest)) (placeFrom table index (line' :: rest')) := by
  rcases h with hdefines | ⟨why, hwhy, hline, hne⟩
  · left
    intro htable
    cases hlabel : (Placement.ofLine table index line).defines with
    | some label =>
        have hlabel' : (Placement.ofLine table index line').defines ≠ some label :=
          fun heq => hdefines (hlabel.trans heq.symm)
        exact find?_ne_of_defines hlabel hlabel' rest rest' (by rw [htable])
    | none =>
        obtain ⟨label, hlabel'⟩ := Option.ne_none_iff_exists'.1
          fun heq => hdefines (hlabel.trans heq.symm)
        have hlabel'' : (Placement.ofLine table index line).defines ≠ some label := by
          simp [hlabel]
        exact find?_ne_of_defines hlabel' hlabel'' rest' rest (by rw [htable])
  · refine .inr ⟨why, by rw [placeFrom_cons_error hwhy], fun hwhy' => ?_⟩
    cases hline' : (Placement.ofLine table index line').result with
    | error why' =>
        rw [placeFrom_cons_error hline'] at hwhy'
        exact hne (hline'.trans hwhy')
    | ok entries =>
        rw [placeFrom_cons_ok hline', prepend_result_eq_error_iff] at hwhy'
        have hle := placeFrom_failsOnly _ (index + 1) rest' why hwhy' _ hline
        omega

end Layout

theorem assemble_ne_of_apart {start : LabelTable} {lines lines' : List Text}
    (h : Layout.Apart (Layout.ofLines start lines) (Layout.ofLines start lines')) :
    assemble start lines ≠ assemble start lines' := by
  intro heq
  rcases h with htable | ⟨why, hwhy, hne⟩
  · apply htable
    rw [← assemble_snd, heq, assemble_snd]
  · apply hne
    rw [← assemble_fst_eq_misplaced_iff, ← heq, assemble_fst_eq_misplaced_iff]
    exact hwhy

namespace Statement

variable {table : LabelTable} {index : Nat}

/-- Instructions under different labels. -/
theorem placeLabelled_apart {label label' : Text} (hne : label ≠ label')
    (x y : Except Rejection Instruction) :
    Placement.Apart index (placeLabelled table index (some label) x)
      (placeLabelled table index (some label') y) := by
  rcases placeLabelled_cases table index label x with ⟨why, hp, hwhy⟩ | hp
  · rcases placeLabelled_cases table index label' y with ⟨why', hq, hwhy'⟩ | hq
    · -- Both labels are refused, and the causes name them.
      right
      refine ⟨why, by rw [hp], ?_, ?_⟩
      · rcases hwhy with rfl | rfl <;> rfl
      · rw [hq]
        rcases hwhy with rfl | rfl <;> rcases hwhy' with rfl | rfl <;> simp [hne.symm]
    · exact .inl (by simp [hp, hq])
  · left
    rcases placeLabelled_cases table index label' y with ⟨why', hq, -⟩ | hq
    · simp [hp, hq]
    · simpa [hp, hq] using hne

/-- A label before an empty command, and the same text as a command. -/
theorem placeLabelled_apart_command (label operands : Text) :
    Placement.Apart index
      (placeLabelled table index (some label) (Instruction.read [] operands (some (index : Int))))
      (placeLabelled table index none
        (Instruction.read label operands (some (index : Int)))) := by
  rcases placeLabelled_cases table index label
    (Instruction.read [] operands (some (index : Int))) with ⟨why, hp, hwhy⟩ | hp
  · right
    refine ⟨why, by rw [hp], ?_, ?_⟩
    · rcases hwhy with rfl | rfl <;> rfl
    · -- As a command it may be unknown, but that is not what a label is refused for.
      simp only [placeLabelled, Instruction.read]
      rcases hwhy with rfl | rfl <;> split <;> simp [Except.map]
  · left
    rw [hp]
    simp [placeLabelled]

/-- A text with a gap inside is the name of no command. -/
theorem ofText?_of_gap {text : Text} {c : Char} (htext : Line.IsClean text) (hc : c ∈ text)
    (hgap : Text.isGap c = true) : Mnemonic.ofText? text = none := by
  cases hm : Mnemonic.ofText? text with
  | none => rfl
  | some m =>
      have htrim := Mnemonic.trim_of_ofText? hm
      rw [Text.trim_of_ends htext.first htext.last] at htrim
      rw [htrim] at hc
      rw [m.isField_name.not_gap c hc] at hgap
      contradiction

/-- A command with a gap inside is no directive. -/
theorem ofFields_of_gap {command rest : Text} {c : Char} (hc : c ∈ command)
    (hgap : Text.isGap c = true) :
    ofFields [] command rest =
      if rest = Mnemonic.halt.name.toList then .halt (some command)
      else .instruction none command rest := by
  have hname : ∀ d : Directive, command ≠ d.name.toList := by
    rintro d rfl
    rw [d.isField_name.not_gap c hc] at hgap
    contradiction
  rw [ofFields, if_neg (hname .fill), if_neg (hname .space)]
  rfl

/-- Different commands with a gap inside. -/
theorem place_apart_of_gap {command command' rest : Text} {c d : Char} (hne : command ≠ command')
    (hclean : Line.IsClean command) (hc : c ∈ command) (hgap : Text.isGap c = true)
    (hclean' : Line.IsClean command') (hd : d ∈ command') (hgap' : Text.isGap d = true) :
    Placement.Apart index ((ofFields [] command rest).place table index)
      ((ofFields [] command' rest).place table index) := by
  rw [ofFields_of_gap hc hgap, ofFields_of_gap hd hgap']
  split
  · exact placeLabelled_apart hne _ _
  · -- Neither is the name of a command, and the rejections quote them.
    right
    simp only [place, placeLabelled, Instruction.read, ofText?_of_gap hclean hc hgap,
      ofText?_of_gap hclean' hd hgap']
    exact ⟨_, rfl, rfl, by simp [Except.map, hne.symm]⟩

end Statement

namespace SpacedLine

/-- A line for which the width of a gap matters is placed otherwise than with single spaces. -/
theorem Misread.apart {l : SpacedLine} (h : l.Misread) (table : LabelTable) (index : Nat) :
    (Placement.ofLine table index l.text).Apart index
      (Placement.ofLine table index l.singleSpaced.text) := by
  cases l with
  | one a => exact h.elim
  | two a gap b =>
      obtain ⟨hlabel, hwide⟩ := h
      have hread := Statement.ofLine?_wide hlabel gap.2 hwide b.2
      have hread' := Statement.ofLine?_narrow a.2 .single (by simp) b.2
      simp only [Placement.ofLine, text, singleSpaced, Line.Gap.single, hread, hread']
      have hempty : ∀ d : Directive, [] ≠ d.name.toList := fun d => d.isField_name.ne_nil.symm
      by_cases hhalt : b.1 = Mnemonic.halt.name.toList
      · rw [hhalt, Statement.ofFields_halt hempty, Statement.ofFields_halt hlabel.ne_directive]
        exact Statement.placeLabelled_apart a.2.ne_nil.symm _ _
      · rw [Statement.ofFields_instruction hempty hhalt,
          Statement.ofFields_instruction hlabel.ne_directive hhalt,
          Statement.labelOf_of_ne_nil a.2.ne_nil]
        exact Statement.placeLabelled_apart_command a.1 b.1
  | three a gap b gap' c =>
      obtain ⟨hlabel, hgap⟩ := h
      have hread := Statement.ofLine?_no_label a.2 hlabel gap.2 b.2 gap'.2 c.2
      have hread' := Statement.ofLine?_no_label a.2 hlabel .single b.2 .single c.2
      simp only [Placement.ofLine, text, singleSpaced, Line.Gap.single, hread, hread']
      obtain ⟨x, more, hx⟩ := List.exists_cons_of_ne_nil gap.2.ne_nil
      refine Statement.place_apart_of_gap ?_ (a.2.isClean.append_gapRun gap.2 b.2.isClean)
        (c := x) (by simp [hx]) (gap.2.isGap x (by simp [hx]))
        (a.2.isClean.append_gapRun .single b.2.isClean) (d := ' ') (by simp) (by decide)
      intro heq
      exact hgap (List.append_cancel_right (List.append_cancel_left heq))

theorem placement_singleSpaced {l : SpacedLine} (h : ¬ l.Misread) (table : LabelTable)
    (index : Nat) : Placement.ofLine table index l.singleSpaced.text =
      Placement.ofLine table index l.text := by
  rw [Placement.ofLine, ofLine?_singleSpaced h, ← Placement.ofLine]

/-! ## Programs -/

variable {table : LabelTable} {index : Nat} {lines : List SpacedLine}

/-- Layouts agree as long as they do not come to a line for which the width of a gap matters. -/
theorem placeFrom_singleSpaced
    (h : ∀ (k : Nat) (line : SpacedLine), lines[k]? = some line → line.Misread →
      ∃ why, (Layout.placeFrom table index ((lines.take k).map text)).result = .error why) :
    Layout.placeFrom table index (lines.map text) =
      Layout.placeFrom table index ((lines.map singleSpaced).map text) := by
  induction lines generalizing table index with
  | nil => rfl
  | cons l lines ih =>
      have hl : ¬ l.Misread := by
        intro hmisread
        obtain ⟨why, hwhy⟩ := h 0 l rfl hmisread
        cases hwhy
      have hplace := placement_singleSpaced hl table index
      simp only [List.map_cons]
      cases hline : (Placement.ofLine table index l.text).result with
      | error why =>
          rw [Layout.placeFrom_cons_error hline,
            Layout.placeFrom_cons_error (by rw [hplace]; exact hline), hplace]
      | ok entries =>
          rw [Layout.placeFrom_cons_ok hline,
            Layout.placeFrom_cons_ok (by rw [hplace]; exact hline), hplace, ih]
          intro k line hk hmisread
          obtain ⟨why, hwhy⟩ := h (k + 1) line hk hmisread
          rw [List.take_succ_cons, List.map_cons, Layout.placeFrom_cons_ok hline,
            Layout.prepend_result_eq_error_iff] at hwhy
          exact ⟨why, hwhy⟩

/-- Layouts that come to such a line are apart. -/
theorem placeFrom_singleSpaced_apart {middle : LabelTable} {k : Nat} {line : SpacedLine}
    {before : List Entry} (hk : lines[k]? = some line) (hmisread : line.Misread)
    (hbefore : Layout.placeFrom table index ((lines.take k).map text) = ⟨middle, .ok before⟩) :
    Layout.Apart (Layout.placeFrom table index (lines.map text))
      (Layout.placeFrom table index ((lines.map singleSpaced).map text)) := by
  induction lines generalizing table index k before with
  | nil => cases hk
  | cons l lines ih =>
      simp only [List.map_cons]
      by_cases hl : l.Misread
      · exact Layout.apart_of_placement (hl.apart table index) _ _
      · cases k with
        | zero =>
            obtain rfl : l = line := Option.some.inj hk
            exact absurd hmisread hl
        | succ k =>
            have hplace := placement_singleSpaced hl table index
            rw [List.take_succ_cons, List.map_cons] at hbefore
            cases hline : (Placement.ofLine table index l.text).result with
            | error why =>
                rw [Layout.placeFrom_cons_error hline] at hbefore
                cases hbefore
            | ok entries =>
                rw [Layout.placeFrom_cons_ok hline] at hbefore ⊢
                rw [Layout.placeFrom_cons_ok (by rw [hplace]; exact hline), hplace]
                obtain ⟨more, hmore, -⟩ := Layout.prepend_eq_ok_iff.1 hbefore
                exact (ih hk hmore).prepend entries

theorem ofLines_text (start : LabelTable) (lines : List SpacedLine) :
    Layout.ofLines start (lines.map text) = Layout.placeFrom start 0 (lines.map text) := by
  rw [Layout.ofLines, kept_text]

/-- The outcome of an assembly and the table after it stay the same when every gap becomes a single
space if and only if the layout comes to no line for which the width of a gap matters: before each
such line there is one that is refused. -/
theorem assemble_singleSpaced_iff (start : LabelTable) (lines : List SpacedLine) :
    assemble start (lines.map text) = assemble start ((lines.map singleSpaced).map text) ↔
      ∀ (k : Nat) (line : SpacedLine), lines[k]? = some line → line.Misread →
        ∃ why, (Layout.ofLines start ((lines.take k).map text)).result = .error why := by
  constructor
  · intro heq k line hk hmisread
    cases hbefore : Layout.ofLines start ((lines.take k).map text) with
    | mk middle result =>
        cases result with
        | error why => exact ⟨why, rfl⟩
        | ok before =>
            rw [ofLines_text] at hbefore
            have hapart := placeFrom_singleSpaced_apart hk hmisread hbefore
            rw [← ofLines_text, ← ofLines_text] at hapart
            exact absurd heq (assemble_ne_of_apart hapart)
  · intro h
    simp only [ofLines_text] at h
    have hlayout := placeFrom_singleSpaced h
    rw [← ofLines_text, ← ofLines_text] at hlayout
    rw [assemble, assemble, hlayout]

/-- A gap of three blanks. -/
def wideGap : Line.Gap :=
  ⟨"   ".toList, by decide⟩

/-- The operands of an addition. -/
def addends : Line.Field :=
  ⟨"1,2,3".toList, by decide +kernel⟩

/-- An addition with a wide gap before its operands. -/
def wideAddition : SpacedLine :=
  two ⟨"add".toList, Mnemonic.isField_name .add⟩ wideGap addends

/-- The same with a label before it. -/
def labelledAddition : SpacedLine :=
  three ⟨"sum".toList, by decide +kernel⟩ wideGap ⟨"add".toList, Mnemonic.isField_name .add⟩
    wideGap addends

/-- A wide gap before the operands makes the command a label, unless there is a label before it. -/
theorem assemble_singleSpaced_iff_addition :
    wideAddition.text = "add   1,2,3".toList ∧
      wideAddition.singleSpaced.text = "add 1,2,3".toList ∧
      assemble ∅ [wideAddition.text] ≠ assemble ∅ [wideAddition.singleSpaced.text] ∧
      (assemble ∅ [wideAddition.text]).1 = .misplaced (.unknownCommand [] (some 0)) ∧
      labelledAddition.text = "sum   add   1,2,3".toList ∧
      assemble ∅ [labelledAddition.text] = assemble ∅ [labelledAddition.singleSpaced.text] := by
  refine ⟨by decide, by decide, ?_, by decide +kernel, by decide, ?_⟩
  · intro heq
    have hmisread : wideAddition.Misread := ⟨by decide +kernel, by decide⟩
    obtain ⟨why, hwhy⟩ := (assemble_singleSpaced_iff ∅ [wideAddition]).1 heq 0 _ rfl hmisread
    cases hwhy
  · refine (assemble_singleSpaced_iff ∅ [labelledAddition]).2 ?_
    intro k line hk hmisread
    obtain ⟨rfl, rfl⟩ : k = 0 ∧ line = labelledAddition := by
      simpa [List.getElem?_singleton, eq_comm] using hk
    exact absurd (by decide +kernel) hmisread.1

end SpacedLine

end WordAsm
