import WordAsm.Proofs.LabelNames

/-!
# Labels that a program does not name

A program asks the table for two kinds of names: the labels that its lines define, and the labels
that stand as operands on them.  Labels of any other name do not matter to it.  From a table of such
labels it comes to the same outcome as from the empty table, also when one of its lines is refused,
and afterwards they stand unchanged beside the labels of the program.

A label that the program names is another matter.  A line that defines it is refused, and a line
that names it as an operand may be accepted although the program never defines it.
-/

namespace WordAsm

namespace LabelTable

/-- The labels of two tables.  A label of both has its value in the second. -/
def union (first second : LabelTable) : LabelTable :=
  ⟨first.bindings ∪ second.bindings⟩

instance : Union LabelTable := ⟨union⟩

variable {first second : LabelTable} {name : Text}

theorem find?_union :
    (first ∪ second).find? name = (second.find? name).or (first.find? name) :=
  Std.ExtTreeMap.getElem?_union

theorem union_empty (table : LabelTable) : table ∪ ∅ = table := by
  ext1 name
  rw [find?_union, find?_empty, Option.none_or]

theorem find?_union_of_none (h : first.find? name = none) :
    (first ∪ second).find? name = second.find? name := by
  rw [find?_union, h, Option.or_none]

theorem union_define (first second : LabelTable) (label : Option Text) (index : Nat) :
    (first ∪ second).define label index = first ∪ second.define label index := by
  cases label with
  | none => rfl
  | some l =>
      ext1 name
      simp only [define, find?_union, find?_insert]
      by_cases hl : l = name <;> simp [hl]

theorem contains_congr {table table' : LabelTable} (h : table.find? name = table'.find? name) :
    table.contains name = table'.contains name := by
  rw [contains, contains, h]

end LabelTable

/-! ## The names that a line asks for -/

namespace Statement

/-- The label that stands as the operand of a statement, if one does. -/
def labelOperand? : Statement → Option Text
  | directive _ _ operand => if Numeral.isNumeral operand then none else some operand
  | halt _ => none
  | instruction _ command operands =>
      match Mnemonic.ofText? command with
      | none => none
      | some m => (Instruction.mk m operands none).labelOperand?

/-- The names that a statement asks the table for: its label and its operand. -/
def names (s : Statement) : List Text :=
  s.label?.toList ++ s.labelOperand?.toList

theorem label_mem_names {s : Statement} {l : Text} (h : s.label? = some l) : l ∈ s.names := by
  simp [names, h]

theorem labelOperand_mem_names {s : Statement} {name : Text} (h : s.labelOperand? = some name) :
    name ∈ s.names := by
  simp [names, h]

variable {table table' : LabelTable} {index : Nat}

theorem operandValue_congr {operand : Text} (d : Directive)
    (h : Numeral.isNumeral operand = false → table.find? operand = table'.find? operand) :
    operandValue table d index operand = operandValue table' d index operand := by
  unfold operandValue
  by_cases hnumeral : Numeral.isNumeral operand = true
  · rw [if_pos hnumeral, if_pos hnumeral]
  · rw [if_neg hnumeral, if_neg hnumeral, h (by simpa using hnumeral)]

theorem placeData_congr {label : Text} (h : table.find? label = table'.find? label)
    (d : Directive) (top : Int) (words : Unit → List Entry) :
    placeData table d index label top words = placeData table' d index label top words := by
  rw [placeData, placeData, LabelTable.contains_congr h]

theorem placeLabelled_congr {label : Option Text}
    (h : ∀ l, label = some l → table.find? l = table'.find? l)
    (instruction : Except Rejection Instruction) :
    placeLabelled table index label instruction = placeLabelled table' index label instruction := by
  cases label with
  | none => rfl
  | some l => rw [placeLabelled, placeLabelled, LabelTable.contains_congr (h l rfl)]

/-- What a statement does depends on the table at the names that it asks for. -/
theorem place_congr {s : Statement} (h : ∀ name ∈ s.names, table.find? name = table'.find? name)
    (index : Nat) : s.place table index = s.place table' index := by
  have hlabel : ∀ l, s.label? = some l → table.find? l = table'.find? l :=
    fun l hl => h l (label_mem_names hl)
  cases s with
  | directive d label operand =>
      have hoperand : operandValue table d index operand = operandValue table' d index operand := by
        apply operandValue_congr
        intro hnumeral
        exact h operand (labelOperand_mem_names (by simp [labelOperand?, hnumeral]))
      show placeDirective table d index label operand = placeDirective table' d index label operand
      unfold placeDirective
      rw [hoperand]
      split
      · rfl
      · cases d with
        | fill => exact placeData_congr (hlabel label rfl) _ _ _
        | space =>
            simp only
            split
            · rfl
            · exact placeData_congr (hlabel label rfl) _ _ _
  | halt label => exact placeLabelled_congr hlabel _
  | instruction label command operands => exact placeLabelled_congr hlabel _

/-- A label that an entry of a statement names is the operand of the statement. -/
theorem Placed.labelOperand?_eq {s : Statement} {entries : List Entry}
    (h : s.Placed table index entries) {entry : Entry} (hentry : entry ∈ entries) {name : Text}
    (hname : entry.labelOperand? = some name) : s.labelOperand? = some name := by
  cases h with
  | fill hnumber hroom hnew =>
      obtain rfl := List.mem_singleton.1 hentry
      cases hname
  | space hnumber hpos hroom hnew =>
      obtain rfl := List.eq_of_mem_replicate hentry
      cases hname
  | halt hlabel =>
      obtain rfl := List.mem_singleton.1 hentry
      cases hname
  | @instruction label command operands i hlabel hread =>
      obtain rfl := List.mem_singleton.1 hentry
      obtain ⟨m, hm, rfl⟩ := Instruction.read_eq_ok_iff.1 hread
      simp only [labelOperand?, hm]
      rw [← Instruction.labelOperand?_line _ (some (index : Int))]
      exact hname

end Statement

namespace Line

/-- The names that a line asks the table for. -/
def names (line : Text) : List Text :=
  (Statement.ofLine? line).elim [] Statement.names

theorem names_of_ofLine? {line : Text} {s : Statement} (h : Statement.ofLine? line = some s) :
    names line = s.names := by
  rw [names, h]
  rfl

end Line

namespace Placement

variable {start table : LabelTable} {line : Text}

/-- Labels that a line does not ask for do not change what it does. -/
theorem ofLine_union (h : ∀ name ∈ Line.names line, start.find? name = none) (table : LabelTable)
    (index : Nat) : ofLine (start ∪ table) index line = ofLine table index line := by
  unfold ofLine
  split
  · rename_i s hs
    rw [Line.names_of_ofLine? hs] at h
    apply Statement.place_congr
    intro name hname
    exact LabelTable.find?_union_of_none (h name hname)
  · rfl

/-- A line defines only a name that it asks for. -/
theorem defines_mem_names {index : Nat} {name : Text}
    (h : (ofLine table index line).defines = some name) : name ∈ Line.names line := by
  unfold ofLine at h
  split at h
  · rename_i s hs
    rw [Line.names_of_ofLine? hs]
    exact Statement.label_mem_names (Statement.label?_of_place_defines h).1
  · cases h

end Placement

/-! ## Whole programs -/

namespace Layout

variable {start : LabelTable} {lines : List Text}

/-- Labels that no line asks for stay beside those of the layout, which is otherwise the same. -/
theorem placeFrom_union (h : ∀ line ∈ lines, ∀ name ∈ Line.names line, start.find? name = none)
    (table : LabelTable) (index : Nat) :
    placeFrom (start ∪ table) index lines =
      ⟨start ∪ (placeFrom table index lines).table, (placeFrom table index lines).result⟩ := by
  induction lines generalizing table index with
  | nil => rfl
  | cons line rest ih =>
      rw [List.forall_mem_cons] at h
      have hline := Placement.ofLine_union h.1 table index
      have htable : (Placement.ofLine (start ∪ table) index line).tableAfter (start ∪ table) index =
          start ∪ (Placement.ofLine table index line).tableAfter table index := by
        rw [hline, Placement.tableAfter_eq, Placement.tableAfter_eq, LabelTable.union_define]
      cases hresult : (Placement.ofLine table index line).result with
      | error why =>
          -- The line is refused in both layouts, and its label stays defined in both or in none.
          rw [placeFrom_cons_error hresult, placeFrom_cons_error (hline ▸ hresult), htable]
      | ok entries =>
          rw [placeFrom_cons_ok hresult, placeFrom_cons_ok (hline ▸ hresult), htable, ih h.2]
          rfl

end Layout

/-- The labels that the entries of a layout name are operands on its lines. -/
theorem Laid.labelOperand_mem_names {table final : LabelTable} {index : Nat} {lines : List Text}
    {entries : List Entry} (h : Laid table index lines final entries) {name : Text}
    (hname : name ∈ Entry.labelOperands entries) : ∃ line ∈ lines, name ∈ Line.names line := by
  obtain ⟨entry, hentry, hlabel⟩ := List.mem_filterMap.1 hname
  induction h with
  | nil => cases hentry
  | @cons table final index line rest s here more hline hplaced hrest ih =>
      rcases List.mem_append.1 hentry with hhere | hmore
      · have hoperand := hplaced.labelOperand?_eq hhere hlabel
        refine ⟨line, List.mem_cons_self, ?_⟩
        rw [Line.names_of_ofLine? hline]
        exact Statement.labelOperand_mem_names hoperand
      · obtain ⟨line', hline', hnames⟩ := ih (List.mem_filterMap.2 ⟨entry, hmore, hlabel⟩) hmore
        exact ⟨line', List.mem_cons_of_mem line hline', hnames⟩

namespace Line

/-- The names that the kept lines of a program ask the table for. -/
def allNames (lines : List Text) : List Text :=
  (kept lines).flatMap names

theorem forall_names_of_allNames {lines : List Text} {P : Text → Prop}
    (h : ∀ name ∈ allNames lines, P name) : ∀ line ∈ kept lines, ∀ name ∈ names line, P name :=
  fun line hline name hname => h name (List.mem_flatMap.2 ⟨line, hline, hname⟩)

end Line

namespace Layout

variable {start : LabelTable} {lines : List Text}

theorem ofLines_of_unrelated (h : ∀ name ∈ Line.allNames lines, start.find? name = none) :
    ofLines start lines = ⟨start ∪ (ofLines ∅ lines).table, (ofLines ∅ lines).result⟩ := by
  have hunion := placeFrom_union (Line.forall_names_of_allNames h) ∅ 0
  rwa [LabelTable.union_empty] at hunion

/-- A name that a program brings into the empty table is one that it asks for. -/
theorem mem_allNames_of_ofLines {name : Text}
    (h : (ofLines ∅ lines).table.contains name = true) : name ∈ Line.allNames lines := by
  obtain ⟨n, hn⟩ := LabelTable.contains_iff.1 h
  rcases find?_placeFrom_iff.1 hn with hold | ⟨k, ⟨line, middle, before, hline, -, hdefines⟩, -⟩
  · rw [LabelTable.find?_empty] at hold
    cases hold
  · exact List.mem_flatMap.2
      ⟨line, List.mem_of_getElem? hline, Placement.defines_mem_names hdefines⟩

/-- Labels that the program does not ask for do not change its code. -/
theorem programCode_of_unrelated (h : ∀ name ∈ Line.allNames lines, start.find? name = none)
    {final : LabelTable} {entries : List Entry} (hlayout : ofLines ∅ lines = ⟨final, .ok entries⟩) :
    Entry.programCode (start ∪ final) entries = Entry.programCode final entries := by
  have hlaid := ofLines_eq_ok_iff.1 hlayout
  have hwords : Entry.words (start ∪ final) entries = Entry.words final entries := by
    apply Entry.words_congr
    intro name hname
    obtain ⟨line, hline, hmem⟩ := hlaid.labelOperand_mem_names hname
    exact LabelTable.find?_union_of_none (Line.forall_names_of_allNames h line hline name hmem)
  rw [Entry.programCode, Entry.programCode, hwords]

end Layout

/-- From a table none of whose names the kept lines of a program ask for, the program has the same
entries or the same refusal as from the empty table, and the same outcome of the assembly.  The
table afterwards is the table before together with the one that is left from the empty table, and
the two have no name in common. -/
theorem assemble_from_unrelated_table {start : LabelTable} {lines : List Text}
    (h : ∀ name ∈ Line.allNames lines, start.contains name = false) :
    (Layout.ofLines start lines).result = (Layout.ofLines ∅ lines).result ∧
      assemble start lines = ((assemble ∅ lines).1, start ∪ (assemble ∅ lines).2) ∧
      ∀ name, (assemble ∅ lines).2.contains name = true → start.contains name = false := by
  have hnone : ∀ name ∈ Line.allNames lines, start.find? name = none :=
    fun name hname => LabelTable.contains_eq_false_iff.1 (h name hname)
  have hlayout := Layout.ofLines_of_unrelated hnone
  refine ⟨by rw [hlayout], ?_, ?_⟩
  · cases hempty : Layout.ofLines ∅ lines with
    | mk final result =>
        rw [hempty] at hlayout
        cases result with
        | error why => simp only [assemble, hempty, hlayout]
        | ok entries =>
            have hcode := Layout.programCode_of_unrelated hnone hempty
            simp only [assemble, hempty, hlayout, hcode]
            split <;> rfl
  · intro name hname
    rw [assemble_snd] at hname
    exact h name (Layout.mem_allNames_of_ofLines hname)

/-- A loop over a word of data, and a halt. -/
def stepping : List Text :=
  ["loop lw 1,0,step # next".toList, "beq 1,2,loop".toList, "step .fill 3".toList,
    "copy .fill step".toList, "halt".toList]

/-- The code of `stepping`. -/
def steppingCode : Text :=
  "00001001000000010000000000000010\n00001011001000011111111111111110\n".toList ++
    "00000000000000000000000000000011\n00000000000000000000000000000010\n".toList ++
    "00001110000000000000000000000000\n".toList

/-- Labels that `stepping` does not ask for. -/
def otherLabels : LabelTable :=
  .ofList [("top".toList, 40), ("Loop".toList, -1)]

theorem assemble_from_unrelated_table_stepping :
    (∀ name ∈ Line.allNames stepping, otherLabels.contains name = false) ∧
      (assemble otherLabels stepping).1 = .code steppingCode ∧
      (assemble otherLabels stepping).2.find? "Loop".toList = some (-1) ∧
      (assemble otherLabels stepping).2.find? "copy".toList = some 3 := by
  have hnames : ∀ name ∈ Line.allNames stepping, otherLabels.contains name = false := by
    decide +kernel
  have hcode : (assemble ∅ stepping).1 = .code steppingCode := by decide +kernel
  have heq := (assemble_from_unrelated_table hnames).2.1
  rw [heq]
  refine ⟨hnames, hcode, ?_, ?_⟩
  · rw [LabelTable.find?_union]
    decide +kernel
  · rw [LabelTable.find?_union]
    decide +kernel

end WordAsm
