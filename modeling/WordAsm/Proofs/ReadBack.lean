import WordAsm.Proofs.Operands
import WordAsm.Proofs.Source
import WordAsm.Proofs.StatementFields

/-!
# Written programs are read back

The operand text of an instruction reads back as its operands, and the line of an item as the
statement of the item.  Cleaning leaves such lines as they are.
-/

namespace WordAsm

namespace Source

/-! ## Reading operands back -/

/-- The operands as they are read: a value stands as text. -/
def Arguments.operands {f : Format} : Arguments f → Operands
  | register d s t => .register d s t
  | immediate d s v => .immediate d s (.written v.text)
  | upper d v => .upper d (.written v.text)
  | link d s => .link d s
  | jump v => .jump (.written v.text)
  | halt => .halt

theorem Value.isOperandChar_text {v : Value} (h : v.IsNamed) :
    ∀ c ∈ v.text, Text.isOperandChar c = true := by
  intro c hc
  cases v with
  | literal n => exact Numeral.isOperandChar_of_mem_decimal hc
  | label name => exact Text.isOperandChar_of_isWordChar (Line.IsLabel.isWordChar h c hc)

theorem Value.text_ne_nil {v : Value} (h : v.IsNamed) : v.text ≠ [] := by
  cases v with
  | literal n => exact Numeral.decimal_ne_nil n
  | label name => exact (Line.IsLabel.isField h).ne_nil

theorem registerText_eq (r : Register) : registerText r = Nat.toDigits 10 r :=
  Numeral.decimal_natCast r

theorem isAsciiDigit_registerText (r : Register) :
    ∀ c ∈ registerText r, Text.isAsciiDigit c = true := by
  intro c hc
  rw [registerText_eq] at hc
  exact Numeral.isAsciiDigit_of_mem_toDigits hc

theorem registerText_ne_nil (r : Register) : registerText r ≠ [] :=
  Numeral.decimal_ne_nil r

theorem readNumber_registerText (r : Register) :
    Operands.readNumber (registerText r) = .ok (r : Nat) := by
  have hlt : r.val < 10 ^ Numeral.digitLimit :=
    calc r.val < 10 ^ 2 := by omega
      _ ≤ 10 ^ Numeral.digitLimit := Nat.pow_le_pow_right (by omega) (by decide)
  rw [Operands.readNumber, registerText_eq, Numeral.readDigits_toDigits hlt]
  rfl

section Match

open Format Pattern

theorem matchStart_register_comma (r : Register) {ps : List Piece} {s : Text} {ts : List Text}
    (h : matchStart ps s = some ts) :
    matchStart (numberPiece :: commaPiece :: ps) (registerText r ++ ',' :: s) =
      some (registerText r :: [','] :: ts) := by
  have hcomma : matchStart (commaPiece :: ps) (',' :: s) = some ([','] :: ts) := by
    simp [commaPiece, matchStart, h]
  exact matchStart_oneOrMore_stop (registerText_ne_nil r) (isAsciiDigit_registerText r) rfl hcomma

theorem matchStart_register_end (r : Register) :
    matchStart [numberPiece] (registerText r) = some [registerText r] :=
  matchStart_oneOrMore_end (registerText_ne_nil r) (isAsciiDigit_registerText r)

theorem matchStart_value_end {v : Value} (h : v.IsNamed) :
    matchStart [wordPiece] v.text = some [v.text] :=
  matchStart_oneOrMore_end (Value.text_ne_nil h) (Value.isOperandChar_text h)

/-- The shape of a format is found at the start of its operands, and its parts are theirs. -/
theorem Arguments.matchStart_text {f : Format} (a : Arguments f)
    (hnamed : ∀ v ∈ a.value?, v.IsNamed) :
    ∃ ts, matchStart f.pieces a.text = some ts ∧ groups ts = a.parts := by
  cases a with
  | register d s t =>
      have hmatch := matchStart_register_comma d
        (matchStart_register_comma s (matchStart_register_end t))
      exact ⟨_, by simpa [text, parts, pieces] using hmatch, rfl⟩
  | immediate d s v =>
      have hmatch := matchStart_register_comma d
        (matchStart_register_comma s (matchStart_value_end (hnamed v rfl)))
      exact ⟨_, by simpa [text, parts, pieces] using hmatch, rfl⟩
  | upper d v =>
      have hmatch := matchStart_register_comma d (matchStart_value_end (hnamed v rfl))
      exact ⟨_, by simpa [text, parts, pieces] using hmatch, rfl⟩
  | link d s =>
      have hmatch := matchStart_register_comma d (matchStart_register_end s)
      exact ⟨_, by simpa [text, parts, pieces] using hmatch, rfl⟩
  | jump v =>
      have hmatch := matchStart_value_end (hnamed v rfl)
      exact ⟨_, by simpa [text, parts, pieces] using hmatch, rfl⟩
  | halt => exact ⟨[], rfl, rfl⟩

end Match

/-- Operands that are allowed are read back. -/
theorem Arguments.read_text {f : Format} (a : Arguments f) {m : Mnemonic} {names : List Text}
    (h : a.Allowed m names) (hnamed : ∀ v ∈ a.value?, v.IsNamed) (line : Option Int) :
    Operands.read f ⟨m, a.text, line⟩ = .ok a.operands := by
  obtain ⟨ts, hmatch, hparts⟩ := a.matchStart_text hnamed
  have hfound : a.text ≠ [] → (f.findOperands a.text).head?.getD [] = a.parts := by
    intro hne
    rw [Format.findOperands, List.head?_map, Pattern.allMatches_head? hne hmatch, ← hparts]
    rfl
  rw [Operands.read_eq_ok_iff]
  cases a with
  | halt => exact .inl ⟨rfl, rfl, rfl⟩
  | register d s t =>
      refine .inr ⟨by simp, ?_⟩
      rw [hfound (by simp [text, parts])]
      exact .register (readNumber_registerText d) (readNumber_registerText s)
        (readNumber_registerText t) h
  | immediate d s v =>
      refine .inr ⟨by simp, ?_⟩
      rw [hfound (by simp [text, parts])]
      exact .immediate (readNumber_registerText d) (readNumber_registerText s) h.1
  | upper d v =>
      refine .inr ⟨by simp, ?_⟩
      rw [hfound (by simp [text, parts])]
      exact .upper (readNumber_registerText d) h.1
  | link d s =>
      refine .inr ⟨by simp, ?_⟩
      rw [hfound (by simp [text, parts])]
      exact .link (readNumber_registerText d) (readNumber_registerText s) h
  | jump v =>
      refine .inr ⟨by simp, ?_⟩
      rw [hfound (by simpa [text, parts] using Value.text_ne_nil (hnamed v rfl))]
      exact .jump

/-! ## Reading lines back -/

theorem isField_append_comma {s t : Text} (hs : Line.IsField s) (ht : Line.IsField t) :
    Line.IsField (s ++ ',' :: t) := by
  refine ⟨by simp, ?_, ?_⟩
  · simp only [List.forall_mem_append, List.forall_mem_cons]
    exact ⟨hs.not_blank, by decide, ht.not_blank⟩
  · simp only [List.forall_mem_append, List.forall_mem_cons]
    exact ⟨hs.not_comment, by decide, ht.not_comment⟩

theorem isField_registerText (r : Register) : Line.IsField (registerText r) :=
  Line.isField_of_isOperandChar (registerText_ne_nil r)
    fun _ hc => Numeral.isOperandChar_of_mem_decimal hc

theorem Value.isField_text {v : Value} (h : v.IsNamed) : Line.IsField v.text :=
  Line.isField_of_isOperandChar (text_ne_nil h) (isOperandChar_text h)

theorem Arguments.isField_text {f : Format} (a : Arguments f)
    (hnamed : ∀ v ∈ a.value?, v.IsNamed) (hf : f ≠ .halt) : Line.IsField a.text := by
  cases a with
  | register d s t =>
      have hfield := isField_append_comma (isField_registerText d)
        (isField_append_comma (isField_registerText s) (isField_registerText t))
      simpa [text, parts] using hfield
  | immediate d s v =>
      have hfield := isField_append_comma (isField_registerText d)
        (isField_append_comma (isField_registerText s) (Value.isField_text (hnamed v rfl)))
      simpa [text, parts] using hfield
  | upper d v =>
      have hfield := isField_append_comma (isField_registerText d)
        (Value.isField_text (hnamed v rfl))
      simpa [text, parts] using hfield
  | link d s =>
      have hfield := isField_append_comma (isField_registerText d) (isField_registerText s)
      simpa [text, parts] using hfield
  | jump v =>
      have hfield := Value.isField_text (hnamed v rfl)
      simpa [text, parts] using hfield
  | halt => exact absurd rfl hf

/-- Operand text is never taken for a halt. -/
theorem Arguments.text_ne_halt {f : Format} (a : Arguments f) {m : Mnemonic} {names : List Text}
    (h : a.Allowed m names) : a.text ≠ Mnemonic.halt.name.toList := by
  have hcomma : ∀ s t : Text, s ++ ',' :: t ≠ Mnemonic.halt.name.toList := by
    intro s t heq
    have hmem : ',' ∈ Mnemonic.halt.name.toList := by
      rw [← heq]
      simp
    exact absurd hmem (by decide)
  cases a with
  | register d s t => simpa [text, parts] using hcomma (registerText d) _
  | immediate d s v => simpa [text, parts] using hcomma (registerText d) _
  | upper d v => simpa [text, parts] using hcomma (registerText d) _
  | link d s => simpa [text, parts] using hcomma (registerText d) _
  | jump v =>
      cases v with
      | literal n =>
          -- A numeral has no letters.
          intro heq
          have hnumeral := Numeral.isNumeral_decimal n
          have htext : Numeral.decimal n = Mnemonic.halt.name.toList := by
            simpa [text, parts, Value.text] using heq
          rw [htext] at hnumeral
          exact absurd hnumeral (by decide +kernel)
      | label name =>
          intro heq
          apply h.1
          simpa [text, parts, Value.text] using heq
  | halt => decide

/-- The statement that an item stands for. -/
def Item.statement : Item → Statement
  | instruction label m a =>
      if m = .halt then .halt label else .instruction label m.name.toList a.text
  | fill label v => .directive .fill label v.text
  | space label n => .directive .space label (Numeral.decimal n)

theorem WellFormed.arguments_isNamed {p : List Item} (h : WellFormed p) {f : Format}
    {a : Arguments f} {m : Mnemonic} (ha : a.Allowed m (labels p)) : ∀ v ∈ a.value?, v.IsNamed :=
  fun v hv => h.isNamed (ha.value_allowed v hv) (List.Subset.refl _)

theorem WellFormed.fill_isNamed {p : List Item} (h : WellFormed p) {index : Nat} {v : Value}
    {low high : Int} (hv : v.Allowed (labels (p.take index)) low high) : v.IsNamed :=
  h.isNamed hv ((List.take_sublist index p).filterMap Item.label?).subset

theorem ofLine?_halt {label : Option Text} (hlabel : ∀ l ∈ label, Line.IsLabel l) :
    Statement.ofLine? ([' '].intercalate (label.toList ++ [Mnemonic.halt.name.toList])) =
      some (.halt label) := by
  cases label with
  | none => decide +kernel
  | some l =>
      have hread := Statement.ofLine?_two (hlabel l rfl).isField (Mnemonic.isField_name .halt)
      rw [Statement.ofFields_halt (hlabel l rfl).ne_directive] at hread
      simpa using hread

theorem ofLine?_command {label : Option Text} (hlabel : ∀ l ∈ label, Line.IsLabel l)
    (m : Mnemonic) {text : Text} (htext : Line.IsField text)
    (hhalt : text ≠ Mnemonic.halt.name.toList) :
    Statement.ofLine? ([' '].intercalate (label.toList ++ [m.name.toList, text])) =
      some (.instruction label m.name.toList text) := by
  cases label with
  | none =>
      have hread := Statement.ofLine?_two m.isField_name htext
      rw [Statement.ofFields_instruction m.name_ne_directive hhalt] at hread
      simpa [Statement.labelOf] using hread
  | some l =>
      have hl := hlabel l rfl
      have hread := Statement.ofLine?_three hl m.isField_name htext
      rw [Statement.ofFields_instruction m.name_ne_directive hhalt] at hread
      simpa [Statement.labelOf, hl.isField.ne_nil] using hread

theorem format_ne_halt {m : Mnemonic} (hm : m ≠ .halt) : m.format ≠ .halt := by
  cases m <;> simp [Mnemonic.format] at hm ⊢

/-- The line of an item is read as its statement. -/
theorem WellFormed.ofLine?_line {p : List Item} (h : WellFormed p) {index : Nat} {x : Item}
    (hx : p[index]? = some x) : Statement.ofLine? x.line = some x.statement := by
  have hallowed := h.allowed hx
  cases x with
  | instruction label m a =>
      obtain ⟨hlabel, ha⟩ := hallowed
      have hlabel' : ∀ l ∈ label, Line.IsLabel l := fun l hl => (hlabel l hl).1
      by_cases hm : m = .halt
      · subst hm
        exact ofLine?_halt hlabel'
      · have htext := a.isField_text (h.arguments_isNamed ha) (format_ne_halt hm)
        have hread := ofLine?_command hlabel' m htext (a.text_ne_halt ha)
        simpa [Item.line, Item.fields, Item.statement, hm] using hread
  | fill label v =>
      obtain ⟨hlabel, -, hv⟩ := hallowed
      have hread := Statement.ofLine?_three hlabel (Directive.isField_name .fill)
        (Value.isField_text (h.fill_isNamed hv))
      simpa [Item.line, Item.fields, Item.statement, Statement.ofFields] using hread
  | space label n =>
      have hread := Statement.ofLine?_three hallowed.1 (Directive.isField_name .space)
        (Value.isField_text (v := .literal n) trivial)
      have hname : Directive.space.name.toList ≠ Directive.fill.name.toList := by decide
      simpa [Item.line, Item.fields, Item.statement, Statement.ofFields, Value.text,
        hname] using hread

theorem WellFormed.isField_fields {p : List Item} (h : WellFormed p) {index : Nat} {x : Item}
    (hx : p[index]? = some x) : ∀ t ∈ x.fields, Line.IsField t := by
  have hallowed := h.allowed hx
  cases x with
  | instruction label m a =>
      obtain ⟨hlabel, ha⟩ := hallowed
      intro t ht
      rcases List.mem_append.1 ht with ht | ht
      · exact (hlabel t (Option.mem_toList.1 ht)).1.isField
      · rcases List.mem_cons.1 ht with rfl | ht
        · exact m.isField_name
        · by_cases hm : m = .halt
          · simp [hm] at ht
          · obtain rfl : t = a.text := by simpa [hm] using ht
            exact a.isField_text (h.arguments_isNamed ha) (format_ne_halt hm)
  | fill label v =>
      obtain ⟨hlabel, -, hv⟩ := hallowed
      simp only [Item.fields, List.forall_mem_cons]
      exact ⟨hlabel.isField, Directive.isField_name .fill, Value.isField_text (h.fill_isNamed hv),
        by simp⟩
  | space label n =>
      simp only [Item.fields, List.forall_mem_cons]
      exact ⟨hallowed.1.isField, Directive.isField_name .space,
        Value.isField_text (v := .literal n) trivial, by simp⟩

theorem isClean_intercalate {fields : List Text} (hne : fields ≠ [])
    (h : ∀ t ∈ fields, Line.IsField t) : Line.IsClean ([' '].intercalate fields) := by
  induction fields with
  | nil => exact absurd rfl hne
  | cons t fields ih =>
      rw [List.forall_mem_cons] at h
      cases fields with
      | nil => simpa using h.1.isClean
      | cons t' fields =>
          have hrest := ih (List.cons_ne_nil t' fields) h.2
          simpa using h.1.isClean.append_gap hrest

theorem Item.fields_ne_nil (x : Item) : x.fields ≠ [] := by
  cases x <;> simp [fields]

/-- The lines of a program are kept as they are. -/
theorem WellFormed.kept_lines {p : List Item} (h : WellFormed p) :
    Line.kept (p.map Item.line) = p.map Item.line := by
  apply Line.kept_of_isClean
  intro line hline
  obtain ⟨x, hx, rfl⟩ := List.mem_map.1 hline
  obtain ⟨index, hindex⟩ := List.getElem?_of_mem hx
  exact isClean_intercalate x.fields_ne_nil (h.isField_fields hindex)

end Source

end WordAsm
