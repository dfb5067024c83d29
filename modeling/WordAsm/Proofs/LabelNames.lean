import WordAsm.Proofs.LineByLine
import WordAsm.Proofs.StatementFields

/-!
# Names in the table

A label that is written before a command is an identifier, a letter and then word characters.  The
names that programs bring into the table are of this kind but for two sorts.  A directive without a
label defines the empty name, and a halt defines whatever stands before it on its line.

These are the only two ways.  All names of a session's table are identifiers exactly when no
directive without a label and no halt with another label was placed, in any program of the session
and also in those that were refused later on.
-/

namespace WordAsm

/-- All names of a table are identifiers. -/
def LabelTable.WellNamed (table : LabelTable) : Prop :=
  ∀ name, table.contains name = true → Line.IsLabel name

theorem LabelTable.WellNamed.mono {final table : LabelTable} (h : final.WellNamed)
    (hextends : final.Extends table) : table.WellNamed := by
  intro name hname
  obtain ⟨n, hn⟩ := contains_iff.1 hname
  exact h name (contains_iff.2 ⟨n, hextends name n hn⟩)

theorem LabelTable.wellNamed_empty : (∅ : LabelTable).WellNamed := by
  intro name hname
  simp [contains] at hname

/-! ## One line -/

namespace Statement

variable {table : LabelTable} {index : Nat}

/-- A directive has a label, and the label of a halt is an identifier. -/
def WellLabelled : Statement → Prop
  | directive _ label _ => label ≠ []
  | halt label => ∀ l, label = some l → Line.IsLabel l
  | instruction _ _ _ => True

/-- The label that a line defines is an identifier, but for the two exceptions. -/
theorem isLabel_label?_iff {line : Text} {s : Statement} (h : ofLine? line = some s) :
    (∀ l, s.label? = some l → Line.IsLabel l) ↔ s.WellLabelled := by
  obtain rfl | ⟨label, command, rest, hlabel, rfl⟩ := ofLine?_cases h
  · exact Iff.rfl
  · have hdirective : (∀ l, some label = some l → Line.IsLabel l) ↔ label ≠ [] := by
      constructor
      · intro hl
        exact (hl label rfl).isField.ne_nil
      · rintro hne l ⟨⟩
        exact hlabel.resolve_left hne
    unfold ofFields
    split_ifs
    · exact hdirective
    · exact hdirective
    · exact Iff.rfl
    · refine iff_of_true ?_ trivial
      intro l hl
      obtain ⟨hne, rfl⟩ := labelOf_eq_some_iff.1 hl
      exact hlabel.resolve_left hne

theorem placeData_of_defines {d : Directive} {label l : Text} {top : Int}
    {words : Unit → List Entry}
    (h : (placeData table d index label top words).defines = some l) :
    placeData table d index label top words = ⟨some label, .ok (words ())⟩ := by
  unfold placeData at h ⊢
  split_ifs at h ⊢
  rfl

theorem placeLabelled_of_defines {label : Option Text} {l : Text}
    {instruction : Except Rejection Instruction}
    (h : (placeLabelled table index label instruction).defines = some l) :
    label = some l ∧ placeLabelled table index label instruction =
      ⟨some l, instruction.map fun i => [.instruction i]⟩ := by
  cases label with
  | none => cases h
  | some label =>
      rcases placeLabelled_cases table index label instruction with ⟨why, hplace, -⟩ | hplace
      · rw [hplace] at h
        cases h
      · rw [hplace] at h ⊢
        obtain rfl := Option.some.inj h
        exact ⟨rfl, rfl⟩

/-- A directive that defines a label is placed. -/
theorem placeDirective_of_defines {d : Directive} {label operand l : Text}
    (h : (placeDirective table d index label operand).defines = some l) :
    ∃ entries, placeDirective table d index label operand = ⟨some label, .ok entries⟩ := by
  unfold placeDirective at h ⊢
  split at h
  · cases h
  · cases d with
    | fill => exact ⟨_, placeData_of_defines h⟩
    | space =>
        simp only at h ⊢
        split_ifs at h ⊢
        exact ⟨_, placeData_of_defines h⟩

/-- What a line defines is its label.  A refused line that defines one is an instruction. -/
theorem label?_of_place_defines {s : Statement} {l : Text}
    (h : (s.place table index).defines = some l) :
    s.label? = some l ∧
      ((∃ entries, (s.place table index).result = .ok entries) ∨ s.WellLabelled) := by
  cases s with
  | directive d label operand =>
      obtain ⟨entries, hplace⟩ := placeDirective_of_defines h
      exact ⟨(congrArg Placement.defines hplace).symm.trans h,
        .inl ⟨entries, congrArg Placement.result hplace⟩⟩
  | halt label =>
      obtain ⟨hlabel, hplace⟩ := placeLabelled_of_defines h
      exact ⟨hlabel, .inl ⟨_, congrArg Placement.result hplace⟩⟩
  | instruction label command operands =>
      exact ⟨(placeLabelled_of_defines h).1, .inr trivial⟩

end Statement

/-! ## One program -/

namespace Layout

/-- A statement that a layout gets past, whether or not a later line is refused. -/
def Places (table : LabelTable) (lines : List Text) (s : Statement) : Prop :=
  ∃ k line entries, (Line.kept lines)[k]? = some line ∧ Statement.ofLine? line = some s ∧
    (placeFrom table 0 ((Line.kept lines).take (k + 1))).result = .ok entries

variable {table : LabelTable} {lines : List Text}

/-- The label of a placed statement is in the table at the end. -/
theorem Places.contains_label {s : Statement} (h : Places table lines s) {l : Text}
    (hl : s.label? = some l) : (ofLines table lines).table.contains l = true := by
  obtain ⟨k, line, entries, hline, hs, hresult⟩ := h
  obtain ⟨middle, before, here, hbefore, hplaced, -⟩ :=
    placed_of_past hline hs (congrArg (Layout.mk _) hresult)
  have hdefines : (Placement.ofLine middle (0 + k) line).defines = some l := by
    rw [Placement.ofLine, hs, Nat.zero_add]
    simp only [hplaced.place_eq, hl]
  have hfind := find?_placeFrom_iff.2
    (.inr ⟨k, ⟨line, middle, before, hline, hbefore, hdefines⟩, rfl⟩)
  exact LabelTable.contains_iff.2 ⟨_, hfind⟩

/-- A line at which a layout arrives is placed if the line itself is not refused. -/
theorem Places.of_result {middle : LabelTable} {before entries : List Entry} {k : Nat}
    {line : Text} {s : Statement} (hline : (Line.kept lines)[k]? = some line)
    (hs : Statement.ofLine? line = some s)
    (hbefore : placeFrom table 0 ((Line.kept lines).take k) = ⟨middle, .ok before⟩)
    (hresult : (s.place middle k).result = .ok entries) : Places table lines s := by
  obtain ⟨hk, rfl⟩ := List.getElem?_eq_some_iff.1 hline
  have hplace : (Placement.ofLine middle k (Line.kept lines)[k]).result = .ok entries := by
    rw [Placement.ofLine, hs]
    exact hresult
  refine ⟨k, _, before ++ (entries ++ []), hline, hs, ?_⟩
  rw [List.take_succ_eq_append_getElem hk, placeFrom_append hbefore,
    List.length_take_of_le (Nat.le_of_lt hk), Nat.zero_add, placeFrom_cons_ok hplace]
  rfl

/-- A program brings only identifiers into the table exactly when no statement that the layout gets
past is an exception. -/
theorem wellNamed_ofLines_iff (h : table.WellNamed) :
    (ofLines table lines).table.WellNamed ↔ ∀ s, Places table lines s → s.WellLabelled := by
  constructor
  · intro hnamed s hplaces
    obtain ⟨k, line, entries, hline, hs, hresult⟩ := id hplaces
    rw [← Statement.isLabel_label?_iff hs]
    exact fun l hl => hnamed l (hplaces.contains_label hl)
  · intro hlabelled name hname
    obtain ⟨n, hn⟩ := LabelTable.contains_iff.1 hname
    rcases find?_placeFrom_iff.1 hn with hold | ⟨k, hdefinesAt, -⟩
    · exact h name (LabelTable.contains_iff.2 ⟨n, hold⟩)
    · -- The line that defines the name is placed, or it is an instruction.
      obtain ⟨line, middle, before, hline, hbefore, hdefines⟩ := hdefinesAt
      rw [Nat.zero_add] at hdefines
      unfold Placement.ofLine at hdefines
      split at hdefines
      · rename_i s hs
        obtain ⟨hl, hcases⟩ := Statement.label?_of_place_defines hdefines
        refine (Statement.isLabel_label?_iff hs).2 ?_ name hl
        rcases hcases with ⟨entries, hresult⟩ | hs'
        · exact hlabelled s (.of_result hline hs hbefore hresult)
        · exact hs'
      · cases hdefines

end Layout

/-! ## A session -/

namespace Session

/-- A step that does not change the table by hand. -/
def Step.ByProgram : Step → Prop
  | layOut _ | encode _ | inspect _ => True
  | define _ _ | remove _ | clear => False

instance : (step : Step) → Decidable step.ByProgram
  | .layOut _ | .encode _ | .inspect _ => isTrue trivial
  | .define _ _ | .remove _ | .clear => isFalse id

/-- A statement that one of the programs of a session places. -/
def Places (session : Session) (steps : List Step) (s : Statement) : Prop :=
  ∃ m lines, steps[m]? = some (.layOut lines) ∧
    Layout.Places (session.after (steps.take m)).table lines s

variable {session : Session} {step : Step} {steps : List Step}

theorem places_cons {s : Statement} :
    session.Places (step :: steps) s ↔
      (∃ lines, step = .layOut lines ∧ Layout.Places session.table lines s) ∨
        (session.step step).2.Places steps s := by
  unfold Places
  rw [← Nat.or_exists_add_one]
  simp [after]

theorem extends_step (h : step.ByProgram) :
    (session.step step).2.table.Extends session.table := by
  cases step with
  | layOut lines =>
      change (session.layOut lines).2.table.Extends session.table
      rw [layOut_table]
      exact Layout.extends_ofLines session.table lines
  | encode program => exact fun _ _ hn => hn
  | inspect program => exact fun _ _ hn => hn
  | _ => exact h.elim

/-- Programs keep every label of the table. -/
theorem extends_after (h : ∀ step ∈ steps, step.ByProgram) :
    (session.after steps).table.Extends session.table := by
  induction steps generalizing session with
  | nil => exact fun _ _ hn => hn
  | cons step steps ih =>
      rw [List.forall_mem_cons] at h
      exact (ih h.2).trans (extends_step h.1)

/-- One step: only a new program brings names into the table. -/
theorem wellNamed_step_iff (hnamed : session.table.WellNamed) (h : step.ByProgram) :
    (session.step step).2.table.WellNamed ↔
      ∀ lines, step = .layOut lines →
        ∀ s, Layout.Places session.table lines s → s.WellLabelled := by
  cases step with
  | layOut lines =>
      change (session.layOut lines).2.table.WellNamed ↔ _
      rw [layOut_table, Layout.wellNamed_ofLines_iff hnamed]
      simp
  | encode program => exact iff_of_true hnamed fun _ hlines => by cases hlines
  | inspect program => exact iff_of_true hnamed fun _ hlines => by cases hlines
  | _ => exact h.elim

/-- A run of steps: all names stay identifiers exactly when no program places an exception. -/
theorem wellNamed_after_iff (hnamed : session.table.WellNamed)
    (h : ∀ step ∈ steps, step.ByProgram) :
    (session.after steps).table.WellNamed ↔ ∀ s, session.Places steps s → s.WellLabelled := by
  induction steps generalizing session with
  | nil => simpa [Places, after] using hnamed
  | cons step steps ih =>
      rw [List.forall_mem_cons] at h
      change ((session.step step).2.after steps).table.WellNamed ↔ _
      simp only [places_cons]
      constructor
      · -- A name that came in at the first step is still there at the end.
        intro hfinal
        have hstep := hfinal.mono (extends_after h.2)
        rintro s (⟨lines, rfl, hplaces⟩ | hplaces)
        · exact (wellNamed_step_iff hnamed h.1).1 hstep lines rfl s hplaces
        · exact (ih hstep h.2).1 hfinal s hplaces
      · intro hlabelled
        have hstep := (wellNamed_step_iff hnamed h.1).2 fun lines hlines s hplaces =>
          hlabelled s (.inl ⟨lines, hlines, hplaces⟩)
        exact (ih hstep h.2).2 fun s hplaces => hlabelled s (.inr hplaces)

/-- Whatever programs are laid out and encoded from the empty table, refused or not, every name in
the table is an identifier if and only if every directive that was placed has a label and every
label of a halt that was placed is an identifier. -/
theorem names_are_identifiers_iff {steps : List Step} (h : ∀ step ∈ steps, step.ByProgram) :
    (∀ name, (start.after steps).table.contains name = true → Line.IsLabel name) ↔
      ∀ s, start.Places steps s → s.WellLabelled :=
  wellNamed_after_iff LabelTable.wellNamed_empty h

/-- A program whose labels are identifiers, and one that is refused after a word without a label
and a halt with a label that is none. -/
def strayNames : List Step :=
  [.layOut ["loop beq 1,2,loop".toList, "exit halt".toList], .encode 0,
    .layOut [".fill 5".toList, "2nd halt".toList, "loop halt".toList]]

theorem names_are_identifiers_iff_strayNames :
    (∀ step ∈ strayNames, step.ByProgram) ∧
      (start.after strayNames).table.contains [] = true ∧
      (start.after strayNames).table.contains "2nd".toList = true ∧
      ¬ ∀ s, start.Places strayNames s → s.WellLabelled := by
  have hsteps : ∀ step ∈ strayNames, step.ByProgram := by decide +kernel
  have hempty : (start.after strayNames).table.contains [] = true := by decide +kernel
  refine ⟨hsteps, hempty, by decide +kernel, ?_⟩
  intro h
  exact (names_are_identifiers_iff hsteps).2 h [] hempty

end Session

end WordAsm
