import WordAsm.Proofs.LabelNames
import WordAsm.Proofs.Trivia

/-!
# What a refused program leaves behind

A layout is refused at one line.  The lines before it are placed as they are without it, and those
after it are not looked at, so the table that is left is the table of the lines before.

There is one exception.  The label of an instruction is defined before its command is looked at,
and when the command is unknown then the label stays.  The caller's lines are left cleaned as well,
also those after the refused one.
-/

namespace WordAsm

/-! ## The refused line -/

/-- A command is refused exactly when it is unknown. -/
theorem Instruction.read_eq_error_iff {command operands : Text} {line : Option Int} :
    (∃ why, read command operands line = .error why) ↔
      Mnemonic.ofText? command = none := by
  unfold read
  cases Mnemonic.ofText? command <;> simp

namespace Statement

variable {table : LabelTable} {index : Nat} {label : Text}

/-- An instruction with an unknown command that leaves its label behind. -/
inductive Strands (table : LabelTable) (label : Text) : Statement → Prop
  | intro {command operands : Text} (hshort : label.length ≤ labelLimit)
      (hnew : table.contains label = false) (hunknown : Mnemonic.ofText? command = none) :
      Strands table label (.instruction (some label) command operands)

theorem labelAllowed_some_iff :
    LabelAllowed table (some label) ↔
      label.length ≤ labelLimit ∧ table.contains label = false := by
  simp [LabelAllowed]

/-- The label of an instruction is defined exactly when it is allowed, whatever the instruction. -/
theorem placeLabelled_defines_iff {given : Option Text}
    {instruction : Except Rejection Instruction} :
    (placeLabelled table index given instruction).defines = some label ↔
      given = some label ∧ LabelAllowed table (some label) := by
  constructor
  · intro h
    obtain ⟨rfl, -⟩ := placeLabelled_of_defines h
    refine ⟨rfl, labelAllowed_some_iff.2 ⟨?_, placeLabelled_defines h⟩⟩
    by_contra hlong
    rw [Nat.not_le] at hlong
    simp [placeLabelled, hlong] at h
  · rintro ⟨rfl, hallowed⟩
    rw [placeLabelled_of_allowed hallowed]

/-- A refused statement defines a label exactly when it strands it. -/
theorem defines_eq_some_iff_strands {s : Statement} {why : Rejection}
    (hwhy : (s.place table index).result = .error why) :
    (s.place table index).defines = some label ↔ s.Strands table label := by
  cases s with
  | directive d given operand =>
      refine iff_of_false ?_ (by rintro ⟨⟩)
      intro hdefines
      obtain ⟨entries, hplace⟩ := placeDirective_of_defines hdefines
      cases hwhy.symm.trans (congrArg Placement.result hplace)
  | halt given =>
      refine iff_of_false ?_ (by rintro ⟨⟩)
      intro hdefines
      obtain ⟨-, hplace⟩ := placeLabelled_of_defines hdefines
      cases hwhy.symm.trans (congrArg Placement.result hplace)
  | instruction given command operands =>
      refine placeLabelled_defines_iff.trans ⟨?_, ?_⟩
      · rintro ⟨rfl, hallowed⟩
        -- The label was taken, so the refusal is that of the command.
        have hread : (Instruction.read command operands (some index)).map
            (fun i => [Entry.instruction i]) = .error why := by
          rw [← hwhy, place, placeLabelled_of_allowed hallowed]
        have hunknown : Mnemonic.ofText? command = none := by
          cases hcommand : Instruction.read command operands (some index) with
          | error why' => exact Instruction.read_eq_error_iff.1 ⟨why', hcommand⟩
          | ok i =>
              rw [hcommand] at hread
              cases hread
        obtain ⟨hshort, hnew⟩ := labelAllowed_some_iff.1 hallowed
        exact .intro hshort hnew hunknown
      · rintro ⟨hshort, hnew, -⟩
        exact ⟨rfl, labelAllowed_some_iff.2 ⟨hshort, hnew⟩⟩

end Statement

/-- A kept line that is refused and leaves a label behind. -/
def Line.Strands (table : LabelTable) (line label : Text) : Prop :=
  ∃ s, Statement.ofLine? line = some s ∧ s.Strands table label

/-- What a refused line defines is the label that it strands. -/
theorem Placement.defines_eq_some_iff_strands {table : LabelTable} {index : Nat}
    {line label : Text} {why : Rejection} (hwhy : (ofLine table index line).result = .error why) :
    (ofLine table index line).defines = some label ↔ Line.Strands table line label := by
  unfold Line.Strands
  unfold ofLine at hwhy ⊢
  cases hs : Statement.ofLine? line with
  | none => simp
  | some s =>
      rw [hs] at hwhy
      simpa using Statement.defines_eq_some_iff_strands hwhy

/-! ## The refused layout -/

namespace Layout

variable {table middle : LabelTable} {index k : Nat} {lines : List Text} {line : Text}
  {before : List Entry} {why : Rejection}

/-- A refused layout is refused at one of the lines, after those before it were placed. -/
theorem exists_refused_line (h : (placeFrom table index lines).result = .error why) :
    ∃ k line middle before, lines[k]? = some line ∧
      placeFrom table index (lines.take k) = ⟨middle, .ok before⟩ ∧
      (Placement.ofLine middle (index + k) line).result = .error why := by
  induction lines generalizing table index with
  | nil => cases h
  | cons line rest ih =>
      cases hline : (Placement.ofLine table index line).result with
      | error why' =>
          rw [placeFrom_cons_error hline] at h
          obtain rfl : why' = why := Except.error.inj h
          exact ⟨0, line, table, [], rfl, rfl, hline⟩
      | ok entries =>
          rw [placeFrom_cons_ok hline, prepend_result_eq_error_iff] at h
          obtain ⟨k, line', middle, more, hline', hmore, hwhy⟩ := ih h
          refine ⟨k + 1, line', middle, entries ++ more, hline', ?_, ?_⟩
          · rw [List.take_succ_cons, placeFrom_cons_ok hline]
            exact prepend_eq_ok_iff.2 ⟨more, hmore, rfl⟩
          · rwa [show index + (k + 1) = index + 1 + k by omega]

/-- A line that is refused where the lines before it end is the end of the layout. -/
theorem placeFrom_of_refused_line (hline : lines[k]? = some line)
    (hbefore : placeFrom table index (lines.take k) = ⟨middle, .ok before⟩)
    (hwhy : (Placement.ofLine middle (index + k) line).result = .error why) :
    placeFrom table index lines =
      ⟨(Placement.ofLine middle (index + k) line).tableAfter middle (index + k), .error why⟩ := by
  obtain ⟨hk, hget⟩ := List.getElem?_eq_some_iff.1 hline
  have hlines : lines.take k ++ line :: lines.drop (k + 1) = lines := by
    rw [← hget, ← List.drop_eq_getElem_cons hk, List.take_append_drop]
  have hrest := placeFrom_append hbefore (line :: lines.drop (k + 1))
  rw [hlines, List.length_take_of_le (Nat.le_of_lt hk), placeFrom_cons_error hwhy] at hrest
  exact hrest

end Layout

/-! ## The refused program -/

theorem Line.kept_take_kept (lines : List Text) (k : Nat) :
    kept ((kept lines).take k) = (kept lines).take k :=
  kept_of_isClean fun _ hline => isClean_of_mem_kept (List.mem_of_mem_take hline)

/-- A refused program is refused at one of its kept lines.  The lines before it alone are laid
out, and the table that the program leaves is theirs, but for a label that the refused line
strands, which is then bound to the number of that line.  All of the caller's lines are clean. -/
theorem refused_program_leaves {start : LabelTable} {lines : List Text} {why : Rejection}
    (h : (Intake.ofLines start lines).layout.result = .error why) :
    (Intake.ofLines start lines).lines = lines.map Line.clean ∧
    (∀ line ∈ (Intake.ofLines start lines).lines, line = [] ∨ Line.IsClean line) ∧
    ∃ k line middle before, (Intake.ofLines start lines).kept[k]? = some line ∧
      (Intake.ofLines start ((Intake.ofLines start lines).kept.take k)).layout =
        ⟨middle, .ok before⟩ ∧
      (Intake.ofLines start ((Intake.ofLines start lines).kept.take (k + 1))).layout =
        (Intake.ofLines start lines).layout ∧
      (Placement.ofLine middle k line).result = .error why ∧
      (∀ label, Line.Strands middle line label →
        (Intake.ofLines start lines).layout.table = middle.insert label k) ∧
      ((∀ label, ¬ Line.Strands middle line label) →
        (Intake.ofLines start lines).layout.table = middle) := by
  simp only [Intake.ofLines_eq, Layout.ofLines, Line.kept_take_kept] at h ⊢
  refine ⟨trivial, ?_, ?_⟩
  · intro line hline
    obtain ⟨t, -, rfl⟩ := List.mem_map.1 hline
    by_cases hnil : Line.clean t = []
    · exact .inl hnil
    · exact .inr (Line.isClean_clean hnil)
  · obtain ⟨k, line, middle, before, hline, hbefore, hwhy⟩ := Layout.exists_refused_line h
    have hall := Layout.placeFrom_of_refused_line hline hbefore hwhy
    -- The layout of the lines up to this one ends here too.
    have hline' : ((Line.kept lines).take (k + 1))[k]? = some line := by
      rw [List.getElem?_take_of_lt (Nat.lt_succ_self k), hline]
    have hbefore' : Layout.placeFrom start 0 (((Line.kept lines).take (k + 1)).take k) =
        ⟨middle, .ok before⟩ := by
      rw [List.take_take, Nat.min_eq_left (Nat.le_succ k), hbefore]
    have hupto := Layout.placeFrom_of_refused_line hline' hbefore' hwhy
    rw [Nat.zero_add] at hall hupto hwhy
    refine ⟨k, line, middle, before, hline, hbefore, hupto.trans hall.symm, hwhy, ?_, ?_⟩
    · intro label hstrands
      have hdefines := (Placement.defines_eq_some_iff_strands hwhy).2 hstrands
      rw [hall, Placement.tableAfter, hdefines]
    · intro hnone
      have hdefines : (Placement.ofLine middle k line).defines = none := by
        rw [Option.eq_none_iff_forall_ne_some]
        intro label hlabel
        exact hnone label ((Placement.defines_eq_some_iff_strands hwhy).1 hlabel)
      rw [hall, Placement.tableAfter, hdefines]

/-- A program that is refused in the middle, at a labelled line with an unknown command. -/
def halfPlaced : List Text :=
  ["a .fill 1 # one".toList, "# empty".toList, " twice mult a,2,a ".toList, "b halt # end".toList]

theorem refused_program_leaves_halfPlaced :
    (Intake.ofLines ∅ halfPlaced).layout.result =
        .error (.unknownCommand "mult".toList (some 1)) ∧
      (Intake.ofLines ∅ halfPlaced).lines =
        ["a .fill 1".toList, [], "twice mult a,2,a".toList, "b halt".toList] ∧
      (Intake.ofLines ∅ halfPlaced).layout.table =
        ((∅ : LabelTable).insert "a".toList 0).insert "twice".toList 1 := by
  have hkept : (Intake.ofLines ∅ halfPlaced).kept =
      ["a .fill 1".toList, "twice mult a,2,a".toList, "b halt".toList] := by
    decide +kernel
  have hrefused : (Intake.ofLines ∅ halfPlaced).layout.result =
      .error (.unknownCommand "mult".toList (some 1)) := by
    decide +kernel
  have hfirst : (Intake.ofLines ∅ ["a .fill 1".toList]).layout =
      ⟨(∅ : LabelTable).insert "a".toList 0, .ok [.word (Binary.complementText 32 1)]⟩ := rfl
  obtain ⟨hlines, -, k, line, middle, before, hline, hbefore, -, hwhy, htable, -⟩ :=
    refused_program_leaves hrefused
  -- The refusal names the line at which it happened.
  have hk := Placement.ofLine_failsOnly middle k line _ hwhy 1 rfl
  obtain rfl : k = 1 := by omega
  rw [hkept] at hline hbefore
  obtain rfl : "twice mult a,2,a".toList = line := Option.some.inj hline
  cases hfirst.symm.trans hbefore
  refine ⟨hrefused, hlines.trans (by decide +kernel), htable "twice".toList ?_⟩
  exact ⟨.instruction (some "twice".toList) "mult".toList "a,2,a".toList, by decide +kernel,
    .intro (by decide) (by decide +kernel) (by decide +kernel)⟩

end WordAsm
