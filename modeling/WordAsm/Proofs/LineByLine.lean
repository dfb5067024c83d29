import WordAsm.Proofs.EncodingFaults
import WordAsm.Proofs.SharedTable

/-!
# A layout line by line

A layout goes from line to line until one is refused.  Laying out two parts is laying out the
first and, if it is not refused, the second from where the first ends.  A name of the final table
was there before, or exactly one line that the layout came to defined it, as its own index.  That
line may be the refused one.

A refusal names the line at which it happened or no line at all, so refusals of different lines
are told apart unless both are about a numeral.  The table after an assembly is that of its layout,
since encoding only looks labels up.
-/

namespace WordAsm

namespace LabelTable

theorem contains_iff {table : LabelTable} {name : Text} :
    table.contains name = true ↔ ∃ n, table.find? name = some n := by
  rw [contains, Option.isSome_iff_exists]

end LabelTable

namespace Placement

/-- A name has a value after a line if it had it before or the line defines it. -/
theorem find?_tableAfter_iff {table : LabelTable} {index : Nat} {line name : Text} {n : Int} :
    ((ofLine table index line).tableAfter table index).find? name = some n ↔
      table.find? name = some n ∨
        (ofLine table index line).defines = some name ∧ n = (index : Int) := by
  rw [tableAfter_eq]
  cases hdefines : (ofLine table index line).defines with
  | none => simp [LabelTable.define]
  | some l =>
      have hnew := LabelTable.contains_eq_false_iff.1 (ofLine_defines hdefines)
      rw [LabelTable.define, LabelTable.find?_insert]
      by_cases hl : l = name
      · subst hl
        simp [hnew, eq_comm]
      · simp [hl]

end Placement

namespace Layout

variable {table middle : LabelTable} {index : Nat} {line name : Text} {rest : List Text}

@[simp] theorem prepend_table (l : Layout) (entries : List Entry) :
    (l.prepend entries).table = l.table := rfl

theorem prepend_result_eq_error_iff {l : Layout} {entries : List Entry} {why : Rejection} :
    (l.prepend entries).result = .error why ↔ l.result = .error why := by
  cases hresult : l.result <;> simp [prepend, hresult, Except.map]

theorem prepend_eq_ok_iff {l : Layout} {final : LabelTable} {entries all : List Entry} :
    l.prepend entries = ⟨final, .ok all⟩ ↔
      ∃ more, l = ⟨final, .ok more⟩ ∧ all = entries ++ more := by
  obtain ⟨table, result⟩ := l
  cases result with
  | error why => simp [prepend, Except.map]
  | ok more => simp [prepend, Except.map, eq_comm]

@[simp] theorem prepend_nil (l : Layout) : l.prepend [] = l := by
  obtain ⟨table, result⟩ := l
  cases result <;> rfl

theorem prepend_append (l : Layout) (first second : List Entry) :
    (l.prepend second).prepend first = l.prepend (first ++ second) := by
  obtain ⟨table, result⟩ := l
  cases result <;> simp [prepend, Except.map]

/-- A refused line ends the layout. -/
theorem placeFrom_cons_error {why : Rejection}
    (h : (Placement.ofLine table index line).result = .error why) (rest : List Text) :
    placeFrom table index (line :: rest) =
      ⟨(Placement.ofLine table index line).tableAfter table index, .error why⟩ := by
  simp only [placeFrom, h]

/-- After a placed line the layout goes on with the next one. -/
theorem placeFrom_cons_ok {entries : List Entry}
    (h : (Placement.ofLine table index line).result = .ok entries) (rest : List Text) :
    placeFrom table index (line :: rest) =
      (placeFrom ((Placement.ofLine table index line).tableAfter table index) (index + 1)
        rest).prepend entries := by
  simp only [placeFrom, h]

/-- Laying out goes on after lines that were placed, from where they end. -/
theorem placeFrom_append {first : List Text} {before : List Entry}
    (h : placeFrom table index first = ⟨middle, .ok before⟩) (last : List Text) :
    placeFrom table index (first ++ last) =
      (placeFrom middle (index + first.length) last).prepend before := by
  induction first generalizing table index before with
  | nil =>
      cases h
      exact (prepend_nil _).symm
  | cons line first ih =>
      cases hline : (Placement.ofLine table index line).result with
      | error why =>
          rw [placeFrom_cons_error hline] at h
          cases h
      | ok entries =>
          rw [placeFrom_cons_ok hline] at h
          obtain ⟨more, hfirst, rfl⟩ := prepend_eq_ok_iff.1 h
          rw [List.cons_append, placeFrom_cons_ok hline, ih hfirst, prepend_append,
            List.length_cons, Nat.add_right_comm, Nat.add_assoc index]

/-- A layout that gets past a line went through the lines before it and placed the line where they
end, and it goes on from there. -/
theorem placed_of_past {start table : LabelTable} {lines : List Text} {k : Nat}
    {line : Text} {s : Statement} {entries : List Entry} (hline : lines[k]? = some line)
    (hs : Statement.ofLine? line = some s)
    (hpast : placeFrom start 0 (lines.take (k + 1)) = ⟨table, .ok entries⟩) :
    ∃ middle before here, placeFrom start 0 (lines.take k) = ⟨middle, .ok before⟩ ∧
      s.Placed middle k here ∧ entries = before ++ here ∧ table = middle.define s.label? k ∧
      placeFrom start 0 lines = (placeFrom table (k + 1) (lines.drop (k + 1))).prepend entries := by
  obtain ⟨hk, rfl⟩ := List.getElem?_eq_some_iff.1 hline
  have hlength : (lines.take k).length = k := List.length_take_of_le (Nat.le_of_lt hk)
  have hrest := placeFrom_append hpast (lines.drop (k + 1))
  rw [List.take_append_drop, List.length_take_of_le hk, Nat.zero_add] at hrest
  rw [List.take_succ_eq_append_getElem hk, placeFrom_eq_ok_iff] at hpast
  obtain ⟨middle, before, s', here, after, hbefore, hs', hplaced, hafter, rfl⟩ := hpast.split
  obtain rfl : s = s' := Option.some.inj (hs.symm.trans hs')
  rw [Nat.zero_add, hlength] at hplaced hafter
  cases hafter
  rw [List.append_nil] at hrest ⊢
  exact ⟨middle, before, here, placeFrom_eq_ok_iff.2 hbefore, hplaced, rfl, rfl, hrest⟩

/-! ## Where the names of the table come from -/

/-- The `k`-th of some lines defines a name: the lines before it are placed and it defines the
name where they end, whether it is placed itself or refused. -/
def DefinesAt (table : LabelTable) (index : Nat) (lines : List Text) (k : Nat) (name : Text) :
    Prop :=
  ∃ line middle before, lines[k]? = some line ∧
    placeFrom table index (lines.take k) = ⟨middle, .ok before⟩ ∧
    (Placement.ofLine middle (index + k) line).defines = some name

theorem definesAt_cons_zero :
    DefinesAt table index (line :: rest) 0 name ↔
      (Placement.ofLine table index line).defines = some name := by
  constructor
  · rintro ⟨line', middle, before, hline, hfirst, hdefines⟩
    cases hline
    cases hfirst
    exact hdefines
  · intro h
    exact ⟨line, table, [], rfl, rfl, h⟩

theorem definesAt_cons_succ {k : Nat} :
    DefinesAt table index (line :: rest) (k + 1) name ↔
      ∃ entries, (Placement.ofLine table index line).result = .ok entries ∧
        DefinesAt ((Placement.ofLine table index line).tableAfter table index) (index + 1) rest k
          name := by
  have hindex : index + 1 + k = index + (k + 1) := by omega
  unfold DefinesAt
  rw [List.take_succ_cons, List.getElem?_cons_succ, hindex]
  cases hline : (Placement.ofLine table index line).result with
  | error why =>
      rw [placeFrom_cons_error hline]
      simp
  | ok entries =>
      rw [placeFrom_cons_ok hline]
      constructor
      · rintro ⟨line', middle, before, hline', hfirst, hdefines⟩
        obtain ⟨more, hmore, rfl⟩ := prepend_eq_ok_iff.1 hfirst
        exact ⟨entries, rfl, line', middle, more, hline', hmore, hdefines⟩
      · rintro ⟨-, -, line', middle, more, hline', hmore, hdefines⟩
        exact ⟨line', middle, entries ++ more, hline', prepend_eq_ok_iff.2 ⟨more, hmore, rfl⟩,
          hdefines⟩

/-- A name of the final table was in the table before, or one of the lines defined it as its own
index. -/
theorem find?_placeFrom_iff {lines : List Text} {n : Int} :
    (placeFrom table index lines).table.find? name = some n ↔
      table.find? name = some n ∨
        ∃ k, DefinesAt table index lines k name ∧ n = ((index + k : Nat) : Int) := by
  induction lines generalizing table index with
  | nil => simp [placeFrom, DefinesAt]
  | cons line rest ih =>
      -- The name is defined by the first line, or by one after it if the first one is placed.
      have hcases : (∃ k, DefinesAt table index (line :: rest) k name ∧
            n = ((index + k : Nat) : Int)) ↔
          (Placement.ofLine table index line).defines = some name ∧ n = (index : Int) ∨
            ∃ k, DefinesAt table index (line :: rest) (k + 1) name ∧
              n = ((index + (k + 1) : Nat) : Int) := by
        rw [← Nat.or_exists_add_one, definesAt_cons_zero, Nat.add_zero]
      rw [hcases, ← or_assoc, ← Placement.find?_tableAfter_iff]
      simp only [definesAt_cons_succ]
      cases hline : (Placement.ofLine table index line).result with
      | error why => simp [placeFrom_cons_error hline]
      | ok entries =>
          rw [placeFrom_cons_ok hline, prepend_table, ih]
          simp [Nat.add_assoc, Nat.add_comm 1]

end Layout

/-! ## Which line a refusal names -/

namespace Rejection

/-- The line that a rejection names. -/
def line? : Rejection → Option Int
  | encoding _ | numeral _ => none
  | unknownCommand _ line | operandShape _ line | registers _ _ line | haltOperands line
  | largeValue _ line | negativeJump line | undefinedLabel _ line => line
  | unreadableLine line | directiveOperand _ line | directiveLabel _ line | emptySpace line
  | memoryFull line | longLabel _ line | definedLabel _ line => some line

/-- A rejection names the given line, or none. -/
def NamesOnly (index : Nat) (why : Rejection) : Prop :=
  ∀ n, why.line? = some n → n = (index : Int)

theorem namesOnly_of_line? {index : Nat} {why : Rejection} (h : why.line? = some (index : Int)) :
    why.NamesOnly index :=
  fun _ hn => Option.some.inj (hn.symm.trans h)

theorem namesOnly_numeral (index : Nat) (fault : Numeral.Fault) :
    (numeral fault).NamesOnly index := by
  intro n hn
  cases hn

end Rejection

namespace Statement

variable {table : LabelTable} {index : Nat}

theorem operandValue_failsOnly (d : Directive) (operand : Text) :
    FailsOnly (Rejection.NamesOnly index) (operandValue table d index operand) := by
  unfold operandValue
  split
  · exact .mapError _ (Rejection.namesOnly_numeral index)
  · split
    · exact .ok _
    · exact .error (Rejection.namesOnly_of_line? rfl)

theorem placeData_failsOnly (d : Directive) (label : Text) (top : Int)
    (words : Unit → List Entry) :
    FailsOnly (Rejection.NamesOnly index) (placeData table d index label top words).result := by
  unfold placeData
  split
  · exact .error (Rejection.namesOnly_of_line? rfl)
  · split
    · exact .error (Rejection.namesOnly_of_line? rfl)
    · exact .ok _

/-- A label is refused for itself, or it is defined. -/
theorem placeLabelled_cases (table : LabelTable) (index : Nat) (label : Text)
    (instruction : Except Rejection Instruction) :
    (∃ why, placeLabelled table index (some label) instruction = ⟨none, .error why⟩ ∧
        (why = .longLabel label index ∨ why = .definedLabel label index)) ∨
      placeLabelled table index (some label) instruction =
        ⟨some label, instruction.map fun i => [.instruction i]⟩ := by
  simp only [placeLabelled]
  split
  · exact .inl ⟨_, rfl, .inl rfl⟩
  · split
    · exact .inl ⟨_, rfl, .inr rfl⟩
    · exact .inr rfl

theorem placeLabelled_failsOnly (label : Option Text) {instruction : Except Rejection Instruction}
    (h : FailsOnly (Rejection.NamesOnly index) instruction) :
    FailsOnly (Rejection.NamesOnly index)
      (placeLabelled table index label instruction).result := by
  cases label with
  | none => exact h.map _
  | some l =>
      rcases placeLabelled_cases table index l instruction with ⟨why, hplace, hwhy⟩ | hplace
      · rw [hplace]
        rcases hwhy with rfl | rfl
        · exact .error (Rejection.namesOnly_of_line? rfl)
        · exact .error (Rejection.namesOnly_of_line? rfl)
      · rw [hplace]
        exact h.map _

theorem place_failsOnly (s : Statement) :
    FailsOnly (Rejection.NamesOnly index) (s.place table index).result := by
  cases s with
  | directive d label operand =>
      change FailsOnly _ (placeDirective table d index label operand).result
      unfold placeDirective
      split
      · rename_i why hwhy
        exact .error (operandValue_failsOnly d operand why hwhy)
      · cases d with
        | fill => exact placeData_failsOnly _ _ _ _
        | space =>
            simp only
            split
            · exact .error (Rejection.namesOnly_of_line? rfl)
            · exact placeData_failsOnly _ _ _ _
  | halt label => exact placeLabelled_failsOnly label (.ok _)
  | instruction label command operands =>
      apply placeLabelled_failsOnly
      unfold Instruction.read
      split
      · exact .ok _
      · exact .error (Rejection.namesOnly_of_line? rfl)

end Statement

/-- A refused line names itself, if any. -/
theorem Placement.ofLine_failsOnly (table : LabelTable) (index : Nat) (line : Text) :
    FailsOnly (Rejection.NamesOnly index) (ofLine table index line).result := by
  unfold ofLine
  split
  · exact Statement.place_failsOnly _
  · exact .error (Rejection.namesOnly_of_line? rfl)

/-- A layout is refused at one of its lines, so it names none that comes before them. -/
theorem Layout.placeFrom_failsOnly (table : LabelTable) (index : Nat) (lines : List Text) :
    FailsOnly (fun why => ∀ n, why.line? = some n → (index : Int) ≤ n)
      (placeFrom table index lines).result := by
  induction lines generalizing table index with
  | nil => exact .ok []
  | cons line rest ih =>
      intro why hwhy n hn
      cases hline : (Placement.ofLine table index line).result with
      | error why' =>
          rw [placeFrom_cons_error hline] at hwhy
          obtain rfl := Except.error.inj hwhy
          exact Int.le_of_eq (Placement.ofLine_failsOnly table index line _ hline n hn).symm
      | ok entries =>
          rw [placeFrom_cons_ok hline, prepend_result_eq_error_iff] at hwhy
          have hle := ih _ (index + 1) why hwhy n hn
          omega

/-! ## The layout of an assembly -/

theorem assemble_snd (start : LabelTable) (lines : List Text) :
    (assemble start lines).2 = (Layout.ofLines start lines).table := by
  simp only [assemble]
  split
  · rfl
  · split <;> rfl

theorem assemble_fst_eq_misplaced_iff {start : LabelTable} {lines : List Text} {why : Rejection} :
    (assemble start lines).1 = .misplaced why ↔
      (Layout.ofLines start lines).result = .error why := by
  simp only [assemble]
  split
  · rename_i why' hwhy
    simp [hwhy]
  · rename_i entries hentries
    rw [hentries]
    split <;> simp

end WordAsm
