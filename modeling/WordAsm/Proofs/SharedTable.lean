import WordAsm.Session
import WordAsm.Proofs.LabelOperand

/-!
# The table that programs share

All programs of a session define their labels in one table, and each encoding reads the table
as it is by then.  Laying out a program only adds names to it, also when the program is refused
midway.  So a program that was encoded once is encoded to the same code ever after, whatever
programs come in between.

A program that failed may come to have code, as a label that it misses may be defined later.  And
code may change when a label that the program names is bound or removed by hand.
-/

namespace WordAsm

/-! ## Laying out adds names -/

namespace Statement

variable {table : LabelTable} {index : Nat}

theorem placeData_defines {d : Directive} {label l : Text} {top : Int}
    {words : Unit → List Entry}
    (h : (placeData table d index label top words).defines = some l) :
    table.contains l = false := by
  unfold placeData at h
  split at h
  · cases h
  · split at h
    · cases h
    · rename_i hlabel
      obtain rfl := Option.some.inj h
      simpa using hlabel

theorem placeLabelled_defines {label : Option Text} {l : Text}
    {instruction : Except Rejection Instruction}
    (h : (placeLabelled table index label instruction).defines = some l) :
    table.contains l = false := by
  cases label with
  | none => cases h
  | some label =>
      simp only [placeLabelled] at h
      split at h
      · cases h
      · split at h
        · cases h
        · rename_i hlabel
          obtain rfl := Option.some.inj h
          simpa using hlabel

/-- A statement defines only a label that is new, whether it is placed or refused. -/
theorem place_defines {s : Statement} {l : Text} (h : (s.place table index).defines = some l) :
    table.contains l = false := by
  cases s with
  | directive d label operand =>
      change (placeDirective table d index label operand).defines = some l at h
      unfold placeDirective at h
      split at h
      · cases h
      · cases d with
        | fill => exact placeData_defines h
        | space =>
            simp only at h
            split at h
            · cases h
            · exact placeData_defines h
  | halt label => exact placeLabelled_defines h
  | instruction label command operands => exact placeLabelled_defines h

end Statement

namespace Placement

theorem ofLine_defines {table : LabelTable} {index : Nat} {line l : Text}
    (h : (ofLine table index line).defines = some l) : table.contains l = false := by
  unfold ofLine at h
  split at h
  · exact Statement.place_defines h
  · cases h

theorem tableAfter_eq (p : Placement) (table : LabelTable) (index : Nat) :
    p.tableAfter table index = table.define p.defines index := by
  unfold tableAfter LabelTable.define
  cases p.defines <;> rfl

/-- A line keeps every label of the table. -/
theorem extends_tableAfter (table : LabelTable) (index : Nat) (line : Text) :
    ((ofLine table index line).tableAfter table index).Extends table := by
  rw [tableAfter_eq]
  exact LabelTable.extends_define (fun _ h => ofLine_defines h) index

end Placement

namespace Layout

/-- Laying out lines keeps every label of the table, also when one of the lines is refused. -/
theorem extends_placeFrom (table : LabelTable) (index : Nat) (lines : List Text) :
    (placeFrom table index lines).table.Extends table := by
  induction lines generalizing table index with
  | nil => exact fun _ _ h => h
  | cons line rest ih =>
      have hline := Placement.extends_tableAfter table index line
      simp only [placeFrom]
      split
      -- A refused line ends the layout, and the label that it may have defined stays.
      · exact hline
      · exact (ih _ (index + 1)).trans hline

theorem extends_ofLines (table : LabelTable) (lines : List Text) :
    (ofLines table lines).table.Extends table :=
  extends_placeFrom table 0 (Line.kept lines)

end Layout

/-! ## Steps that leave a program alone -/

namespace Session

/-- The session after some steps. -/
def after (s : Session) (steps : List Step) : Session :=
  steps.foldl (fun s step => (s.step step).2) s

/-- The labels that a program of a session names. -/
def labelOperands (s : Session) (program : Nat) : List Text :=
  Entry.labelOperands ((s.entries? program).getD [])

/-- A step does not bind or remove any of the given names by hand. -/
def Step.Spares (names : List Text) : Step → Prop
  | layOut _ | encode _ | inspect _ => True
  | define name _ | remove name => name ∉ names
  | clear => names = []

instance (names : List Text) : (step : Step) → Decidable (step.Spares names)
  | .layOut _ | .encode _ | .inspect _ => isTrue trivial
  | .define name _ | .remove name => inferInstanceAs (Decidable (name ∉ names))
  | .clear => inferInstanceAs (Decidable (names = []))

theorem layOut_table (s : Session) (lines : List Text) :
    (s.layOut lines).2.table = (Layout.ofLines s.table lines).table := by
  simp only [layOut]
  split <;> rfl

theorem layOut_programs (s : Session) (lines : List Text) :
    ∃ new, (s.layOut lines).2.programs = s.programs ++ [new] := by
  simp only [layOut]
  split
  · exact ⟨none, rfl⟩
  · exact ⟨_, rfl⟩

theorem entries?_eq_some_iff {s : Session} {program : Nat} {entries : List Entry} :
    s.entries? program = some entries ↔ s.programs[program]? = some (some entries) := by
  rw [entries?, Option.join_eq_some_iff]

/-- A program keeps its number and its entries. -/
theorem entries?_layOut {s : Session} {program : Nat} {entries : List Entry}
    (h : s.entries? program = some entries) (lines : List Text) :
    (s.layOut lines).2.entries? program = some entries := by
  obtain ⟨new, hnew⟩ := s.layOut_programs lines
  rw [entries?_eq_some_iff] at h ⊢
  obtain ⟨hlt, -⟩ := List.getElem?_eq_some_iff.1 h
  rw [hnew, List.getElem?_append_left hlt, h]

/-- Encoding gives code exactly when the entries of the program have words. -/
theorem encode_eq_code_iff {s : Session} {program : Nat} {text : Text} :
    s.encode program = .code text ↔
      ∃ entries, s.entries? program = some entries ∧
        Entry.programCode s.table entries = .ok text := by
  unfold encode
  cases s.entries? program with
  | none => simp
  | some entries => cases hcode : Entry.programCode s.table entries <;> simp [hcode]

/-- A program has its entries, and the labels that it names are bound as they are in a table. -/
structure Fixes (s : Session) (program : Nat) (entries : List Entry) (table : LabelTable) :
    Prop where
  entries?_eq : s.entries? program = some entries
  bound : ∀ name ∈ Entry.labelOperands entries,
    ∃ n, table.find? name = some n ∧ s.table.find? name = some n

/-- One step: a program stays fixed when the step spares the labels that it names. -/
theorem Fixes.step {s : Session} {program : Nat} {entries : List Entry} {table : LabelTable}
    (h : s.Fixes program entries table) {step : Step}
    (hspares : step.Spares (Entry.labelOperands entries)) :
    (s.step step).2.Fixes program entries table := by
  cases step with
  | layOut lines =>
      -- The new program takes a new number, and its labels are new names.
      refine ⟨entries?_layOut h.entries?_eq lines, fun name hname => ?_⟩
      obtain ⟨n, hn, hs⟩ := h.bound name hname
      refine ⟨n, hn, ?_⟩
      change (s.layOut lines).2.table.find? name = some n
      rw [layOut_table]
      exact Layout.extends_ofLines s.table lines name n hs
  | encode other => exact h
  | inspect other => exact h
  | define other value =>
      refine ⟨h.entries?_eq, fun name hname => ?_⟩
      obtain ⟨n, hn, hs⟩ := h.bound name hname
      have hne : other ≠ name := fun heq => hspares (heq ▸ hname)
      exact ⟨n, hn, by simp [Session.step, LabelTable.find?_insert, hne, hs]⟩
  | remove other =>
      refine ⟨h.entries?_eq, fun name hname => ?_⟩
      obtain ⟨n, hn, hs⟩ := h.bound name hname
      have hne : other ≠ name := fun heq => hspares (heq ▸ hname)
      exact ⟨n, hn, by simp [Session.step, LabelTable.find?_erase, hne, hs]⟩
  | clear =>
      -- All labels go, so the program must name none.
      have hnone : Entry.labelOperands entries = [] := hspares
      refine ⟨h.entries?_eq, fun name hname => ?_⟩
      rw [hnone] at hname
      cases hname

/-- A run of steps: a program stays fixed when every step spares the labels that it names. -/
theorem Fixes.after {s : Session} {program : Nat} {entries : List Entry} {table : LabelTable}
    (h : s.Fixes program entries table) {steps : List Step}
    (hspares : ∀ step ∈ steps, step.Spares (Entry.labelOperands entries)) :
    (s.after steps).Fixes program entries table := by
  induction steps generalizing s with
  | nil => exact h
  | cons step steps ih =>
      rw [List.forall_mem_cons] at hspares
      exact ih (h.step hspares.1) hspares.2

/-- A fixed program has the code that the table gives it. -/
theorem Fixes.encode {s : Session} {program : Nat} {entries : List Entry} {table : LabelTable}
    (h : s.Fixes program entries table) {text : Text}
    (hcode : Entry.programCode table entries = .ok text) : s.encode program = .code text := by
  refine encode_eq_code_iff.2 ⟨entries, h.entries?_eq, ?_⟩
  -- The tables may differ, but not at a label that the program names.
  have hwords : Entry.words s.table entries = Entry.words table entries := by
    apply Entry.words_congr
    intro name hname
    obtain ⟨n, hn, hs⟩ := h.bound name hname
    rw [hs, hn]
  rw [Entry.programCode, hwords, ← Entry.programCode, hcode]

/-- A program that has code is fixed. -/
theorem fixes_of_encode {s : Session} {program : Nat} {text : Text}
    (h : s.encode program = .code text) :
    ∃ entries, s.Fixes program entries s.table ∧
      Entry.programCode s.table entries = .ok text ∧
      Entry.labelOperands entries = s.labelOperands program := by
  obtain ⟨entries, hentries, hcode⟩ := encode_eq_code_iff.1 h
  refine ⟨entries, ⟨hentries, fun name hname => ?_⟩, hcode, by simp [labelOperands, hentries]⟩
  -- The program has words, so every label that it names is bound.
  cases hwords : Entry.words s.table entries with
  | error err => simp [Entry.programCode, hwords, Except.map] at hcode
  | ok digits =>
      obtain ⟨n, hn⟩ := Entry.find?_of_words hwords hname
      exact ⟨n, hn, hn⟩

/-- At every point of a session, laying out a program keeps every label of the table, whether the
program is refused or not, and encoding a program leaves the table as it is.  A program that is
encoded to some code is encoded to the same code after any further steps that do not bind or
remove a label that it names by hand. -/
theorem labels_and_code_are_kept (s : Session) :
    (∀ lines, (s.step (.layOut lines)).2.table.Extends s.table) ∧
    (∀ program, (s.step (.encode program)).2.table = s.table) ∧
    ∀ (program : Nat) (text : Text) (steps : List Step),
      (s.step (.encode program)).1 = .code text →
      (∀ step ∈ steps, step.Spares (s.labelOperands program)) →
        ((s.after steps).step (.encode program)).1 = .code text := by
  refine ⟨?_, fun _ => rfl, ?_⟩
  · intro lines
    change (s.layOut lines).2.table.Extends s.table
    rw [layOut_table]
    exact Layout.extends_ofLines s.table lines
  · intro program text steps hcode hspares
    obtain ⟨entries, hfixes, hprogram, hnames⟩ := fixes_of_encode hcode
    rw [← hnames] at hspares
    exact (hfixes.after hspares).encode hprogram

/-- A session with one program, which names a label of its own and one bound by hand. -/
def looping : Session :=
  start.after [.define "top".toList 100, .layOut ["loop beq 1,2,loop".toList, "j top".toList]]

/-- The code of the program in `looping`. -/
def loopingCode : Text :=
  "00001011001000011111111111111111\n00001101000000000000000001100100\n".toList

/-- A program that is refused midway, and labels bound and removed by hand. -/
def disturbance : List Step :=
  [.layOut ["exit halt".toList, "loop halt".toList], .encode 1, .define "other".toList 5,
    .remove "exit".toList]

theorem labels_and_code_are_kept_looping :
    looping.labelOperands 0 = ["loop".toList, "top".toList] ∧
      (looping.step (.encode 0)).1 = .code loopingCode ∧
      ((looping.after disturbance).step (.encode 0)).1 = .code loopingCode ∧
      (looping.after (disturbance.take 1)).table.find? "exit".toList = some 0 ∧
      (looping.after disturbance).table.find? "other".toList = some 5 := by
  have hcode : looping.encode 0 = .code loopingCode := by
    exact encode_eq_code_iff.2 ⟨[.instruction ⟨.beq, "1,2,loop".toList, some 0⟩,
      .instruction ⟨.j, "top".toList, some 1⟩], by decide +kernel, by decide +kernel⟩
  have hspares : ∀ step ∈ disturbance, step.Spares (looping.labelOperands 0) := by
    decide +kernel
  exact ⟨by decide +kernel, hcode,
    looping.labels_and_code_are_kept.2.2 0 loopingCode disturbance hcode hspares,
    by decide +kernel, by decide +kernel⟩

end Session

end WordAsm
