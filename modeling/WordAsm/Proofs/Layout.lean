import Mathlib.Data.List.Forall2
import WordAsm.Layout

/-!
# Rules of layout

Placing a statement is given by one rule for each kind of statement, and laying out lines by
one rule for the first line.  The rules say everything that a successful placement does; a
refusal has no rule.  Every label is new where it is placed, so a table only ever grows along
a layout and the value of an operand stays what it was when its line was placed.
-/

namespace WordAsm

namespace LabelTable

/-- Define a label, if there is one, as an index. -/
def define (table : LabelTable) (label : Option Text) (index : Nat) : LabelTable :=
  match label with
  | some l => table.insert l index
  | none => table

/-- Every label of a table has the same value in another. -/
def Extends (final table : LabelTable) : Prop :=
  ∀ name n, table.find? name = some n → final.find? name = some n

theorem contains_eq_false_iff {table : LabelTable} {name : Text} :
    table.contains name = false ↔ table.find? name = none := by
  simp [contains]

theorem Extends.trans {first second third : LabelTable} (h : Extends third second)
    (h' : Extends second first) : Extends third first :=
  fun name n hn => h name n (h' name n hn)

/-- Defining new labels keeps the others. -/
theorem extends_define {table : LabelTable} {label : Option Text}
    (hnew : ∀ l, label = some l → table.contains l = false) (index : Nat) :
    (table.define label index).Extends table := by
  intro name n hn
  cases label with
  | none => exact hn
  | some l =>
      have hl := contains_eq_false_iff.1 (hnew l rfl)
      rw [define, find?_insert, if_neg, hn]
      rintro rfl
      rw [hl] at hn
      contradiction

end LabelTable

theorem Mnemonic.ofText?_name (m : Mnemonic) : ofText? m.name.toList = some m := by
  cases m <;> decide +kernel

namespace Statement

/-- The label that a statement defines. -/
def label? : Statement → Option Text
  | directive _ label _ => some label
  | halt label => label
  | instruction label _ _ => label

/-- The number that the operand of a directive denotes. -/
def operandNumber? (table : LabelTable) (operand : Text) : Option Int :=
  if Numeral.isNumeral operand then (Numeral.read operand).toOption else table.find? operand

theorem operandValue_eq_ok_iff {table : LabelTable} {d : Directive} {index : Nat} {operand : Text}
    {n : Int} : operandValue table d index operand = .ok n ↔
      operandNumber? table operand = some n := by
  unfold operandValue operandNumber?
  split
  · cases Numeral.read operand <;> simp [Except.mapError, Except.toOption]
  · cases table.find? operand <;> simp

theorem operandNumber?_mono {final table : LabelTable} (h : final.Extends table) {operand : Text}
    {n : Int} (hn : operandNumber? table operand = some n) :
    operandNumber? final operand = some n := by
  unfold operandNumber? at hn ⊢
  split at hn
  · rename_i hnumeral
    rw [if_pos hnumeral, hn]
  · rename_i hnumeral
    rw [if_neg hnumeral]
    exact h operand n hn

/-- An instruction may take a label that is short and new. -/
def LabelAllowed (table : LabelTable) (label : Option Text) : Prop :=
  ∀ l, label = some l → l.length ≤ labelLimit ∧ table.contains l = false

/-- The entries that a statement adds at an index. -/
inductive Placed (table : LabelTable) (index : Nat) : Statement → List Entry → Prop
  | fill {label operand : Text} {n : Int} (hnumber : operandNumber? table operand = some n)
      (hroom : index ≤ memorySize) (hnew : table.contains label = false) :
      Placed table index (.directive .fill label operand) [.word (Binary.complementText 32 n)]
  | space {label operand : Text} {n : Int} (hnumber : operandNumber? table operand = some n)
      (hpos : 0 < n) (hroom : index + n ≤ memorySize) (hnew : table.contains label = false) :
      Placed table index (.directive .space label operand)
        (List.replicate n.toNat (.word (Binary.padded 32 0)))
  | halt {label : Option Text} (hlabel : LabelAllowed table label) :
      Placed table index (.halt label) [.instruction ⟨.halt, [], some index⟩]
  | instruction {label : Option Text} {command operands : Text} {i : Instruction}
      (hlabel : LabelAllowed table label)
      (hread : Instruction.read command operands (some index) = .ok i) :
      Placed table index (.instruction label command operands) [.instruction i]

theorem placeData_eq_ok_iff {table : LabelTable} {d : Directive} {index : Nat} {label : Text}
    {top : Int} {words : Unit → List Entry} {defines : Option Text} {entries : List Entry} :
    placeData table d index label top words = ⟨defines, .ok entries⟩ ↔
      defines = some label ∧ entries = words () ∧ top ≤ memorySize ∧
        table.contains label = false := by
  unfold placeData
  split
  · rename_i htop
    simp
    omega
  · rename_i htop
    split
    · rename_i hlabel
      simp [hlabel]
    · rename_i hlabel
      have htop' : top ≤ memorySize := by omega
      simp [htop', hlabel, eq_comm]

theorem placeLabelled_of_allowed {table : LabelTable} {label : Option Text}
    (hlabel : LabelAllowed table label) (index : Nat)
    (instruction : Except Rejection Instruction) :
    placeLabelled table index label instruction =
      ⟨label, instruction.map fun i => [.instruction i]⟩ := by
  cases label with
  | none => rfl
  | some l =>
      obtain ⟨hshort, hnew⟩ := hlabel l rfl
      simp [placeLabelled, Nat.not_lt.2 hshort, hnew]

theorem labelAllowed_of_placeLabelled {table : LabelTable} {index : Nat} {label : Option Text}
    {instruction : Except Rejection Instruction} {defines : Option Text} {entries : List Entry}
    (h : placeLabelled table index label instruction = ⟨defines, .ok entries⟩) :
    LabelAllowed table label := by
  rintro l rfl
  simp only [placeLabelled] at h
  split at h
  · cases h
  · rename_i hshort
    split at h
    · cases h
    · rename_i hnew
      exact ⟨by omega, by simpa using hnew⟩

theorem placeLabelled_eq_ok_iff {table : LabelTable} {index : Nat} {label : Option Text}
    {instruction : Except Rejection Instruction} {defines : Option Text} {entries : List Entry} :
    placeLabelled table index label instruction = ⟨defines, .ok entries⟩ ↔
      defines = label ∧ LabelAllowed table label ∧
        ∃ i, instruction = .ok i ∧ entries = [.instruction i] := by
  constructor
  · intro h
    have hlabel := labelAllowed_of_placeLabelled h
    rw [placeLabelled_of_allowed hlabel] at h
    cases instruction with
    | error why => simp [Except.map] at h
    | ok i =>
        simp only [Except.map, Placement.mk.injEq, Except.ok.injEq] at h
        exact ⟨h.1.symm, hlabel, i, rfl, h.2.symm⟩
  · rintro ⟨rfl, hlabel, i, rfl, rfl⟩
    rw [placeLabelled_of_allowed hlabel]
    rfl

theorem placed_of_place {table : LabelTable} {index : Nat} {s : Statement}
    {defines : Option Text} {entries : List Entry}
    (h : s.place table index = ⟨defines, .ok entries⟩) :
    defines = s.label? ∧ s.Placed table index entries := by
  cases s with
  | directive d label operand =>
      change placeDirective table d index label operand = _ at h
      unfold placeDirective at h
      split at h
      · cases h
      · rename_i n hn
        have hnumber := operandValue_eq_ok_iff.1 hn
        cases d with
        | fill =>
            obtain ⟨rfl, rfl, hroom, hnew⟩ := placeData_eq_ok_iff.1 h
            exact ⟨rfl, .fill hnumber (by exact_mod_cast hroom) hnew⟩
        | space =>
            simp only at h
            split at h
            · cases h
            · obtain ⟨rfl, rfl, hroom, hnew⟩ := placeData_eq_ok_iff.1 h
              exact ⟨rfl, .space hnumber (by omega) hroom hnew⟩
  | halt label =>
      obtain ⟨rfl, hlabel, i, hi, rfl⟩ := placeLabelled_eq_ok_iff.1 h
      obtain rfl := Except.ok.inj hi
      exact ⟨rfl, .halt hlabel⟩
  | instruction label command operands =>
      obtain ⟨rfl, hlabel, i, hi, rfl⟩ := placeLabelled_eq_ok_iff.1 h
      exact ⟨rfl, .instruction hlabel hi⟩

theorem Placed.place_eq {table : LabelTable} {index : Nat} {s : Statement} {entries : List Entry}
    (h : s.Placed table index entries) :
    s.place table index = ⟨s.label?, .ok entries⟩ := by
  cases h with
  | fill hnumber hroom hnew =>
      simp only [place, placeDirective, operandValue_eq_ok_iff.2 hnumber]
      exact placeData_eq_ok_iff.2 ⟨rfl, rfl, by exact_mod_cast hroom, hnew⟩
  | space hnumber hpos hroom hnew =>
      simp only [place, placeDirective, operandValue_eq_ok_iff.2 hnumber]
      rw [if_neg (by omega)]
      exact placeData_eq_ok_iff.2 ⟨rfl, rfl, hroom, hnew⟩
  | halt hlabel => exact placeLabelled_eq_ok_iff.2 ⟨rfl, hlabel, _, rfl, rfl⟩
  | instruction hlabel hread => exact placeLabelled_eq_ok_iff.2 ⟨rfl, hlabel, _, hread, rfl⟩

/-- A statement is placed only under a new label. -/
theorem Placed.label_new {table : LabelTable} {index : Nat} {s : Statement}
    {entries : List Entry} (h : s.Placed table index entries) :
    ∀ l, s.label? = some l → table.contains l = false := by
  cases h with
  | fill hnumber hroom hnew =>
      rintro l hl
      obtain rfl := Option.some.inj hl
      exact hnew
  | space hnumber hpos hroom hnew =>
      rintro l hl
      obtain rfl := Option.some.inj hl
      exact hnew
  | halt hlabel => exact fun l hl => (hlabel l hl).2
  | instruction hlabel hread => exact fun l hl => (hlabel l hl).2

theorem Placed.extends_define {table : LabelTable} {index : Nat} {s : Statement}
    {entries : List Entry} (h : s.Placed table index entries) :
    (table.define s.label? index).Extends table :=
  LabelTable.extends_define h.label_new index

end Statement

/-- Lines are laid out from an index: from a table to a final table, with some entries. -/
inductive Laid : LabelTable → Nat → List Text → LabelTable → List Entry → Prop
  | nil {table : LabelTable} {index : Nat} : Laid table index [] table []
  | cons {table final : LabelTable} {index : Nat} {line : Text} {rest : List Text}
      {s : Statement} {here more : List Entry} (hline : Statement.ofLine? line = some s)
      (hplaced : s.Placed table index here)
      (hrest : Laid (table.define s.label? index) (index + 1) rest final more) :
      Laid table index (line :: rest) final (here ++ more)

namespace Layout

theorem laid_of_placeFrom {table final : LabelTable} {index : Nat} {lines : List Text}
    {entries : List Entry} (h : placeFrom table index lines = ⟨final, .ok entries⟩) :
    Laid table index lines final entries := by
  induction lines generalizing table index entries with
  | nil =>
      cases h
      exact .nil
  | cons line rest ih =>
      unfold placeFrom Placement.ofLine at h
      cases hs : Statement.ofLine? line with
      | none => simp [hs] at h
      | some s =>
          simp only [hs] at h
          cases hp : s.place table index with
          | mk defines result =>
              cases result with
              | error why => simp [hp] at h
              | ok here =>
                  -- A refused line ends the layout, so the other lines were placed as well.
                  obtain ⟨rfl, hplaced⟩ := Statement.placed_of_place hp
                  simp only [hp] at h
                  change (placeFrom (table.define s.label? index) (index + 1) rest).prepend here =
                    ⟨final, .ok entries⟩ at h
                  cases hl : placeFrom (table.define s.label? index) (index + 1) rest with
                  | mk final' result =>
                      cases result with
                      | error why => simp [hl, prepend, Except.map] at h
                      | ok more =>
                          simp only [hl, prepend, Except.map, Layout.mk.injEq,
                            Except.ok.injEq] at h
                          obtain ⟨rfl, rfl⟩ := h
                          exact .cons hs hplaced (ih hl)

theorem placeFrom_of_laid {table final : LabelTable} {index : Nat} {lines : List Text}
    {entries : List Entry} (h : Laid table index lines final entries) :
    placeFrom table index lines = ⟨final, .ok entries⟩ := by
  induction h with
  | nil => rfl
  | @cons table final index line rest s here more hline hplaced hrest ih =>
      have hofLine : Placement.ofLine table index line = ⟨s.label?, .ok here⟩ := by
        rw [Placement.ofLine, hline]
        exact hplaced.place_eq
      simp only [placeFrom, hofLine]
      change (placeFrom (table.define s.label? index) (index + 1) rest).prepend here = _
      rw [ih]
      rfl

/-- Laying out succeeds exactly as the rules say. -/
theorem placeFrom_eq_ok_iff {table final : LabelTable} {index : Nat} {lines : List Text}
    {entries : List Entry} : placeFrom table index lines = ⟨final, .ok entries⟩ ↔
      Laid table index lines final entries :=
  ⟨laid_of_placeFrom, placeFrom_of_laid⟩

theorem ofLines_eq_ok_iff {table final : LabelTable} {lines : List Text} {entries : List Entry} :
    ofLines table lines = ⟨final, .ok entries⟩ ↔ Laid table 0 (Line.kept lines) final entries :=
  placeFrom_eq_ok_iff

end Layout

namespace Laid

/-- Along a layout no label changes its value. -/
theorem extends_start {table final : LabelTable} {index : Nat} {lines : List Text}
    {entries : List Entry} (h : Laid table index lines final entries) : final.Extends table := by
  induction h with
  | nil => exact fun _ _ hn => hn
  | cons hline hplaced hrest ih => exact ih.trans hplaced.extends_define

/-- The label of a placed line is bound to the index of the line at the end. -/
theorem find?_label {table final : LabelTable} {index : Nat} {rest : List Text}
    {more : List Entry} {s : Statement} {l : Text} (hl : s.label? = some l)
    (hrest : Laid (table.define s.label? index) (index + 1) rest final more) :
    final.find? l = some (index : Int) := by
  apply hrest.extends_start
  rw [hl, LabelTable.define, LabelTable.find?_insert, if_pos rfl]

/-- A layout goes through every one of its lines. -/
theorem split {table final : LabelTable} {index : Nat} {first last : List Text} {line : Text}
    {entries : List Entry} (h : Laid table index (first ++ line :: last) final entries) :
    ∃ (middle : LabelTable) (before : List Entry) (s : Statement) (here after : List Entry),
      Laid table index first middle before ∧ Statement.ofLine? line = some s ∧
        s.Placed middle (index + first.length) here ∧
        Laid (middle.define s.label? (index + first.length)) (index + first.length + 1) last
          final after ∧
        entries = before ++ here ++ after := by
  induction first generalizing table index entries with
  | nil =>
      cases h with
      | cons hline hplaced hrest =>
          exact ⟨table, [], _, _, _, .nil, hline, hplaced, hrest, rfl⟩
  | cons line' first ih =>
      cases h with
      | @cons _ _ _ _ _ s' here' more hline hplaced hrest =>
          obtain ⟨middle, before, s, here, after, hfirst, hs, hplace, hlast, rfl⟩ := ih hrest
          have hindex : index + 1 + first.length = index + (line' :: first).length := by
            simp only [List.length_cons]
            omega
          rw [hindex] at hplace hlast
          exact ⟨middle, here' ++ before, s, here, after, .cons hline hplaced hfirst, hs, hplace,
            hlast, by simp⟩

/-- A layout of two parts is a layout of the first, and then one of the second. -/
theorem of_append {table final : LabelTable} {index : Nat} {first last : List Text}
    {entries : List Entry} (h : Laid table index (first ++ last) final entries) :
    ∃ (middle : LabelTable) (before after : List Entry), Laid table index first middle before ∧
      Laid middle (index + first.length) last final after ∧ entries = before ++ after := by
  induction first generalizing table index entries with
  | nil => exact ⟨table, [], entries, .nil, h, rfl⟩
  | cons line first ih =>
      cases h with
      | @cons _ _ _ _ _ s here more hline hplaced hrest =>
          obtain ⟨middle, before, after, hfirst, hlast, rfl⟩ := ih hrest
          have hindex : index + 1 + first.length = index + (line :: first).length := by
            simp only [List.length_cons]
            omega
          rw [hindex] at hlast
          exact ⟨middle, here ++ before, after, .cons hline hplaced hfirst, hlast, by simp⟩

end Laid

namespace Entry

/-- The words of a program are those of its entries, one each. -/
theorem words_eq_ok_iff {table : LabelTable} {entries : List Entry} {words : List Text} :
    Entry.words table entries = .ok words ↔
      List.Forall₂ (fun entry word => entry.code table = .ok word) entries words := by
  induction entries generalizing words with
  | nil => simp [Entry.words, eq_comm]
  | cons entry rest ih =>
      unfold Entry.words
      cases hcode : entry.code table with
      | error err =>
          constructor
          · intro h
            cases h
          · intro h
            cases h with
            | cons hword hrest =>
                rw [hcode] at hword
                cases hword
      | ok word =>
          constructor
          · intro h
            cases hrest : Entry.words table rest with
            | error err => simp [hrest, Except.map] at h
            | ok more =>
                simp only [hrest, Except.map, Except.ok.injEq] at h
                subst h
                exact .cons hcode (ih.1 hrest)
          · intro h
            cases h with
            | @cons _ word' _ more hword hrest =>
                obtain rfl : word = word' := Except.ok.inj (hcode.symm.trans hword)
                simp [ih.2 hrest, Except.map]

theorem words_singleton_eq_ok_iff {table : LabelTable} {entry : Entry} {words : List Text} :
    Entry.words table [entry] = .ok words ↔
      ∃ word, entry.code table = .ok word ∧ words = [word] := by
  rw [words_eq_ok_iff, List.forall₂_cons_left_iff]
  simp

/-- Every word of a program is the word of one of its entries. -/
theorem exists_of_mem_words {table : LabelTable} {entries : List Entry} {words : List Text}
    (h : Entry.words table entries = .ok words) {word : Text} (hword : word ∈ words) :
    ∃ entry ∈ entries, entry.code table = .ok word := by
  have hall := words_eq_ok_iff.1 h
  obtain ⟨k, hk, rfl⟩ := List.getElem_of_mem hword
  have hentry : k < entries.length := by rwa [hall.length_eq]
  exact ⟨_, List.get_mem entries ⟨k, hentry⟩, hall.get hentry hk⟩

theorem words_replicate (table : LabelTable) (n : Nat) (digits : Text) :
    Entry.words table (List.replicate n (.word digits)) = .ok (List.replicate n digits) := by
  induction n with
  | zero => rfl
  | succ n ih =>
      rw [List.replicate_succ, Entry.words, Entry.code, ih]
      rfl

theorem words_append_eq_ok_iff {table : LabelTable} {first second : List Entry}
    {words : List Text} :
    Entry.words table (first ++ second) = .ok words ↔
      ∃ u v, Entry.words table first = .ok u ∧ Entry.words table second = .ok v ∧
        words = u ++ v := by
  simp only [words_eq_ok_iff]
  constructor
  · intro h
    induction first generalizing words with
    | nil => exact ⟨[], words, .nil, h, rfl⟩
    | cons entry first ih =>
        cases h with
        | @cons _ word _ more hword hmore =>
            obtain ⟨u, v, hu, hv, rfl⟩ := ih hmore
            exact ⟨word :: u, v, .cons hword hu, hv, rfl⟩
  · rintro ⟨u, v, hu, hv, rfl⟩
    exact List.rel_append hu hv

end Entry

/-- An assembly gives code exactly when its lines are laid out and every entry has a word. -/
theorem assemble_eq_code_iff {start final : LabelTable} {lines : List Text} {text : Text} :
    assemble start lines = (.code text, final) ↔
      ∃ entries words, Laid start 0 (Line.kept lines) final entries ∧
        Entry.words final entries = .ok words ∧ text = words.flatMap (· ++ ['\n']) := by
  simp only [← Layout.ofLines_eq_ok_iff]
  unfold assemble Entry.programCode
  cases hlayout : Layout.ofLines start lines with
  | mk table result =>
      cases result with
      | error why => simp
      | ok entries =>
          cases hwords : Entry.words table entries with
          | error err =>
              simp only [hwords, Except.map, Layout.mk.injEq, Except.ok.injEq]
              constructor
              · intro h
                cases h
              · rintro ⟨_, words, ⟨rfl, rfl⟩, h, -⟩
                rw [hwords] at h
                cases h
          | ok words =>
              simp only [hwords, Except.map, Layout.mk.injEq, Except.ok.injEq]
              constructor
              · intro h
                cases h
                exact ⟨entries, words, ⟨rfl, rfl⟩, hwords, rfl⟩
              · rintro ⟨_, words', ⟨rfl, rfl⟩, h, rfl⟩
                rw [hwords] at h
                cases h
                rfl

end WordAsm
