import WordAsm.Proofs.LabelNames
import WordAsm.Proofs.MemoryBound

/-!
# Positions of lines

The kept lines of a program are numbered from zero, and there is only this one numbering.  The
entries are those of the lines in order, an instruction holds the index of its line, and a label
that a program brings into the table is bound to the index of the one line that defines it.

A reservation takes as many words as its operand says, which may be a label of an earlier line.  So
the entries of a line depend on the table as it is when the layout comes to the line.  That table
is the first one with the labels of the lines before, each under its index.
-/

namespace WordAsm

open Statement

/-! ## Labels and the lines that define them -/

namespace Line

/-- The label that a kept line defines. -/
def label? (line : Text) : Option Text :=
  (ofLine? line).bind Statement.label?

/-- The labels that some lines define, in order, each with the index of its line. -/
def definitions (index : Nat) (lines : List Text) : List (Text × Nat) :=
  (lines.zipIdx index).filterMap fun p => (label? p.1).map (·, p.2)

variable {lines : List Text} {index k : Nat} {line name : Text}

theorem label?_eq_some_iff :
    label? line = some name ↔ ∃ s, ofLine? line = some s ∧ s.label? = some name :=
  Option.bind_eq_some_iff

theorem mem_definitions_iff :
    (name, k) ∈ definitions 0 lines ↔ ∃ line, lines[k]? = some line ∧ label? line = some name := by
  simp only [definitions, List.mem_filterMap, Prod.exists, List.mk_mem_zipIdx_iff_getElem?,
    Option.map_eq_some_iff, Prod.mk.injEq]
  constructor
  · rintro ⟨line, _, hline, _, hlabel, rfl, rfl⟩
    exact ⟨line, hline, hlabel⟩
  · rintro ⟨line, hline, hlabel⟩
    exact ⟨line, k, hline, name, hlabel, rfl, rfl⟩

/-- A line defines at most one name. -/
theorem definitions_name_unique {name' : Text} (h : (name, k) ∈ definitions 0 lines)
    (h' : (name', k) ∈ definitions 0 lines) : name = name' := by
  obtain ⟨line, hline, hlabel⟩ := mem_definitions_iff.1 h
  obtain ⟨line', hline', hlabel'⟩ := mem_definitions_iff.1 h'
  obtain rfl := Option.some.inj (hline.symm.trans hline')
  exact Option.some.inj (hlabel.symm.trans hlabel')

/-- A later definition stands on a later line. -/
theorem pairwise_definitions (index : Nat) (lines : List Text) :
    (definitions index lines).Pairwise fun d d' => d.2 < d'.2 := by
  have hindices : (lines.zipIdx index).Pairwise fun p p' => p.2 < p'.2 := by
    rw [← List.pairwise_map (R := (· < ·)), List.zipIdx_map_snd]
    exact List.pairwise_lt_range'
  refine hindices.filterMap _ ?_
  intro p p' hlt d hd d' hd'
  obtain ⟨_, -, rfl⟩ := Option.map_eq_some_iff.1 hd
  obtain ⟨_, -, rfl⟩ := Option.map_eq_some_iff.1 hd'
  exact hlt

end Line

namespace LabelTable

/-- Define labels one after the other. -/
def defineAll (table : LabelTable) (definitions : List (Text × Nat)) : LabelTable :=
  definitions.foldl (fun t d => t.insert d.1 d.2) table

/-- A name that is new in a later table, with its value there. -/
def Added (final table : LabelTable) (name : Text) (n : Int) : Prop :=
  table.find? name = none ∧ final.find? name = some n

/-- The labels of lines are defined by defining that of the first line and then the others. -/
theorem defineAll_cons {line : Text} {s : Statement} (hline : ofLine? line = some s)
    (table : LabelTable) (index : Nat) (rest : List Text) :
    table.defineAll (Line.definitions index (line :: rest)) =
      (table.define s.label? index).defineAll (Line.definitions (index + 1) rest) := by
  have hlabel : Line.label? line = s.label? := by
    rw [Line.label?, hline, Option.bind_some]
  rw [Line.definitions, List.zipIdx_cons, List.filterMap_cons, hlabel]
  cases s.label? <;> rfl

theorem Extends.find?_eq_none {final table : LabelTable} (h : final.Extends table) {name : Text}
    (hname : final.find? name = none) : table.find? name = none := by
  cases hn : table.find? name with
  | none => rfl
  | some n =>
      rw [h name n hn] at hname
      cases hname

end LabelTable

/-! ## One line -/

namespace Statement

/-- The entries that a statement adds at an index, by its kind: the word of a `.fill`, as many zero
words as a `.space` reserves, or one instruction that holds the index. -/
def Emits (table : LabelTable) (index : Nat) (block : List Entry) : Statement → Prop
  | directive .fill _ operand =>
      ∃ n, operandNumber? table operand = some n ∧ block = [.word (Binary.complementText 32 n)]
  | directive .space _ operand =>
      ∃ volume : Nat, 1 ≤ volume ∧ operandNumber? table operand = some (volume : Int) ∧
        block = List.replicate volume (.word (List.replicate 32 '0'))
  | halt _ => block = [.instruction ⟨.halt, [], some index⟩]
  | instruction _ command operands =>
      ∃ m, Mnemonic.ofText? command = some m ∧ block = [.instruction ⟨m, operands, some index⟩]

theorem Placed.emits {table : LabelTable} {index : Nat} {s : Statement} {block : List Entry}
    (h : s.Placed table index block) : s.Emits table index block := by
  cases h with
  | @fill label operand n hnumber hroom hnew => exact ⟨n, hnumber, rfl⟩
  | @space label operand n hnumber hpos hroom hnew =>
      have hzero : Binary.padded 32 0 = List.replicate 32 '0' := by decide
      have hvolume : (n.toNat : Int) = n := Int.toNat_of_nonneg (by omega)
      refine ⟨n.toNat, by omega, ?_, by rw [hzero]⟩
      rw [hvolume, hnumber]
  | halt hlabel => rfl
  | instruction hlabel hread =>
      obtain ⟨m, hm, rfl⟩ := Instruction.read_eq_ok_iff.1 hread
      exact ⟨m, hm, rfl⟩

end Statement

/-! ## All lines -/

namespace Laid

variable {table final : LabelTable} {index k : Nat} {lines : List Text} {entries : List Entry}
  {line name : Text}

/-- A layout defines the labels of its lines in order. -/
theorem table_eq (h : Laid table index lines final entries) :
    final = table.defineAll (Line.definitions index lines) := by
  induction h with
  | nil => rfl
  | cons hline hplaced hrest ih => rw [ih, LabelTable.defineAll_cons hline]

theorem table_take (h : Laid table index lines final entries) (k : Nat) :
    (Layout.placeFrom table index (lines.take k)).table =
      table.defineAll (Line.definitions index (lines.take k)) := by
  rw [← List.take_append_drop k lines] at h
  obtain ⟨middle, before, after, hfirst, -, -⟩ := h.of_append
  rw [Layout.placeFrom_eq_ok_iff.2 hfirst]
  exact hfirst.table_eq

/-- The entries of a layout are those of its lines, each line placed after those before it. -/
theorem exists_blocks (h : Laid table index lines final entries) :
    ∃ blocks : List (List Entry), entries = blocks.flatten ∧ blocks.length = lines.length ∧
      ∀ k line block, lines[k]? = some line → blocks[k]? = some block →
        ∃ s, ofLine? line = some s ∧
          s.Emits (table.defineAll (Line.definitions index (lines.take k))) (index + k) block := by
  induction h with
  | nil => exact ⟨[], rfl, rfl, by simp⟩
  | @cons table final index first rest s here more hfirst hplaced hrest ih =>
      obtain ⟨blocks, rfl, hlength, hblocks⟩ := ih
      refine ⟨here :: blocks, rfl, by simp [hlength], ?_⟩
      intro k line block hline hblock
      cases k with
      | zero =>
          obtain rfl := Option.some.inj hline
          obtain rfl := Option.some.inj hblock
          exact ⟨s, hfirst, hplaced.emits⟩
      | succ k =>
          obtain ⟨s', hs', hemits⟩ := hblocks k line block hline hblock
          have hindex : index + 1 + k = index + (k + 1) := by omega
          rw [← LabelTable.defineAll_cons hfirst, hindex] at hemits
          exact ⟨s', hs', hemits⟩

/-- The label of a line is new where its line stands, and from there on it is bound to the index of
the line. -/
theorem added_label (h : Laid table index lines final entries) (hline : lines[k]? = some line)
    (hlabel : Line.label? line = some name) : final.Added table name ((index + k : Nat) : Int) := by
  obtain ⟨hk, rfl⟩ := List.getElem?_eq_some_iff.1 hline
  have hlength : (lines.take k).length = k := List.length_take_of_le (Nat.le_of_lt hk)
  rw [← List.take_append_drop k lines, List.drop_eq_getElem_cons hk] at h
  obtain ⟨middle, before, s, here, after, hbefore, hs, hplaced, hafter, -⟩ := h.split
  rw [Line.label?, hs, Option.bind_some] at hlabel
  rw [hlength] at hplaced hafter
  have hnew := LabelTable.contains_eq_false_iff.1 (hplaced.label_new name hlabel)
  exact ⟨hbefore.extends_start.find?_eq_none hnew, find?_label hlabel hafter⟩

/-- The names that a layout adds are the labels of its lines. -/
theorem added_iff (h : Laid table 0 lines final entries) {n : Int} :
    final.Added table name n ↔ ∃ k : Nat, (name, k) ∈ Line.definitions 0 lines ∧ n = k := by
  simp only [Line.mem_definitions_iff]
  constructor
  · rintro ⟨hnew, hfind⟩
    have htable : (Layout.placeFrom table 0 lines).table = final := by
      rw [Layout.placeFrom_eq_ok_iff.2 h]
    rw [← htable] at hfind
    rcases Layout.find?_placeFrom_iff.1 hfind with hold | ⟨k, hdefinesAt, hn⟩
    · rw [hnew] at hold
      cases hold
    · obtain ⟨line, middle, before, hline, -, hdefines⟩ := hdefinesAt
      rw [Nat.zero_add] at hn
      refine ⟨k, ⟨line, hline, ?_⟩, hn⟩
      unfold Placement.ofLine at hdefines
      split at hdefines
      · rename_i s hs
        exact Line.label?_eq_some_iff.2 ⟨s, hs, (label?_of_place_defines hdefines).1⟩
      · cases hdefines
  · rintro ⟨k, ⟨line, hline, hlabel⟩, rfl⟩
    simpa using h.added_label hline hlabel

/-- Only one line defines a name. -/
theorem definition_unique (h : Laid table 0 lines final entries) {k' : Nat}
    (hk : (name, k) ∈ Line.definitions 0 lines) (hk' : (name, k') ∈ Line.definitions 0 lines) :
    k = k' := by
  have hfind := (h.added_iff.2 ⟨k, hk, rfl⟩).2
  have hfind' := (h.added_iff.2 ⟨k', hk', rfl⟩).2
  have hvalue := Option.some.inj (hfind.symm.trans hfind')
  omega

/-- The lines of a layout define their names in order, and none of them twice. -/
theorem increasing_definitions (h : Laid table 0 lines final entries) :
    (Line.definitions 0 lines).Pairwise fun d d' => d.1 ≠ d'.1 ∧ d.2 < d'.2 := by
  refine (Line.pairwise_definitions 0 lines).imp_of_mem ?_
  rintro ⟨name, k⟩ ⟨name', k'⟩ hd hd' hlt
  refine ⟨?_, hlt⟩
  rintro rfl
  exact absurd (h.definition_unique hd hd') (Nat.ne_of_lt hlt)

/-- What the check of memory says about the index of a directive. -/
theorem directive_index (h : Laid table 0 lines final entries) {d : Directive}
    {label operand : Text} (hline : lines[k]? = some line)
    (hs : ofLine? line = some (.directive d label operand)) :
    k ≤ memorySize ∧ (d = .space → k < memorySize) := by
  have hfinal : final.Extends final := fun _ _ hn => hn
  have hsize := (h.length_eq hfinal).2 line (List.mem_of_getElem? hline)
  rcases h.room hfinal hline hs with hroom | ⟨rfl, hindex⟩
  · exact ⟨by omega, fun _ => by omega⟩
  · exact ⟨by omega, nofun⟩

end Laid

/-- One numbering of the kept lines for the entries, for the instructions and for the labels. -/
structure Layout.Positions (start : LabelTable) (kept : List Text) (final : LabelTable)
    (entries : List Entry) : Prop where
  /-- The entries are those of the lines in order, each line under the labels before it. -/
  blocks : ∃ blocks : List (List Entry), entries = blocks.flatten ∧ blocks.length = kept.length ∧
    ∀ k line block, kept[k]? = some line → blocks[k]? = some block →
      ∃ s, ofLine? line = some s ∧
        s.Emits (start.defineAll (Line.definitions 0 (kept.take k))) k block
  /-- After some lines the table has got their labels, one after the other. -/
  tables : ∀ k, (Layout.placeFrom start 0 (kept.take k)).table =
    start.defineAll (Line.definitions 0 (kept.take k))
  final_eq : final = start.defineAll (Line.definitions 0 kept)
  /-- No label of the first table is touched. -/
  kept_labels : final.Extends start
  /-- The names are defined at increasing indices, none of them twice. -/
  increasing : (Line.definitions 0 kept).Pairwise fun d d' => d.1 ≠ d'.1 ∧ d.2 < d'.2
  /-- The names that were added are the labels of the lines, each with the index of its line. -/
  added : ∀ name n, final.Added start name n ↔
    ∃ k : Nat, (name, k) ∈ Line.definitions 0 kept ∧ n = k
  injective : ∀ name name' n, final.Added start name n → final.Added start name' n → name = name'
  /-- The value of an added name is the index of the one line that defines it, and for the label of
  a directive it is within memory or, for a single word, just behind it. -/
  one_line : ∀ name n, final.Added start name n →
    ∃ (k : Nat) (line : Text) (s : Statement), n = k ∧ k < kept.length ∧ kept[k]? = some line ∧
      ofLine? line = some s ∧ s.label? = some name ∧
      (∀ k' line', kept[k']? = some line' → Line.label? line' = some name → k' = k) ∧
      ∀ d label operand, s = .directive d label operand →
        k ≤ memorySize ∧ (d = .space → k < memorySize)

/-- In every program that is laid out, from any table, the entries, the lines that instructions hold
and the values of the added labels all follow the numbering of the kept lines. -/
theorem positions_follow_kept_lines {start final : LabelTable} {lines : List Text}
    {entries : List Entry} (h : Layout.ofLines start lines = ⟨final, .ok entries⟩) :
    Layout.Positions start (Line.kept lines) final entries := by
  have hlaid := Layout.ofLines_eq_ok_iff.1 h
  constructor
  case blocks => simpa using hlaid.exists_blocks
  case tables => exact hlaid.table_take
  case final_eq => exact hlaid.table_eq
  case kept_labels => exact hlaid.extends_start
  case increasing => exact hlaid.increasing_definitions
  case added => exact fun name n => hlaid.added_iff
  case injective =>
    intro name name' n hname hname'
    obtain ⟨k, hk, rfl⟩ := hlaid.added_iff.1 hname
    obtain ⟨k', hk', hindex⟩ := hlaid.added_iff.1 hname'
    obtain rfl : k = k' := by omega
    exact Line.definitions_name_unique hk hk'
  case one_line =>
    intro name n hname
    obtain ⟨k, hk, rfl⟩ := hlaid.added_iff.1 hname
    obtain ⟨line, hline, hlabel⟩ := Line.mem_definitions_iff.1 hk
    obtain ⟨s, hs, hs'⟩ := Line.label?_eq_some_iff.1 hlabel
    obtain ⟨hlt, -⟩ := List.getElem?_eq_some_iff.1 hline
    refine ⟨k, line, s, rfl, hlt, hline, hs, hs', ?_, ?_⟩
    · intro k' line' hline' hlabel'
      exact hlaid.definition_unique (Line.mem_definitions_iff.2 ⟨line', hline', hlabel'⟩) hk
    · rintro d label operand rfl
      exact hlaid.directive_index hline hs

/-- A reservation whose size is a label, between lines with and without a label. -/
def namedReservation : List Text :=
  ["lw 1,0,x # load".toList, "".toList, "x .fill -1".toList, "y .space two".toList,
    "end halt".toList]

theorem positions_follow_kept_lines_namedReservation :
    ∃ final, Layout.ofLines (.ofList [("two".toList, 2)]) namedReservation = ⟨final, .ok
        [.instruction ⟨.lw, "1,0,x".toList, some 0⟩, .word (List.replicate 32 '1'),
          .word (List.replicate 32 '0'), .word (List.replicate 32 '0'),
          .instruction ⟨.halt, [], some 3⟩]⟩ ∧
      Line.definitions 0 (Line.kept namedReservation) =
        [("x".toList, 1), ("y".toList, 2), ("end".toList, 3)] ∧
      Layout.Positions (.ofList [("two".toList, 2)]) (Line.kept namedReservation) final
        [.instruction ⟨.lw, "1,0,x".toList, some 0⟩, .word (List.replicate 32 '1'),
          .word (List.replicate 32 '0'), .word (List.replicate 32 '0'),
          .instruction ⟨.halt, [], some 3⟩] := by
  have hresult : (Layout.ofLines (.ofList [("two".toList, 2)]) namedReservation).result = .ok
      [.instruction ⟨.lw, "1,0,x".toList, some 0⟩, .word (List.replicate 32 '1'),
        .word (List.replicate 32 '0'), .word (List.replicate 32 '0'),
        .instruction ⟨.halt, [], some 3⟩] := by decide +kernel
  have hlayout := congrArg
    (Layout.mk (Layout.ofLines (.ofList [("two".toList, 2)]) namedReservation).table) hresult
  exact ⟨_, hlayout, by decide +kernel, positions_follow_kept_lines hlayout⟩

end WordAsm
