import WordAsm.Proofs.Decoder
import WordAsm.Proofs.Layout
import WordAsm.Proofs.ReadBack

/-!
# Assembling in two passes

The code of a program is given here without its text.  A first pass finds the index of the
item that defines a label; a second gives the number of every word, from the fields of its
instruction or the value of its data.  Assembling the written lines of a well formed program
gives these words, and binds every label to the index of its item.

Along the lines a table knows the labels of the items before only.  A word of data is settled
with this table and an instruction with the last one, and the two agree on what both know.
-/

namespace WordAsm

namespace Source

/-! ## The two passes -/

/-- The index of the item that defines a label. -/
def address? (p : List Item) (name : Text) : Option Nat :=
  p.findIdx? fun x => x.label? = some name

/-- The number that a value stands for; a label that nothing defines stands for zero. -/
def Value.number (p : List Item) : Value → Int
  | literal n => n
  | label name => (address? p name).getD 0

/-- The number that an instruction at an index writes for a value: of a label in a branch, its
distance from the item after the branch. -/
def writtenNumber (p : List Item) (m : Mnemonic) (index : Nat) : Value → Int
  | .literal n => n
  | .label name =>
      if m = .beq then Value.number p (.label name) - (index + 1) else Value.number p (.label name)

/-- The number of an instruction's word, given what its value is written as. -/
def Arguments.word (m : Mnemonic) (number : Value → Int) {f : Format} : Arguments f → Nat
  | register d s t => Decoder.wordNumber m.opcode s t (2 ^ 12 * d)
  | immediate d s v => Decoder.wordNumber m.opcode s d (number v % 2 ^ 16).toNat
  | upper d v => Decoder.wordNumber m.opcode Register.zero d (number v % 2 ^ 16).toNat
  | link d s => Decoder.wordNumber m.opcode s d 0
  | jump v => Decoder.wordNumber m.opcode Register.zero Register.zero (number v % 2 ^ 16).toNat
  | halt => Decoder.wordNumber m.opcode Register.zero Register.zero 0

/-- The numbers of the words of an item at an index. -/
def Item.words (p : List Item) (index : Nat) : Item → List Nat
  | instruction _ m a => [a.word m (writtenNumber p m index)]
  | fill _ v => [(v.number p % 2 ^ 32).toNat]
  | space _ n => List.replicate n 0

/-- The words of a program, as thirty-two digits each. -/
def words (p : List Item) : List Text :=
  (p.zipIdx.flatMap fun x => x.1.words p x.2).map (Binary.bits 32)

/-- The code of a program: its words, each on a line of its own. -/
def code (p : List Item) : Text :=
  (words p).flatMap (· ++ ['\n'])

/-! ## Addresses -/

theorem address?_append (before after : List Item) (name : Text) :
    address? (before ++ after) name =
      (address? before name).or ((address? after name).map (· + before.length)) :=
  List.findIdx?_append

theorem address?_eq_none_iff {p : List Item} {name : Text} :
    address? p name = none ↔ name ∉ labels p := by
  simp [address?, labels, List.findIdx?_eq_none_iff]

theorem address?_lt {p : List Item} {name : Text} {k : Nat} (h : address? p name = some k) :
    k < p.length := by
  obtain ⟨hlt, -⟩ := List.findIdx?_eq_some_iff_getElem.1 h
  exact hlt

theorem address?_of_mem {p : List Item} {name : Text} (h : name ∈ labels p) :
    ∃ k, address? p name = some k := by
  rw [← Option.ne_none_iff_exists', Ne, address?_eq_none_iff]
  exact not_not_intro h

/-- A table binds the labels of some items to their indices, and nothing else. -/
def Binds (table : LabelTable) (p : List Item) : Prop :=
  ∀ name, table.find? name = (address? p name).map fun k => (k : Int)

theorem Binds.find?_eq {table : LabelTable} {p : List Item} (h : Binds table p) {name : Text}
    {k : Nat} (hk : address? p name = some k) : table.find? name = some (k : Int) := by
  rw [h name, hk]
  rfl

theorem binds_empty : Binds ∅ [] := by
  intro name
  rw [LabelTable.find?_empty]
  rfl

/-- One more item binds one more label. -/
theorem Binds.snoc {table : LabelTable} {before : List Item} (h : Binds table before) (x : Item)
    (hnew : ∀ l ∈ x.label?, l ∉ labels before) :
    Binds (table.define x.label? before.length) (before ++ [x]) := by
  intro name
  have hlast : address? [x] name = if x.label? = some name then some 0 else none := by
    simp [address?, List.findIdx?_cons]
  rw [address?_append, hlast]
  cases hlabel : x.label? with
  | none => simpa [LabelTable.define] using h name
  | some l =>
      rw [LabelTable.define, LabelTable.find?_insert]
      by_cases hname : l = name
      · subst hname
        have hnone := address?_eq_none_iff.2 (hnew l hlabel)
        simp [hnone]
      · simpa [hname] using h name

/-! ## Words of instructions -/

theorem Arguments.format_operands {f : Format} (a : Arguments f) : a.operands.format = f := by
  cases a <;> rfl

theorem Arguments.value?_operands {f : Format} (a : Arguments f) :
    a.operands.value? = a.value?.map fun v => .written v.text := by
  cases a <;> rfl

theorem Arguments.word_eq {f : Format} (a : Arguments f) (m : Mnemonic) (number : Value → Int) :
    a.word m number =
      Decoder.wordNumber m.opcode a.operands.firstPlace a.operands.secondPlace
        ((a.value?.map fun v => (number v % 65536).toNat).getD a.operands.lowHalf) := by
  cases a <;> rfl

theorem natAbs_lt_digitLimit {n : Int} (hlow : -2 ^ 32 ≤ n) (hhigh : n ≤ 2 ^ 32) :
    n.natAbs < 10 ^ Numeral.digitLimit :=
  calc n.natAbs < 10 ^ 10 := by omega
    _ ≤ 10 ^ Numeral.digitLimit := Nat.pow_le_pow_right (by omega) (by decide)

/-- The text of a value denotes the number to be written for it. -/
theorem number?_of_binds {p : List Item} {table : LabelTable} (hbinds : Binds table p)
    {v : Value} (hnamed : v.IsNamed) (hv : v.Allowed (labels p) (-65536) 65535) {m : Mnemonic}
    {index : Nat} {e : Encoder} (hmnemonic : e.instruction.mnemonic = m)
    (hline : e.instruction.line = some (index : Int))
    (hvalue : e.operands.value? = some (.written v.text)) :
    e.number? table = some (writtenNumber p m index v) := by
  simp only [Encoder.number?, hvalue]
  cases v with
  | literal n =>
      obtain ⟨hlow, hhigh⟩ := hv
      have hread := Numeral.read_decimal (natAbs_lt_digitLimit (by omega) (by omega : n ≤ 2 ^ 32))
      rw [Value.text, if_pos (Numeral.isNumeral_decimal n), hread]
      rfl
  | label name =>
      obtain ⟨k, hk⟩ := address?_of_mem hv
      have hfind := hbinds.find?_eq hk
      obtain ⟨c, s, rfl, hc, -⟩ := Line.IsLabel.exists_cons hnamed
      rw [Value.text, Numeral.isNumeral_of_letter hc, hfind]
      by_cases hbeq : m = .beq
      · simp [Encoder.labelNumber?, hmnemonic, hline, writtenNumber, Value.number, hk, hbeq]
        omega
      · simp [Encoder.labelNumber?, hmnemonic, writtenNumber, Value.number, hk, hbeq]

theorem Arguments.Allowed.holds_literal {f : Format} {a : Arguments f} {m : Mnemonic}
    {names : List Text} (h : a.Allowed m names) {n : Int} (hv : a.value? = some (.literal n)) :
    f.Holds n := by
  cases a with
  | register d s t => cases hv
  | immediate d s v =>
      obtain rfl := Option.some.inj hv
      obtain ⟨-, hlow, hhigh⟩ := h
      exact ⟨hlow, by omega⟩
  | upper d v =>
      obtain rfl := Option.some.inj hv
      obtain ⟨-, hlow, hhigh⟩ := h
      exact ⟨hlow, by omega⟩
  | link d s => cases hv
  | jump v =>
      obtain rfl := Option.some.inj hv
      obtain ⟨-, hlow, hhigh⟩ := h
      exact ⟨hlow, by omega⟩
  | halt => cases hv

/-- In a program that is not too long there is room for every address and every distance. -/
theorem holds_writtenNumber {p : List Item} (hlength : p.length ≤ 65536) {m : Mnemonic}
    {a : Arguments m.format} (ha : a.Allowed m (labels p)) {v : Value} (hv : a.value? = some v)
    {index : Nat} (hindex : index < p.length) :
    m.format.Holds (writtenNumber p m index v) := by
  cases v with
  | literal n => exact ha.holds_literal hv
  | label name =>
      have hname : name ∈ labels p := ha.value_allowed _ hv
      obtain ⟨k, hk⟩ := address?_of_mem hname
      have hlt := address?_lt hk
      have hnumber : Value.number p (.label name) = k := by simp [Value.number, hk]
      simp only [writtenNumber, hnumber]
      by_cases hbeq : m = .beq
      · -- The farthest branch goes from the last item to the first.
        have hformat : m.format ≠ .jump := by
          rw [hbeq]
          decide
        rw [if_pos hbeq, Format.Holds, if_neg hformat]
        omega
      · rw [if_neg hbeq]
        unfold Format.Holds
        split <;> omega

/-- With all labels bound, an instruction is encoded into its word. -/
theorem WellFormed.code_instruction {p : List Item} (h : WellFormed p) {table : LabelTable}
    (hbinds : Binds table p) {m : Mnemonic} {a : Arguments m.format}
    (ha : a.Allowed m (labels p)) {index : Nat} (hindex : index < p.length) :
    (Instruction.mk m a.text (some (index : Int))).code table =
      .ok (Binary.bits 32 (a.word m (writtenNumber p m index))) := by
  have hnamed := h.arguments_isNamed ha
  have hread := a.read_text ha hnamed (some (index : Int))
  have hfit : (Instruction.mk m a.text (some (index : Int))).format = a.operands.format :=
    a.format_operands.symm
  refine Instruction.code_eq_ok_iff.2 ⟨_, Encoder.ofInstruction_eq_ok_iff.2 ⟨_, hread, rfl⟩, ?_⟩
  rw [a.word_eq]
  have hoperands := a.value?_operands
  cases hv : a.value? with
  | none =>
      rw [hv] at hoperands
      have hlow : a.operands.lowHalf < 65536 := by
        cases a.operands <;> simp [Operands.lowHalf]
        omega
      rw [Encoder.read_without_value table hfit hoperands,
        Decoder.headText_append_bits m a.operands hlow]
      rfl
  | some v =>
      rw [hv] at hoperands
      have hnumber : (Encoder.mk ⟨m, a.text, some (index : Int)⟩ a.operands
          Encoder.blankField).number? table = some (writtenNumber p m index v) :=
        number?_of_binds hbinds (hnamed v hv) (ha.value_allowed v hv) rfl rfl hoperands
      have hholds := holds_writtenNumber h.length_le ha hv hindex
      rw [← a.format_operands] at hholds
      rw [Encoder.read_of_number? table hfit hoperands hnumber hholds,
        Format.lowText_of_holds hholds, Decoder.headText_append_bits m a.operands (by omega)]
      rfl

/-! ## Entries of items -/

/-- The entries of an item at an index. -/
def Item.entries (p : List Item) (index : Nat) : Item → List Entry
  | instruction _ m a => [.instruction ⟨m, a.text, some index⟩]
  | fill _ v => [.word (Binary.bits 32 (v.number p % 2 ^ 32).toNat)]
  | space _ n => List.replicate n (.word (Binary.bits 32 0))

theorem Item.label?_statement (x : Item) : x.statement.label? = x.label? := by
  cases x with
  | instruction label m a =>
      by_cases hm : m = .halt <;> simp [statement, hm, Statement.label?, label?]
  | fill label v => rfl
  | space label n => rfl

theorem Arguments.text_of_halt {f : Format} (a : Arguments f) (hf : f = .halt) : a.text = [] := by
  cases a <;> first | rfl | cases hf

theorem read_name (m : Mnemonic) (operands : Text) (line : Option Int) :
    Instruction.read m.name.toList operands line = .ok ⟨m, operands, line⟩ := by
  rw [Instruction.read, m.ofText?_name]

theorem operandNumber?_decimal (table : LabelTable) {n : Int} (hlow : -2 ^ 32 ≤ n)
    (hhigh : n ≤ 2 ^ 32) : Statement.operandNumber? table (Numeral.decimal n) = some n := by
  have hread := Numeral.read_decimal (natAbs_lt_digitLimit hlow hhigh)
  rw [Statement.operandNumber?, if_pos (Numeral.isNumeral_decimal n), hread]
  rfl

/-- The operand of a word of data denotes its number already where the data is placed. -/
theorem operandNumber?_of_binds {before after : List Item} {table : LabelTable}
    (hbinds : Binds table before) {v : Value} (hnamed : v.IsNamed)
    (hv : v.Allowed (labels before) (-2 ^ 32) (2 ^ 32 - 1)) :
    Statement.operandNumber? table v.text = some (v.number (before ++ after)) := by
  cases v with
  | literal n =>
      obtain ⟨hlow, hhigh⟩ := hv
      exact operandNumber?_decimal table hlow (by omega)
  | label name =>
      obtain ⟨k, hk⟩ := address?_of_mem (show name ∈ labels before from hv)
      have hk' : address? (before ++ after) name = some k := by
        rw [address?_append, hk]
        rfl
      have hfind := hbinds.find?_eq hk
      obtain ⟨c, s, rfl, hc, -⟩ := Line.IsLabel.exists_cons hnamed
      simp [Statement.operandNumber?, Value.text, Numeral.isNumeral_of_letter hc, hfind,
        Value.number, hk']

theorem Value.number_bounds {p : List Item} (hlength : p.length ≤ 65536) {v : Value}
    {names : List Text} (hv : v.Allowed names (-2 ^ 32) (2 ^ 32 - 1)) :
    -2 ^ 32 ≤ v.number p ∧ v.number p < 2 ^ 32 := by
  cases v with
  | literal n =>
      obtain ⟨hlow, hhigh⟩ := hv
      exact ⟨hlow, by rw [number]; omega⟩
  | label name =>
      have hle : (address? p name).getD 0 ≤ 65536 := by
        cases hk : address? p name with
        | none => simp
        | some k => exact (address?_lt hk).le.trans hlength
      rw [number]
      omega

/-- A label that an item defines is not one of those before it. -/
theorem WellFormed.label_new {before after : List Item} {x : Item}
    (h : WellFormed (before ++ x :: after)) : ∀ l ∈ x.label?, l ∉ labels before := by
  intro l hl hmem
  have hnodup := h.nodup
  rw [labels, List.filterMap_append, List.filterMap_cons_some hl] at hnodup
  exact (List.nodup_append.1 hnodup).2.2 l hmem l List.mem_cons_self rfl

/-- Where the items before it are bound, an item is placed. -/
theorem WellFormed.placed {before after : List Item} {x : Item}
    (h : WellFormed (before ++ x :: after)) {table : LabelTable} (hbinds : Binds table before) :
    x.statement.Placed table before.length (x.entries (before ++ x :: after) before.length) := by
  have hx : (before ++ x :: after)[before.length]? = some x := by simp
  have hallowed := h.allowed hx
  have hnew : ∀ l ∈ x.label?, table.contains l = false := by
    intro l hl
    have hnone := address?_eq_none_iff.2 (h.label_new l hl)
    rw [LabelTable.contains_eq_false_iff, hbinds l, hnone]
    rfl
  cases x with
  | instruction label m a =>
      have hlabel : Statement.LabelAllowed table label := by
        intro l hl
        exact ⟨(hallowed.1 l hl).2, hnew l hl⟩
      by_cases hm : m = .halt
      · have htext := a.text_of_halt (by rw [hm]; rfl)
        simp only [Item.statement, Item.entries, if_pos hm, htext]
        subst hm
        exact .halt hlabel
      · simp only [Item.statement, Item.entries, if_neg hm]
        exact .instruction hlabel (read_name m a.text _)
  | fill label v =>
      obtain ⟨-, hroom, hv⟩ := hallowed
      have hnamed := h.fill_isNamed hv
      rw [List.take_left' rfl] at hv
      obtain ⟨hlow, hhigh⟩ := Value.number_bounds h.length_le hv
      have hword := Binary.complementText_of_fits (show 0 < 32 by omega) hlow hhigh
      simp only [Item.statement, Item.entries]
      rw [← hword]
      exact .fill (operandNumber?_of_binds hbinds hnamed hv) hroom (hnew label rfl)
  | space label n =>
      obtain ⟨-, hpos, hroom⟩ := hallowed
      have hnumber := operandNumber?_decimal table (n := n) (by omega) (by omega)
      exact .space hnumber (by omega) (by exact_mod_cast hroom) (hnew label rfl)

/-- The entries of an item are encoded into its words. -/
theorem WellFormed.words_entries {p : List Item} (h : WellFormed p) {table : LabelTable}
    (hbinds : Binds table p) {index : Nat} {x : Item} (hx : p[index]? = some x) :
    Entry.words table (x.entries p index) = .ok ((x.words p index).map (Binary.bits 32)) := by
  have hallowed := h.allowed hx
  cases x with
  | instruction label m a =>
      have hindex : index < p.length := (List.getElem?_eq_some_iff.1 hx).1
      exact Entry.words_eq_ok_iff.2 (.cons (h.code_instruction hbinds hallowed.2 hindex) .nil)
  | fill label v => rfl
  | space label n =>
      rw [Item.words, List.map_replicate]
      exact Entry.words_replicate table n (Binary.bits 32 0)

/-! ## Whole programs -/

/-- From where the items before are bound, the lines of the other items are laid out, and in the
end all items are bound. -/
theorem WellFormed.laid {before after : List Item} (h : WellFormed (before ++ after))
    {table : LabelTable} (hbinds : Binds table before) :
    ∃ final, Binds final (before ++ after) ∧
      Laid table before.length (after.map Item.line) final
        ((after.zipIdx before.length).flatMap fun x => x.1.entries (before ++ after) x.2) := by
  -- The item at the front moves to the items before, with the table that its line leaves.
  induction after generalizing before table with
  | nil => exact ⟨table, by simpa using hbinds, .nil⟩
  | cons x after ih =>
      have hx : (before ++ x :: after)[before.length]? = some x := by simp
      have hplaced := h.placed hbinds
      have hbinds' := hbinds.snoc x h.label_new
      have hsplit : before ++ x :: after = before ++ [x] ++ after := by simp
      have h' := h
      rw [hsplit] at h'
      obtain ⟨final, hfinal, hlaid⟩ := ih h' hbinds'
      rw [← hsplit] at hfinal hlaid
      rw [← x.label?_statement, List.length_append, List.length_singleton] at hlaid
      refine ⟨final, hfinal, ?_⟩
      rw [List.zipIdx_cons, List.flatMap_cons, List.map_cons]
      exact .cons (h.ofLine?_line hx) hplaced hlaid

/-- Encoding goes item by item. -/
theorem words_flatMap {table : LabelTable} {xs : List (Item × Nat)}
    {entries : Item × Nat → List Entry} {digits : Item × Nat → List Text}
    (h : ∀ x ∈ xs, Entry.words table (entries x) = .ok (digits x)) :
    Entry.words table (xs.flatMap entries) = .ok (xs.flatMap digits) := by
  induction xs with
  | nil => rfl
  | cons x xs ih =>
      rw [List.forall_mem_cons] at h
      exact Entry.words_append_eq_ok_iff.2 ⟨_, _, h.1, ih h.2, rfl⟩

/-- Assembling the lines of a well formed program gives the code of the two passes and a table
that binds every label of the program to the index of its item, and no other name. -/
theorem assemble_lines_eq_code {p : List Item} (h : WellFormed p) :
    ∃ final, assemble ∅ (p.map Item.line) = (.code (code p), final) ∧
      ∀ name, final.find? name = (address? p name).map fun k => (k : Int) := by
  have hstart : WellFormed ([] ++ p) := h
  obtain ⟨final, hbinds, hlaid⟩ := hstart.laid binds_empty
  have hwords : Entry.words final (p.zipIdx.flatMap fun x => x.1.entries p x.2) =
      .ok (words p) := by
    rw [words, List.map_flatMap]
    apply words_flatMap
    intro x hx
    exact h.words_entries hbinds (List.mem_zipIdx_iff_getElem?.1 hx)
  refine ⟨final, assemble_eq_code_iff.2 ⟨_, _, ?_, hwords, rfl⟩, hbinds⟩
  rw [h.kept_lines]
  exact hlaid

/-- A loop with branches both ways, data that names a label, and a reservation. -/
def countdown : List Item :=
  [.instruction none .lw (.immediate (.ofNumber 1) .zero (.label "five".toList)),
    .instruction (some "loop".toList) .beq (.immediate .zero (.ofNumber 1) (.label "done".toList)),
    .instruction none .addi (.immediate (.ofNumber 1) (.ofNumber 1) (.literal (-1))),
    .instruction none .j (.jump (.label "loop".toList)),
    .space "buffer".toList 2,
    .fill "five".toList (.literal 5),
    .fill "top".toList (.label "loop".toList),
    .instruction none .add (.register (.ofNumber 3) (.ofNumber 1) (.ofNumber 2)),
    .instruction none .lui (.upper (.ofNumber 2) (.literal 65535)),
    .instruction none .jalr (.link (.ofNumber 1) (.ofNumber 2)),
    .instruction (some "done".toList) .halt .halt,
    .instruction none .halt .halt]

theorem assemble_lines_eq_code_countdown :
    WellFormed countdown ∧ countdown[1]?.map Item.line = some "loop beq 0,1,done".toList ∧
      (words countdown)[1]? = some "00001011000100000000000000001000".toList ∧
      ∃ final, assemble ∅ (countdown.map Item.line) = (.code (code countdown), final) ∧
        final.find? "done".toList = some 10 := by
  have hwell : WellFormed countdown := by decide +kernel
  obtain ⟨final, hcode, hfind⟩ := assemble_lines_eq_code hwell
  exact ⟨hwell, by decide +kernel, by decide +kernel, final, hcode,
    (hfind _).trans (by decide +kernel)⟩

end Source

end WordAsm
