import WordAsm.Proofs.LabelOperand

/-!
# Programs moved down by instructions in front

Unlabelled instructions in front of a program move its lines down.  If the whole assembles, so
does the program alone, and its words change in one way only: where a word holds the address
of a label, the address is larger by the number of lines in front.  Such words are data that
names a label, and instructions that name one and are no branch.  A branch holds a distance,
which stays as it is.

The size of a reservation must not be the address of a label: it would grow with the move.
-/

namespace WordAsm

namespace LabelTable

/-- A table has the labels of another, each `m` lines further down. -/
def Shifted (m : Nat) (table moved : LabelTable) : Prop :=
  ∀ name, moved.find? name = (table.find? name).map (· + (m : Int))

theorem shifted_empty (m : Nat) : Shifted m ∅ ∅ := by
  intro name
  rw [find?_empty]
  rfl

namespace Shifted

variable {m : Nat} {table moved : LabelTable}

theorem contains_eq (h : table.Shifted m moved) (name : Text) :
    moved.contains name = table.contains name := by
  rw [contains, contains, h name, Option.isSome_map]

theorem define (h : table.Shifted m moved) (label : Option Text) (index : Nat) :
    (table.define label index).Shifted m (moved.define label (index + m)) := by
  intro name
  cases label with
  | none => exact h name
  | some l =>
      simp only [LabelTable.define, find?_insert]
      by_cases hl : l = name
      · simp [hl]
      · simp [hl, h name]

/-- A label of the moved table has its address less `m` in the other. -/
theorem exists_of_find? (h : table.Shifted m moved) {name : Text} {n : Int}
    (hn : moved.find? name = some n) : ∃ k, table.find? name = some k ∧ n = k + m := by
  rw [h name] at hn
  obtain ⟨k, hk, rfl⟩ := Option.map_eq_some_iff.1 hn
  exact ⟨k, hk, rfl⟩

theorem labelAllowed (h : table.Shifted m moved) {label : Option Text}
    (hlabel : Statement.LabelAllowed moved label) : Statement.LabelAllowed table label := by
  intro l hl
  rw [← h.contains_eq]
  exact hlabel l hl

end Shifted

end LabelTable

/-! ## Words of instructions -/

namespace Encoder

/-- A literal that can be written is written alike on every line. -/
theorem literalText_line {i j : Instruction} {o : Operands} {field digits : Text} {n : Int}
    (h : (Encoder.mk i o field).literalText n = .ok digits) :
    (Encoder.mk j o field).literalText n = .ok digits := by
  rw [literalText_eq] at h ⊢
  split at h
  · cases h
  · rename_i hlarge
    rw [if_neg hlarge]
    split at h
    · cases h
    · rename_i hjump
      rw [if_neg hjump, h]

end Encoder

namespace Instruction

/-- The word of an instruction that names no label depends neither on the line nor on the
table. -/
theorem code_of_no_label {i : Instruction} {table : LabelTable} {word : Text}
    (h : i.code table = .ok word) (hlabel : i.labelOperand? = none) (line : Option Int)
    (table' : LabelTable) : ({ i with line := line } : Instruction).code table' = .ok word := by
  obtain ⟨e, he, hread⟩ := code_eq_ok_iff.1 h
  obtain ⟨o, ho, rfl⟩ := Encoder.ofInstruction_eq_ok_iff.1 he
  have ho' := Operands.read_line ho line
  have hfit : i.format = o.format := (Operands.format_of_read ho).symm
  rw [code_of_read (i := { i with line := line }) ho']
  cases hvalue : o.value? with
  | none =>
      rw [Encoder.read_without_value table hfit hvalue] at hread
      rw [← hread]
      exact Encoder.read_without_value (i := { i with line := line }) table' hfit hvalue
  | some v =>
      obtain ⟨text, rfl⟩ := Operands.value?_of_read ho hvalue
      have hnumeral : Numeral.isNumeral text = true := by
        by_contra hname
        have hsome := Operands.labelOperand?_eq_some_iff.2 ⟨hvalue, by simpa using hname⟩
        rw [labelOperand?_eq_some_iff.2 ⟨o, ho, hsome⟩] at hlabel
        cases hlabel
      rw [Encoder.read_of_numeral hfit hvalue hnumeral] at hread
      rw [Encoder.read_of_numeral (i := { i with line := line }) hfit hvalue hnumeral]
      cases hn : Numeral.read text with
      | error fault => simp [hn] at hread
      | ok n =>
          simp only [hn] at hread ⊢
          cases hdigits : (Encoder.mk i o Encoder.blankField).literalText n with
          | error why => simp [hdigits] at hread
          | ok digits =>
              rw [Encoder.literalText_line hdigits]
              simpa [hdigits] using hread

/-- The word of an instruction that names a label holds the number that the label stands for. -/
theorem code_of_label {i : Instruction} {o : Operands} {name word : Text} {table : LabelTable}
    (ho : Operands.read i.format i = .ok o) (hlabel : o.labelOperand? = some name) :
    i.code table = .ok word ↔ ∃ n k, table.find? name = some n ∧
      Encoder.labelNumber? i n = some k ∧
      word = Encoder.headText i.mnemonic o ++ i.format.lowText k := by
  have hformat := Operands.format_of_read ho
  rw [code_of_read ho, Encoder.read_of_label hformat.symm hlabel, hformat]
  cases table.find? name with
  | none => simp
  | some n => cases hk : Encoder.labelNumber? i n <;> simp [hk, eq_comm]

end Instruction

/-! ## Words of statements -/

namespace Statement

/-- The command of a statement that is an instruction. -/
def mnemonic? : Statement → Option Mnemonic
  | directive _ _ _ => none
  | halt _ => some .halt
  | instruction _ command _ => Mnemonic.ofText? command

/-- The label of which a statement's word holds the address: that of a word of data, or of an
instruction that is no branch. -/
def addressOperand? : Statement → Option Text
  | directive .fill _ operand => if Numeral.isNumeral operand then none else some operand
  | directive .space _ _ => none
  | halt _ => none
  | instruction _ command operands =>
      match Mnemonic.ofText? command with
      | none => none
      | some .beq => none
      | some m => (Instruction.mk m operands none).labelOperand?

/-- What becomes of a statement's words when its program is moved down by `m` lines.  The table
has the labels before the move. -/
inductive Relocated (m : Nat) (table : LabelTable) : Statement → List Text → List Text → Prop
  | data {label operand : Text} {k : Int} (hlabel : Numeral.isNumeral operand = false)
      (hk : table.find? operand = some k) :
      Relocated m table (.directive .fill label operand) [Binary.complementText 32 k]
        [Binary.complementText 32 (k + m)]
  | address {label : Option Text} {command operands name : Text} {c : Mnemonic} {o : Operands}
      {k : Int} (hcommand : Mnemonic.ofText? command = some c) (hbranch : c ≠ .beq)
      (hread : Operands.read c.format ⟨c, operands, none⟩ = .ok o)
      (hname : o.labelOperand? = some name) (hk : table.find? name = some k) :
      Relocated m table (.instruction label command operands)
        [Encoder.headText c o ++ c.format.lowText k]
        [Encoder.headText c o ++ c.format.lowText (k + m)]
  | same {s : Statement} {words : List Text} (hnone : s.addressOperand? = none) :
      Relocated m table s words words

theorem addressOperand?_of_beq {s : Statement} (h : s.mnemonic? = some .beq) :
    s.addressOperand? = none := by
  cases s with
  | directive d label operand => cases h
  | halt label => rfl
  | instruction label command operands =>
      have hcommand : Mnemonic.ofText? command = some .beq := h
      simp only [addressOperand?, hcommand]

/-- A branch keeps its words. -/
theorem Relocated.eq_of_beq {m : Nat} {table : LabelTable} {s : Statement}
    {words words' : List Text} (h : s.Relocated m table words words')
    (hbeq : s.mnemonic? = some .beq) : words = words' := by
  cases h with
  | data hlabel hk => cases hbeq
  | address hcommand hbranch hread hname hk =>
      exact absurd (Option.some.inj (hcommand.symm.trans hbeq)) hbranch
  | same hnone => rfl

variable {m : Nat} {table moved final last : LabelTable} {index : Nat}

/-- An instruction that has a word further down has one at its own place too. -/
theorem relocated_instruction (hshift : final.Shifted m last) {label : Option Text}
    {command operands word : Text} {c : Mnemonic}
    (hcommand : Mnemonic.ofText? command = some c)
    (hcode : (Instruction.mk c operands (some ((index + m : Nat) : Int))).code last = .ok word) :
    ∃ word', (Instruction.mk c operands (some (index : Int))).code final = .ok word' ∧
      (instruction label command operands).Relocated m final [word'] [word] := by
  cases hlabel : (Instruction.mk c operands none).labelOperand? with
  | none =>
      have hnone : (instruction label command operands).addressOperand? = none := by
        cases c <;> simp [addressOperand?, hcommand, hlabel]
      rw [← Instruction.labelOperand?_line _ (some ((index + m : Nat) : Int))] at hlabel
      exact ⟨word, Instruction.code_of_no_label hcode hlabel (some (index : Int)) final,
        .same hnone⟩
  | some name =>
      obtain ⟨o, ho, hname⟩ := Instruction.labelOperand?_eq_some_iff.1 hlabel
      have hdown := Operands.read_line ho (some ((index + m : Nat) : Int))
      have hhere := Operands.read_line ho (some (index : Int))
      obtain ⟨n, k, hn, hk, rfl⟩ := (Instruction.code_of_label hdown hname).1 hcode
      obtain ⟨a, ha, rfl⟩ := hshift.exists_of_find? hn
      by_cases hbeq : c = .beq
      · subst hbeq
        -- The label and the branch move together, so the distance between them stays.
        obtain rfl : a + m - ((index + m : Nat) : Int) - 1 = k := Option.some.inj hk
        have hkept : a - index - 1 = a + m - ((index + m : Nat) : Int) - 1 := by omega
        have hdistance : Encoder.labelNumber? ⟨.beq, operands, some (index : Int)⟩ a =
            some (a + m - ((index + m : Nat) : Int) - 1) := by
          rw [← hkept]
          rfl
        exact ⟨_, (Instruction.code_of_label hhere hname).2 ⟨a, _, ha, hdistance, rfl⟩,
          .same (addressOperand?_of_beq hcommand)⟩
      · have hnumber : ∀ (line : Option Int) (n : Int),
            Encoder.labelNumber? ⟨c, operands, line⟩ n = some n := by
          intro line n
          simp [Encoder.labelNumber?, hbeq]
        obtain rfl : a + m = k := Option.some.inj ((hnumber _ _).symm.trans hk)
        exact ⟨_, (Instruction.code_of_label hhere hname).2 ⟨a, a, ha, hnumber _ _, rfl⟩,
          .address hcommand hbeq ho hname ha⟩

/-- One line: what is placed further down is placed at its own place too, and its words there are
those before the move. -/
theorem Placed.relocate (hshift : table.Shifted m moved) {s : Statement} {here : List Entry}
    (h : s.Placed moved (index + m) here)
    (hspace : ∀ label operand, s = .directive .space label operand →
      Numeral.isNumeral operand = true) :
    ∃ here', s.Placed table index here' ∧
      ∀ final last words, final.Shifted m last → final.Extends table →
        Entry.words last here = .ok words →
          ∃ words', Entry.words final here' = .ok words' ∧ s.Relocated m final words' words := by
  cases h with
  | @fill label operand n hnumber hroom hnew =>
      rw [hshift.contains_eq] at hnew
      by_cases hnumeral : Numeral.isNumeral operand = true
      · have hnumber' : operandNumber? table operand = some n := by
          rwa [operandNumber?, if_pos hnumeral] at hnumber ⊢
        refine ⟨_, .fill hnumber' (by omega) hnew, fun final last words _ _ hwords => ?_⟩
        exact ⟨words, hwords, .same (by simp [addressOperand?, hnumeral])⟩
      · -- Data looks its label up when it is placed, and the label keeps its number from then on.
        rw [operandNumber?, if_neg hnumeral] at hnumber
        obtain ⟨k, hk, rfl⟩ := hshift.exists_of_find? hnumber
        have hnumber' : operandNumber? table operand = some k := by
          rwa [operandNumber?, if_neg hnumeral]
        refine ⟨_, .fill hnumber' (by omega) hnew, fun final last words _ hextends hwords => ?_⟩
        obtain rfl := Except.ok.inj hwords
        exact ⟨_, rfl, .data (by simpa using hnumeral) (hextends operand k hk)⟩
  | @space label operand n hnumber hpos hroom hnew =>
      rw [hshift.contains_eq] at hnew
      have hnumeral := hspace label operand rfl
      have hnumber' : operandNumber? table operand = some n := by
        rwa [operandNumber?, if_pos hnumeral] at hnumber ⊢
      refine ⟨_, .space hnumber' hpos (by push_cast at hroom; omega) hnew,
        fun final last words _ _ hwords => ?_⟩
      rw [Entry.words_replicate] at hwords
      exact ⟨words, by rw [Entry.words_replicate, hwords], .same rfl⟩
  | halt hlabel =>
      refine ⟨_, .halt (hshift.labelAllowed hlabel), fun final last words _ _ hwords => ?_⟩
      exact ⟨words, hwords, .same rfl⟩
  | @instruction label command operands i hlabel hread =>
      -- An instruction looks its label up in the end, so it may name one that comes later.
      obtain ⟨c, hcommand, rfl⟩ := Instruction.read_eq_ok_iff.1 hread
      refine ⟨[.instruction ⟨c, operands, some (index : Int)⟩],
        .instruction (hshift.labelAllowed hlabel) (Instruction.read_eq_ok_iff.2 ⟨c, hcommand, rfl⟩),
        fun final last words hshift' _ hwords => ?_⟩
      obtain ⟨word, hword, rfl⟩ := Entry.words_singleton_eq_ok_iff.1 hwords
      obtain ⟨word', hword', hrelocated⟩ := relocated_instruction hshift' hcommand hword
      exact ⟨[word'], Entry.words_singleton_eq_ok_iff.2 ⟨word', hword', rfl⟩, hrelocated⟩

end Statement

namespace Laid

/-- A run of lines: what is laid out further down is laid out at its own place too, and the words
of each line there are those before the move. -/
theorem relocate {m index : Nat} {table moved last : LabelTable} {lines : List Text}
    {entries : List Entry} (h : Laid moved (index + m) lines last entries)
    (hshift : table.Shifted m moved)
    (hspace : ∀ line ∈ lines, ∀ label operand,
      Statement.ofLine? line = some (.directive .space label operand) →
        Numeral.isNumeral operand = true) :
    ∃ final entries', Laid table index lines final entries' ∧ final.Shifted m last ∧
      ∀ words, Entry.words last entries = .ok words →
        ∃ blocks : List (List Text × List Text),
          List.Forall₂ (fun line block => ∃ s, Statement.ofLine? line = some s ∧
            s.Relocated m final block.1 block.2) lines blocks ∧
          Entry.words final entries' = .ok (blocks.flatMap Prod.fst) ∧
          words = blocks.flatMap Prod.snd := by
  -- The tables are shifted before each line and therefore in the end, where labels are looked up.
  induction lines generalizing table moved index entries with
  | nil =>
      cases h
      refine ⟨table, [], .nil, hshift, fun words hwords => ⟨[], .nil, rfl, ?_⟩⟩
      simpa [Entry.words, eq_comm] using hwords
  | cons line rest ih =>
      cases h with
      | @cons _ _ _ _ _ s here more hline hplaced hrest =>
          rw [List.forall_mem_cons] at hspace
          have hspaceHere := fun label operand (hs : s = .directive .space label operand) =>
            hspace.1 label operand (by rw [hline, hs])
          obtain ⟨here', hplaced', hwordsHere⟩ := hplaced.relocate hshift hspaceHere
          rw [show index + m + 1 = index + 1 + m by omega] at hrest
          obtain ⟨final, more', hlaid, hfinal, hwordsMore⟩ :=
            ih hrest (hshift.define s.label? index) hspace.2
          have hextends := hlaid.extends_start.trans hplaced'.extends_define
          refine ⟨final, here' ++ more', .cons hline hplaced' hlaid, hfinal, ?_⟩
          intro words hwords
          obtain ⟨u, v, hu, hv, rfl⟩ := Entry.words_append_eq_ok_iff.1 hwords
          obtain ⟨u', hu', hrelocated⟩ := hwordsHere final last u hfinal hextends hu
          obtain ⟨blocks, hblocks, hmore, rfl⟩ := hwordsMore v hv
          exact ⟨(u', u) :: blocks, .cons ⟨s, hline, hrelocated⟩ hblocks,
            Entry.words_append_eq_ok_iff.2 ⟨_, _, hu', hmore, rfl⟩, rfl⟩

/-- Unlabelled instructions leave the table as it is and take one word each. -/
theorem of_unlabelled {table final : LabelTable} {index : Nat} {lines : List Text}
    {entries : List Entry} (h : Laid table index lines final entries)
    (hlines : ∀ line ∈ lines, ∃ s, Statement.ofLine? line = some s ∧ s.label? = none) :
    final = table ∧ entries.length = lines.length := by
  induction h with
  | nil => exact ⟨rfl, rfl⟩
  | @cons table final index line rest s here more hline hplaced hrest ih =>
      rw [List.forall_mem_cons] at hlines
      obtain ⟨s', hs', hnone⟩ := hlines.1
      obtain rfl : s = s' := Option.some.inj (hline.symm.trans hs')
      have hhere : here.length = 1 := by
        cases hplaced <;> first | rfl | cases hnone
      obtain ⟨hfinal, hmore⟩ := ih hlines.2
      rw [hnone] at hfinal
      exact ⟨hfinal, by simp [hhere, hmore]; omega⟩

end Laid

/-- Let a program stand after unlabelled instructions, with no reservation whose size is a label.
If the whole assembles, the program alone does.  The words of the program, line by line, are then
its words alone, but that every word which holds the address of a label holds it increased by the
number of instructions in front.  A branch keeps its word, and every label is increased as well. -/
theorem assemble_append_relocates {front lines : List Text} {text : Text} {last : LabelTable}
    (hfront : ∀ line ∈ Line.kept front, ∃ s, Statement.ofLine? line = some s ∧ s.label? = none)
    (hspace : ∀ line ∈ Line.kept lines, ∀ label operand,
      Statement.ofLine? line = some (.directive .space label operand) →
        Numeral.isNumeral operand = true)
    (h : assemble ∅ (front ++ lines) = (.code text, last)) :
    ∃ (final : LabelTable) (first : List Text) (blocks : List (List Text × List Text)),
      assemble ∅ lines = (.code ((blocks.flatMap Prod.fst).flatMap (· ++ ['\n'])), final) ∧
      text = (first ++ blocks.flatMap Prod.snd).flatMap (· ++ ['\n']) ∧
      first.length = (Line.kept front).length ∧
      final.Shifted (Line.kept front).length last ∧
      List.Forall₂ (fun line block => ∃ s, Statement.ofLine? line = some s ∧
        s.Relocated (Line.kept front).length final block.1 block.2 ∧
        (s.mnemonic? = some .beq → block.1 = block.2)) (Line.kept lines) blocks := by
  obtain ⟨entries, words, hlaid, hwords, rfl⟩ := assemble_eq_code_iff.1 h
  have hkept : Line.kept (front ++ lines) = Line.kept front ++ Line.kept lines := by
    simp [Line.kept]
  rw [hkept] at hlaid
  obtain ⟨middle, before, after, hbefore, hafter, rfl⟩ := hlaid.of_append
  obtain ⟨rfl, hlength⟩ := hbefore.of_unlabelled hfront
  obtain ⟨first, rest, hfirst, hrest, rfl⟩ := Entry.words_append_eq_ok_iff.1 hwords
  obtain ⟨final, alone, halone, hshift, hblocks⟩ :=
    hafter.relocate (LabelTable.shifted_empty _) hspace
  obtain ⟨blocks, hall, hwordsAlone, rfl⟩ := hblocks rest hrest
  refine ⟨final, first, blocks, ?_, rfl, ?_, hshift, ?_⟩
  · exact assemble_eq_code_iff.2 ⟨alone, _, halone, hwordsAlone, rfl⟩
  · rw [← (Entry.words_eq_ok_iff.1 hfirst).length_eq, hlength]
  · refine hall.imp ?_
    rintro line block ⟨s, hs, hrelocated⟩
    exact ⟨s, hs, hrelocated, hrelocated.eq_of_beq⟩

/-- Two unlabelled instructions. -/
def frontPair : List Text :=
  ["add 1,2,3".toList, "halt # stop".toList]

/-- A load, a branch back, a jump back, data that names a label, and a reservation. -/
def backward : List Text :=
  ["loop lw 1,2,x".toList, "beq 1,2,loop".toList, "j loop".toList, "x .fill loop".toList,
    "buf .space 1".toList]

/-- The words of `backward`, and those after two instructions: the second is the branch. -/
def backwardBlocks : List (Text × Text) :=
  [("00001001001000010000000000000011".toList, "00001001001000010000000000000101".toList),
    ("00001011001000011111111111111110".toList, "00001011001000011111111111111110".toList),
    ("00001101000000000000000000000000".toList, "00001101000000000000000000000010".toList),
    ("00000000000000000000000000000000".toList, "00000000000000000000000000000010".toList),
    ("00000000000000000000000000000000".toList, "00000000000000000000000000000000".toList)]

theorem assemble_append_relocates_backward :
    (assemble ∅ (frontPair ++ backward)).1 =
        .code ("00000000001000110001000000000000\n00001110000000000000000000000000\n".toList ++
          (backwardBlocks.map Prod.snd).flatMap (· ++ ['\n'])) ∧
      ∃ final, assemble ∅ backward =
          (.code ((backwardBlocks.map Prod.fst).flatMap (· ++ ['\n'])), final) ∧
        final.Shifted 2 (assemble ∅ (frontPair ++ backward)).2 := by
  have hfront : ∀ line ∈ Line.kept frontPair,
      ∃ s, Statement.ofLine? line = some s ∧ s.label? = none := by
    have hkept : Line.kept frontPair = ["add 1,2,3".toList, "halt".toList] := by decide +kernel
    rw [hkept, List.forall_mem_cons, List.forall_mem_singleton]
    exact ⟨⟨.instruction none "add".toList "1,2,3".toList, by decide +kernel, rfl⟩,
      ⟨.halt none, by decide +kernel, rfl⟩⟩
  have hspace : ∀ line ∈ Line.kept backward, ∀ label operand,
      Statement.ofLine? line = some (.directive .space label operand) →
        Numeral.isNumeral operand = true := by
    have hparsed : (Line.kept backward).map Statement.ofLine? =
        [some (.instruction (some "loop".toList) "lw".toList "1,2,x".toList),
          some (.instruction none "beq".toList "1,2,loop".toList),
          some (.instruction none "j".toList "loop".toList),
          some (.directive .fill "x".toList "loop".toList),
          some (.directive .space "buf".toList "1".toList)] := by decide +kernel
    intro line hline label operand hs
    have hmem := List.mem_map_of_mem (f := Statement.ofLine?) hline
    rw [hparsed, hs] at hmem
    obtain ⟨-, rfl⟩ : label = "buf".toList ∧ operand = "1".toList := by simpa using hmem
    decide +kernel
  have hcode : (assemble ∅ (frontPair ++ backward)).1 =
      .code ("00000000001000110001000000000000\n00001110000000000000000000000000\n".toList ++
        (backwardBlocks.map Prod.snd).flatMap (· ++ ['\n'])) := by decide +kernel
  have halone : (assemble ∅ backward).1 =
      .code ((backwardBlocks.map Prod.fst).flatMap (· ++ ['\n'])) := by decide +kernel
  have hlength : (Line.kept frontPair).length = 2 := by decide +kernel
  obtain ⟨final, first, blocks, hassemble, -, -, hshift, -⟩ :=
    assemble_append_relocates hfront hspace (Prod.ext hcode rfl)
  rw [hlength] at hshift
  exact ⟨hcode, final, Prod.ext halone (by rw [hassemble]), hshift⟩

end WordAsm
