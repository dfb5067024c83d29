import Mathlib.Algebra.BigOperators.Group.List.Basic
import Mathlib.Algebra.Ring.Nat
import WordAsm.Proofs.Layout

/-!
# What a label's value counts

A label is bound to the index of its line among the kept lines.  The words of a program are
counted otherwise: a line takes one word, and a reservation as many as it asks for.  The two
counts agree up to the first line after a reservation of more than one word.  From there on a
label does NOT give the place of its word in the code.
-/

namespace WordAsm

namespace Statement

/-- The number of words that a statement takes under a table. -/
def size (table : LabelTable) : Statement → Nat
  | directive .space _ operand => ((operandNumber? table operand).getD 0).toNat
  | _ => 1

/-- A placed statement adds as many entries as it has words. -/
theorem Placed.length_eq {table final : LabelTable} {index : Nat} {s : Statement}
    {entries : List Entry} (h : s.Placed table index entries) (hfinal : final.Extends table) :
    entries.length = s.size final := by
  cases h with
  | fill hnumber hroom hnew => rfl
  | space hnumber hpos hroom hnew =>
      rw [List.length_replicate, size, operandNumber?_mono hfinal hnumber]
      rfl
  | halt hlabel => rfl
  | instruction hlabel hread => rfl

theorem Placed.ne_nil {table : LabelTable} {index : Nat} {s : Statement} {entries : List Entry}
    (h : s.Placed table index entries) : entries ≠ [] := by
  cases h with
  | @space label operand n hnumber hpos hroom hnew =>
      rw [Ne, List.replicate_eq_nil_iff]
      omega
  | _ => exact List.cons_ne_nil _ _

end Statement

/-- The number of words that a kept line takes under a table. -/
def Line.size (table : LabelTable) (line : Text) : Nat :=
  match Statement.ofLine? line with
  | some s => s.size table
  | none => 0

/-- The size of a line under a later table is the number of entries that the line added. -/
theorem Laid.size_eq {table final last : LabelTable} {index : Nat} {line : Text} {rest : List Text}
    {s : Statement} {here more : List Entry} (hline : Statement.ofLine? line = some s)
    (hplaced : s.Placed table index here)
    (hrest : Laid (table.define s.label? index) (index + 1) rest final more)
    (hlast : last.Extends final) : Line.size last line = here.length := by
  have hextends : last.Extends table :=
    hlast.trans (hrest.extends_start.trans hplaced.extends_define)
  rw [Line.size, hline]
  exact (hplaced.length_eq hextends).symm

/-- Line sizes add up to the number of entries, and no line is empty. -/
theorem Laid.length_eq {table final last : LabelTable} {index : Nat} {lines : List Text}
    {entries : List Entry} (h : Laid table index lines final entries)
    (hlast : last.Extends final) :
    entries.length = (lines.map (Line.size last)).sum ∧
      ∀ line ∈ lines, 1 ≤ Line.size last line := by
  induction h with
  | nil => simp
  | @cons table final index line rest s here more hline hplaced hrest ih =>
      obtain ⟨hmore, hpos⟩ := ih hlast
      have hhere := Laid.size_eq hline hplaced hrest hlast
      have hne : 1 ≤ here.length := List.length_pos_iff.2 hplaced.ne_nil
      refine ⟨by simp [hhere, hmore], ?_⟩
      intro line' hline'
      rcases List.mem_cons.1 hline' with rfl | hline'
      · omega
      · exact hpos line' hline'

theorem sum_eq_length_iff {sizes : List Nat} (hpos : ∀ n ∈ sizes, 1 ≤ n) :
    sizes.sum = sizes.length ↔ ∀ n ∈ sizes, n = 1 := by
  induction sizes with
  | nil => simp
  | cons n sizes ih =>
      have hpos' : ∀ m ∈ sizes, 1 ≤ m := fun m hm => hpos m (List.mem_cons_of_mem n hm)
      have hn := hpos n List.mem_cons_self
      have hle := List.length_le_sum_of_one_le sizes hpos'
      simp only [List.sum_cons, List.length_cons, List.forall_mem_cons, ← ih hpos']
      omega

/-- As many entries stand before a line as there are lines before it, exactly when each of these
takes one word. -/
theorem Laid.length_eq_iff {table final last : LabelTable} {index : Nat} {lines : List Text}
    {entries : List Entry} (h : Laid table index lines final entries)
    (hlast : last.Extends final) :
    entries.length = lines.length ↔ ∀ line ∈ lines, Line.size last line = 1 := by
  obtain ⟨hlength, hpos⟩ := h.length_eq hlast
  have hsizes : ∀ n ∈ lines.map (Line.size last), 1 ≤ n := by
    intro n hn
    obtain ⟨line, hline, rfl⟩ := List.mem_map.1 hn
    exact hpos line hline
  have hiff := sum_eq_length_iff hsizes
  rw [List.length_map] at hiff
  rw [hlength, hiff]
  simp

/-- The first entry of a line is encoded into the word that stands in the code where the entries
before it end. -/
theorem Entry.words_getElem? {table : LabelTable} {before here after : List Entry}
    (hne : here ≠ []) {words : List Text}
    (h : Entry.words table (before ++ here ++ after) = .ok words) :
    ∃ first ∈ here.head?, ∃ word ∈ words[before.length]?, first.code table = .ok word := by
  obtain ⟨first, more, rfl⟩ := List.exists_cons_of_ne_nil hne
  have hwords := Entry.words_eq_ok_iff.1 h
  have hentry : before.length < (before ++ first :: more ++ after).length := by simp
  have hword : before.length < words.length := by rwa [← hwords.length_eq]
  have hcode := hwords.get hentry hword
  refine ⟨first, rfl, _, List.getElem?_eq_getElem hword, ?_⟩
  simpa using hcode

/-- A label is bound to the index of its line.  That is the number of entries before the line,
and so the place of the line's first word in the code, if and only if every line before it takes
one word. -/
theorem label_is_word_address_iff {start final : LabelTable} {lines : List Text}
    {entries : List Entry} (h : Layout.ofLines start lines = ⟨final, .ok entries⟩)
    {index : Nat} {line label : Text} {s : Statement}
    (hline : (Line.kept lines)[index]? = some line) (hs : Statement.ofLine? line = some s)
    (hlabel : s.label? = some label) :
    ∃ before here after,
      (Layout.placeFrom start 0 ((Line.kept lines).take index)).result = .ok before ∧
      entries = before ++ here ++ after ∧ here ≠ [] ∧
      (∀ words, Entry.words final entries = .ok words →
        ∃ first ∈ here.head?, ∃ word ∈ words[before.length]?, first.code final = .ok word) ∧
      before.length = (((Line.kept lines).take index).map (Line.size final)).sum ∧
      final.find? label = some (index : Int) ∧
      (final.find? label = some (before.length : Int) ↔
        ∀ earlier ∈ (Line.kept lines).take index, Line.size final earlier = 1) := by
  -- Cutting the lines at the label's line cuts the entries into before, here and after.
  obtain ⟨hindex, rfl⟩ := List.getElem?_eq_some_iff.1 hline
  have hsplit : Line.kept lines = (Line.kept lines).take index ++
      (Line.kept lines)[index] :: (Line.kept lines).drop (index + 1) := by
    rw [← List.drop_eq_getElem_cons, List.take_append_drop]
  have hlaid := Layout.ofLines_eq_ok_iff.1 h
  rw [hsplit] at hlaid
  obtain ⟨middle, before, s', here, after, hbefore, hs', hplaced, hafter, rfl⟩ := hlaid.split
  obtain rfl : s = s' := Option.some.inj (hs.symm.trans hs')
  have hlength : ((Line.kept lines).take index).length = index :=
    List.length_take_of_le (Nat.le_of_lt hindex)
  rw [Nat.zero_add, hlength] at hplaced hafter
  have hextends : final.Extends middle := hafter.extends_start.trans hplaced.extends_define
  have hfind : final.find? label = some (index : Int) := Laid.find?_label hlabel hafter
  have hiff := hbefore.length_eq_iff hextends
  rw [hlength] at hiff
  refine ⟨before, here, after, ?_, rfl, hplaced.ne_nil, ?_, (hbefore.length_eq hextends).1, hfind,
    ?_⟩
  · rw [Layout.placeFrom_eq_ok_iff.2 hbefore]
  · intro words hwords
    exact Entry.words_getElem? hplaced.ne_nil hwords
  · rw [hfind, ← hiff, Option.some.injEq]
    omega

/-- A reservation of two words and a word after it. -/
def reservation : List Text :=
  ["a .space 2".toList, "b .fill 1".toList]

/-- After a reservation of two words a label is one short. -/
theorem label_is_word_address_iff_reservation :
    let final := (Layout.ofLines ∅ reservation).table
    ∃ before, (Layout.placeFrom ∅ 0 ((Line.kept reservation).take 1)).result = .ok before ∧
      before.length = 2 ∧ final.find? "b".toList = some 1 ∧
      (final.find? "b".toList = some (before.length : Int) ↔
        ∀ earlier ∈ (Line.kept reservation).take 1, Line.size final earlier = 1) := by
  intro final
  have hresult : (Layout.ofLines ∅ reservation).result =
      .ok [.word (Binary.bits 32 0), .word (Binary.bits 32 0), .word (Binary.bits 32 1)] := by
    decide +kernel
  have hlayout : Layout.ofLines ∅ reservation = ⟨final, (Layout.ofLines ∅ reservation).result⟩ :=
    rfl
  rw [hresult] at hlayout
  have hline : (Line.kept reservation)[1]? = some "b .fill 1".toList := by decide +kernel
  have hstatement : Statement.ofLine? "b .fill 1".toList =
      some (.directive .fill "b".toList "1".toList) := by decide +kernel
  obtain ⟨before, here, after, hbefore, -, -, -, hlength, hfind, hiff⟩ :=
    label_is_word_address_iff hlayout hline hstatement rfl
  exact ⟨before, hbefore, hlength.trans (by decide +kernel), hfind, hiff⟩

end WordAsm
