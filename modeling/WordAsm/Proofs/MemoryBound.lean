import WordAsm.Proofs.LabelAddress

/-!
# Words and the size of memory

A directive is refused if its words do not fit into memory.  The check counts the lines before the
directive and NOT the words before it, and for a single word it lets one line too many pass.  So it
does not keep the words of a program within memory: after a reservation of all of memory there is
still room for a word.

The words do stay within memory exactly when at every directive the words of all lines up to it
fit.
-/

namespace WordAsm

open Statement

/-! ## Words among entries -/

namespace Entry

/-- Every finished word among some entries, the first of them at `base`, stands below a bound. -/
def WordsBelow (bound base : Nat) (entries : List Entry) : Prop :=
  ∀ p digits, entries[p]? = some (.word digits) → base + p < bound

variable {bound base : Nat}

theorem wordsBelow_append {first last : List Entry} :
    WordsBelow bound base (first ++ last) ↔
      WordsBelow bound base first ∧ WordsBelow bound (base + first.length) last := by
  constructor
  · intro h
    constructor
    · intro p digits hp
      obtain ⟨hlt, -⟩ := List.getElem?_eq_some_iff.1 hp
      exact h p digits (by rw [List.getElem?_append_left hlt, hp])
    · intro p digits hp
      have hlast := h (first.length + p) digits (by
        rw [List.getElem?_append_right (Nat.le_add_right _ _), Nat.add_sub_cancel_left, hp])
      omega
  · rintro ⟨hfirst, hlast⟩ p digits hp
    by_cases hlt : p < first.length
    · rw [List.getElem?_append_left hlt] at hp
      exact hfirst p digits hp
    · rw [List.getElem?_append_right (by omega)] at hp
      have hbound := hlast (p - first.length) digits hp
      omega

/-- Where all entries are words, the last of them counts. -/
theorem wordsBelow_iff_of_words {entries : List Entry} (hne : entries ≠ [])
    (hwords : ∀ entry ∈ entries, ∃ digits, entry = .word digits) :
    WordsBelow bound base entries ↔ base + entries.length ≤ bound := by
  have hpos : 0 < entries.length := List.length_pos_iff.2 hne
  constructor
  · intro h
    obtain ⟨digits, hdigits⟩ := hwords _ (List.getLast_mem hne)
    have hlast := h (entries.length - 1) digits (by
      rw [← List.getLast?_eq_getElem?, List.getLast?_eq_some_getLast hne, hdigits])
    omega
  · intro h p digits hp
    obtain ⟨hlt, -⟩ := List.getElem?_eq_some_iff.1 hp
    omega

end Entry

/-! ## One statement -/

namespace Statement

variable {table : LabelTable} {index : Nat} {s : Statement} {here : List Entry}

/-- Only directives add words, and the words of a directive fit if its last one does. -/
theorem Placed.wordsBelow_iff (h : s.Placed table index here) {bound base : Nat} :
    Entry.WordsBelow bound base here ↔
      ∀ d label operand, s = .directive d label operand → base + here.length ≤ bound := by
  have hne := h.ne_nil
  cases h with
  | fill hnumber hroom hnew =>
      rw [Entry.wordsBelow_iff_of_words hne (by simp)]
      simp
  | space hnumber hpos hroom hnew =>
      rw [Entry.wordsBelow_iff_of_words hne
        fun entry hentry => ⟨_, List.eq_of_mem_replicate hentry⟩]
      simp
  | halt hlabel => simp [Entry.WordsBelow, List.getElem?_singleton]
  | instruction hlabel hread => simp [Entry.WordsBelow, List.getElem?_singleton]

/-- What the check makes sure of: the words of a directive would fit if every line before it took
one word.  A single word may stand one line too far. -/
theorem Placed.room {d : Directive} {label operand : Text}
    (h : (directive d label operand).Placed table index here) :
    index + here.length ≤ memorySize ∨ d = .fill ∧ index = memorySize := by
  cases h with
  | fill hnumber hroom hnew =>
      rw [List.length_singleton]
      rcases Nat.lt_or_eq_of_le hroom with hlt | heq
      · exact .inl hlt
      · exact .inr ⟨rfl, heq⟩
  | space hnumber hpos hroom hnew =>
      left
      rw [List.length_replicate]
      omega

end Statement

/-! ## All lines -/

/-- At every directive among some lines, with `base` words before them, the words up to it and its
own do not pass a bound. -/
def Line.DirectivesBelow (table : LabelTable) (bound base : Nat) (lines : List Text) : Prop :=
  ∀ k line d label operand, lines[k]? = some line →
    ofLine? line = some (.directive d label operand) →
      base + ((lines.take (k + 1)).map (Line.size table)).sum ≤ bound

theorem Line.directivesBelow_cons {table : LabelTable} {bound base : Nat} {line : Text}
    {rest : List Text} :
    DirectivesBelow table bound base (line :: rest) ↔
      (∀ d label operand, ofLine? line = some (.directive d label operand) →
        base + Line.size table line ≤ bound) ∧
      DirectivesBelow table bound (base + Line.size table line) rest := by
  constructor
  · intro h
    constructor
    · intro d label operand hs
      simpa using h 0 line d label operand rfl hs
    · intro k line' d label operand hline hs
      simpa [Nat.add_assoc] using h (k + 1) line' d label operand hline hs
  · rintro ⟨hfirst, hrest⟩ k line' d label operand hline hs
    cases k with
    | zero =>
        obtain rfl := Option.some.inj hline
        simpa using hfirst d label operand hs
    | succ k => simpa [Nat.add_assoc] using hrest k line' d label operand hline hs

namespace Laid

variable {table final last : LabelTable} {index : Nat} {lines : List Text} {entries : List Entry}

/-- The words of a layout stay below a bound if at every directive the words up to it do. -/
theorem wordsBelow_iff (h : Laid table index lines final entries) (hlast : last.Extends final)
    {bound base : Nat} :
    Entry.WordsBelow bound base entries ↔ Line.DirectivesBelow last bound base lines := by
  induction h generalizing base with
  | nil => simp [Entry.WordsBelow, Line.DirectivesBelow]
  | @cons table final index line rest s here more hline hplaced hrest ih =>
      rw [Entry.wordsBelow_append, Line.directivesBelow_cons, size_eq hline hplaced hrest hlast,
        ih hlast, hplaced.wordsBelow_iff, hline]
      simp only [Option.some.injEq]

/-- At every directive the check has counted the lines before it. -/
theorem room (h : Laid table index lines final entries) (hlast : last.Extends final) {k : Nat}
    {line label operand : Text} {d : Directive} (hline : lines[k]? = some line)
    (hs : ofLine? line = some (.directive d label operand)) :
    index + k + Line.size last line ≤ memorySize ∨ d = .fill ∧ index + k = memorySize := by
  induction h generalizing k with
  | nil => simp at hline
  | @cons table final index first rest s here more hfirst hplaced hrest ih =>
      cases k with
      | zero =>
          obtain rfl := Option.some.inj hline
          obtain rfl := Option.some.inj (hfirst.symm.trans hs)
          rw [size_eq hfirst hplaced hrest hlast]
          exact hplaced.room
      | succ k =>
          have hindex : index + 1 + k = index + (k + 1) := by omega
          rw [← hindex]
          exact ih hlast hline

end Laid

/-- In a program that is laid out, every directive fits into memory as far as one word is counted
for each line before it, except that a single word may stand on the line just after the last one
allowed.  The finished words all stand within memory if and only if at every directive the words of
the lines up to it fit. -/
theorem words_within_memory_iff {start final : LabelTable} {lines : List Text}
    {entries : List Entry} (h : Layout.ofLines start lines = ⟨final, .ok entries⟩) :
    (∀ k line d label operand, (Line.kept lines)[k]? = some line →
      ofLine? line = some (.directive d label operand) →
        k + Line.size final line ≤ memorySize ∨ d = .fill ∧ k = memorySize) ∧
    ((∀ p digits, entries[p]? = some (.word digits) → p < memorySize) ↔
      ∀ k line d label operand, (Line.kept lines)[k]? = some line →
        ofLine? line = some (.directive d label operand) →
          (((Line.kept lines).take (k + 1)).map (Line.size final)).sum ≤ memorySize) := by
  have hlaid := Layout.ofLines_eq_ok_iff.1 h
  have hfinal : final.Extends final := fun _ _ hn => hn
  constructor
  · intro k line d label operand hline hs
    simpa using hlaid.room hfinal hline hs
  · have hwords : Entry.WordsBelow memorySize 0 entries ↔
        Line.DirectivesBelow final memorySize 0 (Line.kept lines) := hlaid.wordsBelow_iff hfinal
    simpa [Entry.WordsBelow, Line.DirectivesBelow] using hwords

/-- A reservation of all of memory and a word after it. -/
def fullMemory : List Text :=
  ["a .space 8192".toList, "b .fill 1".toList]

/-- The word after a reservation of all of memory is accepted, and it stands outside. -/
theorem words_within_memory_iff_fullMemory :
    ∃ final entries, Layout.ofLines ∅ fullMemory = ⟨final, .ok entries⟩ ∧
      entries[memorySize]? = some (.word (Binary.complementText 32 1)) ∧
      ¬ ∀ k line d label operand, (Line.kept fullMemory)[k]? = some line →
        ofLine? line = some (.directive d label operand) →
          (((Line.kept fullMemory).take (k + 1)).map (Line.size final)).sum ≤ memorySize := by
  have hkept : Line.kept fullMemory = ["a .space 8192".toList, "b .fill 1".toList] := by
    decide +kernel
  have hspace : ofLine? "a .space 8192".toList =
      some (.directive .space "a".toList "8192".toList) := by decide +kernel
  have hfill : ofLine? "b .fill 1".toList =
      some (.directive .fill "b".toList "1".toList) := by decide +kernel
  -- The rules give the entries without writing all of them out.
  have hfirst : (directive .space "a".toList "8192".toList).Placed ∅ 0
      (List.replicate memorySize (.word (Binary.padded 32 0))) :=
    .space (n := memorySize) (by decide +kernel) (by decide) (by decide) (by decide +kernel)
  have hsecond : (directive .fill "b".toList "1".toList).Placed
      ((∅ : LabelTable).define (some "a".toList) 0) 1 [.word (Binary.complementText 32 1)] :=
    .fill (by decide +kernel) (by decide) (by decide +kernel)
  have hlaid := Laid.cons hspace hfirst (.cons hfill hsecond .nil)
  rw [← hkept] at hlaid
  have hlayout := Layout.ofLines_eq_ok_iff.2 hlaid
  have hword : (List.replicate memorySize (.word (Binary.padded 32 0)) ++
      ([.word (Binary.complementText 32 1)] ++ []))[memorySize]? =
        some (Entry.word (Binary.complementText 32 1)) := by
    rw [List.getElem?_append_right (by simp)]
    simp
  refine ⟨_, _, hlayout, hword, fun hfit => ?_⟩
  exact absurd ((words_within_memory_iff hlayout).2.2 hfit memorySize _ hword) (Nat.lt_irrefl _)

end WordAsm
