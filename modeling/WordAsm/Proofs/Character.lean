import Mathlib.Data.List.TakeWhile
import WordAsm.Text.Basic
import WordAsm.Text.Digit
import WordAsm.Text.WordChar

/-!
# How the character classes lie to each other

Letters and ASCII digits are word characters, and no word character is white space.  A space
or tab is white space, so a text without white space has no gap.  No letter is a digit, which
is what keeps labels and numerals apart.
-/

namespace WordAsm.Text

/-- The code points of the white space characters. -/
def blankPoints : List Nat :=
  blankRanges.flatMap fun r => List.range' r.1 (r.2 + 1 - r.1)

theorem mem_blankPoints_of_isBlank {c : Char} (h : isBlank c = true) : c.toNat ∈ blankPoints := by
  have hpoints : ∀ (ranges : List (Nat × Nat)) (n : Nat), inRanges n ranges = true →
      n ∈ ranges.flatMap fun r => List.range' r.1 (r.2 + 1 - r.1) := by
    intro ranges n hn
    induction ranges with
    | nil => simp [inRanges] at hn
    | cons r ranges ih =>
        obtain ⟨lo, hi⟩ := r
        rw [List.flatMap_cons, List.mem_append]
        unfold inRanges at hn
        split at hn
        · cases hn
        · split at hn
          · exact .inl (List.mem_range'_1.2 (by omega))
          · exact .inr (ih hn)
  exact hpoints blankRanges c.toNat h

theorem blankPoints_not_word : ∀ n ∈ blankPoints, inRanges n wordRanges = false := by
  decide +kernel

theorem not_isBlank_of_isWordChar {c : Char} (h : isWordChar c = true) : isBlank c = false := by
  cases hblank : isBlank c with
  | false => rfl
  | true =>
      have hword := blankPoints_not_word _ (mem_blankPoints_of_isBlank hblank)
      rw [isWordChar, hword] at h
      contradiction

theorem isBlank_of_isGap {c : Char} (h : isGap c = true) : isBlank c = true := by
  simp only [isGap, Bool.or_eq_true, decide_eq_true_eq] at h
  rcases h with rfl | rfl <;> decide

theorem not_isGap_of_not_isBlank {c : Char} (h : isBlank c = false) : isGap c = false := by
  cases hgap : isGap c with
  | false => rfl
  | true =>
      rw [isBlank_of_isGap hgap] at h
      contradiction

theorem ne_of_isBlank {c d : Char} (hc : isBlank c = false) (hd : isBlank d = true) : c ≠ d := by
  rintro rfl
  rw [hc] at hd
  contradiction

theorem isAsciiLetter_iff (c : Char) : isAsciiLetter c = true ↔
    65 ≤ c.toNat ∧ c.toNat ≤ 90 ∨ 97 ≤ c.toNat ∧ c.toNat ≤ 122 := by
  simp [isAsciiLetter, Char.le_def, UInt32.le_iff_toNat_le]

theorem isAsciiDigit_iff (c : Char) :
    isAsciiDigit c = true ↔ 48 ≤ c.toNat ∧ c.toNat ≤ 57 := by
  simp [isAsciiDigit, Char.le_def, UInt32.le_iff_toNat_le]

theorem letter_points : ∀ n < 123, 65 ≤ n ∧ n ≤ 90 ∨ 97 ≤ n ∧ n ≤ 122 →
    inRanges n wordRanges = true ∧ digitFrom n digitZeros = none := by
  decide +kernel

theorem digit_points : ∀ n < 58, 48 ≤ n →
    inRanges n wordRanges = true ∧ digitFrom n digitZeros = some (n - 48) := by
  decide +kernel

theorem isWordChar_of_isAsciiLetter {c : Char} (h : isAsciiLetter c = true) :
    isWordChar c = true := by
  have hc := (isAsciiLetter_iff c).1 h
  exact (letter_points c.toNat (by omega) hc).1

theorem not_isDigit_of_isAsciiLetter {c : Char} (h : isAsciiLetter c = true) :
    isDigit c = false := by
  have hc := (isAsciiLetter_iff c).1 h
  simp [isDigit, digitValue?, (letter_points c.toNat (by omega) hc).2]

theorem isWordChar_of_isAsciiDigit {c : Char} (h : isAsciiDigit c = true) :
    isWordChar c = true := by
  obtain ⟨hlow, hhigh⟩ := (isAsciiDigit_iff c).1 h
  exact (digit_points c.toNat (by omega) hlow).1

theorem digitValue?_of_isAsciiDigit {c : Char} (h : isAsciiDigit c = true) :
    digitValue? c = some (c.toNat - 48) := by
  obtain ⟨hlow, hhigh⟩ := (isAsciiDigit_iff c).1 h
  exact (digit_points c.toNat (by omega) hlow).2

theorem isOperandChar_of_isWordChar {c : Char} (h : isWordChar c = true) :
    isOperandChar c = true := by
  simp [isOperandChar, h]

theorem not_isBlank_of_isOperandChar {c : Char} (h : isOperandChar c = true) :
    isBlank c = false := by
  simp only [isOperandChar, Bool.or_eq_true, decide_eq_true_eq] at h
  rcases h with rfl | h
  · decide
  · exact not_isBlank_of_isWordChar h

theorem ne_of_isOperandChar {c d : Char} (hc : isOperandChar c = true)
    (hd : isOperandChar d = false) : c ≠ d := by
  rintro rfl
  rw [hc] at hd
  contradiction

theorem dropWhile_isBlank_of_head {t : Text} (h : ∀ c ∈ t.head?, isBlank c = false) :
    t.dropWhile isBlank = t := by
  cases t with
  | nil => rfl
  | cons c t => simp [h c (by simp)]

/-- Nothing is cut from a text with no white space at either end. -/
theorem trim_of_ends {t : Text} (hfirst : ∀ c ∈ t.head?, isBlank c = false)
    (hlast : ∀ c ∈ t.getLast?, isBlank c = false) : trim t = t := by
  have hend : t.reverse.dropWhile isBlank = t.reverse := by
    apply dropWhile_isBlank_of_head
    rwa [List.head?_reverse]
  rw [trim, dropWhile_isBlank_of_head hfirst, trimEnd, hend, List.reverse_reverse]

/-- White space at the start is cut off. -/
theorem trim_blank_append {u : Text} (hu : ∀ c ∈ u, isBlank c = true) (t : Text) :
    trim (u ++ t) = trim t := by
  rw [trim, trim, List.dropWhile_append_of_pos hu]

/-- White space at the end is cut off. -/
theorem trim_append_blank (t : Text) {u : Text} (hu : ∀ c ∈ u, isBlank c = true) :
    trim (t ++ u) = trim t := by
  have hend : ∀ s : Text, trimEnd (s ++ u) = trimEnd s := by
    intro s
    rw [trimEnd, trimEnd, List.reverse_append, List.dropWhile_append_of_pos (by simpa using hu)]
  rw [trim, trim, List.dropWhile_append]
  by_cases hblank : (t.dropWhile isBlank).isEmpty = true
  · -- All of the text is white space, and so nothing is left of it.
    have hnil : u.dropWhile isBlank = [] := List.dropWhile_eq_nil_iff.2 hu
    rw [if_pos hblank, hnil, List.isEmpty_iff.1 hblank]
  · rw [if_neg hblank, hend]

theorem exists_eq_trimEnd_append (t : Text) :
    ∃ v, (∀ c ∈ v, isBlank c = true) ∧ t = trimEnd t ++ v := by
  refine ⟨(t.reverse.takeWhile isBlank).reverse, ?_, ?_⟩
  · intro c hc
    exact List.mem_takeWhile_imp (List.mem_reverse.1 hc)
  · rw [trimEnd, ← List.reverse_append, List.takeWhile_append_dropWhile, List.reverse_reverse]

/-- A text is what is left of it, with white space around. -/
theorem exists_eq_append_trim (t : Text) : ∃ u v, (∀ c ∈ u, isBlank c = true) ∧
    (∀ c ∈ v, isBlank c = true) ∧ t = u ++ (trim t ++ v) := by
  obtain ⟨v, hv, heq⟩ := exists_eq_trimEnd_append (t.dropWhile isBlank)
  refine ⟨t.takeWhile isBlank, v, fun c hc => List.mem_takeWhile_imp hc, hv, ?_⟩
  rw [trim, ← heq, List.takeWhile_append_dropWhile]

theorem not_isBlank_of_mem_head?_trim {t : Text} {c : Char} (h : c ∈ (trim t).head?) :
    isBlank c = false := by
  obtain ⟨v, -, heq⟩ := exists_eq_trimEnd_append (t.dropWhile isBlank)
  have hhead : (t.dropWhile isBlank).head? = some c := by
    rw [heq, List.head?_append, ← trim, h]
    rfl
  have hnot := List.head?_dropWhile_not isBlank t
  rw [hhead] at hnot
  exact hnot

theorem not_isBlank_of_mem_getLast?_trim {t : Text} {c : Char} (h : c ∈ (trim t).getLast?) :
    isBlank c = false := by
  have hhead : ((t.dropWhile isBlank).reverse.dropWhile isBlank).head? = some c := by
    rwa [trim, trimEnd, List.getLast?_reverse] at h
  have hnot := List.head?_dropWhile_not isBlank (t.dropWhile isBlank).reverse
  rw [hhead] at hnot
  exact hnot

theorem trim_of_no_blank {t : Text} (h : ∀ c ∈ t, isBlank c = false) : trim t = t :=
  trim_of_ends (fun c hc => h c (List.mem_of_mem_head? hc))
    (fun c hc => h c (List.mem_of_mem_getLast? hc))

end WordAsm.Text
