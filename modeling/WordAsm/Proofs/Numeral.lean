import Mathlib.Algebra.Group.Nat.Defs
import WordAsm.Numeral
import WordAsm.Proofs.Character

/-!
# Numbers in plain decimal

Every integer has a plain decimal text: its digits, after a hyphen when it is negative.  The
text is a numeral and reads back as the integer, as long as it has no more digits than a
numeral may have.
-/

namespace WordAsm.Numeral

/-- An integer in plain decimal. -/
def decimal (n : Int) : Text :=
  (toString n).toList

theorem decimal_natCast (n : Nat) : decimal n = Nat.toDigits 10 n := by
  simp [decimal, Int.toString_eq_repr, Int.repr_eq_if]

theorem decimal_negSucc (n : Nat) :
    decimal (.negSucc n) = '-' :: Nat.toDigits 10 (n + 1) := by
  simp [decimal, Int.toString_eq_repr, Int.repr]

theorem isAsciiDigit_of_mem_toDigits {n : Nat} {c : Char} (h : c ∈ Nat.toDigits 10 n) :
    Text.isAsciiDigit c = true := by
  have hc := Nat.isDigit_of_mem_toDigits (by omega) (by omega) h
  exact (Text.isAsciiDigit_iff c).2 (Char.isDigit_iff_toNat.1 hc)

/-- ASCII digits denote the number that they write in base ten. -/
theorem magnitude_eq_ofDigitChars {t : Text} (ht : ∀ c ∈ t, Text.isAsciiDigit c = true) :
    magnitude t = Nat.ofDigitChars 10 t 0 := by
  have hfold : ∀ (t : Text) (m : Nat), (∀ c ∈ t, Text.isAsciiDigit c = true) →
      t.foldl (fun n c => 10 * n + (Text.digitValue? c).getD 0) m = Nat.ofDigitChars 10 t m := by
    intro t
    induction t with
    | nil => simp
    | cons c t ih =>
        intro m ht
        have hrest : ∀ d ∈ t, Text.isAsciiDigit d = true :=
          fun d hd => ht d (List.mem_cons_of_mem c hd)
        rw [List.foldl_cons, Nat.ofDigitChars_cons, ih _ hrest,
          Text.digitValue?_of_isAsciiDigit (ht c (by simp))]
        rfl
  exact hfold t 0 ht

theorem magnitude_toDigits (n : Nat) : magnitude (Nat.toDigits 10 n) = n := by
  rw [magnitude_eq_ofDigitChars fun c hc => isAsciiDigit_of_mem_toDigits hc,
    Nat.ofDigitChars_ten_toDigits]

theorem readDigits_toDigits {n : Nat} (hn : n < 10 ^ digitLimit) :
    readDigits (Nat.toDigits 10 n) = .ok n := by
  have hlength := (Nat.length_toDigits_le_iff (by omega) (by decide)).2 hn
  rw [readDigits, if_pos hlength, magnitude_toDigits]

theorem body_of_head {c : Char} (hc : c ≠ '-') (t : Text) : body (c :: t) = c :: t := by
  simp [body, hc]

theorem ne_hyphen_of_isAsciiDigit {c : Char} (h : Text.isAsciiDigit c = true) : c ≠ '-' := by
  rintro rfl
  simp [Text.isAsciiDigit] at h

theorem body_toDigits (n : Nat) : body (Nat.toDigits 10 n) = Nat.toDigits 10 n := by
  obtain ⟨c, t, hct⟩ := List.exists_cons_of_ne_nil (Nat.toDigits_ne_nil (n := n) (b := 10))
  have hc := isAsciiDigit_of_mem_toDigits (n := n) (by rw [hct]; exact List.mem_cons_self)
  rw [hct, body_of_head (ne_hyphen_of_isAsciiDigit hc)]

theorem body_decimal (n : Int) : body (decimal n) = Nat.toDigits 10 n.natAbs := by
  cases n with
  | ofNat k => exact (congrArg body (decimal_natCast k)).trans (body_toDigits k)
  | negSucc k => exact (congrArg body (decimal_negSucc k)).trans (body_toDigits (k + 1))

theorem isNumeral_decimal (n : Int) : isNumeral (decimal n) = true := by
  rw [isNumeral, body_decimal]
  simp only [Bool.and_eq_true, Bool.not_eq_true', List.isEmpty_eq_false_iff, List.all_eq_true]
  refine ⟨Nat.toDigits_ne_nil, fun c hc => ?_⟩
  simp [Text.isDigit, Text.digitValue?_of_isAsciiDigit (isAsciiDigit_of_mem_toDigits hc)]

/-- A plain decimal reads back as its integer. -/
theorem read_decimal {n : Int} (hn : n.natAbs < 10 ^ digitLimit) : read (decimal n) = .ok n := by
  have hdigits := readDigits_toDigits hn
  cases n with
  | ofNat k =>
      rw [Int.ofNat_eq_natCast, decimal_natCast]
      change readDigits (Nat.toDigits 10 k) = .ok k at hdigits
      unfold read
      split
      · rename_i rest heq
        have hhyphen := isAsciiDigit_of_mem_toDigits (n := k) (c := '-') (by simp [heq])
        exact absurd rfl (ne_hyphen_of_isAsciiDigit hhyphen)
      · rw [hdigits]
        rfl
  | negSucc k =>
      rw [Int.natAbs_negSucc] at hdigits
      simp only [decimal_negSucc, read, body_toDigits, if_pos, hdigits]
      rfl

theorem isOperandChar_of_mem_decimal {n : Int} {c : Char} (h : c ∈ decimal n) :
    Text.isOperandChar c = true := by
  have hdigit : ∀ k : Nat, c ∈ Nat.toDigits 10 k → Text.isOperandChar c = true := fun k hk =>
    Text.isOperandChar_of_isWordChar
      (Text.isWordChar_of_isAsciiDigit (isAsciiDigit_of_mem_toDigits hk))
  cases n with
  | ofNat k =>
      rw [Int.ofNat_eq_natCast, decimal_natCast] at h
      exact hdigit k h
  | negSucc k =>
      rw [decimal_negSucc] at h
      rcases List.mem_cons.1 h with rfl | h
      · rfl
      · exact hdigit (k + 1) h

theorem decimal_ne_nil (n : Int) : decimal n ≠ [] := by
  intro hnil
  have hbody := body_decimal n
  rw [hnil] at hbody
  exact Nat.toDigits_ne_nil hbody.symm

/-- A text that starts with a letter is no numeral. -/
theorem isNumeral_of_letter {c : Char} (hc : Text.isAsciiLetter c = true) (t : Text) :
    isNumeral (c :: t) = false := by
  have hhyphen : c ≠ '-' := by
    rintro rfl
    simp [Text.isAsciiLetter] at hc
  rw [isNumeral, body_of_head hhyphen]
  simp [Text.not_isDigit_of_isAsciiLetter hc]

/-! ## Hyphens and digits -/

/-- A text is made of hyphens and then digits of any script, at least one. -/
structure Consists (hyphens : Nat) (digits t : Text) : Prop where
  eq_append : t = List.replicate hyphens '-' ++ digits
  ne_nil : digits ≠ []
  isDigit : ∀ c ∈ digits, Text.isDigit c = true

/-- The number that digits denote after some hyphens, of which one counts. -/
def signed (hyphens : Nat) (digits : Text) : Int :=
  if hyphens = 0 then magnitude digits else -(magnitude digits : Int)

namespace Consists

variable {hyphens : Nat} {digits t : Text}

theorem exists_cons (h : Consists hyphens digits t) : ∃ c rest, digits = c :: rest ∧ c ≠ '-' := by
  obtain ⟨c, rest, rfl⟩ := List.exists_cons_of_ne_nil h.ne_nil
  refine ⟨c, rest, rfl, ?_⟩
  rintro rfl
  have hdigit : Text.isDigit '-' = true := h.isDigit '-' List.mem_cons_self
  exact absurd hdigit (by decide)

/-- The digits are what stands after the hyphens. -/
theorem body_eq (h : Consists hyphens digits t) (k : Nat) :
    body (List.replicate k '-' ++ digits) = digits := by
  obtain ⟨c, rest, rfl, hc⟩ := h.exists_cons
  induction k with
  | zero => exact body_of_head hc rest
  | succ k ih => exact ih

theorem isNumeral_eq (h : Consists hyphens digits t) : isNumeral t = true := by
  rw [isNumeral, h.eq_append, h.body_eq]
  simpa [h.ne_nil] using h.isDigit

/-- A numeral is refused for its hyphens first, and for its length if it has at most one of them. -/
theorem read_eq (h : Consists hyphens digits t) :
    read t =
      if 2 ≤ hyphens then .error (.malformed t)
      else if digitLimit < digits.length then .error (.tooLong digits.length)
      else .ok (signed hyphens digits) := by
  have hdigits : readDigits digits =
      if digitLimit < digits.length then .error (.tooLong digits.length)
      else .ok (magnitude digits) := by
    unfold readDigits
    by_cases hlong : digitLimit < digits.length
    · rw [if_pos hlong, if_neg (Nat.not_le.2 hlong)]
    · rw [if_neg hlong, if_pos (Nat.not_lt.1 hlong)]
  have hbody := h.body_eq
  obtain ⟨c, rest, hcons, hc⟩ := h.exists_cons
  obtain rfl := h.eq_append
  rcases hyphens with _ | _ | k
  · -- Without a hyphen the first character is a digit, and the text is read as it stands.
    have hread : read digits = (readDigits digits).map fun n => (n : Int) := by
      rw [hcons]
      unfold read
      split
      · rename_i heq
        exact absurd (List.cons.inj heq).1 hc
      · rfl
    rw [List.replicate_zero, List.nil_append, hread, hdigits]
    by_cases hlong : digitLimit < digits.length <;> simp [hlong, Except.map, signed]
  · have hread : read ('-' :: digits) = (readDigits digits).map fun n => -(n : Int) := by
      simp [read, show body digits = digits from hbody 0]
    show read ('-' :: digits) = _
    rw [hread, hdigits]
    by_cases hlong : digitLimit < digits.length <;> simp [hlong, Except.map, signed]
  · -- A second hyphen is still there once the first is taken off.
    have hshort : (body (List.replicate (k + 1) '-' ++ digits)).length ≠
        (List.replicate (k + 1) '-' ++ digits).length := by
      rw [hbody, List.length_append, List.length_replicate]
      omega
    rw [if_pos (by omega)]
    show read ('-' :: (List.replicate (k + 1) '-' ++ digits)) = _
    rw [read, if_neg hshort]
    rfl

end Consists

end WordAsm.Numeral
