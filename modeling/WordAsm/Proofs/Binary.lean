import Mathlib.Algebra.Group.Int.Defs
import Mathlib.Algebra.Group.Nat.Defs
import WordAsm.Binary

/-!
# Binary text of a fixed width

A number is written at a width in exactly that many binary digits when it lies below the
power of two of the width, and in no other case: a larger number makes the text longer and a
negative one puts a sign into it.  Two's complement doubles the range downwards, once.  It
does NOT wrap: numbers below the doubled range keep a sign.
-/

namespace WordAsm.Binary

/-- A text of `width` binary digits. -/
def IsDigits (width : Nat) (t : Text) : Prop :=
  t.length = width ∧ ∀ c ∈ t, c = '0' ∨ c = '1'

instance (width : Nat) (t : Text) : Decidable (IsDigits width t) :=
  decidable_of_iff (t.length = width ∧ t.all (fun c => c = '0' ∨ c = '1') = true)
    (by simp [IsDigits])

/-- The number that a text of binary digits denotes, the most significant first. -/
def value (t : Text) : Nat :=
  t.foldl (fun n c => 2 * n + if c = '1' then 1 else 0) 0

theorem bits_isDigits (width n : Nat) : IsDigits width (bits width n) := by
  refine ⟨bits_length width n, ?_⟩
  induction width with
  | zero => simp [bits]
  | succ width ih =>
      intro c hc
      rcases List.mem_cons.1 hc with rfl | hc
      · by_cases hbit : n.testBit width <;> simp [hbit]
      · exact ih c hc

theorem IsDigits.append {a b : Nat} {s t : Text} (hs : IsDigits a s) (ht : IsDigits b t) :
    IsDigits (a + b) (s ++ t) := by
  refine ⟨by simp [hs.1, ht.1], ?_⟩
  intro c hc
  rcases List.mem_append.1 hc with h | h
  · exact hs.2 c h
  · exact ht.2 c h

/-- In front of digits, a text is made of digits exactly when the whole is. -/
theorem isDigits_append_iff {a b : Nat} {s t : Text} (hs : IsDigits a s) :
    IsDigits (a + b) (s ++ t) ↔ IsDigits b t := by
  constructor
  · rintro ⟨hlength, hdigits⟩
    refine ⟨?_, fun c hc => hdigits c (List.mem_append_right _ hc)⟩
    rw [List.length_append, hs.1] at hlength
    omega
  · exact hs.append

theorem bits_congr {width m n : Nat} (h : ∀ i < width, m.testBit i = n.testBit i) :
    bits width m = bits width n := by
  induction width with
  | zero => rfl
  | succ width ih =>
      have hrest : bits width m = bits width n := ih fun i hi => h i (by omega)
      simp [bits, h width (by omega), hrest]

/-- The digits of a number are those of its upper part and then those of its lower part. -/
theorem bits_append (high low m : Nat) {n : Nat} (hn : n < 2 ^ low) :
    bits (high + low) (2 ^ low * m + n) = bits high m ++ bits low n := by
  induction high with
  | zero =>
      rw [Nat.zero_add]
      apply bits_congr
      intro i hi
      rw [Nat.testBit_two_pow_mul_add m hn]
      simp [hi]
  | succ high ih =>
      rw [Nat.succ_add]
      have hbit : (2 ^ low * m + n).testBit (high + low) = m.testBit high := by
        rw [Nat.testBit_two_pow_mul_add m hn, if_neg (by omega), Nat.add_sub_cancel]
      simp [bits, hbit, ih]

theorem value_append_digit (t : Text) (c : Char) :
    value (t ++ [c]) = 2 * value t + if c = '1' then 1 else 0 := by
  simp [value, List.foldl_append]

theorem bits_succ_last (width n : Nat) :
    bits (width + 1) n = bits width (n / 2) ++ [if n % 2 = 1 then '1' else '0'] := by
  have hn : 2 ^ 1 * (n / 2) + n % 2 = n := by omega
  have hlast : bits 1 (n % 2) = [if n % 2 = 1 then '1' else '0'] := by
    rcases Nat.mod_two_eq_zero_or_one n with h | h <;> simp [bits, h]
  rw [← hlast, ← bits_append width 1 (n / 2) (by omega), hn]

theorem value_bits (width n : Nat) : value (bits width n) = n % 2 ^ width := by
  induction width generalizing n with
  | zero => simp [bits, value, Nat.mod_one]
  | succ width ih =>
      rw [bits_succ_last, value_append_digit, ih, Nat.pow_succ, Nat.mul_comm (2 ^ width) 2,
        Nat.mod_mul]
      rcases Nat.mod_two_eq_zero_or_one n with h | h
      · simp [h]
      · simp [h]
        omega

theorem digitCount_le_iff {width n : Nat} (hwidth : 0 < width) :
    digitCount n ≤ width ↔ n < 2 ^ width := by
  by_cases hn : n = 0
  · subst n
    have := Nat.two_pow_pos width
    simp [digitCount]
    omega
  · rw [digitCount, Nat.succ_le_iff, Nat.log2_lt hn]

theorem padded_natCast (width n : Nat) :
    padded width (n : Int) = bits (max width (digitCount n)) n := rfl

theorem padded_of_lt {width n : Nat} (hwidth : 0 < width) (hn : n < 2 ^ width) :
    padded width (n : Int) = bits width n := by
  rw [padded_natCast, Nat.max_eq_left ((digitCount_le_iff hwidth).2 hn)]

/-- A number is written in exactly `width` digits when it fits there, and only then. -/
theorem padded_isDigits_iff {width : Nat} (hwidth : 0 < width) (n : Int) :
    IsDigits width (padded width n) ↔ 0 ≤ n ∧ n < 2 ^ width := by
  cases n with
  | ofNat n =>
      rw [Int.ofNat_eq_natCast]
      have hcast : (n : Int) < 2 ^ width ↔ n < 2 ^ width := by
        exact_mod_cast Iff.rfl
      rw [hcast]
      constructor
      · intro h
        refine ⟨by omega, (digitCount_le_iff hwidth).1 ?_⟩
        have hlength := h.1
        rw [padded_natCast, bits_length] at hlength
        omega
      · rintro ⟨-, hn⟩
        rw [padded_of_lt hwidth hn]
        exact bits_isDigits width n
  | negSucc n =>
      constructor
      · intro h
        have hsign := h.2 '-' (by simp [padded])
        simp at hsign
      · rintro ⟨hn, -⟩
        exact absurd hn (by simp)

theorem complement_eq (width : Nat) (n : Int) :
    complement width n = if 0 ≤ n then n else 2 ^ width + n :=
  rfl

/-- Two's complement fits its width on twice the range. -/
theorem complementText_isDigits_iff {width : Nat} (hwidth : 0 < width) (n : Int) :
    IsDigits width (complementText width n) ↔ -2 ^ width ≤ n ∧ n < 2 ^ width := by
  rw [complementText, padded_isDigits_iff hwidth, complement_eq]
  have hpos : (0 : Int) < 2 ^ width := Int.pow_pos (by omega)
  split <;> omega

/-- Where it fits, two's complement is the residue of the number. -/
theorem complement_eq_emod {width : Nat} {n : Int} (hlow : -2 ^ width ≤ n) (hhigh : n < 2 ^ width) :
    complement width n = n % 2 ^ width := by
  rw [complement_eq]
  split
  · rename_i hn
    exact (Int.emod_eq_of_lt hn hhigh).symm
  · rename_i hn
    rw [← Int.add_emod_left (2 ^ width) n]
    exact (Int.emod_eq_of_lt (by omega) (by omega)).symm

theorem complementText_of_fits {width : Nat} (hwidth : 0 < width) {n : Int}
    (hlow : -2 ^ width ≤ n) (hhigh : n < 2 ^ width) :
    complementText width n = bits width (n % 2 ^ width).toNat := by
  have hpos : (0 : Int) < 2 ^ width := Int.pow_pos (by omega)
  obtain ⟨k, hk⟩ := Int.eq_ofNat_of_zero_le (Int.emod_nonneg n (Int.ne_of_gt hpos))
  have hlt : k < 2 ^ width := by
    have := Int.emod_lt_of_pos n hpos
    rw [hk] at this
    exact_mod_cast this
  rw [complementText, complement_eq_emod hlow hhigh, hk, padded_of_lt hwidth hlt, Int.toNat_natCast]

end WordAsm.Binary
