import WordAsm.Text.Basic

/-!
# Binary text

Numbers are written in base two with zeros in front up to a given width.  The width does
NOT cut: a number that needs more digits is written in full.  A minus sign counts as one of
the characters of the width and stands before the zeros.
-/

namespace WordAsm.Binary

/-- The last `width` binary digits of `n`, the most significant first. -/
def bits : Nat → Nat → Text
  | 0, _ => []
  | width + 1, n => (if n.testBit width then '1' else '0') :: bits width n

@[simp] theorem bits_length (width n : Nat) : (bits width n).length = width := by
  induction width with
  | zero => rfl
  | succ width ih => simp [bits, ih]

/-- The number of binary digits of `n`; zero has one. -/
def digitCount (n : Nat) : Nat :=
  n.log2 + 1

/-- A number in base two, at least `width` characters long. -/
def padded (width : Nat) : Int → Text
  | .ofNat n => bits (max width (digitCount n)) n
  | .negSucc n => '-' :: bits (max (width - 1) (digitCount (n + 1))) (n + 1)

/-- A negative number is raised by `2 ^ width`, once; others are kept. -/
def complement (width : Nat) (n : Int) : Int :=
  if 0 ≤ n then n else Int.pow 2 width + n

/-- A number in two's complement of the given width, as far as it fits there. -/
def complementText (width : Nat) (n : Int) : Text :=
  padded width (complement width n)

end WordAsm.Binary
