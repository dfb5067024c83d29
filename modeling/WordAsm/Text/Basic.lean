/-!
# Texts

A text is a list of characters.  White space of any kind is cut from both ends of a line or
field, but only spaces and tabs part the fields of a line.

A line of a file ends with a line feed, a carriage return, or the two together.  A line of
typed input ends with a line feed alone.  The ends are not part of the lines, and a text
that stops at a line end has no further line after it.
-/

namespace WordAsm

/-- A text is a list of characters; a character is one code point. -/
abbrev Text := List Char

namespace Text

/-- Whether `n` lies in one of the given closed ranges.  The search stops at the first range
that starts above `n`, so the ranges have to increase. -/
def inRanges (n : Nat) : List (Nat × Nat) → Bool
  | [] => false
  | (lo, hi) :: rest => if n < lo then false else if n ≤ hi then true else inRanges n rest

/-- The white space characters of every script, control characters included. -/
def blankRanges : List (Nat × Nat) :=
  [(0x9, 0xD), (0x1C, 0x20), (0x85, 0x85), (0xA0, 0xA0), (0x1680, 0x1680),
    (0x2000, 0x200A), (0x2028, 0x2029), (0x202F, 0x202F), (0x205F, 0x205F), (0x3000, 0x3000)]

/-- A white space character. -/
def isBlank (c : Char) : Bool :=
  inRanges c.toNat blankRanges

/-- A space or a tab: what parts the fields of a line. -/
def isGap (c : Char) : Bool :=
  c = ' ' || c = '\t'

/-- Cut white space from the end. -/
def trimEnd (t : Text) : Text :=
  (t.reverse.dropWhile isBlank).reverse

/-- Cut white space from both ends. -/
def trim (t : Text) : Text :=
  trimEnd (t.dropWhile isBlank)

/-- Put a character in front of the first line. -/
def consLine (c : Char) : List Text → List Text
  | [] => [[c]]
  | line :: rest => (c :: line) :: rest

/-- The lines of a file. -/
def fileLines : Text → List Text
  | [] => []
  | '\r' :: '\n' :: rest => [] :: fileLines rest
  | '\r' :: rest => [] :: fileLines rest
  | '\n' :: rest => [] :: fileLines rest
  | c :: rest => consLine c (fileLines rest)

end Text

end WordAsm
