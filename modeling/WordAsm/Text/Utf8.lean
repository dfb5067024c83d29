import WordAsm.Text.Basic

/-!
# Text as bytes

Bytes are read as UTF-8 in blocks of `blockSize` bytes.  A character that a block leaves
unfinished is carried over to the next one, and what the last block leaves is judged by
itself.  A fault is placed by counting from the first byte under judgement: the bytes carried
over, then those of the block.  A position therefore depends on where the blocks end.
-/

namespace WordAsm.Utf8

/-- The number of bytes read at a time. -/
def blockSize : Nat := 8192

/-- Why bytes are no text. -/
inductive Reason where
  /-- No character starts with the byte. -/
  | startByte
  /-- A character goes on with a byte that cannot continue it. -/
  | continuationByte
  /-- The bytes stop inside a character. -/
  | endOfData
  deriving DecidableEq, Repr

/-- Bytes that are no text: the first of them, where it stands, how many they are, and why. -/
structure Fault where
  first : UInt8
  position : Nat
  length : Nat
  reason : Reason
  deriving DecidableEq, Repr

/-- What stands at the start of some bytes. -/
inductive Lead where
  /-- A character of `size` bytes. -/
  | char (c : Char) (size : Nat)
  /-- The start of a character, cut off. -/
  | cut
  /-- No character; the first `size` bytes are at fault. -/
  | bad (size : Nat) (reason : Reason)
  deriving DecidableEq, Repr

/-- A byte that continues a character. -/
def isTail (b : UInt8) : Bool :=
  0x80 ≤ b && b ≤ 0xBF

/-- The six bits that a continuing byte adds. -/
def tailBits (b : UInt8) : Nat :=
  b.toNat % 64

/-- A second byte that would spell a code point in more bytes than it needs, or one that no
character has. -/
def isForbiddenSecond (a b : UInt8) : Bool :=
  (a = 0xE0 && b < 0xA0) || (a = 0xED && 0xA0 ≤ b) ||
    (a = 0xF0 && b < 0x90) || (a = 0xF4 && 0x90 ≤ b)

/-- A character of two bytes, after its first byte `a`. -/
def leadTwo (a : UInt8) : List UInt8 → Lead
  | [] => .cut
  | b :: _ =>
      if isTail b then .char (.ofNat (a.toNat % 32 * 64 + tailBits b)) 2
      else .bad 1 .continuationByte

/-- A character of three bytes, after its first byte `a`. -/
def leadThree (a : UInt8) : List UInt8 → Lead
  | [] => .cut
  | b :: rest =>
      if !isTail b || isForbiddenSecond a b then .bad 1 .continuationByte
      else
        match rest with
        | [] => .cut
        | c :: _ =>
            if isTail c then
              .char (.ofNat ((a.toNat % 16 * 64 + tailBits b) * 64 + tailBits c)) 3
            else .bad 2 .continuationByte

/-- A character of four bytes, after its first byte `a`. -/
def leadFour (a : UInt8) : List UInt8 → Lead
  | [] => .cut
  | b :: rest =>
      if !isTail b || isForbiddenSecond a b then .bad 1 .continuationByte
      else
        match rest with
        | [] => .cut
        | c :: rest =>
            if !isTail c then .bad 2 .continuationByte
            else
              match rest with
              | [] => .cut
              | d :: _ =>
                  if isTail d then
                    .char (.ofNat
                      (((a.toNat % 8 * 64 + tailBits b) * 64 + tailBits c) * 64 + tailBits d)) 4
                  else .bad 3 .continuationByte

/-- What starts with byte `a` and goes on with `rest`. -/
def lead (a : UInt8) (rest : List UInt8) : Lead :=
  if a < 0x80 then .char (.ofNat a.toNat) 1
  else if a < 0xC2 then .bad 1 .startByte
  else if a < 0xE0 then leadTwo a rest
  else if a < 0xF0 then leadThree a rest
  else if a < 0xF5 then leadFour a rest
  else .bad 1 .startByte

/-- The first two of three bytes that would spell a surrogate.  Though no character starts
so, they are refused only with what follows them. -/
def isHalfSurrogate : List UInt8 → Bool
  | [a, b] => a = 0xED && 0xA0 ≤ b && b ≤ 0xBF
  | _ => false

/-- Read the bytes after the first `skip`, which stand at `position`: the characters, and the
bytes left unfinished at the end.  Nothing may be left at the last reading. -/
def readBytes (last : Bool) : Nat → Nat → List UInt8 → Except Fault (Text × List UInt8)
  | _, _, [] => .ok ([], [])
  | skip + 1, position, _ :: rest => readBytes last skip (position + 1) rest
  | 0, position, a :: rest =>
      match lead a rest with
      | .char c size =>
          (readBytes last (size - 1) (position + 1) rest).map fun r => (c :: r.1, r.2)
      | .cut =>
          if last then .error ⟨a, position, rest.length + 1, .endOfData⟩
          else .ok ([], a :: rest)
      | .bad size reason =>
          if !last && isHalfSurrogate (a :: rest) then .ok ([], a :: rest)
          else .error ⟨a, position, size, reason⟩

/-- Bytes in blocks of `size + 1`. -/
def blocks (size : Nat) : List UInt8 → List (List UInt8)
  | [] => []
  | b :: rest => (b :: rest.take size) :: blocks size (rest.drop size)
termination_by bytes => bytes.length
decreasing_by
  simp only [List.length_cons, List.length_drop]
  omega

/-- Read blocks one after the other, the first of them after the bytes carried over. -/
def readBlocks (carried : List UInt8) : List (List UInt8) → Except Fault Text
  | [] => (readBytes true 0 0 carried).map (·.1)
  | block :: rest =>
      match readBytes false 0 0 (carried ++ block) with
      | .error fault => .error fault
      | .ok (text, left) => (readBlocks left rest).map (text ++ ·)

/-- The text that bytes spell. -/
def decode (bytes : List UInt8) : Except Fault Text :=
  readBlocks [] (blocks (blockSize - 1) bytes)

/-- The bytes of a text. -/
def encode (t : Text) : List UInt8 :=
  t.flatMap String.utf8EncodeChar

/-- The wording of a reason. -/
def Reason.message : Reason → String
  | startByte => "invalid start byte"
  | continuationByte => "invalid continuation byte"
  | endOfData => "unexpected end of data"

/-- A single byte is named; of several, the first and last position. -/
def Fault.message (f : Fault) : String :=
  "'utf-8' codec can't decode " ++
    (if f.length = 1 then
      "byte 0x" ++ String.ofList [Nat.digitChar (f.first.toNat / 16),
        Nat.digitChar (f.first.toNat % 16)] ++ " in position " ++ toString f.position
    else
      "bytes in position " ++ toString f.position ++ "-" ++
        toString (f.position + f.length - 1)) ++
    ": " ++ f.reason.message

end WordAsm.Utf8
