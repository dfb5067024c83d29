import WordAsm.Proofs.MachineWord

/-!
# Decoding words

A word is decoded by its number alone: the opcode picks the command, the command its format,
and the format says where the registers and the low half are.  One decoder serves all
formats, because no two commands share an opcode.

Decoding gives back what a first reading wrote, but for one thing: of the number in the low
half it gives only the residue.
-/

namespace WordAsm

/-- What a word says. -/
structure Decoded where
  mnemonic : Mnemonic
  destination : Option Register
  source : Option Register
  target : Option Register
  /-- The low half, in the formats with a value. -/
  low : Option Nat
  deriving DecidableEq, Repr

/-- The command with an opcode. -/
def Mnemonic.ofOpcode? (opcode : Fin 16) : Option Mnemonic :=
  all.find? fun m => m.opcode = opcode

theorem Mnemonic.ofOpcode?_opcode (m : Mnemonic) : ofOpcode? m.opcode = some m := by
  cases m <;> rfl

namespace Decoder

/-- The hexadecimal digit of `w` with `place` digits below it. -/
def digitAt (w place : Nat) : Fin 16 :=
  Register.ofNumber (w / 16 ^ place)

theorem digitAt_val (w place : Nat) : (digitAt w place).val = w / 16 ^ place % 16 := rfl

/-- The operands in the number of a word, by the format of its command. -/
def operandsOf (m : Mnemonic) (w : Nat) : Decoded :=
  match m.format with
  | .register => ⟨m, some (digitAt w 3), some (digitAt w 5), some (digitAt w 4), none⟩
  | .immediate => ⟨m, some (digitAt w 4), some (digitAt w 5), none, some (w % 65536)⟩
  | .upper => ⟨m, some (digitAt w 4), none, none, some (w % 65536)⟩
  | .link => ⟨m, some (digitAt w 4), some (digitAt w 5), none, none⟩
  | .jump => ⟨m, none, none, none, some (w % 65536)⟩
  | .halt => ⟨m, none, none, none, none⟩

/-- Decode thirty-two digits of which the first four are zeros. -/
def decode (word : Text) : Option Decoded :=
  if Binary.IsDigits 32 word ∧ word.take 4 = ['0', '0', '0', '0'] then
    let w := Binary.value word
    (Mnemonic.ofOpcode? (digitAt w 6)).map (operandsOf · w)
  else none

/-- The number of a word. -/
def wordNumber (opcode first second : Fin 16) (low : Nat) : Nat :=
  2 ^ 24 * opcode + (2 ^ 20 * first + (2 ^ 16 * second + low))

theorem wordNumber_lt (opcode first second : Fin 16) {low : Nat} (hlow : low < 65536) :
    wordNumber opcode first second low < 2 ^ 28 := by
  unfold wordNumber
  omega

/-- A word is the text of its number. -/
theorem headText_append_bits (m : Mnemonic) (o : Operands) {low : Nat} (hlow : low < 65536) :
    Encoder.headText m o ++ Binary.bits 16 low =
      Binary.bits 32 (wordNumber m.opcode o.firstPlace o.secondPlace low) := by
  -- Each field in turn goes in front of the digits below it.
  have hsecond := Binary.bits_append 4 16 o.secondPlace (n := low) (by omega)
  have hfirst := Binary.bits_append 4 20 o.firstPlace (n := 2 ^ 16 * o.secondPlace + low)
    (by omega)
  have hopcode := Binary.bits_append 4 24 m.opcode
    (n := 2 ^ 20 * o.firstPlace + (2 ^ 16 * o.secondPlace + low)) (by omega)
  have hzero := Binary.bits_append 4 28 0
    (n := wordNumber m.opcode o.firstPlace o.secondPlace low) (wordNumber_lt _ _ _ hlow)
  rw [Nat.mul_zero, Nat.zero_add] at hzero
  rw [hzero, wordNumber, hopcode, hfirst, hsecond]
  simp [Encoder.headText, Encoder.nibble]

section WordNumber

variable (opcode first second : Fin 16) {low : Nat} (hlow : low < 65536)

include hlow

theorem digitAt_opcode : digitAt (wordNumber opcode first second low) 6 = opcode := by
  apply Fin.ext
  rw [digitAt_val, wordNumber]
  omega

theorem digitAt_first : digitAt (wordNumber opcode first second low) 5 = first := by
  apply Fin.ext
  rw [digitAt_val, wordNumber]
  omega

theorem digitAt_second : digitAt (wordNumber opcode first second low) 4 = second := by
  apply Fin.ext
  rw [digitAt_val, wordNumber]
  omega

theorem wordNumber_mod : wordNumber opcode first second low % 65536 = low := by
  unfold wordNumber
  omega

end WordNumber

theorem digitAt_third (opcode first second third : Fin 16) :
    digitAt (wordNumber opcode first second (4096 * third)) 3 = third := by
  apply Fin.ext
  rw [digitAt_val, wordNumber]
  omega

/-- The words of an instruction's operands are decoded to these operands. -/
theorem decode_headText_append {m : Mnemonic} {o : Operands} (hfit : m.format = o.format)
    {low : Nat} (hlow : low < 65536) (hnone : o.value? = none → low = o.lowHalf) :
    decode (Encoder.headText m o ++ Binary.bits 16 low) =
      some ⟨m, o.destination?, o.source?, o.target?, o.value?.map fun _ => low⟩ := by
  have hdigits : Binary.IsDigits 32 (Encoder.headText m o ++ Binary.bits 16 low) :=
    (Encoder.headText_isDigits m o).append (Binary.bits_isDigits 16 low)
  have hzeros : (Encoder.headText m o ++ Binary.bits 16 low).take 4 = ['0', '0', '0', '0'] := rfl
  have hvalue : Binary.value (Encoder.headText m o ++ Binary.bits 16 low) =
      wordNumber m.opcode o.firstPlace o.secondPlace low := by
    have hlt := wordNumber_lt m.opcode o.firstPlace o.secondPlace hlow
    rw [headText_append_bits m o hlow, Binary.value_bits]
    exact Nat.mod_eq_of_lt (by omega)
  rw [decode, if_pos ⟨hdigits, hzeros⟩, hvalue]
  simp only [digitAt_opcode _ _ _ hlow, Mnemonic.ofOpcode?_opcode, Option.map_some, operandsOf,
    hfit]
  cases o with
  | register d s t =>
      -- The third register is the top digit of the low half.
      obtain rfl := hnone rfl
      change 4096 * d.val < 65536 at hlow
      simp [Operands.format, Operands.firstPlace, Operands.secondPlace, Operands.lowHalf,
        Operands.destination?, Operands.source?, Operands.target?, Operands.value?, digitAt_third,
        digitAt_first _ _ _ hlow, digitAt_second _ _ _ hlow]
  | _ =>
      simp [Operands.format, Operands.firstPlace, Operands.secondPlace, Operands.destination?,
        Operands.source?, Operands.target?, Operands.value?, digitAt_first _ _ _ hlow,
        digitAt_second _ _ _ hlow, wordNumber_mod _ _ _ hlow]

end Decoder

/-- An instruction becomes an encoder in its own format, the first reading of the encoder gives a
word, and there is room in the word for the number that it writes. -/
structure FirstWord (i : Instruction) (table : LabelTable) (e : Encoder) (word : Text) :
    Prop where
  encoder : Encoder.ofInstruction i.format i = .ok e
  reading : (e.read table).1 = .ok word
  holds : ∀ n, e.number? table = some n → i.format.Holds n

namespace FirstWord

variable {i : Instruction} {table : LabelTable} {e : Encoder} {word : Text}

/-- A first word is a head and the residue of its number, or a head and the operands' low half. -/
theorem word_eq (h : FirstWord i table e word) :
    ∃ low, low < 65536 ∧ word = Encoder.headText i.mnemonic e.operands ++ Binary.bits 16 low ∧
      (e.operands.value? = none → low = e.operands.lowHalf) ∧
      (e.operands.value?.map fun _ => low) =
        (e.number? table).map fun n => (n % 65536).toNat := by
  rcases Encoder.word_of_read h.encoder h.reading with ⟨hvalue, hn, rfl⟩ | ⟨hvalue, n, hn, rfl⟩
  · refine ⟨e.operands.lowHalf, ?_, rfl, fun _ => rfl, by simp [hvalue, hn]⟩
    cases e.operands <;> simp [Operands.lowHalf]
    omega
  · refine ⟨(n % 65536).toNat, by omega, ?_, fun hnone => absurd hnone hvalue, ?_⟩
    · rw [Format.lowText_of_holds (h.holds n hn)]
    · obtain ⟨v, hv⟩ := Option.ne_none_iff_exists'.1 hvalue
      simp [hv, hn]

theorem isDigits (h : FirstWord i table e word) : Binary.IsDigits 32 word := by
  obtain ⟨low, -, rfl, -, -⟩ := h.word_eq
  exact (Encoder.headText_isDigits _ _).append (Binary.bits_isDigits 16 low)

theorem decode_eq (h : FirstWord i table e word) :
    Decoder.decode word = some ⟨i.mnemonic, e.operands.destination?, e.operands.source?,
      e.operands.target?, (e.number? table).map fun n => (n % 65536).toNat⟩ := by
  obtain ⟨low, hlow, rfl, hnone, hnumber⟩ := h.word_eq
  obtain ⟨o, ho, rfl⟩ := Encoder.ofInstruction_eq_ok_iff.1 h.encoder
  have hfit : i.mnemonic.format = o.format := (Operands.format_of_read ho).symm
  rw [Decoder.decode_headText_append hfit hlow hnone, hnumber]

/-- A word leaves only the residue of its number open. -/
theorem congr {j : Instruction} {table' : LabelTable} {e' : Encoder}
    (h : FirstWord i table e word) (h' : FirstWord j table' e' word) :
    i.mnemonic = j.mnemonic ∧ e.operands.destination? = e'.operands.destination? ∧
      e.operands.source? = e'.operands.source? ∧ e.operands.target? = e'.operands.target? ∧
      (e.number? table).map (· % 65536) = (e'.number? table').map (· % 65536) := by
  have heq := h.decode_eq.symm.trans h'.decode_eq
  simp only [Option.some.injEq, Decoded.mk.injEq] at heq
  obtain ⟨hmnemonic, hdestination, hsource, htarget, hlow⟩ := heq
  refine ⟨hmnemonic, hdestination, hsource, htarget, ?_⟩
  cases hn : e.number? table <;> cases hn' : e'.number? table' <;> simp [hn, hn'] at hlow ⊢
  omega

end FirstWord

/-- Decoding undoes encoding.  A first word has thirty-two digits and starts with four zeros, and
one decoder gives back the command, the registers and the residue of the number.  So two first
words are equal only for one command with the same registers and congruent numbers. -/
theorem decode_undoes_encoding :
    (∀ (i : Instruction) (table : LabelTable) (e : Encoder) (word : Text),
      FirstWord i table e word →
        Binary.IsDigits 32 word ∧ word.take 4 = ['0', '0', '0', '0'] ∧
        Decoder.decode word = some ⟨i.mnemonic, e.operands.destination?, e.operands.source?,
          e.operands.target?, (e.number? table).map fun n => (n % 65536).toNat⟩) ∧
    (∀ (i j : Instruction) (table table' : LabelTable) (e e' : Encoder) (word : Text),
      FirstWord i table e word → FirstWord j table' e' word →
        i.mnemonic = j.mnemonic ∧ e.operands.destination? = e'.operands.destination? ∧
        e.operands.source? = e'.operands.source? ∧ e.operands.target? = e'.operands.target? ∧
        (e.number? table).map (· % 65536) = (e'.number? table').map (· % 65536)) := by
  constructor
  · intro i table e word h
    refine ⟨h.isDigits, ?_, h.decode_eq⟩
    obtain ⟨low, -, rfl, -, -⟩ := h.word_eq
    rfl
  · intro i j table table' e e' word h h'
    exact h.congr h'

/-- A branch to a label three words back. -/
def branchBack : Encoder :=
  ⟨⟨.beq, "0,1,back".toList, some 7⟩,
    .immediate .zero (.ofNumber 1) (.written "back".toList), Encoder.blankField⟩

/-- The same branch with its distance written out, modulo the low half. -/
def branchFar : Encoder :=
  ⟨⟨.beq, "0,1,65533".toList, none⟩,
    .immediate .zero (.ofNumber 1) (.written "65533".toList), Encoder.blankField⟩

theorem decode_undoes_encoding_branch :
    let table := LabelTable.ofList [("back".toList, 5)]
    let word := "00001011000100001111111111111101".toList
    FirstWord branchBack.instruction table branchBack word ∧
      FirstWord branchFar.instruction ∅ branchFar word ∧
      Decoder.decode word = some ⟨.beq, some .zero, some (.ofNumber 1), none, some 65533⟩ ∧
      (branchBack.number? table).map (· % 65536) = (branchFar.number? ∅).map (· % 65536) := by
  intro table word
  have hback : FirstWord branchBack.instruction table branchBack word := by
    have hnumber : branchBack.number? table = some (-3) := by decide +kernel
    refine ⟨by decide +kernel, by decide +kernel, fun n hn => ?_⟩
    obtain rfl := Option.some.inj (hnumber.symm.trans hn)
    decide
  have hfar : FirstWord branchFar.instruction ∅ branchFar word := by
    have hnumber : branchFar.number? ∅ = some 65533 := by decide +kernel
    refine ⟨by decide +kernel, by decide +kernel, fun n hn => ?_⟩
    obtain rfl := Option.some.inj (hnumber.symm.trans hn)
    decide
  have hdecode := (decode_undoes_encoding.1 _ _ _ _ hback).2.2
  refine ⟨hback, hfar, hdecode.trans (by decide +kernel), ?_⟩
  exact (decode_undoes_encoding.2 _ _ _ _ _ _ _ hback hfar).2.2.2.2

end WordAsm
