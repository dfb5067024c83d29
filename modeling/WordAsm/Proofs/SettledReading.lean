import WordAsm.Proofs.Numeral
import WordAsm.Proofs.Reading

/-!
# Readings that settle

The first reading of a numeral puts its number in the place of its text.  It does so before the
range is checked, so the text is gone whether the reading gives a word or not, and no later reading
can read the value again.  A numeral that has no number keeps its text, and every reading of it
fails in the same way.

In all these cases the encoder is left by its first reading in a state that the later ones do not
change, and none of them looks at the table.  The same holds without a value, where all readings
give one word.
-/

namespace WordAsm.Encoder

/-! ## Encoders that settle -/

/-- The first reading of an encoder gives `first`; all later ones give `later` and leave the encoder
as it is by then, whatever the tables are. -/
structure Settles (e : Encoder) (first later : Except Error Text) (next : Encoder) : Prop where
  first_read : ∀ table, e.read table = (first, next)
  later_read : ∀ table, next.read table = (later, next)

namespace Held

variable {e next : Encoder} {first later : Except Error Text}

/-- Step: events without a reading leave the encoder alone. -/
theorem of_no_read (held : Held) {events : List Event} (h : events.countP Event.isRead = 0) :
    held.answers events = [] ∧ (held.after events).encoder = held.encoder := by
  induction events generalizing held with
  | nil => exact ⟨rfl, rfl⟩
  | cons event rest ih =>
      cases event with
      | read => simp [Event.isRead] at h
      | update change => exact ih (held.step (.update change)) h

/-- Run: an encoder that no reading changes gives the same answer every time. -/
theorem of_fixed (h : ∀ table, e.read table = (later, e)) (table : LabelTable)
    (events : List Event) :
    (Held.mk e table).answers events = List.replicate (events.countP Event.isRead) later ∧
      ((Held.mk e table).after events).encoder = e := by
  induction events generalizing table with
  | nil => exact ⟨rfl, rfl⟩
  | cons event rest ih =>
      cases event with
      | read =>
          have hstep : (Held.mk e table).step .read = ⟨e, table⟩ := by simp [step, h table]
          obtain ⟨hanswers, hafter⟩ := ih table
          constructor
          · rw [answers, hstep, hanswers, h table, List.countP_cons_of_pos rfl]
            rfl
          · show (((Held.mk e table).step .read).after rest).encoder = e
            rw [hstep, hafter]
      | update change => exact ih (change table)

/-- Run: after the first reading of an encoder that settles all others are the same. -/
theorem of_settles (h : Settles e first later next) (table : LabelTable) {events : List Event}
    {n : Nat} (hcount : events.countP Event.isRead = n + 1) :
    (Held.mk e table).answers events = first :: List.replicate n later ∧
      ((Held.mk e table).after events).encoder = next := by
  induction events generalizing table with
  | nil => cases hcount
  | cons event rest ih =>
      cases event with
      | read =>
          have hstep : (Held.mk e table).step .read = ⟨next, table⟩ := by
            simp [step, h.first_read table]
          rw [List.countP_cons_of_pos rfl, Nat.succ.injEq] at hcount
          obtain ⟨hanswers, hafter⟩ := of_fixed h.later_read table rest
          rw [hcount] at hanswers
          constructor
          · rw [answers, hstep, hanswers, h.first_read table]
          · show (((Held.mk e table).step .read).after rest).encoder = next
            rw [hstep, hafter]
      | update change => exact ih (change table) hcount

theorem of_settles_same (h : Settles e later later next) (table : LabelTable)
    (events : List Event) :
    (Held.mk e table).answers events = List.replicate (events.countP Event.isRead) later ∧
      (((Held.mk e table).after events).encoder = e ∨
        ((Held.mk e table).after events).encoder = next) := by
  cases hcount : events.countP Event.isRead with
  | zero =>
      obtain ⟨hanswers, hafter⟩ := of_no_read ⟨e, table⟩ hcount
      exact ⟨hanswers, .inl hafter⟩
  | succ n =>
      obtain ⟨hanswers, hafter⟩ := of_settles h table hcount
      exact ⟨hanswers, .inr hafter⟩

end Held

/-! ## Which encoders settle -/

/-- What the first reading of a literal gives: its word, unless the number is out of range. -/
def literalAnswer (i : Instruction) (o : Operands) (n : Int) : Except Error Text :=
  if 65536 ≤ n then .error (.rejected (.largeValue n i.line))
  else if o.format = .jump ∧ n < 0 then .error (.rejected (.negativeJump i.line))
  else .ok (headText i.mnemonic o ++ o.format.lowText n)

theorem literalAnswer_eq (i : Instruction) (o : Operands) (n : Int) :
    literalAnswer i o n =
      match (Encoder.mk i o blankField).literalText n with
      | .error why => .error (.rejected why)
      | .ok digits => .ok (headText i.mnemonic o ++ digits) := by
  rw [literalText_eq, literalAnswer]
  by_cases hlarge : 65536 ≤ n
  · rw [if_pos hlarge, if_pos hlarge]
  rw [if_neg hlarge, if_neg hlarge]
  by_cases hjump : o.format = .jump ∧ n < 0
  · rw [if_pos hjump, if_pos hjump]
  · rw [if_neg hjump, if_neg hjump]

section Settles

variable {i : Instruction} {o : Operands} {text : Text}

/-- Without a value every reading gives one word. -/
theorem settles_no_value (hfit : i.format = o.format) (hvalue : o.value? = none) :
    Settles ⟨i, o, blankField⟩ (.ok (headText i.mnemonic o ++ Binary.bits 16 o.lowHalf))
      (.ok (headText i.mnemonic o ++ Binary.bits 16 o.lowHalf))
      ⟨i, o, headText i.mnemonic o ++ Binary.bits 16 o.lowHalf⟩ := by
  have hzero : List.replicate 16 '0' = Binary.bits 16 0 := by decide
  have hlow : o.writeThird (List.replicate 16 '0') = Binary.bits 16 o.lowHalf := by
    cases o with
    | register d s t => exact (lowHalf_bits d).symm
    | _ => exact hzero
  constructor
  · intro table
    rw [blankField_eq_append, read_no_value hfit (.inl rfl) hvalue, hlow]
  · intro table
    rw [read_no_value hfit (isHead_headText _ _) hvalue, ← hlow, Operands.writeThird_writeThird]

/-- A numeral without a number stays as it is written. -/
theorem settles_numeral_fault (hfit : i.format = o.format)
    (hvalue : o.value? = some (.written text)) (hnumeral : Numeral.isNumeral text = true)
    {fault : Numeral.Fault} (hread : Numeral.read text = .error fault) :
    Settles ⟨i, o, blankField⟩ (.error (.rejected (.numeral fault)))
      (.error (.rejected (.numeral fault)))
      ⟨i, o, headText i.mnemonic o ++ List.replicate 16 '0'⟩ := by
  constructor
  · intro table
    rw [blankField_eq_append, read_numeral hfit (.inl rfl) hvalue hnumeral, hread]
  · intro table
    rw [read_numeral hfit (isHead_headText _ _) hvalue hnumeral, hread]

/-- A numeral with a number is settled by its first reading, in range or not. -/
theorem settles_numeral (hfit : i.format = o.format)
    (hvalue : o.value? = some (.written text)) (hnumeral : Numeral.isNumeral text = true)
    {n : Int} (hread : Numeral.read text = .ok n) :
    ∃ low, Settles ⟨i, o, blankField⟩ (literalAnswer i o n) (.error (.misused .settledValue))
      ⟨i, o.setValue (.settled n), headText i.mnemonic o ++ low⟩ := by
  -- Later readings find the number in the place of the text, and the head where it was.
  have hlater (low : Text) (table : LabelTable) :
      (Encoder.mk i (o.setValue (.settled n)) (headText i.mnemonic o ++ low)).read table =
        (.error (.misused .settledValue),
          ⟨i, o.setValue (.settled n), headText i.mnemonic o ++ low⟩) := by
    have hfit' : i.format = (o.setValue (.settled n)).format := by simpa using hfit
    have hhead := isHead_headText i.mnemonic (o.setValue (.settled n))
    rw [← headText_setValue i.mnemonic o (.settled n)]
    exact read_settled hfit' hhead (Operands.value?_setValue hvalue _) table
  rw [literalAnswer_eq]
  cases htext : (Encoder.mk i o blankField).literalText n with
  | error why =>
      refine ⟨List.replicate 16 '0', fun table => ?_, hlater _⟩
      rw [blankField_eq_append, read_numeral hfit (.inl rfl) hvalue hnumeral]
      simp only [hread, htext]
  | ok digits =>
      refine ⟨digits, fun table => ?_, hlater _⟩
      rw [blankField_eq_append, read_numeral hfit (.inl rfl) hvalue hnumeral]
      simp only [hread, htext]
      rw [List.drop_eq_nil_of_le (by simp), List.append_nil]

end Settles

/-- Let an encoder that knows its command be read any number of times while its table changes.  If
its value is a numeral that has no number, every reading fails for this cause and the value stays as
it is written.  If the numeral has a number, the first reading puts the number in its place, gives
the word or says that the number is out of range, and does not look at the table; all later readings
fail because the value is settled, and they leave the encoder as the first one left it.  Without a
value all readings give one word. -/
theorem readings_settle {f : Format} {i : Instruction} {e : Encoder}
    (he : ofInstruction f i = .ok e) (hfit : e.isFit = true) :
    (∀ hyphens digits text, e.operands.value? = some (.written text) →
      Numeral.Consists hyphens digits text →
      (2 ≤ hyphens ∨ Numeral.digitLimit < digits.length →
        ∃ fault : Numeral.Fault,
          fault = (if 2 ≤ hyphens then .malformed text else .tooLong digits.length) ∧
          ∀ table events,
            (Held.mk e table).answers events =
              List.replicate (events.countP Event.isRead) (.error (.rejected (.numeral fault))) ∧
            ((Held.mk e table).after events).encoder.operands = e.operands) ∧
      (hyphens < 2 → digits.length ≤ Numeral.digitLimit →
        ∃ next : Encoder, next.instruction = i ∧
          next.operands = e.operands.setValue (.settled (Numeral.signed hyphens digits)) ∧
          (∀ table, e.read table =
            (literalAnswer i e.operands (Numeral.signed hyphens digits), next)) ∧
          ∀ table events n, events.countP Event.isRead = n + 1 →
            (Held.mk e table).answers events =
              literalAnswer i e.operands (Numeral.signed hyphens digits) ::
                List.replicate n (.error (.misused .settledValue)) ∧
            ((Held.mk e table).after events).encoder = next)) ∧
    (e.operands.value? = none →
      ∃ word, ∀ table events,
        (Held.mk e table).answers events =
          List.replicate (events.countP Event.isRead) (.ok word)) := by
  obtain ⟨o, -, rfl⟩ := ofInstruction_eq_ok_iff.1 he
  have hformat : i.format = o.format := isFit_iff.1 hfit
  refine ⟨?_, ?_⟩
  · intro hyphens digits text hvalue htext
    have hnumeral := htext.isNumeral_eq
    have hread := htext.read_eq
    refine ⟨?_, ?_⟩
    · intro hfault
      refine ⟨_, rfl, fun table events => ?_⟩
      have hread : Numeral.read text =
          .error (if 2 ≤ hyphens then .malformed text else .tooLong digits.length) := by
        rw [hread]
        split_ifs with hmany hlong
        · rfl
        · rfl
        · omega
      have hsettles := settles_numeral_fault hformat hvalue hnumeral hread
      obtain ⟨hanswers, hafter⟩ := Held.of_settles_same hsettles table events
      refine ⟨hanswers, ?_⟩
      rcases hafter with hafter | hafter
      · rw [hafter]
      · rw [hafter]
    · intro hfew hshort
      rw [if_neg (by omega), if_neg (by omega)] at hread
      obtain ⟨low, hsettles⟩ := settles_numeral hformat hvalue hnumeral hread
      exact ⟨_, rfl, rfl, hsettles.first_read, fun table events n hcount =>
        Held.of_settles hsettles table hcount⟩
  · intro hvalue
    exact ⟨_, fun table events =>
      (Held.of_settles_same (settles_no_value hformat hvalue) table events).1⟩

/-- A fresh encoder of a jump to minus five, with a digit of another script. -/
def jumpBelowZero : Encoder :=
  ⟨⟨.j, "-٥".toList, some 3⟩, .jump (.written "-٥".toList), blankField⟩

/-- Three readings, with a change of the table after the first. -/
def threeReadings : List Event :=
  [.read, .update (·.insert "-٥".toList 5), .read, .read]

/-- The first reading says what is wrong with the number, and the later ones do not. -/
theorem readings_settle_jumpBelowZero :
    ofInstruction .jump ⟨.j, "-٥".toList, some 3⟩ = .ok jumpBelowZero ∧
      jumpBelowZero.isFit = true ∧
      (Held.mk jumpBelowZero ∅).answers threeReadings =
        [.error (.rejected (.negativeJump (some 3))), .error (.misused .settledValue),
          .error (.misused .settledValue)] ∧
      ((Held.mk jumpBelowZero ∅).after threeReadings).encoder.operands = .jump (.settled (-5)) := by
  have hmade : ofInstruction .jump ⟨.j, "-٥".toList, some 3⟩ = .ok jumpBelowZero := by
    decide +kernel
  have hdigits : Numeral.Consists 1 "٥".toList "-٥".toList := by
    refine ⟨by decide, by decide, ?_⟩
    intro c hc
    obtain rfl : c = '٥' := List.mem_singleton.1 hc
    decide
  obtain ⟨-, hsettled⟩ :=
    (readings_settle hmade rfl).1 1 "٥".toList "-٥".toList rfl hdigits
  obtain ⟨next, -, hoperands, -, hrun⟩ := hsettled (by decide) (by decide)
  obtain ⟨hanswers, hafter⟩ := hrun ∅ threeReadings 2 rfl
  refine ⟨hmade, rfl, ?_, ?_⟩
  · rw [hanswers]
    decide +kernel
  · rw [hafter, hoperands]
    decide +kernel

end WordAsm.Encoder
