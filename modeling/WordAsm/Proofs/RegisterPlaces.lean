import WordAsm.Proofs.Reading
import WordAsm.Proofs.RegisterOperands

/-!
# Registers in a word

A register in range has four binary digits.  So every reading of an encoder leaves the opcode and
the registers at their places, whether it gives a word or fails, and no later reading moves them.
What stands behind them may grow, as the text of a value is written in full.
-/

namespace WordAsm

/-- The place in a word where the digits of a register start. -/
def Format.registerPlace (f : Format) : RegisterRole → Nat
  | .destination => if f = .register then 16 else 12
  | .source => 8
  | .target => 12

/-! ## The head after any number of readings -/

theorem Operands.registerIn?_setValue (o : Operands) (v : Immediate) (role : RegisterRole) :
    (o.setValue v).registerIn? role = o.registerIn? role := by
  cases o <;> rfl

namespace Encoder

/-- The head stands in the field of an encoder, and behind it a third register if there is one; the
value may be settled. -/
inductive Headed (i : Instruction) (o : Operands) : Encoder → Prop
  | written {low : Text} (hthird : o.writeThird low = low) :
      Headed i o ⟨i, o, headText i.mnemonic o ++ low⟩
  | settled {n : Int} {low : Text} (hthird : o.writeThird low = low) :
      Headed i o ⟨i, o.setValue (.settled n), headText i.mnemonic o ++ low⟩

section Headed

variable {i : Instruction} {o : Operands} {head low : Text}

/-- One reading: the head is written whatever comes of the value. -/
theorem headed_of_isHead (hfit : i.format = o.format) (hhead : IsHead i.mnemonic o head)
    (table : LabelTable) : Headed i o ((Encoder.mk i o (head ++ low)).read table).2 := by
  cases hvalue : o.value? with
  | none =>
      rw [read_no_value hfit hhead hvalue]
      exact .written (Operands.writeThird_writeThird o low)
  | some v =>
      have hthird := Operands.writeThird_of_value hvalue
      cases v with
      | settled n =>
          rw [read_settled hfit hhead hvalue]
          exact .written (hthird low)
      | written text =>
          cases hnumeral : Numeral.isNumeral text with
          | false =>
              rw [read_label hfit hhead hvalue hnumeral]
              split
              · exact .written (hthird low)
              · split
                · exact .written (hthird low)
                · exact .written (hthird _)
          | true =>
              -- The text of the value is gone once its number is known, in range or not.
              rw [read_numeral hfit hhead hvalue hnumeral]
              split
              · exact .written (hthird low)
              · split
                · exact .settled (hthird low)
                · exact .settled (hthird _)

namespace Headed

variable {e : Encoder}

/-- A settled value makes no difference to the head. -/
theorem of_settled {n : Int} (h : Headed i (o.setValue (.settled n)) e) : Headed i o e := by
  cases h with
  | written hthird =>
      rw [Operands.writeThird_setValue] at hthird
      rw [headText_setValue]
      exact .settled hthird
  | settled hthird =>
      rw [Operands.writeThird_setValue] at hthird
      rw [headText_setValue, Operands.setValue_setValue]
      exact .settled hthird

/-- Step: a reading keeps the head. -/
theorem read (h : Headed i o e) (hfit : i.format = o.format) (table : LabelTable) :
    Headed i o (e.read table).2 := by
  cases h with
  | written hthird => exact headed_of_isHead hfit (isHead_headText _ _) table
  | @settled n low hthird =>
      have hfit' : i.format = (o.setValue (.settled n)).format := by simpa using hfit
      rw [← headText_setValue i.mnemonic o (.settled n)]
      exact (headed_of_isHead hfit' (isHead_headText _ _) table).of_settled

/-- Run: the head stays through any number of readings and changes of the table. -/
theorem after {held : Held} (h : Headed i o held.encoder) (hfit : i.format = o.format)
    (events : List Event) : Headed i o (held.after events).encoder := by
  induction events generalizing held with
  | nil => exact h
  | cons event rest ih =>
      cases event with
      | read =>
          have hstep : Headed i o (held.step .read).encoder := h.read hfit held.table
          exact ih hstep
      | update change =>
          have hstep : Headed i o (held.step (.update change)).encoder := h
          exact ih hstep

end Headed

/-- Run: the first reading of a fresh encoder puts the head there. -/
theorem headed_after (hfit : i.format = o.format) (table : LabelTable) {events : List Event}
    (hread : events.any Event.isRead = true) :
    Headed i o ((Held.mk ⟨i, o, blankField⟩ table).after events).encoder := by
  induction events generalizing table with
  | nil => cases hread
  | cons event rest ih =>
      cases event with
      | read =>
          have hfirst : Headed i o ((Held.mk ⟨i, o, blankField⟩ table).step .read).encoder := by
            show Headed i o ((Encoder.mk i o blankField).read table).2
            rw [blankField_eq_append]
            exact headed_of_isHead hfit (.inl rfl) table
          exact hfirst.after hfit rest
      | update change => exact ih (change table) hread

/-! ## The places in a word -/

theorem take_drop_nibble {pre : Text} {place : Nat} (hpre : pre.length = place) (r : Fin 16)
    (post : Text) : ((pre ++ (nibble r ++ post)).drop place).take 4 = nibble r := by
  rw [List.drop_left' hpre, List.take_left' (nibble_length r)]

namespace Headed

variable {e : Encoder}

theorem exists_field_eq (h : Headed i o e) :
    ∃ low, e.field = headText i.mnemonic o ++ low ∧ o.writeThird low = low := by
  cases h with
  | written hthird => exact ⟨_, rfl, hthird⟩
  | settled hthird => exact ⟨_, rfl, hthird⟩

theorem take_field (h : Headed i o e) : e.field.take 16 = headText i.mnemonic o := by
  obtain ⟨low, hfield, -⟩ := h.exists_field_eq
  rw [hfield]
  exact List.take_left' (headText_length _ _)

theorem opcode_digits (h : Headed i o e) :
    (e.field.drop 4).take 4 = nibble i.mnemonic.opcode := by
  obtain ⟨low, hfield, -⟩ := h.exists_field_eq
  rw [hfield, headText, List.append_assoc, List.append_assoc]
  exact take_drop_nibble (Binary.bits_length 4 0) _ _

theorem first_digits (h : Headed i o e) : (e.field.drop 8).take 4 = nibble o.firstPlace := by
  obtain ⟨low, hfield, -⟩ := h.exists_field_eq
  have hplaces : e.field = (Binary.bits 4 0 ++ nibble i.mnemonic.opcode) ++
      (nibble o.firstPlace ++ (nibble o.secondPlace ++ low)) := by
    rw [hfield, headText]
    simp only [List.append_assoc]
  rw [hplaces]
  exact take_drop_nibble (by simp) _ _

theorem second_digits (h : Headed i o e) : (e.field.drop 12).take 4 = nibble o.secondPlace := by
  obtain ⟨low, hfield, -⟩ := h.exists_field_eq
  have hplaces : e.field = (Binary.bits 4 0 ++ (nibble i.mnemonic.opcode ++ nibble o.firstPlace)) ++
      (nibble o.secondPlace ++ low) := by
    rw [hfield, headText]
    simp only [List.append_assoc]
  rw [hplaces]
  exact take_drop_nibble (by simp) _ _

theorem third_digits {d s t : Register} (h : Headed i (.register d s t) e) :
    (e.field.drop 16).take 4 = nibble d := by
  obtain ⟨low, hfield, hthird⟩ := h.exists_field_eq
  have hlow : nibble d ++ low.drop 4 = low := hthird
  rw [hfield, ← hlow]
  exact take_drop_nibble (headText_length _ _) _ _

/-- Every register of the operands stands at the place of its role. -/
theorem register_digits (h : Headed i o e) {role : RegisterRole} {r : Register}
    (hr : o.registerIn? role = some r) :
    (e.field.drop (o.format.registerPlace role)).take 4 = nibble r := by
  cases role with
  | destination =>
      cases o with
      | register d s t =>
          obtain rfl := Option.some.inj hr
          exact h.third_digits
      | immediate d s v =>
          obtain rfl := Option.some.inj hr
          exact h.second_digits
      | upper d v =>
          obtain rfl := Option.some.inj hr
          exact h.second_digits
      | link d s =>
          obtain rfl := Option.some.inj hr
          exact h.second_digits
      | jump v => cases hr
      | halt => cases hr
  | source =>
      cases o with
      | register d s t =>
          obtain rfl := Option.some.inj hr
          exact h.first_digits
      | immediate d s v =>
          obtain rfl := Option.some.inj hr
          exact h.first_digits
      | link d s =>
          obtain rfl := Option.some.inj hr
          exact h.first_digits
      | _ => cases hr
  | target =>
      cases o with
      | register d s t =>
          obtain rfl := Option.some.inj hr
          exact h.second_digits
      | _ => cases hr

theorem registerIn?_eq (h : Headed i o e) (role : RegisterRole) :
    e.operands.registerIn? role = o.registerIn? role := by
  cases h with
  | written hthird => rfl
  | settled hthird => exact o.registerIn?_setValue _ role

end Headed

end Headed

/-- An encoder of any format but that of a halt is made exactly when the operand text has a form of
the format and the registers of the first one are accepted; otherwise the instruction is refused,
and the refusal says which of these fails.  Once the encoder of a command that fits the format has
been read, the first sixteen characters of its field are binary digits and stay so through any
readings and changes of the table, with the opcode in its place.  Each register that the text writes
is the one that the encoder holds, and its four digits stand in their place. -/
theorem registers_are_checked_and_kept {f : Format} (hf : f ≠ .halt) (i : Instruction) :
    ((∃ e, ofInstruction f i = .ok e) ↔
      ∃ before parts after, f.FirstForm i.operands before parts after ∧
        f.AcceptsRegisters i.mnemonic parts) ∧
    ((¬ ∃ before parts after, f.FirstForm i.operands before parts after ∧
        f.AcceptsRegisters i.mnemonic parts) →
      ∃ why, ofInstruction f i = .error why ∧ f.Refuses i why) ∧
    ∀ e before parts after, ofInstruction f i = .ok e →
      f.FirstForm i.operands before parts after → e.isFit = true →
      ∀ table events, events.any Event.isRead = true →
        let last := ((Held.mk e table).after events).encoder
        Binary.IsDigits 16 (last.field.take 16) ∧
        (last.field.drop 4).take 4 = Binary.bits 4 i.mnemonic.opcode ∧
        ∀ role digits, (role, digits) ∈ f.registerParts parts →
          ∃ r : Register, last.operands.registerIn? role = some r ∧
            r.val = Nat.ofDigitChars 10 digits 0 ∧
            (last.field.drop (f.registerPlace role)).take 4 = Binary.bits 4 r := by
  refine ⟨exists_ofInstruction_iff hf i, ?_, ?_⟩
  · intro hnot
    cases hmade : ofInstruction f i with
    | error why => exact ⟨why, rfl, refuses_of_ofInstruction hf hmade⟩
    | ok e => exact absurd ((exists_ofInstruction_iff hf i).1 ⟨e, hmade⟩) hnot
  · intro e before parts after he hform hfit table events hread last
    obtain ⟨o, ho, rfl⟩ := ofInstruction_eq_ok_iff.1 he
    have hformat : o.format = f := Operands.format_of_read ho
    have hheaded : Headed i o last := headed_after (isFit_iff.1 hfit) table hread
    refine ⟨?_, hheaded.opcode_digits, ?_⟩
    · rw [hheaded.take_field]
      exact headText_isDigits _ _
    · intro role digits hmem
      have hdenotes := Operands.denotes_of_firstForm hf hform ho
      obtain ⟨r, hr, hnumber, -⟩ := hdenotes.registers _ hmem
      obtain ⟨-, hvalue⟩ :=
        (Operands.readNumber_eq_ok_iff (hform.isParts.isAsciiDigit hmem)).1 hnumber
      refine ⟨r, (hheaded.registerIn?_eq role).trans hr, hvalue.symm, ?_⟩
      rw [← hformat]
      exact hheaded.register_digits hr

/-- A branch on register zero, with zeros in front of its registers and no line to start from. -/
def zeroBranch : Instruction :=
  ⟨.beq, "00,015,x".toList, none⟩

/-- Two readings, with a change of the table between them. -/
def zeroBranchEvents : List Event :=
  [.read, .update (·.insert "x".toList 70000), .read]

/-- Both readings of the branch fail, and its registers are there all the same.  With another
command the registers are refused. -/
theorem registers_are_checked_and_kept_zeroBranch :
    ∃ e, ofInstruction .immediate zeroBranch = .ok e ∧ e.isFit = true ∧
      (Held.mk e ∅).answers zeroBranchEvents =
        [.error (.rejected (.undefinedLabel "x".toList none)), .error (.misused .unplacedBranch)] ∧
      (((Held.mk e ∅).after zeroBranchEvents).encoder.field.drop 8).take 4 = "1111".toList ∧
      (((Held.mk e ∅).after zeroBranchEvents).encoder.field.drop 12).take 4 = "0000".toList ∧
      ∃ why, ofInstruction .immediate { zeroBranch with mnemonic := .addi } = .error why := by
  have hfound : (Format.immediate.findOperands zeroBranch.operands).head? =
      some ["00".toList, "015".toList, "x".toList] := by
    decide +kernel
  have hf : Format.immediate ≠ .halt := by decide
  obtain ⟨before, after, hform⟩ := (Format.findOperands_head?_eq_some_iff hf).1 hfound
  have hmade : ofInstruction .immediate zeroBranch =
      .ok ⟨zeroBranch, .immediate .zero (.ofNumber 15) (.written "x".toList), blankField⟩ := by
    decide +kernel
  obtain ⟨-, -, hkept⟩ := registers_are_checked_and_kept hf zeroBranch
  obtain ⟨-, -, hregisters⟩ := hkept _ before _ after hmade hform rfl ∅ zeroBranchEvents rfl
  refine ⟨_, hmade, rfl, by decide +kernel, ?_, ?_, ?_⟩
  · obtain ⟨r, -, hr, hdigits⟩ :=
      hregisters .source "015".toList (List.mem_cons_of_mem _ List.mem_cons_self)
    obtain rfl : r = .ofNumber 15 := Fin.ext hr
    exact hdigits
  · obtain ⟨r, -, hr, hdigits⟩ := hregisters .destination "00".toList List.mem_cons_self
    obtain rfl : r = .zero := Fin.ext hr
    exact hdigits
  · obtain ⟨-, hrefused, -⟩ :=
      registers_are_checked_and_kept hf { zeroBranch with mnemonic := .addi }
    have hnot : ¬ ∃ before parts after,
        Format.immediate.FirstForm zeroBranch.operands before parts after ∧
          Format.immediate.AcceptsRegisters .addi parts := by
      rintro ⟨before', parts, after', hform', hregisters'⟩
      have hfound' := (Format.findOperands_head?_eq_some_iff hf).2 ⟨before', after', hform'⟩
      obtain rfl := Option.some.inj (hfound.symm.trans hfound')
      exact absurd hregisters' (by decide)
    obtain ⟨why, hwhy, -⟩ := hrefused hnot
    exact ⟨why, hwhy⟩

end Encoder

end WordAsm
