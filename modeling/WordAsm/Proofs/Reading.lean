import WordAsm.Proofs.MachineWord

/-!
# Reading an encoder again

An encoder may be read any number of times, and the table that it holds may change in between.
Every reading writes the head first, over the zeros of a fresh field or over the head of an earlier
reading, and both come to the same head.  What stands behind the head is what the readings before
left there.

A reading is then given by one rule for each kind of value: none, a label, a numeral, and a number
that an earlier reading settled.  The rules hold at every stage of an encoder, the first reading
being one of them.
-/

namespace WordAsm

namespace Operands

/-- What writing the registers does behind the head, where only a third register stands. -/
def writeThird (o : Operands) (low : Text) : Text :=
  match o with
  | register d _ _ => Encoder.patch 0 4 (Encoder.nibble d) low
  | _ => low

theorem writeThird_of_value {o : Operands} {v : Immediate} (h : o.value? = some v) (low : Text) :
    o.writeThird low = low := by
  cases o with
  | register d s t => cases h
  | _ => rfl

/-- The third register is written over itself. -/
theorem writeThird_writeThird (o : Operands) (low : Text) :
    o.writeThird (o.writeThird low) = o.writeThird low := by
  cases o with
  | register d s t =>
      have hfirst : Encoder.patch 0 4 (Encoder.nibble d) low = Encoder.nibble d ++ low.drop 4 := rfl
      show Encoder.patch 0 4 (Encoder.nibble d) (Encoder.patch 0 4 (Encoder.nibble d) low) =
        Encoder.patch 0 4 (Encoder.nibble d) low
      rw [hfirst, Encoder.patch_first (Encoder.nibble_length d)]
  | _ => rfl

/-- A settled value does not touch the format. -/
@[simp] theorem format_setValue (o : Operands) (v : Immediate) :
    (o.setValue v).format = o.format := by
  cases o <;> rfl

theorem writeThird_setValue (o : Operands) (v : Immediate) (low : Text) :
    (o.setValue v).writeThird low = o.writeThird low := by
  cases o <;> rfl

theorem setValue_setValue (o : Operands) (v w : Immediate) :
    (o.setValue v).setValue w = o.setValue w := by
  cases o <;> rfl

theorem value?_setValue {o : Operands} {v : Immediate} (h : o.value? = some v) (w : Immediate) :
    (o.setValue w).value? = some w := by
  cases o with
  | immediate d s u => rfl
  | upper d u => rfl
  | jump u => rfl
  | _ => cases h

end Operands

namespace Encoder

/-- A settled value does not show in the head. -/
@[simp] theorem headText_setValue (m : Mnemonic) (o : Operands) (v : Immediate) :
    headText m (o.setValue v) = headText m o := by
  cases o <;> rfl

@[simp] theorem headText_length (m : Mnemonic) (o : Operands) : (headText m o).length = 16 :=
  (headText_isDigits m o).1

/-! ## The head at any stage -/

/-- The first sixteen characters of a field: zeros before the first reading, the head after it. -/
def IsHead (m : Mnemonic) (o : Operands) (head : Text) : Prop :=
  head = List.replicate 16 '0' ∨ head = headText m o

theorem blankField_eq_append : blankField = List.replicate 16 '0' ++ List.replicate 16 '0' :=
  rfl

theorem isHead_headText (m : Mnemonic) (o : Operands) : IsHead m o (headText m o) :=
  .inr rfl

theorem IsHead.length {m : Mnemonic} {o : Operands} {head : Text} (h : IsHead m o head) :
    head.length = 16 := by
  rcases h with rfl | rfl
  · exact List.length_replicate
  · exact headText_length m o

/-- Both kinds of head have zeros in the places that the operands leave out. -/
theorem IsHead.places {m : Mnemonic} {o : Operands} {head : Text} (h : IsHead m o head) :
    ∃ a : Fin 16, ∃ b c : Register,
      head = Binary.bits 4 0 ++ (nibble a ++ (nibble b ++ nibble c)) ∧
        (b = .zero ∨ b = o.firstPlace) ∧ (c = .zero ∨ c = o.secondPlace) := by
  rcases h with rfl | rfl
  · exact ⟨Register.zero, .zero, .zero, by decide, .inl rfl, .inl rfl⟩
  · exact ⟨m.opcode, o.firstPlace, o.secondPlace, rfl, .inr rfl, .inr rfl⟩

variable {i : Instruction} {o : Operands} {head low : Text}

/-- The head is written over zeros or over itself, and what stands behind it is kept but for a third
register. -/
theorem writeHead_of_isHead (h : IsHead i.mnemonic o head) (low : Text) :
    (Encoder.mk i o (head ++ low)).writeHead (nibble i.mnemonic.opcode) =
      ⟨i, o, headText i.mnemonic o ++ o.writeThird low⟩ := by
  obtain ⟨a, b, c, rfl, hb, hc⟩ := h.places
  have hfield : ((Encoder.mk i o
      (Binary.bits 4 0 ++ (nibble a ++ (nibble b ++ nibble c)) ++ low)).writeHead
        (nibble i.mnemonic.opcode)).field = headText i.mnemonic o ++ o.writeThird low := by
    -- A place that is not written is one that was zero before.
    cases o
    case' upper => obtain rfl : b = .zero := hb.elim id id
    case' jump => obtain ⟨rfl, rfl⟩ : b = .zero ∧ c = .zero := ⟨hb.elim id id, hc.elim id id⟩
    case' halt => obtain ⟨rfl, rfl⟩ : b = .zero ∧ c = .zero := ⟨hb.elim id id, hc.elim id id⟩
    all_goals
      simp (disch := simp) only [writeHead, writeRegisters, headText, Operands.firstPlace,
        Operands.secondPlace, Operands.writeThird, patch_past, patch_first, List.append_assoc]
  rw [← hfield]
  rfl

/-- A value is written over the first sixteen characters behind the head; those after them stay. -/
theorem patch_behind (hhead : head.length = 16) (text low : Text) :
    patch 16 32 text (head ++ low) = head ++ (text ++ low.drop 16) := by
  have htake : (head ++ low).take 16 = head := List.take_left' hhead
  have hdrop : (head ++ low).drop 32 = low.drop 16 := by
    have hlength : 32 = head.length + 16 := by omega
    rw [hlength, List.drop_length_add_append]
  rw [patch, htake, hdrop, List.append_assoc]

/-! ## One reading at any stage -/

section Reading

variable {text : Text}

theorem read_of_isHead (hfit : i.format = o.format) (hhead : IsHead i.mnemonic o head)
    (table : LabelTable) :
    (Encoder.mk i o (head ++ low)).read table =
      (Encoder.mk i o (headText i.mnemonic o ++ o.writeThird low)).readValue table := by
  have hopcode : (Encoder.mk i o (head ++ low)).opcode? = some (nibble i.mnemonic.opcode) :=
    opcode?_eq_some_iff.2 ⟨hfit, rfl⟩
  rw [← writeHead_of_isHead hhead]
  simp only [read, hopcode]

/-- Without a value, a reading writes the registers and gives the field. -/
theorem read_no_value (hfit : i.format = o.format) (hhead : IsHead i.mnemonic o head)
    (hvalue : o.value? = none) (table : LabelTable) :
    (Encoder.mk i o (head ++ low)).read table =
      (.ok (headText i.mnemonic o ++ o.writeThird low),
        ⟨i, o, headText i.mnemonic o ++ o.writeThird low⟩) := by
  rw [read_of_isHead hfit hhead]
  simp [readValue, hvalue]

/-- A settled value is not read again. -/
theorem read_settled (hfit : i.format = o.format) (hhead : IsHead i.mnemonic o head) {n : Int}
    (hvalue : o.value? = some (.settled n)) (table : LabelTable) :
    (Encoder.mk i o (head ++ low)).read table =
      (.error (.misused .settledValue), ⟨i, o, headText i.mnemonic o ++ low⟩) := by
  rw [read_of_isHead hfit hhead, Operands.writeThird_of_value hvalue]
  simp [readValue, hvalue]

theorem read_written (hfit : i.format = o.format) (hhead : IsHead i.mnemonic o head)
    (hvalue : o.value? = some (.written text)) (table : LabelTable) :
    (Encoder.mk i o (head ++ low)).read table =
      (Encoder.mk i o (headText i.mnemonic o ++ low)).readWritten table text := by
  rw [read_of_isHead hfit hhead, Operands.writeThird_of_value hvalue]
  simp [readValue, hvalue]

/-- A label is looked up at every reading.  Its text is written over the first sixteen characters
behind the head, and a reading that fails leaves them alone. -/
theorem read_label (hfit : i.format = o.format) (hhead : IsHead i.mnemonic o head)
    (hvalue : o.value? = some (.written text)) (hnumeral : Numeral.isNumeral text = false)
    (table : LabelTable) :
    (Encoder.mk i o (head ++ low)).read table =
      match table.find? text with
      | none =>
          (.error (.rejected (.undefinedLabel text i.line)), ⟨i, o, headText i.mnemonic o ++ low⟩)
      | some n =>
          match labelNumber? i n with
          | none => (.error (.misused .unplacedBranch), ⟨i, o, headText i.mnemonic o ++ low⟩)
          | some k =>
              (.ok (headText i.mnemonic o ++ (o.format.lowText k ++ low.drop 16)),
                ⟨i, o, headText i.mnemonic o ++ (o.format.lowText k ++ low.drop 16)⟩) := by
  rw [read_written hfit hhead hvalue, readWritten, hnumeral]
  simp only [Bool.false_eq_true, if_false, lookUp]
  cases table.find? text with
  | none => rfl
  | some n =>
      have htext := labelText_eq (e := Encoder.mk i o (headText i.mnemonic o ++ low)) hfit n
      simp only [htext]
      cases labelNumber? i n with
      | none => rfl
      | some k =>
          simp only [Except.mapError, writeValue, patch_behind (headText_length i.mnemonic o)]

/-- A numeral is settled by a reading that can read it, before its range is looked at. -/
theorem read_numeral (hfit : i.format = o.format) (hhead : IsHead i.mnemonic o head)
    (hvalue : o.value? = some (.written text)) (hnumeral : Numeral.isNumeral text = true)
    (table : LabelTable) :
    (Encoder.mk i o (head ++ low)).read table =
      match Numeral.read text with
      | .error fault => (.error (.rejected (.numeral fault)), ⟨i, o, headText i.mnemonic o ++ low⟩)
      | .ok n =>
          match (Encoder.mk i o blankField).literalText n with
          | .error why =>
              (.error (.rejected why), ⟨i, o.setValue (.settled n), headText i.mnemonic o ++ low⟩)
          | .ok digits =>
              (.ok (headText i.mnemonic o ++ (digits ++ low.drop 16)),
                ⟨i, o.setValue (.settled n),
                  headText i.mnemonic o ++ (digits ++ low.drop 16)⟩) := by
  rw [read_written hfit hhead hvalue, readWritten, if_pos hnumeral]
  cases Numeral.read text with
  | error fault => rfl
  | ok n =>
      -- The text of a literal depends on the line and the format, not on the field.
      have hliteral : (Encoder.mk i o (headText i.mnemonic o ++ low)).literalText n =
          (Encoder.mk i o blankField).literalText n := rfl
      simp only [hliteral]
      cases (Encoder.mk i o blankField).literalText n with
      | error why => rfl
      | ok digits => simp only [settle, writeValue, patch_behind (headText_length i.mnemonic o)]

end Reading

/-! ## Readings and changes of the table in turn -/

/-- What happens to an encoder and its table. -/
inductive Event where
  /-- The encoder is read. -/
  | read
  /-- The table is changed in some way. -/
  | update (change : LabelTable → LabelTable)

/-- Whether an event is a reading. -/
def Event.isRead : Event → Bool
  | read => true
  | update _ => false

/-- An encoder and the table that it holds. -/
structure Held where
  encoder : Encoder
  table : LabelTable

namespace Held

/-- One event. -/
def step (h : Held) : Event → Held
  | .read => { h with encoder := (h.encoder.read h.table).2 }
  | .update change => { h with table := change h.table }

/-- Some events, one after the other. -/
def after (h : Held) (events : List Event) : Held :=
  events.foldl step h

/-- What the readings among some events give, in order. -/
def answers (h : Held) : List Event → List (Except Error Text)
  | [] => []
  | .read :: rest => (h.encoder.read h.table).1 :: (h.step .read).answers rest
  | .update change :: rest => (h.step (.update change)).answers rest

/-- The tables at the readings among some events, in order. -/
def tables (table : LabelTable) : List Event → List LabelTable
  | [] => []
  | .read :: rest => table :: tables table rest
  | .update change :: rest => tables (change table) rest

end Held

end Encoder

end WordAsm
