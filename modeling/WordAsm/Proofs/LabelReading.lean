import Mathlib.Algebra.Ring.Nat
import WordAsm.Proofs.LabelOperand

/-!
# Readings of a label

A label is looked up at every reading, and the text of its value has sixteen characters or more.  A
reading replaces the sixteen characters behind the head, so what a longer text put after them stays
there for good: behind the newest text stand the ends of all older ones, the newest first.

Only as long as every text has sixteen characters is nothing of it left, and does a reading depend
on the table at that time alone.
-/

namespace WordAsm

/-- A number is written in at least as many characters as the width says. -/
theorem Binary.le_length_padded (width : Nat) (n : Int) : width ≤ (padded width n).length := by
  cases n with
  | ofNat n =>
      simp only [padded, bits_length]
      omega
  | negSucc n =>
      simp only [padded, List.length_cons, bits_length]
      omega

theorem Format.le_length_lowText (f : Format) (n : Int) : 16 ≤ (f.lowText n).length := by
  unfold lowText
  split
  · exact Binary.le_length_padded 16 n
  · exact Binary.le_length_padded 16 _

namespace Encoder

/-- The text that the value of an encoder is written as under a table, if it denotes a number. -/
def valueText? (e : Encoder) (table : LabelTable) : Option Text :=
  (e.number? table).map e.operands.format.lowText

/-- The texts that the values at the readings among some events are written as, the newest first. -/
def written (e : Encoder) (table : LabelTable) (events : List Event) : List Text :=
  ((Held.tables table events).filterMap e.valueText?).reverse

/-- What stands behind the head after some texts, given the newest first: the newest as a whole, and
of each older one what stood after its first sixteen characters. -/
def layers : List Text → Text
  | [] => List.replicate 16 '0'
  | text :: older => text ++ older.flatMap (·.drop 16)

/-! ## Layers -/

theorem le_length_of_valueText? {e : Encoder} {table : LabelTable} {text : Text}
    (h : e.valueText? table = some text) : 16 ≤ text.length := by
  obtain ⟨n, -, rfl⟩ := Option.map_eq_some_iff.1 h
  exact e.operands.format.le_length_lowText n

theorem drop_layers {texts : List Text} (h : ∀ text ∈ texts, 16 ≤ text.length) :
    (layers texts).drop 16 = texts.flatMap (·.drop 16) := by
  cases texts with
  | nil => rfl
  | cons text older =>
      rw [layers, List.drop_append_of_le_length (h text List.mem_cons_self), List.flatMap_cons]

/-- One more text takes the place of the first sixteen characters. -/
theorem append_drop_layers (text : Text) {texts : List Text}
    (h : ∀ text ∈ texts, 16 ≤ text.length) :
    text ++ (layers texts).drop 16 = layers (text :: texts) := by
  rw [drop_layers h, layers]

theorem length_layers {texts : List Text} (h : ∀ text ∈ texts, 16 ≤ text.length) :
    (layers texts).length = 16 + (texts.map fun text => text.length - 16).sum := by
  have hends (older : List Text) : (older.flatMap (·.drop 16)).length =
      (older.map fun text => text.length - 16).sum := by
    simp [List.length_flatMap]
  cases texts with
  | nil => rfl
  | cons text older =>
      have htext := h text List.mem_cons_self
      rw [layers, List.length_append, hends, List.map_cons, List.sum_cons]
      omega

/-- Texts of sixteen characters leave nothing behind. -/
theorem layers_cons_of_length (text : Text) {texts : List Text}
    (h : ∀ text ∈ texts, text.length = 16) : layers (text :: texts) = text := by
  have hends : texts.flatMap (·.drop 16) = [] := by
    rw [List.flatMap_eq_nil_iff]
    intro older holder
    exact List.drop_eq_nil_of_le (Nat.le_of_eq (h older holder))
  rw [layers, hends, List.append_nil]

/-! ## One reading -/

/-- An encoder on which some texts were written, the newest first, with the head as given. -/
structure Stage (e : Encoder) (head : Text) (texts : List Text) (held : Held) : Prop where
  encoder : held.encoder = ⟨e.instruction, e.operands, head ++ layers texts⟩
  isHead : IsHead e.instruction.mnemonic e.operands head
  long : ∀ text ∈ texts, 16 ≤ text.length

/-- Why a label has no value under a table: it is not bound, or a branch to it has no line. -/
inductive LabelFault (i : Instruction) (name : Text) (table : LabelTable) : Error → Prop
  | undefined (hfind : table.find? name = none) :
      LabelFault i name table (.rejected (.undefinedLabel name i.line))
  | unplaced {n : Int} (hfind : table.find? name = some n) (hbranch : i.mnemonic = .beq)
      (hline : i.line = none) : LabelFault i name table (.misused .unplacedBranch)

theorem LabelFault.unique {i : Instruction} {name : Text} {table : LabelTable} {err err' : Error}
    (h : LabelFault i name table err) (h' : LabelFault i name table err') : err = err' := by
  cases h with
  | undefined hfind =>
      cases h' with
      | undefined hfind' => rfl
      | unplaced hfind' hbranch' hline' => cases hfind.symm.trans hfind'
  | unplaced hfind hbranch hline =>
      cases h' with
      | undefined hfind' => cases hfind.symm.trans hfind'
      | unplaced hfind' hbranch' hline' => rfl

theorem labelNumber?_eq_none_iff {i : Instruction} {n : Int} :
    labelNumber? i n = none ↔ i.mnemonic = .beq ∧ i.line = none := by
  unfold labelNumber?
  split
  · rename_i hbranch
    simp [hbranch]
  · rename_i hbranch
    simp [hbranch]

section Label

variable {e : Encoder} {name head : Text} {texts : List Text} {held : Held}

theorem number?_of_label (hlabel : e.operands.labelOperand? = some name) (table : LabelTable) :
    e.number? table = (table.find? name).bind (labelNumber? e.instruction) := by
  obtain ⟨hvalue, hnumeral⟩ := Operands.labelOperand?_eq_some_iff.1 hlabel
  simp [number?, hvalue, hnumeral]

/-- A label with a value is written in front of what the older texts left. -/
theorem Stage.read_eq_ok (h : Stage e head texts held)
    (hfit : e.instruction.format = e.operands.format)
    (hlabel : e.operands.labelOperand? = some name) {text : Text}
    (htext : e.valueText? held.table = some text) :
    held.encoder.read held.table =
      (.ok (headText e.instruction.mnemonic e.operands ++ layers (text :: texts)),
        ⟨e.instruction, e.operands,
          headText e.instruction.mnemonic e.operands ++ layers (text :: texts)⟩) := by
  obtain ⟨k, hk, rfl⟩ := Option.map_eq_some_iff.1 htext
  rw [number?_of_label hlabel] at hk
  obtain ⟨n, hn, hnumber⟩ := Option.bind_eq_some_iff.1 hk
  obtain ⟨hvalue, hnumeral⟩ := Operands.labelOperand?_eq_some_iff.1 hlabel
  rw [h.encoder, read_label hfit h.isHead hvalue hnumeral]
  simp only [hn, hnumber, append_drop_layers _ h.long]

/-- A label without a value leaves everything behind the head alone. -/
theorem Stage.read_eq_error (h : Stage e head texts held)
    (hfit : e.instruction.format = e.operands.format)
    (hlabel : e.operands.labelOperand? = some name) (htext : e.valueText? held.table = none) :
    ∃ err, LabelFault e.instruction name held.table err ∧
      held.encoder.read held.table =
        (.error err, ⟨e.instruction, e.operands,
          headText e.instruction.mnemonic e.operands ++ layers texts⟩) := by
  have hnumber := Option.map_eq_none_iff.1 htext
  rw [number?_of_label hlabel] at hnumber
  obtain ⟨hvalue, hnumeral⟩ := Operands.labelOperand?_eq_some_iff.1 hlabel
  rw [h.encoder, read_label hfit h.isHead hvalue hnumeral]
  cases hfind : held.table.find? name with
  | none => exact ⟨_, .undefined hfind, rfl⟩
  | some n =>
      rw [hfind] at hnumber
      have hnone : labelNumber? e.instruction n = none := hnumber
      obtain ⟨hbranch, hline⟩ := labelNumber?_eq_none_iff.1 hnone
      simp only [hnone]
      exact ⟨_, .unplaced hfind hbranch hline, rfl⟩

theorem Stage.length_field (h : Stage e head texts held) :
    held.encoder.field.length = 32 + (texts.map fun text => text.length - 16).sum := by
  rw [h.encoder, List.length_append, h.isHead.length, length_layers h.long]
  omega

theorem Stage.drop_field (h : Stage e head texts held) :
    held.encoder.field.drop 16 = layers texts := by
  rw [h.encoder]
  exact List.drop_left' h.isHead.length

/-- Where no text left anything behind, a reading depends on the table alone. -/
theorem Stage.read_eq_of_length {head' : Text} {texts' : List Text} {held' : Held}
    (h : Stage e head texts held) (h' : Stage e head' texts' held')
    (hfit : e.instruction.format = e.operands.format)
    (hlabel : e.operands.labelOperand? = some name) (htable : held.table = held'.table)
    (hlength : ∀ text ∈ texts, text.length = 16) (hlength' : ∀ text ∈ texts', text.length = 16) :
    (held.encoder.read held.table).1 = (held'.encoder.read held'.table).1 := by
  cases htext : e.valueText? held.table with
  | none =>
      obtain ⟨err, hfault, hread⟩ := h.read_eq_error hfit hlabel htext
      rw [htable] at htext hfault
      obtain ⟨err', hfault', hread'⟩ := h'.read_eq_error hfit hlabel htext
      rw [hread, hread', hfault.unique hfault']
  | some text =>
      rw [h.read_eq_ok hfit hlabel htext, layers_cons_of_length text hlength]
      rw [htable] at htext
      rw [h'.read_eq_ok hfit hlabel htext, layers_cons_of_length text hlength']

/-- Step: a reading adds the text that it writes, if it writes one, and the head is there. -/
theorem Stage.read (h : Stage e head texts held)
    (hfit : e.instruction.format = e.operands.format)
    (hlabel : e.operands.labelOperand? = some name) :
    Stage e (headText e.instruction.mnemonic e.operands)
      ((e.valueText? held.table).toList ++ texts) (held.step .read) := by
  cases htext : e.valueText? held.table with
  | none =>
      obtain ⟨err, -, hread⟩ := h.read_eq_error hfit hlabel htext
      exact ⟨congrArg Prod.snd hread, isHead_headText _ _, h.long⟩
  | some text =>
      refine ⟨congrArg Prod.snd (h.read_eq_ok hfit hlabel htext), isHead_headText _ _, ?_⟩
      intro text' htext'
      rcases List.mem_cons.1 htext' with rfl | hold
      · exact le_length_of_valueText? htext
      · exact h.long text' hold

/-- Step: a change of the table does not touch the encoder. -/
theorem Stage.update (h : Stage e head texts held) (change : LabelTable → LabelTable) :
    Stage e head texts (held.step (.update change)) :=
  ⟨h.encoder, h.isHead, h.long⟩

/-! ## Any number of readings -/

theorem written_read (e : Encoder) (table : LabelTable) (rest : List Event) :
    e.written table (.read :: rest) = e.written table rest ++ (e.valueText? table).toList := by
  cases htext : e.valueText? table <;> simp [written, Held.tables, htext]

/-- Run: the texts of all readings lie in layers, and the head is there after the first. -/
theorem Stage.after (h : Stage e head texts held)
    (hfit : e.instruction.format = e.operands.format)
    (hlabel : e.operands.labelOperand? = some name) (events : List Event) :
    Stage e
      (if events.any Event.isRead then headText e.instruction.mnemonic e.operands else head)
      (e.written held.table events ++ texts) (held.after events) := by
  induction events generalizing held head texts with
  | nil => exact h
  | cons event rest ih =>
      cases event with
      | read =>
          have hrest := ih (h.read hfit hlabel)
          rw [ite_self] at hrest
          rw [written_read, List.append_assoc]
          exact hrest
      | update change => exact ih (h.update change)

end Label

theorem stage_of_ofInstruction {f : Format} {i : Instruction} {e : Encoder}
    (he : ofInstruction f i = .ok e) (table : LabelTable) :
    Stage e (List.replicate 16 '0') [] ⟨e, table⟩ := by
  obtain ⟨o, -, rfl⟩ := ofInstruction_eq_ok_iff.1 he
  exact ⟨rfl, .inl rfl, fun text htext => by cases htext⟩

/-- Let an encoder with a label be read any number of times while its table changes.  Behind the
head then stand the texts written so far in layers, and the field is as long as these make it.  The
next reading writes one more layer and gives the field, or it fails because the label has no value
and leaves everything behind the head alone.  If all texts so far have sixteen characters, it gives
what a first reading would give with the same table. -/
theorem label_readings_lie_in_layers {f : Format} {i : Instruction} {e : Encoder} {name : Text}
    (he : ofInstruction f i = .ok e) (hfit : e.isFit = true)
    (hlabel : e.operands.labelOperand? = some name) (table : LabelTable) (events : List Event) :
    let held := (Held.mk e table).after events
    let head := headText i.mnemonic e.operands
    let texts := e.written table events
    (∀ text ∈ texts, 16 ≤ text.length) ∧
    (events.any Event.isRead = true → held.encoder = { e with field := head ++ layers texts }) ∧
    held.encoder.field.length = 32 + (texts.map fun text => text.length - 16).sum ∧
    (∀ text, e.valueText? held.table = some text →
      held.encoder.read held.table =
        (.ok (head ++ layers (text :: texts)),
          { e with field := head ++ layers (text :: texts) })) ∧
    (e.valueText? held.table = none →
      ∃ err next, held.encoder.read held.table = (.error err, next) ∧
        LabelFault i name held.table err ∧
        next.field.drop 16 = held.encoder.field.drop 16) ∧
    ((∀ text ∈ texts, text.length = 16) →
      (held.encoder.read held.table).1 = (e.read held.table).1) := by
  intro held head texts
  obtain rfl : e.instruction = i := by
    obtain ⟨o, -, rfl⟩ := ofInstruction_eq_ok_iff.1 he
    rfl
  have hformat : e.instruction.format = e.operands.format := isFit_iff.1 hfit
  have hstage : Stage e (if events.any Event.isRead then head else List.replicate 16 '0') texts
      held := by
    have hafter := (stage_of_ofInstruction he table).after hformat hlabel events
    rwa [List.append_nil] at hafter
  refine ⟨hstage.long, ?_, ?_, ?_, ?_, ?_⟩
  · intro hread
    rw [hread, if_pos rfl] at hstage
    exact hstage.encoder
  · exact hstage.length_field
  · intro text htext
    exact hstage.read_eq_ok hformat hlabel htext
  · intro htext
    obtain ⟨err, hfault, hread⟩ := hstage.read_eq_error hformat hlabel htext
    refine ⟨err, _, hread, hfault, ?_⟩
    rw [hstage.drop_field]
    exact List.drop_left' (headText_length _ _)
  · intro hlength
    exact hstage.read_eq_of_length (stage_of_ofInstruction he held.table) hformat hlabel rfl
      hlength (by simp)

/-- A fresh encoder of a jump to a label. -/
def farJump : Encoder :=
  ⟨⟨.j, "x".toList, none⟩, .jump (.written "x".toList), blankField⟩

/-- The label is bound too far away, then to nothing, and then below zero. -/
def farJumpEvents : List Event :=
  [.update (·.insert "x".toList 70000), .read, .update (·.erase "x".toList), .read,
    .update (·.insert "x".toList (-1))]

/-- The last digit of the far address still stands behind the text of the last one. -/
theorem label_readings_lie_in_layers_farJump :
    ofInstruction .jump ⟨.j, "x".toList, none⟩ = .ok farJump ∧ farJump.isFit = true ∧
      farJump.operands.labelOperand? = some "x".toList ∧
      (farJump.written ∅ farJumpEvents).map List.length = [17] ∧
      (((Held.mk farJump ∅).after farJumpEvents).encoder.read
        ((Held.mk farJump ∅).after farJumpEvents).table).1 =
          .ok "0000110100000000-0000000000000010".toList := by
  have hmade : ofInstruction .jump ⟨.j, "x".toList, none⟩ = .ok farJump := by decide +kernel
  have hlabel : farJump.operands.labelOperand? = some "x".toList := by decide +kernel
  have htext : farJump.valueText? ((Held.mk farJump ∅).after farJumpEvents).table =
      some "-000000000000001".toList := by decide +kernel
  obtain ⟨-, -, -, hread, -⟩ :=
    label_readings_lie_in_layers hmade rfl hlabel ∅ farJumpEvents
  refine ⟨hmade, rfl, hlabel, by decide +kernel, ?_⟩
  rw [hread _ htext]
  decide +kernel

end Encoder

end WordAsm
