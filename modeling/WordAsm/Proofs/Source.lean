import Mathlib.Algebra.Group.Int.Defs
import WordAsm.Operands
import WordAsm.Proofs.LineFields
import WordAsm.Proofs.Numeral

/-!
# Programs and how they are written

A program is a list of items, each an instruction or a directive, with its operands as data.
An item is written on one line: a label, a command and operands, parted by single spaces, and
the operands parted by commas, with numbers in plain decimal.

A program is well formed when every item can be written so and has words to be encoded into.
What an instruction refers to has to be defined somewhere in the program, and what a word of
data refers to before it.
-/

namespace WordAsm

namespace Source

/-- A value operand: a number, or the name of a label. -/
inductive Value where
  | literal (n : Int)
  | label (name : Text)
  deriving DecidableEq

/-- The operands of an instruction of a format. -/
inductive Arguments : Format → Type where
  | register (destination source target : Register) : Arguments .register
  | immediate (destination source : Register) (value : Value) : Arguments .immediate
  | upper (destination : Register) (value : Value) : Arguments .upper
  | link (destination source : Register) : Arguments .link
  | jump (value : Value) : Arguments .jump
  | halt : Arguments .halt

/-- One item of a program. -/
inductive Item where
  | instruction (label : Option Text) (m : Mnemonic) (arguments : Arguments m.format)
  | fill (label : Text) (value : Value)
  | space (label : Text) (size : Nat)

/-- The label that an item defines. -/
def Item.label? : Item → Option Text
  | instruction label _ _ => label
  | fill label _ | space label _ => some label

/-- The labels of a program, in order. -/
def labels (p : List Item) : List Text :=
  p.filterMap Item.label?

/-! ## Writing -/

def Value.text : Value → Text
  | literal n => Numeral.decimal n
  | label name => name

/-- A register is written as its number. -/
def registerText (r : Register) : Text :=
  Numeral.decimal (r.val : Int)

/-- The operands as texts, in the order in which they are written. -/
def Arguments.parts {f : Format} : Arguments f → List Text
  | register d s t => [registerText d, registerText s, registerText t]
  | immediate d s v => [registerText d, registerText s, v.text]
  | upper d v => [registerText d, v.text]
  | link d s => [registerText d, registerText s]
  | jump v => [v.text]
  | halt => []

def Arguments.text {f : Format} (a : Arguments f) : Text :=
  [','].intercalate a.parts

/-- The fields of an item; a halt has no operands and so no field for them. -/
def Item.fields : Item → List Text
  | instruction label m a =>
      label.toList ++ m.name.toList :: (if m = .halt then [] else [a.text])
  | fill label v => [label, Directive.fill.name.toList, v.text]
  | space label n => [label, Directive.space.name.toList, Numeral.decimal n]

/-- The line of an item: its fields with single spaces between them. -/
def Item.line (x : Item) : Text :=
  [' '].intercalate x.fields

/-! ## What programs are well formed -/

/-- A number in a range, or the name of one of the given labels. -/
def Value.Allowed (labels : List Text) (low high : Int) : Value → Prop
  | literal n => low ≤ n ∧ n ≤ high
  | label name => name ∈ labels

/-- The destination is not register zero, but for a branch; a literal fits the format; a label is
one of those given.  A jump to a label of the name of the halt command cannot be written. -/
def Arguments.Allowed (m : Mnemonic) (labels : List Text) {f : Format} : Arguments f → Prop
  | register d _ _ => d ≠ 0
  | immediate d _ v => (m = .beq ∨ d ≠ 0) ∧ v.Allowed labels (-65536) 65535
  | upper d v => d ≠ 0 ∧ v.Allowed labels (-65536) 65535
  | link d _ => d ≠ 0
  | jump v => v ≠ .label Mnemonic.halt.name.toList ∧ v.Allowed labels 0 65535
  | halt => True

/-- An item may stand at an index of a program.  A word of data may name labels of earlier items
only. -/
def Item.Allowed (p : List Item) (index : Nat) : Item → Prop
  | instruction label m a =>
      (∀ l ∈ label, Line.IsLabel l ∧ l.length ≤ 6) ∧ a.Allowed m (labels p)
  | fill label v =>
      Line.IsLabel label ∧ index ≤ 8192 ∧ v.Allowed (labels (p.take index)) (-2 ^ 32) (2 ^ 32 - 1)
  | space label n => Line.IsLabel label ∧ 1 ≤ n ∧ index + n ≤ 8192

/-- A program is not too long, no label is defined twice, and every item may stand where it is. -/
structure WellFormed (p : List Item) : Prop where
  length_le : p.length ≤ 65536
  nodup : (labels p).Nodup
  items : ∀ x ∈ p.zipIdx, x.1.Allowed p x.2

section Decidable

instance (labels : List Text) (low high : Int) :
    (v : Value) → Decidable (v.Allowed labels low high)
  | .literal _ => inferInstanceAs (Decidable (_ ∧ _))
  | .label name => inferInstanceAs (Decidable (name ∈ labels))

instance (m : Mnemonic) (labels : List Text) {f : Format} :
    (a : Arguments f) → Decidable (a.Allowed m labels)
  | .register d _ _ => inferInstanceAs (Decidable (d ≠ 0))
  | .immediate .. => inferInstanceAs (Decidable (_ ∧ _))
  | .upper .. => inferInstanceAs (Decidable (_ ∧ _))
  | .link d _ => inferInstanceAs (Decidable (d ≠ 0))
  | .jump _ => inferInstanceAs (Decidable (_ ∧ _))
  | .halt => isTrue trivial

instance (p : List Item) (index : Nat) : (x : Item) → Decidable (x.Allowed p index)
  | .instruction .. => inferInstanceAs (Decidable (_ ∧ _))
  | .fill .. => inferInstanceAs (Decidable (_ ∧ _ ∧ _))
  | .space .. => inferInstanceAs (Decidable (_ ∧ _ ∧ _))

instance (p : List Item) : Decidable (WellFormed p) :=
  decidable_of_iff (p.length ≤ 65536 ∧ (labels p).Nodup ∧ ∀ x ∈ p.zipIdx, x.1.Allowed p x.2)
    ⟨fun ⟨hlength, hnodup, hitems⟩ => ⟨hlength, hnodup, hitems⟩,
      fun ⟨hlength, hnodup, hitems⟩ => ⟨hlength, hnodup, hitems⟩⟩

end Decidable

/-- A value whose label, if it is one, has the form of a label. -/
def Value.IsNamed : Value → Prop
  | literal _ => True
  | label name => Line.IsLabel name

/-- The value among the operands, in the formats that have one. -/
def Arguments.value? {f : Format} : Arguments f → Option Value
  | immediate _ _ v | upper _ v | jump v => some v
  | register .. | link .. | halt => none

theorem WellFormed.allowed {p : List Item} (h : WellFormed p) {index : Nat} {x : Item}
    (hx : p[index]? = some x) : x.Allowed p index :=
  h.items (x, index) (List.mem_zipIdx_iff_getElem?.2 hx)

theorem WellFormed.isLabel {p : List Item} (h : WellFormed p) {name : Text}
    (hname : name ∈ labels p) : Line.IsLabel name := by
  obtain ⟨x, hx, hlabel⟩ := List.mem_filterMap.1 hname
  obtain ⟨index, hindex⟩ := List.getElem?_of_mem hx
  have hallowed := h.allowed hindex
  cases x with
  | instruction label m a => exact (hallowed.1 name hlabel).1
  | fill label v =>
      obtain rfl := Option.some.inj hlabel
      exact hallowed.1
  | space label n =>
      obtain rfl := Option.some.inj hlabel
      exact hallowed.1

theorem Arguments.Allowed.value_allowed {f : Format} {a : Arguments f} {m : Mnemonic}
    {names : List Text} (h : a.Allowed m names) :
    ∀ v ∈ a.value?, v.Allowed names (-65536) 65535 := by
  rintro v hv
  cases a with
  | register d s t => cases hv
  | immediate d s v' =>
      obtain rfl := Option.some.inj hv
      exact h.2
  | upper d v' =>
      obtain rfl := Option.some.inj hv
      exact h.2
  | link d s => cases hv
  | jump v' =>
      obtain rfl := Option.some.inj hv
      cases v' with
      | literal n =>
          obtain ⟨-, hlow, hhigh⟩ := h
          exact ⟨by omega, hhigh⟩
      | label name => exact h.2
  | halt => cases hv

theorem WellFormed.isNamed {p : List Item} (h : WellFormed p) {v : Value} {names : List Text}
    {low high : Int} (hv : v.Allowed names low high) (hnames : names ⊆ labels p) : v.IsNamed := by
  cases v with
  | literal n => trivial
  | label name => exact h.isLabel (hnames hv)

end Source

end WordAsm
