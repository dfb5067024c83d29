import Std.Data.ExtTreeMap
import WordAsm.Text.Basic

/-!
# The label table

A table binds names to integers.  Two tables are equal when every name has the same value in
both, and a table lists its labels in the order of their code points.
-/

namespace WordAsm

/-- Labels and their values. -/
structure LabelTable where
  /-- The bindings, one for each name. -/
  bindings : Std.ExtTreeMap Text Int compare

namespace LabelTable

/-- The table without labels. -/
def empty : LabelTable := ⟨∅⟩

instance : EmptyCollection LabelTable := ⟨empty⟩

/-- The value of a label. -/
def find? (t : LabelTable) (name : Text) : Option Int :=
  t.bindings[name]?

/-- Whether a name is a label of the table. -/
def contains (t : LabelTable) (name : Text) : Bool :=
  (t.find? name).isSome

/-- Bind a name, in place of what it was bound to before. -/
def insert (t : LabelTable) (name : Text) (value : Int) : LabelTable :=
  ⟨t.bindings.insert name value⟩

/-- Remove a name, if it is there. -/
def erase (t : LabelTable) (name : Text) : LabelTable :=
  ⟨t.bindings.erase name⟩

/-- The table of a list of bindings, in which a later one wins. -/
def ofList (bindings : List (Text × Int)) : LabelTable :=
  bindings.foldl (fun t b => t.insert b.1 b.2) ∅

/-- The labels with their values, sorted by name. -/
def toList (t : LabelTable) : List (Text × Int) :=
  t.bindings.toList

@[ext] theorem ext {s t : LabelTable} (h : ∀ name, s.find? name = t.find? name) : s = t := by
  cases s
  cases t
  congr 1
  exact Std.ExtTreeMap.ext_getElem? h

@[simp] theorem find?_empty (name : Text) : (∅ : LabelTable).find? name = none :=
  Std.ExtTreeMap.getElem?_empty

theorem find?_insert (t : LabelTable) (name other : Text) (value : Int) :
    (t.insert name value).find? other = if name = other then some value else t.find? other := by
  simp [find?, insert, Std.ExtTreeMap.getElem?_insert]

theorem find?_erase (t : LabelTable) (name other : Text) :
    (t.erase name).find? other = if name = other then none else t.find? other := by
  simp [find?, erase, Std.ExtTreeMap.getElem?_erase]

end LabelTable

end WordAsm
