import WordAsm.Statement
import WordAsm.Proofs.LineFields

/-!
# Statements of lines of fields

What a line of fields says depends on which of them is taken for the label.  With single gaps
two fields are a command and its operands, and three are a label, a command and its operands.
With wider gaps the same holds, except for two fields with a wide gap after a label and for
three fields that do not start with a label.

The label field is a letter and then word characters, or it is empty.  The label of a halt is
whatever stands in the command field, unchecked.
-/

namespace WordAsm

open Line

theorem Mnemonic.isField_name (m : Mnemonic) : IsField m.name.toList := by
  refine isField_of_isOperandChar ?_ (List.all_eq_true.1 ?_)
  · cases m <;> decide
  · cases m <;> decide +kernel

theorem Directive.isField_name (d : Directive) : IsField d.name.toList := by
  have hblank : d.name.toList.all (!Text.isBlank ·) = true := by cases d <;> decide
  have hcomment : d.name.toList.all (· != '#') = true := by cases d <;> decide
  refine ⟨by cases d <;> decide, ?_, ?_⟩
  · simpa using hblank
  · simpa using hcomment

/-- The name of a directive starts with a dot, which is no letter. -/
theorem Line.IsLabel.ne_directive {label : Text} (h : IsLabel label) (d : Directive) :
    label ≠ d.name.toList := by
  obtain ⟨c, s, rfl, hc, -⟩ := h.exists_cons
  intro heq
  have hhead : c = '.' := by
    cases d <;> exact (List.cons.inj heq).1
  rw [hhead] at hc
  exact absurd hc (by decide)

theorem Mnemonic.name_ne_directive (m : Mnemonic) (d : Directive) :
    m.name.toList ≠ d.name.toList := by
  cases m <;> cases d <;> decide

namespace Statement

variable {a b c gap gap' : Text}

/-! ## Statements by their fields -/

theorem labelOf_eq_some_iff {label l : Text} : labelOf label = some l ↔ label ≠ [] ∧ label = l := by
  simp [labelOf]

theorem labelOf_of_ne_nil {label : Text} (h : label ≠ []) : labelOf label = some label :=
  labelOf_eq_some_iff.2 ⟨h, rfl⟩

theorem ofFields_instruction {label command rest : Text}
    (hcommand : ∀ d : Directive, command ≠ d.name.toList)
    (hrest : rest ≠ Mnemonic.halt.name.toList) :
    ofFields label command rest = .instruction (labelOf label) command rest := by
  rw [ofFields, if_neg (hcommand .fill), if_neg (hcommand .space), if_neg hrest]

theorem ofFields_halt {label command : Text}
    (hcommand : ∀ d : Directive, command ≠ d.name.toList) :
    ofFields label command Mnemonic.halt.name.toList = .halt (some command) := by
  rw [ofFields, if_neg (hcommand .fill), if_neg (hcommand .space), if_pos rfl]

/-- A line is a halt alone, or it has fields, and the label is a label or empty. -/
theorem ofLine?_cases {line : Text} {s : Statement} (h : ofLine? line = some s) :
    s = .halt none ∨ ∃ label command rest, (label = [] ∨ IsLabel label) ∧
      s = ofFields label command rest := by
  unfold ofLine? at h
  split at h
  · rename_i fields hfields
    exact .inr ⟨_, _, _, label_of_split? hfields, (Option.some.inj h).symm⟩
  · split at h
    · exact .inl (Option.some.inj h).symm
    · cases h

/-! ## Lines with gaps of any width -/

/-- Two fields with a wide gap after a label. -/
theorem ofLine?_wide (ha : IsLabel a) (hgap : IsGapRun gap) (hwide : 3 ≤ gap.length)
    (hb : IsField b) : ofLine? (a ++ (gap ++ b)) = some (ofFields a [] b) := by
  obtain ⟨before, x, y, rfl, hbefore, hx, hy⟩ := hgap.exists_wide hwide
  have hsplit := split?_of_wide ha hbefore hx hy hb.not_gap hb.inLine
  have hblank : Text.trim [x] = [] := by
    have hxblank := Text.isBlank_of_isGap hx
    simp [Text.trim, Text.trimEnd, hxblank]
  rw [List.append_assoc, ofLine?, show [x, y] ++ b = x :: y :: b from rfl, hsplit]
  simp only [hblank, Text.trim_of_no_blank hb.not_blank]

/-- Two fields otherwise. -/
theorem ofLine?_narrow (ha : IsField a) (hgap : IsGapRun gap)
    (hnarrow : IsLabel a → gap.length ≤ 2) (hb : IsField b) :
    ofLine? (a ++ (gap ++ b)) = some (ofFields [] a b) := by
  have hnone := matchStart_label_eq_none_of_narrow ha.not_gap hgap hnarrow hb.not_gap
  obtain ⟨before, x, rfl, hbefore, hx⟩ := hgap.exists_last
  have htext : a ++ (before ++ [x] ++ b) = a ++ before ++ x :: b := by simp
  rw [htext] at hnone ⊢
  have hsplit := split?_of_no_label hnone (by simp [ha.ne_nil]) (ha.not_gap_first before)
    (inLine_append_gap ha.inLine hbefore) hx hb.not_gap hb.inLine
  rw [ofLine?, hsplit]
  simp only [ha.isClean.trim_append_gap hbefore, Text.trim_of_no_blank hb.not_blank]

/-- Three fields, the first of them a label. -/
theorem ofLine?_label (ha : IsLabel a) (hgap : IsGapRun gap) (hb : IsField b)
    (hgap' : IsGapRun gap') (hc : IsField c) :
    ofLine? (a ++ (gap ++ (b ++ (gap' ++ c)))) = some (ofFields a b c) := by
  obtain ⟨before, x, rfl, hbefore, hx⟩ := hgap'.exists_last
  have htext : b ++ (before ++ [x] ++ c) = b ++ before ++ x :: c := by simp
  have hsplit := split?_of_label ha hgap (by simp [hb.ne_nil]) (hb.not_gap_first before)
    (inLine_append_gap hb.inLine hbefore) hx hc.not_gap hc.inLine
  rw [htext, ofLine?, hsplit]
  simp only [hb.isClean.trim_append_gap hbefore, Text.trim_of_no_blank hc.not_blank]

/-- Three fields, the first of them no label. -/
theorem ofLine?_no_label (ha : IsField a) (hlabel : ¬ IsLabel a) (hgap : IsGapRun gap)
    (hb : IsField b) (hgap' : IsGapRun gap') (hc : IsField c) :
    ofLine? (a ++ (gap ++ (b ++ (gap' ++ c)))) = some (ofFields [] (a ++ (gap ++ b)) c) := by
  obtain ⟨before, x, rfl, hbefore, hx⟩ := hgap'.exists_last
  have htext : a ++ (gap ++ (b ++ (before ++ [x] ++ c))) =
      a ++ (gap ++ b) ++ before ++ x :: c := by simp
  have hnone : Pattern.matchStart labelledPieces (a ++ (gap ++ b) ++ before ++ x :: c) = none := by
    obtain ⟨y, gap, rfl⟩ := List.exists_cons_of_ne_nil hgap.ne_nil
    have hfirst := matchStart_label_eq_none (u := gap ++ (b ++ (before ++ x :: c))) ha.not_gap
      hlabel (hgap.isGap y List.mem_cons_self)
    simpa using hfirst
  have hline : ∀ d ∈ a ++ (gap ++ b), inLine d = true := by
    intro d hd
    rw [← List.append_assoc] at hd
    rcases List.mem_append.1 hd with hd | hd
    · exact inLine_append_gap ha.inLine hgap.isGap d hd
    · exact hb.inLine d hd
  have hfirst : ∀ d ∈ (a ++ (gap ++ b) ++ before).head?, Text.isGap d = false := by
    simpa using ha.not_gap_first (gap ++ (b ++ before))
  have hsplit := split?_of_no_label hnone (by simp [ha.ne_nil]) hfirst
    (inLine_append_gap hline hbefore) hx hc.not_gap hc.inLine
  rw [htext, ofLine?, hsplit]
  simp only [(ha.isClean.append_gapRun hgap hb.isClean).trim_append_gap hbefore,
    Text.trim_of_no_blank hc.not_blank]

/-! ## Lines with single gaps -/

theorem ofLine?_two {command rest : Text} (hcommand : IsField command) (hrest : IsField rest) :
    ofLine? (command ++ ' ' :: rest) = some (ofFields [] command rest) :=
  ofLine?_narrow hcommand .single (by simp) hrest

theorem ofLine?_three {label command rest : Text} (hlabel : IsLabel label)
    (hcommand : IsField command) (hrest : IsField rest) :
    ofLine? (label ++ ' ' :: (command ++ ' ' :: rest)) = some (ofFields label command rest) :=
  ofLine?_label hlabel .single hcommand .single hrest

end Statement

end WordAsm
