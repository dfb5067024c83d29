import Mathlib.Data.List.DropRight
import WordAsm.Proofs.LineSearch

/-!
# The split of a line in closed form

A line without white space at its ends is split by a search with four nested runs, which take and
give back blanks.  What comes out depends on two things alone: how the line goes on after the
longest start that can be a label, and where its last blank is.

The gap after a label may give two blanks back, one as the command and one as the gap after it.  It
does so only if no other blank is left, so a line of three fields is safe from this.
-/

namespace WordAsm.Line

/-- The longest start of a text that can be a label; empty if there is none. -/
def labelStart : Text → Text
  | [] => []
  | c :: s => if Text.isAsciiLetter c then c :: s.takeWhile Text.isWordChar else []

/-- The blanks after the longest start that can be a label. -/
def labelGap (t : Text) : Text :=
  (t.drop (labelStart t).length).takeWhile Text.isGap

/-- What stands after these blanks. -/
def afterLabel (t : Text) : Text :=
  (t.drop (labelStart t).length).dropWhile Text.isGap

/-- What stands before the last blank of a text. -/
def beforeLastGap (t : Text) : Text :=
  (t.rdropWhile (!Text.isGap ·)).dropLast

/-- What stands after the last blank of a text. -/
def afterLastGap (t : Text) : Text :=
  t.rtakeWhile (!Text.isGap ·)

/-- The fields of a line with a blank in it. -/
def closedFields (t : Text) : LineFields :=
  let label := labelStart t
  let gap := labelGap t
  let after := afterLabel t
  if label ≠ [] ∧ gap ≠ [] ∧ after.any Text.isGap then
    ⟨label ++ gap, label, beforeLastGap after, afterLastGap after⟩
  else if label ≠ [] ∧ 3 ≤ gap.length then
    ⟨label ++ gap.take (gap.length - 2), label, (gap.drop (gap.length - 2)).take 1, after⟩
  else
    ⟨[], [], beforeLastGap t, afterLastGap t⟩

/-! ## The longest label -/

section LongestLabel

variable {t v w : Text}

theorem labelStart_of_letter {c : Char} (hc : Text.isAsciiLetter c = true) (s : Text) :
    labelStart (c :: s) = c :: s.takeWhile Text.isWordChar :=
  if_pos hc

theorem labelStart_of_not_letter {c : Char} (hc : ¬ Text.isAsciiLetter c = true) (s : Text) :
    labelStart (c :: s) = [] :=
  if_neg hc

theorem labelStart_starts (t : Text) : labelStart t <+: t := by
  cases t with
  | nil => exact List.prefix_refl []
  | cons c s =>
      by_cases hc : Text.isAsciiLetter c = true
      · rw [labelStart_of_letter hc]
        exact List.cons_prefix_cons.2 ⟨rfl, List.takeWhile_prefix _⟩
      · rw [labelStart_of_not_letter hc]
        exact List.nil_prefix

theorem isLabel_labelStart (h : labelStart t ≠ []) : IsLabel (labelStart t) := by
  cases t with
  | nil => exact absurd rfl h
  | cons c s =>
      by_cases hc : Text.isAsciiLetter c = true
      · rw [labelStart_of_letter hc]
        exact ⟨hc, List.all_takeWhile⟩
      · exact absurd (labelStart_of_not_letter hc s) h

/-- A start that can be a label is no longer than the longest. -/
theorem labelStart_longest (hv : IsLabel v) (h : v <+: t) : v <+: labelStart t := by
  obtain ⟨u, rfl⟩ := h
  obtain ⟨c, s, rfl, hc, hs⟩ := hv.exists_cons
  rw [List.cons_append, labelStart_of_letter hc, List.takeWhile_append_of_pos hs]
  exact List.prefix_append (c :: s) _

/-- A label before a blank is the longest. -/
theorem labelStart_append_gap (hw : IsLabel w) {x : Char} (hx : Text.isGap x = true) (u : Text) :
    labelStart (w ++ x :: u) = w := by
  obtain ⟨c, s, rfl, hc, hs⟩ := hw.exists_cons
  rw [List.cons_append, labelStart_of_letter hc, List.takeWhile_append_of_pos hs,
    List.takeWhile_cons_of_neg (by simp [not_isWordChar_of_isGap hx]), List.append_nil]

theorem eq_label_gap_after (t : Text) : t = labelStart t ++ (labelGap t ++ afterLabel t) := by
  rw [labelGap, afterLabel, List.takeWhile_append_dropWhile]
  exact (List.prefix_iff_eq_append.1 (labelStart_starts t)).symm

theorem isGapRun_labelGap (h : labelGap t ≠ []) : IsGapRun (labelGap t) :=
  ⟨h, fun _ hc => List.mem_takeWhile_imp hc⟩

theorem not_isGap_head?_afterLabel : ∀ c ∈ (afterLabel t).head?, Text.isGap c = false := by
  intro c hc
  have hstop := List.head?_dropWhile_not Text.isGap (t.drop (labelStart t).length)
  rw [← afterLabel, hc] at hstop
  exact hstop

end LongestLabel

/-! ## The first and the last blank -/

section Gaps

variable {r : Text} {x : Char}

/-- A text with a blank is cut at its first blank. -/
theorem exists_first_gap {t : Text} (h : ∃ c ∈ t, Text.isGap c = true) :
    ∃ a g r, t = a ++ g :: r ∧ Text.isGap g = true ∧ ∀ c ∈ a, Text.isGap c = false := by
  obtain ⟨g, hfind⟩ := Option.isSome_iff_exists.1 (List.find?_isSome.2 h)
  obtain ⟨hg, a, r, rfl, ha⟩ := List.find?_eq_some_iff_append.1 hfind
  exact ⟨a, g, r, rfl, hg, by simpa using ha⟩

theorem beforeLastGap_append (a : Text) (hx : Text.isGap x = true)
    (hr : ∀ c ∈ r, Text.isGap c = false) : beforeLastGap (a ++ x :: r) = a := by
  have hdrop : (a ++ x :: r).rdropWhile (!Text.isGap ·) = a ++ [x] := by
    rw [List.rdropWhile, List.reverse_append, List.reverse_cons, List.append_assoc,
      List.dropWhile_append_of_pos (by simpa using hr)]
    simp [hx]
  rw [beforeLastGap, hdrop, List.dropLast_concat]

theorem afterLastGap_append (a : Text) (hx : Text.isGap x = true)
    (hr : ∀ c ∈ r, Text.isGap c = false) : afterLastGap (a ++ x :: r) = r := by
  rw [afterLastGap, List.rtakeWhile, List.reverse_append, List.reverse_cons, List.append_assoc,
    List.takeWhile_append_of_pos (by simpa using hr)]
  simp [hx]

end Gaps

/-! ## The three ways to split -/

section Ways

variable {t w g u : Text}

/-- With another blank after a label and its gap, the command reaches to the last blank. -/
theorem split?_of_gap_after (hw : IsLabel w) (hg : IsGapRun g)
    (hfirst : ∀ c ∈ u.head?, Text.isGap c = false) (hgap : ∃ c ∈ u, Text.isGap c = true)
    (hline : ∀ c ∈ u, inLine c = true) :
    split? (w ++ (g ++ u)) = some ⟨w ++ g, w, beforeLastGap u, afterLastGap u⟩ := by
  obtain ⟨a, x, r, rfl, hx, hr⟩ := exists_last_gap hgap
  have hne : a ≠ [] := by
    rintro rfl
    rw [hfirst x rfl] at hx
    contradiction
  obtain ⟨y, a, rfl⟩ := List.exists_cons_of_ne_nil hne
  rw [beforeLastGap_append _ hx hr, afterLastGap_append _ hx hr]
  exact split?_of_label hw hg hne hfirst (fun c hc => hline c (List.mem_append_left _ hc)) hx hr
    (fun c hc => hline c (by simp [hc]))

/-- Without one, a wide gap after a label gives two blanks back. -/
theorem split?_of_wide_gap (hw : IsLabel w) (hg : IsGapRun g) (hwide : 3 ≤ g.length)
    (hgap : ∀ c ∈ u, Text.isGap c = false) (hline : ∀ c ∈ u, inLine c = true) :
    split? (w ++ (g ++ u)) =
      some ⟨w ++ g.take (g.length - 2), w, (g.drop (g.length - 2)).take 1, u⟩ := by
  obtain ⟨b, x, y, rfl, hb, hx, hy⟩ := hg.exists_wide hwide
  have hlength : (b ++ [x, y]).length - 2 = b.length := by simp
  rw [hlength, List.take_left, List.drop_left, List.append_assoc]
  exact split?_of_wide hw hb hx hy hgap hline

/-- Without a label, the command reaches to the last blank. -/
theorem split?_of_last_gap (hlabel : Pattern.matchStart labelledPieces t = none)
    (hfirst : ∀ c ∈ t.head?, Text.isGap c = false) (hgap : ∃ c ∈ t, Text.isGap c = true)
    (hline : ∀ c ∈ t, inLine c = true) :
    split? t = some ⟨[], [], beforeLastGap t, afterLastGap t⟩ := by
  obtain ⟨a, x, r, rfl, hx, hr⟩ := exists_last_gap hgap
  have hne : a ≠ [] := by
    rintro rfl
    rw [hfirst x rfl] at hx
    contradiction
  obtain ⟨y, a, rfl⟩ := List.exists_cons_of_ne_nil hne
  rw [beforeLastGap_append _ hx hr, afterLastGap_append _ hx hr]
  exact split?_of_no_label hlabel hne hfirst (fun c hc => hline c (List.mem_append_left _ hc)) hx
    hr (fun c hc => hline c (by simp [hc]))

/-- There is no match with a label if no blank is left for the command to end at. -/
theorem matchStart_labelled_eq_none (hgap : ∃ c ∈ t, Text.isGap c = true)
    (hafter : labelStart t ≠ [] → labelGap t ≠ [] → ∀ c ∈ afterLabel t, Text.isGap c = false)
    (hnarrow : labelStart t ≠ [] → (labelGap t).length ≤ 2) :
    Pattern.matchStart labelledPieces t = none := by
  obtain ⟨a, x, v, rfl, hx, ha⟩ := exists_first_gap hgap
  by_cases hlabel : IsLabel a
  · have hstart : labelStart (a ++ x :: v) = a := labelStart_append_gap hlabel hx v
    have hne : a ≠ [] := hlabel.isField.ne_nil
    have hgapNe : labelGap (a ++ x :: v) ≠ [] := by
      rw [labelGap, hstart, List.drop_left, List.takeWhile_cons_of_pos hx]
      exact List.cons_ne_nil _ _
    rw [hstart] at hafter hnarrow
    have heq := eq_label_gap_after (a ++ x :: v)
    rw [hstart] at heq
    rw [heq]
    exact matchStart_label_eq_none_of_narrow ha (isGapRun_labelGap hgapNe) (fun _ => hnarrow hne)
      (hafter hne hgapNe)
  · exact matchStart_label_eq_none ha hlabel hx

end Ways

/-- The fields of a line with a blank that is not at its start, in closed form. -/
theorem split?_eq_closedFields {t : Text} (hfirst : ∀ c ∈ t.head?, Text.isGap c = false)
    (hgap : ∃ c ∈ t, Text.isGap c = true) (hline : ∀ c ∈ t, inLine c = true) :
    split? t = some (closedFields t) := by
  have heq := eq_label_gap_after t
  have hlineAfter : ∀ c ∈ afterLabel t, inLine c = true := by
    intro c hc
    apply hline
    rw [heq]
    simp [hc]
  unfold closedFields
  dsimp only
  split
  · rename_i h
    obtain ⟨hlabel, hgapNe, hany⟩ := h
    rw [List.any_eq_true] at hany
    conv_lhs => rw [heq]
    exact split?_of_gap_after (isLabel_labelStart hlabel) (isGapRun_labelGap hgapNe)
      not_isGap_head?_afterLabel hany hlineAfter
  · rename_i hnone
    have hafter : labelStart t ≠ [] → labelGap t ≠ [] →
        ∀ c ∈ afterLabel t, Text.isGap c = false := by
      intro hlabel hgapNe c hc
      have hany : (afterLabel t).any Text.isGap = false :=
        eq_false_of_ne_true fun hany => hnone ⟨hlabel, hgapNe, hany⟩
      exact eq_false_of_ne_true (List.any_eq_false.1 hany c hc)
    split
    · rename_i h
      obtain ⟨hlabel, hwide⟩ := h
      have hgapNe : labelGap t ≠ [] := List.ne_nil_of_length_pos (by omega)
      conv_lhs => rw [heq]
      exact split?_of_wide_gap (isLabel_labelStart hlabel) (isGapRun_labelGap hgapNe) hwide
        (hafter hlabel hgapNe) hlineAfter
    · rename_i hwide
      refine split?_of_last_gap (matchStart_labelled_eq_none hgap hafter ?_) hfirst hgap hline
      intro hlabel
      by_contra hlength
      exact hwide ⟨hlabel, by omega⟩

/-- The split of a line with no newline in it and no blank at its start.  Without a blank there is
no match.  Otherwise there is one match, which takes the whole line, and it gives the fields in
closed form.  These go by the longest start of the line that can be a label. -/
theorem line_has_closed_split {t : Text} (hnewline : '\n' ∉ t)
    (hfirst : ∀ c ∈ t.head?, Text.isGap c = false) :
    ((∀ c ∈ t, Text.isGap c = false) →
        Pattern.matchPlaces matchStart t = [] ∧ findFields t = []) ∧
      ((∃ c ∈ t, Text.isGap c = true) →
        findFields t = [closedFields t] ∧
          ∃ ts, Pattern.matchPlaces matchStart t = [(0, ts)] ∧ ts.flatten = t ∧
            fieldsOf ts = some (closedFields t)) ∧
      labelStart t <+: t ∧ (labelStart t ≠ [] → IsLabel (labelStart t)) ∧
      ∀ v, IsLabel v → v <+: t → v <+: labelStart t := by
  have hplaces : Pattern.matchPlaces matchStart t =
      ((matchStart t).map fun ts => (0, ts)).toList :=
    matchPlacesFrom_of_newline_notMem 0 hnewline
  have hfields := findFields_of_newline_notMem hnewline
  refine ⟨fun hnone => ?_, fun hgap => ?_, labelStart_starts t, isLabel_labelStart,
    fun v hv hprefix => labelStart_longest hv hprefix⟩
  · have hmatch : matchStart t = none := by
      by_contra hsome
      obtain ⟨c, hc, hgap⟩ :=
        (matchStart_isSome_iff hnewline).1 (Option.isSome_iff_ne_none.2 hsome)
      rw [hnone c (List.mem_of_mem_tail hc)] at hgap
      contradiction
    rw [hplaces, hfields, hmatch]
    exact ⟨rfl, rfl⟩
  · have hsplit := split?_eq_closedFields hfirst hgap (inLine_of_newline_notMem hnewline)
    rw [split?, hfields, Option.head?_toList] at hsplit
    obtain ⟨ts, hts, hclosed⟩ := Option.bind_eq_some_iff.1 hsplit
    obtain ⟨fields, hcovers⟩ := exists_covers hnewline hts
    rw [hfields, hsplit]
    exact ⟨rfl, ts, by rw [hplaces, hts]; rfl, hcovers.flatten_eq, hclosed⟩

/-- A wide gap after what can be a label, a label with a tab after it, and a line whose first
characters are no label. -/
theorem line_has_closed_split_ways :
    findFields "add   1,2,3".toList =
        [⟨"add ".toList, "add".toList, " ".toList, "1,2,3".toList⟩] ∧
      findFields "s\tadd  1 2,3".toList =
        [⟨"s\t".toList, "s".toList, "add  1".toList, "2,3".toList⟩] ∧
      findFields "1é add  2".toList = [⟨[], [], "1é add ".toList, "2".toList⟩] := by
  obtain ⟨-, hwide, -⟩ :=
    line_has_closed_split (t := "add   1,2,3".toList) (by decide) (by rintro c ⟨⟩; rfl)
  obtain ⟨-, hlabel, -⟩ :=
    line_has_closed_split (t := "s\tadd  1 2,3".toList) (by decide) (by rintro c ⟨⟩; rfl)
  obtain ⟨-, hplain, -⟩ :=
    line_has_closed_split (t := "1é add  2".toList) (by decide) (by rintro c ⟨⟩; rfl)
  refine ⟨(hwide ⟨' ', by decide, rfl⟩).1.trans ?_, (hlabel ⟨' ', by decide, rfl⟩).1.trans ?_,
    (hplain ⟨' ', by decide, rfl⟩).1.trans ?_⟩
  · decide +kernel
  · decide +kernel
  · decide +kernel

end WordAsm.Line
