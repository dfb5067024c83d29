import WordAsm.Proofs.LineFields
import WordAsm.Proofs.MatchPlaces

/-!
# Searching a text for lines

The fields of lines are looked for in a text that may hold any number of newlines.  The search goes
by the segments between newlines.  A segment with a blank after its first character is one match,
from its start to its end, and the other segments have none.

The search goes on behind a segment that has a match, and no match goes past a newline.  So a line
that is typed in is shown as an empty list or as a list of one entry.
-/

namespace WordAsm.Line

/-- The segments of a text that starts at `place`, each with the place where it starts. -/
def segmentsFrom : Nat → List Text → List (Nat × Text)
  | _, [] => []
  | place, s :: rest => (place, s) :: segmentsFrom (place + s.length + 1) rest

/-- A match takes all of a segment: the label with its gap, some blanks, the command, one blank and
the rest. -/
structure Covers (s : Text) (ts : List Text) (fields : LineFields) : Prop where
  flatten_eq : ts.flatten = s
  fields_eq : fieldsOf ts = some fields
  command_ne_nil : fields.command ≠ []
  text_eq : ∃ blanks x, s = fields.lead ++ (blanks ++ (fields.command ++ x :: fields.rest)) ∧
    (∀ c ∈ blanks, Text.isGap c = true) ∧ Text.isGap x = true

/-! ## What a match takes of a segment -/

section Segment

variable {s t : Text} {ts : List Text}

theorem inLine_of_newline_notMem (h : '\n' ∉ s) : ∀ c ∈ s, inLine c = true := by
  rintro c hc
  have hne : c ≠ '\n' := by
    rintro rfl
    exact h hc
  simpa [inLine] using hne

/-- A text with a blank is cut at its last blank. -/
theorem exists_last_gap (h : ∃ c ∈ t, Text.isGap c = true) :
    ∃ a g r, t = a ++ g :: r ∧ Text.isGap g = true ∧ ∀ c ∈ r, Text.isGap c = false := by
  induction t with
  | nil => simp at h
  | cons x t ih =>
      by_cases hmore : ∃ c ∈ t, Text.isGap c = true
      · obtain ⟨a, g, r, rfl, hg, hr⟩ := ih hmore
        exact ⟨x :: a, g, r, rfl, hg, hr⟩
      · have hnone : ∀ c ∈ t, Text.isGap c = false := by simpa using hmore
        obtain ⟨c, hc, hgap⟩ := h
        rcases List.mem_cons.1 hc with rfl | hc
        · exact ⟨[], c, t, rfl, hgap, hnone⟩
        · exact absurd ⟨c, hc, hgap⟩ hmore

/-- A blank after the first character leaves something before the last blank. -/
theorem exists_last_gap_of_tail (h : ∃ c ∈ t.tail, Text.isGap c = true) :
    ∃ a g r, t = a ++ g :: r ∧ a ≠ [] ∧ Text.isGap g = true ∧ ∀ c ∈ r, Text.isGap c = false := by
  cases t with
  | nil => simp at h
  | cons x t =>
      obtain ⟨a, g, r, heq, hg, hr⟩ := exists_last_gap h
      exact ⟨x :: a, g, r, by rw [List.cons_append, ← heq]; rfl, List.cons_ne_nil x a, hg, hr⟩

/-- The last blank of a text parts a command from the rest. -/
theorem matchStart_command_of_last_gap {a r : Text} {g : Char} (ha : a ≠ [])
    (hg : Text.isGap g = true) (hr : ∀ c ∈ r, Text.isGap c = false)
    (hline : ∀ c ∈ a ++ g :: r, inLine c = true) :
    Pattern.matchStart commandPieces (a ++ g :: r) = some [a, [g], r] :=
  matchStart_command ha (fun c hc => hline c (List.mem_append_left _ hc)) hg hr
    (fun c hc => hline c (List.mem_append_right a (List.mem_cons_of_mem g hc)))

/-- A command, a gap and the rest take the whole text, and the gap is its last blank. -/
theorem command_of_matchStart (hline : ∀ c ∈ t, inLine c = true)
    (h : Pattern.matchStart commandPieces t = some ts) :
    ∃ a g r, ts = [a, [g], r] ∧ t = a ++ g :: r ∧ a ≠ [] ∧ Text.isGap g = true := by
  obtain ⟨b, x, e, rfl, hb, hx⟩ := exists_gap_of_command h
  have htail : ∃ c ∈ (b ++ x :: e).tail, Text.isGap c = true := by
    obtain ⟨y, b, rfl⟩ := List.exists_cons_of_ne_nil hb
    exact ⟨x, by simp, hx⟩
  obtain ⟨a, g, r, heq, hne, hg, hr⟩ := exists_last_gap_of_tail htail
  rw [heq] at h hline ⊢
  have hmatch := matchStart_command_of_last_gap hne hg hr hline
  exact ⟨a, g, r, Option.some.inj (h.symm.trans hmatch), rfl, hne, hg⟩

/-- Without a label, a match takes some blanks first. -/
theorem body_of_matchStart (hline : ∀ c ∈ t, inLine c = true)
    (h : Pattern.matchStart bodyPieces t = some ts) :
    ∃ b a g r, ts = [b, a, [g], r] ∧ t = b ++ (a ++ g :: r) ∧ a ≠ [] ∧
      (∀ c ∈ b, Text.isGap c = true) ∧ Text.isGap g = true := by
  obtain ⟨b, e, us, rfl, rfl, hb, hus⟩ := Pattern.longestRun_takes h
  obtain ⟨a, g, r, rfl, rfl, hne, hg⟩ :=
    command_of_matchStart (fun c hc => hline c (List.mem_append_right b hc)) hus
  exact ⟨b, a, g, r, rfl, rfl, hne, hb, hg⟩

/-- With a label, a match takes a letter, word characters and a gap, and then as without one. -/
theorem label_pieces_of_matchStart (h : Pattern.matchStart labelledPieces t = some ts) :
    ∃ c w g e us, ts = [c] :: w :: g :: us ∧ t = c :: w ++ g ++ e ∧
      Pattern.matchStart bodyPieces e = some us := by
  cases t with
  | nil => cases h
  | cons c t =>
      unfold labelledPieces Pattern.matchStart at h
      split at h
      · obtain ⟨vs, hvs, rfl⟩ := Option.map_eq_some_iff.1 h
        obtain ⟨w, e, us, rfl, rfl, -, hus⟩ := Pattern.longestRun_takes hvs
        obtain ⟨g, e, us, rfl, rfl, -, hus⟩ := Pattern.matchStart_oneOrMore_takes hus
        exact ⟨c, w, g, e, us, rfl, by simp, hus⟩
      · cases h

/-- A match takes all of a text without newlines. -/
theorem exists_covers (hs : '\n' ∉ s) (h : matchStart s = some ts) :
    ∃ fields, Covers s ts fields := by
  have hline := inLine_of_newline_notMem hs
  unfold matchStart at h
  split at h
  · rename_i vs hvs
    obtain rfl := Option.some.inj h
    obtain ⟨c, w, gap, e, us, rfl, rfl, hus⟩ := label_pieces_of_matchStart hvs
    obtain ⟨b, a, g, r, rfl, rfl, hne, hb, hg⟩ :=
      body_of_matchStart (fun d hd => hline d (List.mem_append_right _ hd)) hus
    refine ⟨⟨[c] ++ w ++ gap, [c] ++ w, a, r⟩, ?_, rfl, hne, b, g, ?_, hb, hg⟩
    · simp
    · simp
  · obtain ⟨b, a, g, r, rfl, rfl, hne, hb, hg⟩ := body_of_matchStart hline h
    exact ⟨⟨[], [], a, r⟩, by simp, rfl, hne, b, g, rfl, hb, hg⟩

/-- A text without newlines has a match exactly if it has a blank after its first character. -/
theorem matchStart_isSome_iff (hs : '\n' ∉ s) :
    (matchStart s).isSome = true ↔ ∃ c ∈ s.tail, Text.isGap c = true := by
  constructor
  · intro h
    obtain ⟨ts, hts⟩ := Option.isSome_iff_exists.1 h
    obtain ⟨fields, hcovers⟩ := exists_covers hs hts
    obtain ⟨blanks, x, rfl, -, hx⟩ := hcovers.text_eq
    obtain ⟨y, command, hcommand⟩ := List.exists_cons_of_ne_nil hcovers.command_ne_nil
    refine ⟨x, ?_, hx⟩
    rw [hcommand, ← List.append_assoc]
    exact mem_tail_append (by simp)
  · intro h
    have hline := inLine_of_newline_notMem hs
    obtain ⟨a, g, r, rfl, hne, hg, hr⟩ := exists_last_gap_of_tail h
    have hcommand := matchStart_command_of_last_gap hne hg hr hline
    have hbody : Pattern.matchStart bodyPieces (a ++ g :: r) ≠ none :=
      Pattern.longestRun_ne_none hcommand
    unfold matchStart
    split
    · rfl
    · exact Option.isSome_iff_ne_none.2 hbody

end Segment

/-! ## The search goes by segments -/

section Search

variable {s : Text} {place : Nat}

theorem labelledPieces_newline : ∀ piece ∈ labelledPieces, piece.charClass '\n' = false := by
  decide +kernel

theorem bodyPieces_newline : ∀ piece ∈ bodyPieces, piece.charClass '\n' = false := by
  decide

/-- What stands after a newline does not matter for a match before it. -/
theorem matchStart_append_newline (s v : Text) : matchStart (s ++ '\n' :: v) = matchStart s := by
  rw [matchStart, matchStart, Pattern.matchStart_append_stop labelledPieces_newline,
    Pattern.matchStart_append_stop bodyPieces_newline]

/-- If a text has no match at its start then it has none anywhere. -/
theorem matchStart_eq_none_of_append {a b : Text} (hs : '\n' ∉ a ++ b)
    (h : matchStart (a ++ b) = none) : matchStart b = none := by
  have hb : '\n' ∉ b := fun hmem => hs (List.mem_append_right a hmem)
  by_contra hsome
  obtain ⟨c, hc, hgap⟩ := (matchStart_isSome_iff hb).1 (Option.isSome_iff_ne_none.2 hsome)
  have hwhole := (matchStart_isSome_iff hs).2 ⟨c, mem_tail_append hc, hgap⟩
  rw [h] at hwhole
  contradiction

/-- The search passes over a segment without a match. -/
theorem matchPlacesFrom_of_no_match {rest : Text}
    (hnone : ∀ a b, s = a ++ b → matchStart (b ++ rest) = none) :
    Pattern.matchPlacesFrom matchStart place 0 (s ++ rest) =
      Pattern.matchPlacesFrom matchStart (place + s.length) 0 rest := by
  induction s generalizing place with
  | nil => rfl
  | cons c s ih =>
      have hfirst : matchStart (c :: (s ++ rest)) = none := hnone [] (c :: s) rfl
      have hlater : ∀ a b, s = a ++ b → matchStart (b ++ rest) = none := by
        rintro a b rfl
        exact hnone (c :: a) b rfl
      rw [List.cons_append, Pattern.matchPlacesFrom_of_none hfirst, ih hlater]
      congr 1
      simp only [List.length_cons]
      omega

/-- A segment has its match at its start or none, and then the search goes on after it. -/
theorem matchPlacesFrom_segment (place : Nat) (hs : '\n' ∉ s) (rest : Text)
    (hrest : ∀ b, matchStart (b ++ rest) = matchStart b) :
    Pattern.matchPlacesFrom matchStart place 0 (s ++ rest) =
      ((matchStart s).map fun ts => (place, ts)).toList ++
        Pattern.matchPlacesFrom matchStart (place + s.length) 0 rest := by
  cases h : matchStart s with
  | none =>
      refine matchPlacesFrom_of_no_match fun a b heq => ?_
      rw [hrest]
      exact matchStart_eq_none_of_append (heq ▸ hs) (heq ▸ h)
  | some ts =>
      -- The match takes the whole segment, so the search starts again at its end.
      obtain ⟨fields, hcovers⟩ := exists_covers hs h
      have hlength : Pattern.matchLength ts = s.length := by
        rw [Pattern.matchLength, hcovers.flatten_eq]
      have hpos : 0 < s.length := by
        obtain ⟨blanks, x, rfl, -⟩ := hcovers.text_eq
        simp only [List.length_append, List.length_cons]
        omega
      have hne : s ++ rest ≠ [] := List.append_ne_nil_of_left_ne_nil (List.length_pos_iff.1 hpos) _
      rw [Pattern.matchPlacesFrom_of_some hne (hlength ▸ hpos) ((hrest s).trans h), hlength,
        List.drop_left]
      rfl

theorem matchPlacesFrom_of_newline_notMem (place : Nat) (hs : '\n' ∉ s) :
    Pattern.matchPlacesFrom matchStart place 0 s =
      ((matchStart s).map fun ts => (place, ts)).toList := by
  have hsegment := matchPlacesFrom_segment place hs [] fun b => by rw [List.append_nil]
  rw [List.append_nil] at hsegment
  rw [hsegment, Pattern.matchPlacesFrom, List.append_nil]

/-- Every text is a segment, or a segment, a newline and a shorter text. -/
theorem segment_induction {motive : Text → Prop} (last : ∀ s, '\n' ∉ s → motive s)
    (more : ∀ s v, '\n' ∉ s → motive v → motive (s ++ '\n' :: v)) (t : Text) : motive t := by
  by_cases h : '\n' ∈ t
  · obtain ⟨s, v, heq, hs⟩ := List.eq_append_cons_of_mem h
    have hshorter : v.length < t.length := by
      rw [heq]
      simp only [List.length_append, List.length_cons]
      omega
    rw [heq]
    exact more s v hs (segment_induction last more v)
  · exact last t h
termination_by t.length

theorem matchPlacesFrom_eq_segments (place : Nat) (t : Text) :
    Pattern.matchPlacesFrom matchStart place 0 t =
      (segmentsFrom place (t.splitOn '\n')).filterMap
        fun s => (matchStart s.2).map fun ts => (s.1, ts) := by
  induction t using segment_induction generalizing place with
  | last s hs =>
      rw [matchPlacesFrom_of_newline_notMem place hs, List.splitOn_eq_singleton hs]
      cases h : matchStart s with
      | none => simp [segmentsFrom, h]
      | some ts => simp [segmentsFrom, h]
  | more s v hs ih =>
      have hnewline : matchStart ('\n' :: v) = none := matchStart_append_newline [] v
      rw [matchPlacesFrom_segment place hs _ fun b => matchStart_append_newline b v,
        Pattern.matchPlacesFrom_of_none hnewline, ih,
        List.splitOn_append_cons_self_of_not_mem hs]
      cases h : matchStart s with
      | none => simp [segmentsFrom, h]
      | some ts => simp [segmentsFrom, h]

theorem map_snd_segmentsFrom (place : Nat) (segments : List Text) :
    (segmentsFrom place segments).map Prod.snd = segments := by
  induction segments generalizing place with
  | nil => rfl
  | cons s segments ih => rw [segmentsFrom, List.map_cons, ih]

/-- The fields in a text are those of its segments. -/
theorem findFields_eq_segments (t : Text) :
    findFields t = (t.splitOn '\n').filterMap fun s => (matchStart s).bind fieldsOf := by
  have hplaces : Pattern.allMatches matchStart t = (t.splitOn '\n').filterMap matchStart := by
    rw [← Pattern.map_snd_matchPlaces, Pattern.matchPlaces, matchPlacesFrom_eq_segments,
      List.map_filterMap]
    conv_rhs => rw [← map_snd_segmentsFrom 0 (t.splitOn '\n'), List.filterMap_map]
    refine List.filterMap_congr fun s _ => ?_
    rw [Option.map_map, Function.comp_apply]
    exact Option.map_id'
  rw [findFields, hplaces, List.filterMap_filterMap]

/-- A text without newlines has the fields of one line or none. -/
theorem findFields_of_newline_notMem (hs : '\n' ∉ s) :
    findFields s = ((matchStart s).bind fieldsOf).toList := by
  rw [findFields_eq_segments, List.splitOn_eq_singleton hs]
  cases h : (matchStart s).bind fieldsOf with
  | none => simp [h]
  | some fields => simp [h]

end Search

end WordAsm.Line

/-! ## What is printed -/

namespace WordAsm.Text

end WordAsm.Text

namespace WordAsm.Line

end WordAsm.Line
