import WordAsm.Text.Basic

/-!
# Patterns of character runs

A pattern is a sequence of pieces, each a single character or a run of characters of one
class.  A run takes as many characters as it can and gives them back one at a time while
the pieces after it do not match, so of all ways to match at a place the greediest is taken,
earlier runs first.  A match is reported as the texts its pieces took, in order.

A pattern is a flat list of pieces without choice between them; a choice is made by trying
patterns in order.
-/

namespace WordAsm

/-- One piece of a pattern, over the class of characters it takes. -/
inductive Piece where
  /-- Exactly one character. -/
  | single (p : Char → Bool)
  /-- A run of at least one character. -/
  | oneOrMore (p : Char → Bool)
  /-- A run that may be empty. -/
  | zeroOrMore (p : Char → Bool)

namespace Pattern

/-- Put a character in front of the first text. -/
def consFirst (c : Char) : List Text → List Text
  | [] => []
  | t :: ts => (c :: t) :: ts

/-- The longest run of `p` after which `next` matches, with what `next` matched. -/
def longestRun (p : Char → Bool) (next : Text → Option (List Text)) :
    Text → Option (List Text)
  | [] => (next []).map ([] :: ·)
  | c :: s =>
      if p c then
        match longestRun p next s with
        | some ts => some (consFirst c ts)
        | none => (next (c :: s)).map ([] :: ·)
      else (next (c :: s)).map ([] :: ·)

/-- Match the pieces at the start of a text; the text may go on after them. -/
def matchStart : List Piece → Text → Option (List Text)
  | [], _ => some []
  | .single _ :: _, [] => none
  | .single p :: rest, c :: s => if p c then (matchStart rest s).map ([c] :: ·) else none
  | .oneOrMore _ :: _, [] => none
  | .oneOrMore p :: rest, c :: s =>
      if p c then (longestRun p (matchStart rest) s).map (consFirst c) else none
  | .zeroOrMore p :: rest, s => longestRun p (matchStart rest) s

/-- The number of characters a match took. -/
def matchLength (ts : List Text) : Nat :=
  ts.flatten.length

/-- All matches after the first `skip` characters, from left to right and without overlap.
The search goes on after each match, so `start` has to take a character where it matches. -/
def allMatchesFrom (start : Text → Option (List Text)) : Nat → Text → List (List Text)
  | _, [] => []
  | skip + 1, _ :: s => allMatchesFrom start skip s
  | 0, c :: s =>
      match start (c :: s) with
      | none => allMatchesFrom start 0 s
      | some ts => ts :: allMatchesFrom start (matchLength ts - 1) s

/-- All matches in a text, from left to right and without overlap. -/
def allMatches (start : Text → Option (List Text)) (t : Text) : List (List Text) :=
  allMatchesFrom start 0 t

theorem consFirst_flatten (c : Char) {ts : List Text} (h : ts ≠ []) :
    (consFirst c ts).flatten = c :: ts.flatten := by
  cases ts with
  | nil => exact absurd rfl h
  | cons t ts => rfl

theorem longestRun_ne_nil {p : Char → Bool} {next : Text → Option (List Text)} {s : Text}
    {ts : List Text} (h : longestRun p next s = some ts) : ts ≠ [] := by
  induction s generalizing ts with
  | nil =>
    obtain ⟨us, -, rfl⟩ := Option.map_eq_some_iff.1 h
    exact List.cons_ne_nil _ _
  | cons c s ih =>
    unfold longestRun at h
    split at h
    · split at h
      · rename_i us hus
        obtain rfl := Option.some.inj h
        cases us with
        | nil => exact absurd rfl (ih hus)
        | cons u us => exact List.cons_ne_nil _ _
      · obtain ⟨us, -, rfl⟩ := Option.map_eq_some_iff.1 h
        exact List.cons_ne_nil _ _
    · obtain ⟨us, -, rfl⟩ := Option.map_eq_some_iff.1 h
      exact List.cons_ne_nil _ _

/-- If `next` reports the start of its text, so does a run before it. -/
theorem longestRun_append {p : Char → Bool} {next : Text → Option (List Text)}
    (hnext : ∀ s ts, next s = some ts → ∃ rest, s = ts.flatten ++ rest)
    {s : Text} {ts : List Text} (h : longestRun p next s = some ts) :
    ∃ rest, s = ts.flatten ++ rest := by
  induction s generalizing ts with
  | nil =>
    obtain ⟨us, hus, rfl⟩ := Option.map_eq_some_iff.1 h
    simpa using hnext _ _ hus
  | cons c s ih =>
    unfold longestRun at h
    split at h
    · split at h
      · rename_i us hus
        obtain rfl := Option.some.inj h
        obtain ⟨rest, hrest⟩ := ih hus
        exact ⟨rest, by rw [consFirst_flatten c (longestRun_ne_nil hus), hrest]; rfl⟩
      · obtain ⟨us, hus, rfl⟩ := Option.map_eq_some_iff.1 h
        simpa using hnext _ _ hus
    · obtain ⟨us, hus, rfl⟩ := Option.map_eq_some_iff.1 h
      simpa using hnext _ _ hus

/-- A match reports the start of the text, piece by piece. -/
theorem matchStart_append {ps : List Piece} {s : Text} {ts : List Text}
    (h : matchStart ps s = some ts) : ∃ rest, s = ts.flatten ++ rest := by
  induction ps generalizing s ts with
  | nil =>
    obtain rfl := Option.some.inj h
    exact ⟨s, rfl⟩
  | cons piece ps ih =>
    cases piece with
    | single p =>
      cases s with
      | nil => cases h
      | cons c s =>
        unfold matchStart at h
        split at h
        · obtain ⟨us, hus, rfl⟩ := Option.map_eq_some_iff.1 h
          obtain ⟨rest, hrest⟩ := ih hus
          exact ⟨rest, by simp [← hrest]⟩
        · cases h
    | oneOrMore p =>
      cases s with
      | nil => cases h
      | cons c s =>
        unfold matchStart at h
        split at h
        · obtain ⟨us, hus, rfl⟩ := Option.map_eq_some_iff.1 h
          obtain ⟨rest, hrest⟩ := longestRun_append (fun _ _ => ih) hus
          exact ⟨rest, by rw [consFirst_flatten c (longestRun_ne_nil hus), hrest]; rfl⟩
        · cases h
    | zeroOrMore p =>
      unfold matchStart at h
      exact longestRun_append (fun _ _ => ih) h

end Pattern

end WordAsm
