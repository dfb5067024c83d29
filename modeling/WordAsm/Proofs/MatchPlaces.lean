import WordAsm.Proofs.Pattern

/-!
# Where matches stand

The search for all matches goes through a text from left to right and starts again where a match
ends.  Here every match is found together with the place where it starts.  The matches come in
order and do not overlap, and outside of them nothing matches at any place.

This holds of any way to match that takes a character wherever it matches.  Nothing is said about
matches that start inside another one, since the search passes over them.
-/

namespace WordAsm

/-- The characters that a piece takes. -/
def Piece.charClass : Piece → Char → Bool
  | .single p | .oneOrMore p | .zeroOrMore p => p

namespace Pattern

/-- All matches after the first `skip` characters of a text that starts at `place`, from left to
right and without overlap, each with the place where it starts. -/
def matchPlacesFrom (start : Text → Option (List Text)) :
    Nat → Nat → Text → List (Nat × List Text)
  | _, _, [] => []
  | place, skip + 1, _ :: s => matchPlacesFrom start (place + 1) skip s
  | place, 0, c :: s =>
      match start (c :: s) with
      | none => matchPlacesFrom start (place + 1) 0 s
      | some ts => (place, ts) :: matchPlacesFrom start (place + 1) (matchLength ts - 1) s

/-- All matches in a text, from left to right and without overlap, each with the place where it
starts. -/
def matchPlaces (start : Text → Option (List Text)) (t : Text) : List (Nat × List Text) :=
  matchPlacesFrom start 0 0 t

section Places

variable {start : Text → Option (List Text)} {place skip : Nat} {t : Text}

theorem map_snd_matchPlacesFrom (start : Text → Option (List Text)) (place skip : Nat) (t : Text) :
    (matchPlacesFrom start place skip t).map Prod.snd = allMatchesFrom start skip t := by
  fun_induction matchPlacesFrom start place skip t with
  | case1 => simp [allMatchesFrom]
  | case2 place skip c s ih => rw [ih, allMatchesFrom]
  | case3 place c s hnone ih => simp [allMatchesFrom, hnone, ih]
  | case4 place c s ts hts ih => simp [allMatchesFrom, hts, ih]

/-- Without their places they are the matches of the text. -/
theorem map_snd_matchPlaces (start : Text → Option (List Text)) (t : Text) :
    (matchPlaces start t).map Prod.snd = allMatches start t :=
  map_snd_matchPlacesFrom start 0 0 t

/-- A match stands at its place, and after the characters that are passed over. -/
theorem start_of_mem_matchPlacesFrom {k : Nat} {ts : List Text}
    (h : (k, ts) ∈ matchPlacesFrom start place skip t) :
    ∃ j, k = place + j ∧ skip ≤ j ∧ j < t.length ∧ start (t.drop j) = some ts := by
  fun_induction matchPlacesFrom start place skip t with
  | case1 => cases h
  | case2 place skip c s ih =>
      obtain ⟨j, rfl, hskip, hj, hstart⟩ := ih h
      exact ⟨j + 1, by omega, by omega, by simpa using hj, hstart⟩
  | case3 place c s hnone ih =>
      obtain ⟨j, rfl, hskip, hj, hstart⟩ := ih h
      exact ⟨j + 1, by omega, by omega, by simpa using hj, hstart⟩
  | case4 place c s us hus ih =>
      rcases List.mem_cons.1 h with heq | h
      · obtain ⟨rfl, rfl⟩ := Prod.mk.inj heq
        exact ⟨0, by omega, by omega, by simp, hus⟩
      · obtain ⟨j, rfl, hskip, hj, hstart⟩ := ih h
        exact ⟨j + 1, by omega, by omega, by simpa using hj, hstart⟩

theorem start_of_mem_matchPlaces {k : Nat} {ts : List Text} (h : (k, ts) ∈ matchPlaces start t) :
    k < t.length ∧ start (t.drop k) = some ts := by
  obtain ⟨j, rfl, -, hj, hstart⟩ := start_of_mem_matchPlacesFrom h
  rw [Nat.zero_add]
  exact ⟨hj, hstart⟩

/-- A match ends before the next one starts. -/
theorem pairwise_matchPlacesFrom :
    (matchPlacesFrom start place skip t).Pairwise fun m n => m.1 + matchLength m.2 ≤ n.1 := by
  fun_induction matchPlacesFrom start place skip t with
  | case1 => exact .nil
  | case2 place skip c s ih => exact ih
  | case3 place c s hnone ih => exact ih
  | case4 place c s ts hts ih =>
      refine .cons ?_ ih
      rintro ⟨k, us⟩ hmem
      obtain ⟨j, rfl, hskip, -⟩ := start_of_mem_matchPlacesFrom hmem
      change place + matchLength ts ≤ place + 1 + j
      omega

/-- Where no match stands nothing matches, provided that every match takes a character. -/
theorem start_eq_none_of_matchPlacesFrom
    (hpos : ∀ s ts, start s = some ts → 0 < matchLength ts) {j : Nat} (hskip : skip ≤ j)
    (hj : j < t.length)
    (hfree : ∀ m ∈ matchPlacesFrom start place skip t,
      place + j < m.1 ∨ m.1 + matchLength m.2 ≤ place + j) :
    start (t.drop j) = none := by
  fun_induction matchPlacesFrom start place skip t generalizing j with
  | case1 => simp at hj
  | case2 place skip c s ih =>
      obtain ⟨i, rfl⟩ := Nat.exists_eq_add_of_le' (show 1 ≤ j by omega)
      refine ih (by omega) (by simpa using hj) fun m hm => ?_
      have hm := hfree m hm
      omega
  | case3 place c s hnone ih =>
      cases j with
      | zero => exact hnone
      | succ i =>
          refine ih (by omega) (by simpa using hj) fun m hm => ?_
          have hm := hfree m hm
          omega
  | case4 place c s ts hts ih =>
      rw [List.forall_mem_cons] at hfree
      obtain ⟨hhere, hlater⟩ := hfree
      have hlength := hpos _ _ hts
      -- The place is not inside the match, so it comes after what the search passes over.
      have hafter : matchLength ts ≤ j := by
        rcases hhere with hhere | hhere
        · change place + j < place at hhere
          omega
        · change place + matchLength ts ≤ place + j at hhere
          omega
      obtain ⟨i, rfl⟩ := Nat.exists_eq_add_of_le' (show 1 ≤ j by omega)
      refine ih (by omega) (by simpa using hj) fun m hm => ?_
      have hm := hlater m hm
      omega

theorem start_eq_none_of_matchPlaces (hpos : ∀ s ts, start s = some ts → 0 < matchLength ts)
    {j : Nat} (hj : j < t.length)
    (hfree : ∀ m ∈ matchPlaces start t, j < m.1 ∨ m.1 + matchLength m.2 ≤ j) :
    start (t.drop j) = none := by
  have hfree' : ∀ m ∈ matchPlacesFrom start 0 0 t,
      0 + j < m.1 ∨ m.1 + matchLength m.2 ≤ 0 + j := by
    intro m hm
    rw [Nat.zero_add]
    exact hfree m hm
  exact start_eq_none_of_matchPlacesFrom hpos (Nat.zero_le j) hj hfree'

/-- What is passed over does not matter but for its length. -/
theorem matchPlacesFrom_drop (start : Text → Option (List Text)) (place skip : Nat) (t : Text) :
    matchPlacesFrom start place skip t = matchPlacesFrom start (place + skip) 0 (t.drop skip) := by
  induction t generalizing place skip with
  | nil => simp [matchPlacesFrom]
  | cons c t ih =>
      cases skip with
      | zero => rfl
      | succ skip =>
          rw [matchPlacesFrom, ih, List.drop_succ_cons]
          congr 1
          omega

theorem matchPlacesFrom_of_none {c : Char} (h : start (c :: t) = none) :
    matchPlacesFrom start place 0 (c :: t) = matchPlacesFrom start (place + 1) 0 t := by
  simp [matchPlacesFrom, h]

/-- After a match the search goes on where the match ends. -/
theorem matchPlacesFrom_of_some {ts : List Text} (hne : t ≠ []) (hpos : 0 < matchLength ts)
    (h : start t = some ts) :
    matchPlacesFrom start place 0 t = (place, ts) ::
      matchPlacesFrom start (place + matchLength ts) 0 (t.drop (matchLength ts)) := by
  obtain ⟨c, s, rfl⟩ := List.exists_cons_of_ne_nil hne
  obtain ⟨n, hn⟩ := Nat.exists_eq_add_of_le' hpos
  simp only [matchPlacesFrom, h]
  rw [matchPlacesFrom_drop, hn, List.drop_succ_cons, Nat.add_sub_cancel]
  congr 2
  omega

end Places

/-- A run may be empty, so there is one wherever the rest matches. -/
theorem longestRun_ne_none {p : Char → Bool} {next : Text → Option (List Text)} {s : Text}
    {ts : List Text} (h : next s = some ts) : longestRun p next s ≠ none := by
  cases s with
  | nil => simp [longestRun, h]
  | cons c s =>
      unfold longestRun
      split
      · split
        · simp
        · simp [h]
      · simp [h]

/-! ## Texts that no match gets past -/

section Stop

variable {c : Char} {u : Text}

theorem longestRun_append_stop {p : Char → Bool} {next next' : Text → Option (List Text)}
    (hc : p c = false) (hnext : ∀ s, next (s ++ c :: u) = next' s) (s : Text) :
    longestRun p next (s ++ c :: u) = longestRun p next' s := by
  induction s with
  | nil =>
      have hempty := hnext []
      rw [List.nil_append] at hempty ⊢
      rw [longestRun_cons_of_not hc, hempty, longestRun]
  | cons d s ih =>
      have hwhole := hnext (d :: s)
      rw [List.cons_append] at hwhole ⊢
      rw [longestRun, longestRun, ih, hwhole]

/-- A match does not get past a character that none of its pieces takes, and what stands after it
does not matter. -/
theorem matchStart_append_stop {ps : List Piece} (hps : ∀ piece ∈ ps, piece.charClass c = false)
    (s : Text) : matchStart ps (s ++ c :: u) = matchStart ps s := by
  induction ps generalizing s with
  | nil => simp [matchStart]
  | cons piece ps ih =>
      rw [List.forall_mem_cons] at hps
      obtain ⟨hc, hps⟩ := hps
      cases piece with
      | single p =>
          cases s with
          | nil => exact if_neg (by simpa [Piece.charClass] using hc)
          | cons d s => rw [List.cons_append, matchStart, matchStart, ih hps]
      | oneOrMore p =>
          cases s with
          | nil => exact if_neg (by simpa [Piece.charClass] using hc)
          | cons d s =>
              change p c = false at hc
              rw [List.cons_append, matchStart, matchStart, longestRun_append_stop hc (ih hps)]
      | zeroOrMore p =>
          change p c = false at hc
          rw [matchStart, matchStart, longestRun_append_stop hc (ih hps)]

end Stop

end Pattern

end WordAsm
