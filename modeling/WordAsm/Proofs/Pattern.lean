import Mathlib.Data.List.Forall2
import WordAsm.Pattern

/-!
# What a match takes

A match takes a text of the right class for every piece, in order, from the start of the
text.  A run is the longest after which the rest still matches; a run that reaches a
character outside its class does not have to give anything back.
-/

namespace WordAsm

/-- A piece takes exactly the texts of its class and length. -/
def Piece.Takes : Piece → Text → Prop
  | .single p, t => ∃ c, p c = true ∧ t = [c]
  | .oneOrMore p, t => t ≠ [] ∧ ∀ c ∈ t, p c = true
  | .zeroOrMore p, t => ∀ c ∈ t, p c = true

namespace Pattern

section LongestRun

variable {p : Char → Bool} {next : Text → Option (List Text)}

/-- A run takes characters of its class, and the rest matches after it. -/
theorem longestRun_takes {s : Text} {ts : List Text} (h : longestRun p next s = some ts) :
    ∃ a b us, ts = a :: us ∧ s = a ++ b ∧ (∀ c ∈ a, p c = true) ∧ next b = some us := by
  induction s generalizing ts with
  | nil =>
      obtain ⟨us, hus, rfl⟩ := Option.map_eq_some_iff.1 h
      exact ⟨[], [], us, rfl, rfl, by simp, hus⟩
  | cons c s ih =>
      unfold longestRun at h
      split at h
      · rename_i hc
        split at h
        · rename_i vs hvs
          obtain ⟨a, b, us, rfl, rfl, ha, hus⟩ := ih hvs
          obtain rfl := Option.some.inj h
          refine ⟨c :: a, b, us, rfl, rfl, ?_, hus⟩
          simpa [hc] using ha
        · obtain ⟨us, hus, rfl⟩ := Option.map_eq_some_iff.1 h
          exact ⟨[], c :: s, us, rfl, rfl, by simp, hus⟩
      · obtain ⟨us, hus, rfl⟩ := Option.map_eq_some_iff.1 h
        exact ⟨[], c :: s, us, rfl, rfl, by simp, hus⟩

/-- Characters of the class in front of a run that matches belong to the run. -/
theorem longestRun_prepend {a s t : Text} {ts : List Text} (ha : ∀ c ∈ a, p c = true)
    (h : longestRun p next s = some (t :: ts)) :
    longestRun p next (a ++ s) = some ((a ++ t) :: ts) := by
  induction a with
  | nil => exact h
  | cons c a ih =>
      have hrest := ih fun d hd => ha d (List.mem_cons_of_mem c hd)
      simp [longestRun, ha c (by simp), hrest, consFirst]

/-- A run is empty before a character outside its class. -/
theorem longestRun_cons_of_not {c : Char} (hc : p c = false) (s : Text) :
    longestRun p next (c :: s) = (next (c :: s)).map ([] :: ·) := by
  simp [longestRun, hc]

/-- A run that ends at a character outside its class gives nothing back. -/
theorem longestRun_of_stop {a s : Text} {c : Char} {ts : List Text} (ha : ∀ d ∈ a, p d = true)
    (hc : p c = false) (hnext : next (c :: s) = some ts) :
    longestRun p next (a ++ c :: s) = some (a :: ts) := by
  have hempty : longestRun p next (c :: s) = some ([] :: ts) := by
    rw [longestRun_cons_of_not hc, hnext]
    rfl
  simpa using longestRun_prepend ha hempty

/-- A run that ends with the text gives nothing back. -/
theorem longestRun_of_end {a : Text} {ts : List Text} (ha : ∀ d ∈ a, p d = true)
    (hnext : next [] = some ts) : longestRun p next a = some (a :: ts) := by
  have hempty : longestRun p next [] = some ([] :: ts) := by
    simp [longestRun, hnext]
  simpa using longestRun_prepend ha hempty

/-- There is no run when the rest matches nowhere after one. -/
theorem longestRun_eq_none {s : Text}
    (h : ∀ a b, s = a ++ b → (∀ c ∈ a, p c = true) → next b = none) :
    longestRun p next s = none := by
  by_contra hsome
  obtain ⟨us, hus⟩ := Option.ne_none_iff_exists'.1 hsome
  obtain ⟨a, b, vs, -, hs, ha, hvs⟩ := longestRun_takes hus
  rw [h a b hs ha] at hvs
  contradiction

/-- A run ends at the last place after which the rest matches. -/
theorem longestRun_of_last {a s : Text} {c : Char} {ts : List Text} (ha : ∀ d ∈ a, p d = true)
    (hnext : next (c :: s) = some ts)
    (hlast : ∀ b e, s = b ++ e → next e = none) :
    longestRun p next (a ++ c :: s) = some (a :: ts) := by
  -- A longer run would end at some place of `s`, and the rest would match there.
  have hnone : longestRun p next s = none := longestRun_eq_none fun b e he _ => hlast b e he
  have hempty : longestRun p next (c :: s) = some ([] :: ts) := by
    unfold longestRun
    simp [hnone, hnext]
  simpa using longestRun_prepend ha hempty

end LongestRun

/-- A nonempty run takes characters of its class, and the rest matches after it. -/
theorem matchStart_oneOrMore_takes {p : Char → Bool} {ps : List Piece} {s : Text}
    {ts : List Text} (h : matchStart (.oneOrMore p :: ps) s = some ts) :
    ∃ a b us, ts = a :: us ∧ s = a ++ b ∧ (Piece.oneOrMore p).Takes a ∧
      matchStart ps b = some us := by
  cases s with
  | nil => cases h
  | cons c s =>
      unfold matchStart at h
      split at h
      · rename_i hc
        obtain ⟨vs, hvs, rfl⟩ := Option.map_eq_some_iff.1 h
        obtain ⟨a, b, us, rfl, rfl, ha, hus⟩ := longestRun_takes hvs
        refine ⟨c :: a, b, us, rfl, rfl, ⟨List.cons_ne_nil c a, ?_⟩, hus⟩
        simpa [hc] using ha
      · cases h

/-- Every piece of a match takes a text of its class. -/
theorem matchStart_takes {ps : List Piece} {s : Text} {ts : List Text}
    (h : matchStart ps s = some ts) : List.Forall₂ Piece.Takes ps ts := by
  induction ps generalizing s ts with
  | nil =>
      obtain rfl := Option.some.inj h
      exact .nil
  | cons piece ps ih =>
      cases piece with
      | single p =>
          cases s with
          | nil => cases h
          | cons c s =>
              unfold matchStart at h
              split at h
              · rename_i hc
                obtain ⟨us, hus, rfl⟩ := Option.map_eq_some_iff.1 h
                exact .cons ⟨c, hc, rfl⟩ (ih hus)
              · cases h
      | oneOrMore p =>
          obtain ⟨a, b, us, rfl, -, ha, hus⟩ := matchStart_oneOrMore_takes h
          exact .cons ha (ih hus)
      | zeroOrMore p =>
          unfold matchStart at h
          obtain ⟨a, b, us, rfl, -, ha, hus⟩ := longestRun_takes h
          exact .cons ha (ih hus)

theorem matchStart_oneOrMore_cons {p : Char → Bool} {c : Char} (hc : p c = true)
    (ps : List Piece) (s : Text) :
    matchStart (.oneOrMore p :: ps) (c :: s) =
      (longestRun p (matchStart ps) s).map (consFirst c) := by
  simp only [matchStart, hc, if_true]

theorem matchStart_oneOrMore_of_not {p : Char → Bool} {c : Char} (hc : p c = false)
    (ps : List Piece) (s : Text) : matchStart (.oneOrMore p :: ps) (c :: s) = none := by
  simp [matchStart, hc]

/-- A nonempty run before a character outside its class. -/
theorem matchStart_oneOrMore_stop {p : Char → Bool} {ps : List Piece} {a s : Text} {c : Char}
    {ts : List Text} (hne : a ≠ []) (ha : ∀ d ∈ a, p d = true) (hc : p c = false)
    (hrest : matchStart ps (c :: s) = some ts) :
    matchStart (.oneOrMore p :: ps) (a ++ c :: s) = some (a :: ts) := by
  obtain ⟨d, a, rfl⟩ := List.exists_cons_of_ne_nil hne
  have hrun : longestRun p (matchStart ps) (a ++ c :: s) = some (a :: ts) :=
    longestRun_of_stop (fun e he => ha e (List.mem_cons_of_mem d he)) hc hrest
  rw [List.cons_append, matchStart_oneOrMore_cons (ha d (by simp)), hrun]
  rfl

/-- A nonempty run at the end of the text. -/
theorem matchStart_oneOrMore_end {p : Char → Bool} {a : Text} (hne : a ≠ [])
    (ha : ∀ d ∈ a, p d = true) : matchStart [.oneOrMore p] a = some [a] := by
  obtain ⟨d, a, rfl⟩ := List.exists_cons_of_ne_nil hne
  have hrun : longestRun p (matchStart []) a = some [a] :=
    longestRun_of_end (fun e he => ha e (List.mem_cons_of_mem d he)) rfl
  rw [matchStart_oneOrMore_cons (ha d (by simp)), hrun]
  rfl

/-- A match at the start of a text that is not empty is the first of all matches. -/
theorem allMatches_head? {start : Text → Option (List Text)} {t : Text} {ts : List Text}
    (hne : t ≠ []) (h : start t = some ts) : (allMatches start t).head? = some ts := by
  obtain ⟨c, s, rfl⟩ := List.exists_cons_of_ne_nil hne
  simp [allMatches, allMatchesFrom, h]

/-- Everything found in a text is a match at some place of it. -/
theorem exists_of_mem_allMatchesFrom {start : Text → Option (List Text)} {skip : Nat} {t : Text}
    {ts : List Text} (h : ts ∈ allMatchesFrom start skip t) :
    ∃ k, start (t.drop k) = some ts := by
  fun_induction allMatchesFrom start skip t with
  | case1 => cases h
  | case2 c s skip ih =>
      obtain ⟨k, hk⟩ := ih h
      exact ⟨k + 1, hk⟩
  | case3 c s hnone ih =>
      obtain ⟨k, hk⟩ := ih h
      exact ⟨k + 1, hk⟩
  | case4 c s us hus ih =>
      rcases List.mem_cons.1 h with rfl | h
      · exact ⟨0, hus⟩
      · obtain ⟨k, hk⟩ := ih h
        exact ⟨k + 1, hk⟩

/-- With no piece after it, a run takes all characters of its class. -/
theorem longestRun_last (p : Char → Bool) (s : Text) :
    longestRun p (matchStart []) s = some [s.takeWhile p] := by
  induction s with
  | nil => rfl
  | cons c s ih =>
      by_cases hc : p c = true
      · simp [longestRun, hc, ih, consFirst]
      · simp [longestRun, hc, matchStart]

/-- The last run of a pattern ends with the text or at a character outside its class. -/
theorem matchStart_oneOrMore_last_iff {p : Char → Bool} {s : Text} {ts : List Text} :
    matchStart [.oneOrMore p] s = some ts ↔
      ∃ a b, ts = [a] ∧ s = a ++ b ∧ (Piece.oneOrMore p).Takes a ∧
        ∀ c ∈ b.head?, p c = false := by
  constructor
  · intro h
    cases s with
    | nil => cases h
    | cons c s =>
        unfold matchStart at h
        split at h
        · rename_i hc
          rw [longestRun_last] at h
          obtain rfl := Option.some.inj h
          refine ⟨c :: s.takeWhile p, s.dropWhile p, rfl, ?_, ⟨List.cons_ne_nil _ _, ?_⟩, ?_⟩
          · rw [List.cons_append, List.takeWhile_append_dropWhile]
          · simpa [hc] using List.all_eq_true.1 (List.all_takeWhile (l := s) (p := p))
          · intro d hd
            have hstop := List.head?_dropWhile_not p s
            rwa [hd] at hstop
        · cases h
  · rintro ⟨a, b, rfl, rfl, ⟨hne, ha⟩, hb⟩
    cases b with
    | nil => simpa using matchStart_oneOrMore_end hne ha
    | cons c b => exact matchStart_oneOrMore_stop hne ha (hb c rfl) rfl

/-- The first of all matches stands at the first place where there is one. -/
theorem allMatches_head?_eq_some_iff {start : Text → Option (List Text)} {t : Text}
    {ts : List Text} :
    (allMatches start t).head? = some ts ↔
      ∃ k < t.length, start (t.drop k) = some ts ∧ ∀ j < k, start (t.drop j) = none := by
  induction t with
  | nil => simp [allMatches, allMatchesFrom]
  | cons c t ih =>
      cases hstart : start (c :: t) with
      | some us =>
          rw [allMatches_head? (List.cons_ne_nil c t) hstart]
          constructor
          · rintro ⟨⟩
            exact ⟨0, by simp, hstart, fun j hj => absurd hj (Nat.not_lt_zero j)⟩
          · rintro ⟨k, -, hts, hfirst⟩
            cases k with
            | zero => exact hstart.symm.trans hts
            | succ k => exact absurd (hstart.symm.trans (hfirst 0 (by omega))) (by simp)
      | none =>
          have hskip : allMatches start (c :: t) = allMatches start t := by
            simp [allMatches, allMatchesFrom, hstart]
          -- Nothing matches here, so every place of the rest comes one later.
          rw [hskip, ih]
          constructor
          · rintro ⟨k, hk, hts, hfirst⟩
            refine ⟨k + 1, by simpa using hk, hts, fun j hj => ?_⟩
            cases j with
            | zero => exact hstart
            | succ j => exact hfirst j (by omega)
          · rintro ⟨k, hk, hts, hfirst⟩
            cases k with
            | zero => exact absurd (hstart.symm.trans hts) (by simp)
            | succ k =>
                exact ⟨k, by simpa using hk, hts, fun j hj => hfirst (j + 1) (by omega)⟩

end Pattern

end WordAsm
