import Mathlib.Data.List.Pairwise
import WordAsm.Proofs.Character
import WordAsm.Proofs.MatchPlaces
import WordAsm.Proofs.OperandForm

/-!
# Scanning a text for operands

Operands are found by a search that gives back characters and starts again after each match.  Its
outcome can be told without this: the operands found are runs that are as long as they get, with
commas between them, and no form of the format starts outside of them.

A number may also be the start of a word.  One match still cannot run into the next.  A word that
ends a match takes every digit after it, so the next match starts at least one character later.
-/

namespace WordAsm.Format

/-- The length of parts with commas between them. -/
def width (parts : List Text) : Nat :=
  ([','].intercalate parts).length

/-- All operands of a format that stand in a text, each without its commas, with the places where
they start. -/
def operandPlaces (f : Format) (t : Text) : List (Nat × List Text) :=
  (Pattern.matchPlaces (Pattern.matchStart f.pieces) t).map fun m => (m.1, groups m.2)

/-- Parts of a format stand at a place of a text, and none of them is part of a longer run. -/
structure StandsAt (f : Format) (t : Text) (place : Nat) (parts : List Text) : Prop where
  /-- There is a nonempty text of its class for every part. -/
  isParts : f.IsParts parts
  /-- The parts with commas between them stand at the place. -/
  text_eq : [','].intercalate parts <+: t.drop place
  /-- After a part comes no character of its class. -/
  ends : ∀ i p, f.classes[i]? = some p →
    ∀ c, t[place + width (parts.take (i + 1))]? = some c → p c = false
  /-- Before the first part comes no character of its class. -/
  begins : ∀ p ∈ f.classes.head?, ∀ k c, place = k + 1 → t[k]? = some c → p c = false

variable {f : Format} {t : Text}

/-! ## Parts and the runs they come from -/

theorem intercalate_append_of_ne_nil {xs ys : List Text} (hxs : xs ≠ []) (hys : ys ≠ []) :
    [','].intercalate (xs ++ ys) = [','].intercalate xs ++ ',' :: [','].intercalate ys := by
  induction xs with
  | nil => exact absurd rfl hxs
  | cons x xs ih =>
      cases xs with
      | nil => simp [List.intercalate_cons_of_ne_nil hys]
      | cons z xs =>
          have hrest := ih (List.cons_ne_nil z xs)
          rw [List.cons_append] at hrest
          simp only [List.cons_append, List.intercalate_cons_cons, hrest, List.append_assoc]

/-- After a part comes a comma, or the part is the last and cannot go on. -/
theorem IsParts.ends {parts : List Text} {rest : Text} (hparts : f.IsParts parts)
    (hstop : ∀ c ∈ rest.head?, ∀ p ∈ f.classes.getLast?, p c = false) {i : Nat} {p : Char → Bool}
    (hp : f.classes[i]? = some p) {c : Char}
    (hc : ([','].intercalate parts ++ rest)[width (parts.take (i + 1))]? = some c) :
    p c = false := by
  have hlength : f.classes.length = parts.length := List.Forall₂.length_eq hparts
  obtain ⟨hi, -⟩ := List.getElem?_eq_some_iff.1 hp
  rcases Nat.lt_or_ge (i + 1) parts.length with hmore | hlast
  · -- A comma comes next, which is in no class.
    have hsplit : [','].intercalate parts = [','].intercalate (parts.take (i + 1)) ++
        ',' :: [','].intercalate (parts.drop (i + 1)) := by
      rw [← intercalate_append_of_ne_nil, List.take_append_drop]
      · exact List.ne_nil_of_length_pos (by simp; omega)
      · exact List.ne_nil_of_length_pos (by simp; omega)
    rw [hsplit, List.append_assoc, width, List.getElem?_append_right (Nat.le_refl _),
      Nat.sub_self] at hc
    obtain rfl : ',' = c := Option.some.inj hc
    exact f.classes_comma p (List.mem_of_getElem? hp)
  · have htake : parts.take (i + 1) = parts := List.take_of_length_le hlast
    rw [htake, width, List.getElem?_append_right (Nat.le_refl _), Nat.sub_self,
      ← List.head?_eq_getElem?] at hc
    have hindex : f.classes.length - 1 = i := by omega
    refine hstop c hc p ?_
    rw [List.getLast?_eq_getElem?, hindex]
    exact hp

/-- A character of the class of the first part may be put in front of it. -/
theorem IsParts.cons_first {parts : List Text} (hparts : f.IsParts parts) {p : Char → Bool}
    (hp : p ∈ f.classes.head?) {c : Char} (hc : p c = true) (rest : Text) :
    f.Starts (c :: ([','].intercalate parts ++ rest)) := by
  obtain ⟨ps, hclasses⟩ := List.head?_eq_some_iff.1 hp
  rw [IsParts, hclasses] at hparts
  obtain ⟨a, us, ⟨-, ha⟩, hus, rfl⟩ := List.forall₂_cons_left_iff.1 hparts
  refine ⟨(c :: a) :: us, rest, ?_, ?_⟩
  · rw [IsParts, hclasses]
    exact .cons ⟨List.cons_ne_nil c a, List.forall_mem_cons.2 ⟨hc, ha⟩⟩ hus
  · cases us with
    | nil => simp
    | cons b us => simp

/-- The parts start with a character of the first class. -/
theorem IsParts.exists_first {parts : List Text} (hparts : f.IsParts parts) {p : Char → Bool}
    (hp : p ∈ f.classes.head?) :
    ∃ c s, [','].intercalate parts = c :: s ∧ p c = true := by
  obtain ⟨ps, hclasses⟩ := List.head?_eq_some_iff.1 hp
  rw [IsParts, hclasses] at hparts
  obtain ⟨a, us, ⟨hne, ha⟩, -, rfl⟩ := List.forall₂_cons_left_iff.1 hparts
  obtain ⟨c, a, rfl⟩ := List.exists_cons_of_ne_nil hne
  refine ⟨c, ?_⟩
  cases us with
  | nil => exact ⟨a, by simp, ha c List.mem_cons_self⟩
  | cons b us =>
      exact ⟨a ++ ',' :: [','].intercalate (b :: us), by simp, ha c List.mem_cons_self⟩

/-- The last run of a format takes every character that the first takes. -/
theorem last_of_first {p q : Char → Bool} (hp : p ∈ f.classes.head?)
    (hq : q ∈ f.classes.getLast?) {c : Char} (hc : p c = true) : q c = true := by
  have hdigit : ∀ d, Text.isAsciiDigit d = true → Text.isOperandChar d = true :=
    fun d hd => Text.isOperandChar_of_isWordChar (Text.isWordChar_of_isAsciiDigit hd)
  cases f with
  | register | link | jump =>
      obtain rfl := Option.some.inj hp
      obtain rfl := Option.some.inj hq
      exact hc
  | immediate | upper =>
      obtain rfl := Option.some.inj hp
      obtain rfl := Option.some.inj hq
      exact hdigit c hc
  | halt => cases hp

/-! ## The search -/

theorem matchLength_pos (hf : f ≠ .halt) (s : Text) (ts : List Text)
    (h : Pattern.matchStart f.pieces s = some ts) : 0 < Pattern.matchLength ts := by
  obtain ⟨parts, rest, hparts, -, -, rfl⟩ := (matchStart_pieces_iff hf).1 h
  exact hparts.length_pos hf

theorem map_snd_operandPlaces (f : Format) (t : Text) :
    (f.operandPlaces t).map Prod.snd = f.findOperands t := by
  rw [operandPlaces, findOperands, ← Pattern.map_snd_matchPlaces, List.map_map, List.map_map]
  rfl

/-- What is found at a place: parts that stand there, and the last of them cannot go on. -/
theorem exists_rest_of_mem (hf : f ≠ .halt) {m : Nat × List Text} (hm : m ∈ f.operandPlaces t) :
    f.IsParts m.2 ∧ ∃ rest, t.drop m.1 = [','].intercalate m.2 ++ rest ∧
      ∀ c ∈ rest.head?, ∀ p ∈ f.classes.getLast?, p c = false := by
  obtain ⟨n, hn, rfl⟩ := List.mem_map.1 hm
  obtain ⟨-, hmatch⟩ := Pattern.start_of_mem_matchPlaces hn
  obtain ⟨parts, rest, hparts, hdrop, hstop, hts⟩ := (matchStart_pieces_iff hf).1 hmatch
  have hgroups : groups n.2 = parts := by rw [hts, groups_intersperse]
  rw [hgroups]
  exact ⟨hparts, rest, hdrop, hstop⟩

/-- A match takes its parts and the commas between them. -/
theorem matchLength_of_mem (hf : f ≠ .halt) {m : Nat × List Text}
    (hm : m ∈ Pattern.matchPlaces (Pattern.matchStart f.pieces) t) :
    Pattern.matchLength m.2 = width (groups m.2) := by
  obtain ⟨-, hmatch⟩ := Pattern.start_of_mem_matchPlaces hm
  obtain ⟨parts, -, -, -, -, hts⟩ := (matchStart_pieces_iff hf).1 hmatch
  rw [hts, groups_intersperse]
  rfl

theorem pairwise_operandPlaces (hf : f ≠ .halt) (t : Text) :
    (f.operandPlaces t).Pairwise fun m n => m.1 + width m.2 ≤ n.1 := by
  rw [operandPlaces, List.pairwise_map]
  refine Pattern.pairwise_matchPlacesFrom.imp_of_mem fun {m n} hm _ hle => ?_
  rwa [← matchLength_of_mem hf hm]

/-- No form starts at a place outside of the operands that are found. -/
theorem not_starts_of_free (hf : f ≠ .halt) {k : Nat} (hk : k < t.length)
    (hfree : ∀ m ∈ f.operandPlaces t, k < m.1 ∨ m.1 + width m.2 ≤ k) :
    ¬ f.Starts (t.drop k) := by
  rw [starts_iff hf, not_not]
  refine Pattern.start_eq_none_of_matchPlaces (matchLength_pos hf) hk fun m hm => ?_
  rw [matchLength_of_mem hf hm]
  exact hfree _ (List.mem_map_of_mem hm)

/-- Of two places where operands are found one comes after the operands at the other. -/
theorem apart_of_mem (hf : f ≠ .halt) {m n : Nat × List Text} (hm : m ∈ f.operandPlaces t)
    (hn : n ∈ f.operandPlaces t) (hne : m ≠ n) :
    m.1 + width m.2 ≤ n.1 ∨ n.1 + width n.2 ≤ m.1 := by
  have hsymm : Std.Symm fun m n : Nat × List Text =>
      m.1 + width m.2 ≤ n.1 ∨ n.1 + width n.2 ≤ m.1 :=
    ⟨fun _ _ => Or.symm⟩
  have hpair : (f.operandPlaces t).Pairwise fun m n =>
      m.1 + width m.2 ≤ n.1 ∨ n.1 + width n.2 ≤ m.1 :=
    (pairwise_operandPlaces hf t).imp Or.inl
  exact hpair.forall hm hn hne

theorem ends_of_mem (hf : f ≠ .halt) {m : Nat × List Text} (hm : m ∈ f.operandPlaces t) {i : Nat}
    {p : Char → Bool} (hp : f.classes[i]? = some p) {c : Char}
    (hc : t[m.1 + width (m.2.take (i + 1))]? = some c) : p c = false := by
  obtain ⟨hparts, rest, hdrop, hstop⟩ := exists_rest_of_mem hf hm
  refine hparts.ends hstop hp ?_
  rw [← hdrop, List.getElem?_drop]
  exact hc

/-- Where operands that are found end, no others start. -/
theorem not_first_after_of_mem (hf : f ≠ .halt) {m : Nat × List Text}
    (hm : m ∈ f.operandPlaces t) {p : Char → Bool} (hp : p ∈ f.classes.head?) {c : Char}
    (hc : t[m.1 + width m.2]? = some c) : p c = false := by
  obtain ⟨hparts, rest, hdrop, hstop⟩ := exists_rest_of_mem hf hm
  have hrest : rest.head? = some c := by
    have hdrops : t.drop (m.1 + width m.2) = rest := by
      rw [← List.drop_drop, hdrop, width, List.drop_left]
    rw [← hdrops, List.head?_drop, hc]
  have hlast := List.getLast?_eq_some_getLast (classes_ne_nil hf)
  by_contra hpc
  have hstopped := hstop c hrest _ hlast
  rw [last_of_first hp hlast (Bool.not_eq_false _ ▸ hpc)] at hstopped
  contradiction

theorem begins_of_mem (hf : f ≠ .halt) {m : Nat × List Text} (hm : m ∈ f.operandPlaces t)
    {p : Char → Bool} (hp : p ∈ f.classes.head?) {k : Nat} {c : Char} (hplace : m.1 = k + 1)
    (hc : t[k]? = some c) : p c = false := by
  obtain ⟨hk, hget⟩ := List.getElem?_eq_some_iff.1 hc
  obtain ⟨hparts, rest, hdrop, -⟩ := exists_rest_of_mem hf hm
  rw [hplace] at hdrop
  by_cases hfree : ∀ n ∈ f.operandPlaces t, k < n.1 ∨ n.1 + width n.2 ≤ k
  · -- The form would start one character earlier, but there it is not found.
    by_contra hpc
    refine not_starts_of_free hf hk hfree ?_
    rw [List.drop_eq_getElem_cons hk, hget, hdrop]
    exact hparts.cons_first hp (Bool.not_eq_false _ ▸ hpc) rest
  · -- Other operands would end right before these, but none start there.
    push Not at hfree
    obtain ⟨n, hn, hle, hlt⟩ := hfree
    have hne : m ≠ n := by
      rintro rfl
      omega
    have hend : n.1 + width n.2 = k + 1 := by
      rcases apart_of_mem hf hm hn hne with h | h
      · omega
      · omega
    obtain ⟨d, s, hfirst, hpd⟩ := hparts.exists_first hp
    have hd : t[n.1 + width n.2]? = some d := by
      rw [hend, ← List.head?_drop, hdrop, hfirst]
      rfl
    rw [not_first_after_of_mem hf hn hp hd] at hpd
    contradiction

theorem standsAt_of_mem (hf : f ≠ .halt) {m : Nat × List Text} (hm : m ∈ f.operandPlaces t) :
    f.StandsAt t m.1 m.2 := by
  obtain ⟨hparts, rest, hdrop, -⟩ := exists_rest_of_mem hf hm
  exact ⟨hparts, ⟨rest, hdrop.symm⟩, fun i p hp c hc => ends_of_mem hf hm hp hc,
    fun p hp k c hplace hc => begins_of_mem hf hm hp hplace hc⟩

/-- A text is searched for the operands of a format, and what is found are the places where the
form of the format stands with all of its runs as long as they get, in order and without overlap.
No text of the form starts anywhere else, and so nothing is found exactly if there is none. -/
theorem findOperands_is_maximal_scan (hf : f ≠ .halt) (t : Text) :
    (f.operandPlaces t).map Prod.snd = f.findOperands t ∧
      (f.operandPlaces t).Pairwise (fun m n => m.1 + width m.2 ≤ n.1) ∧
      (∀ m ∈ f.operandPlaces t, f.StandsAt t m.1 m.2) ∧
      (∀ before s after, t = before ++ (s ++ after) →
        (∀ m ∈ f.operandPlaces t, before.length < m.1 ∨ m.1 + width m.2 ≤ before.length) →
        ¬ f.IsForm s) ∧
      (f.findOperands t = [] ↔ ∀ before s after, t = before ++ (s ++ after) → ¬ f.IsForm s) := by
  have hoff : ∀ before s after, t = before ++ (s ++ after) →
      (∀ m ∈ f.operandPlaces t, before.length < m.1 ∨ m.1 + width m.2 ≤ before.length) →
      ¬ f.IsForm s := by
    rintro before s after rfl hfree ⟨parts, hparts, rfl⟩
    have hpos := hparts.length_pos hf
    refine not_starts_of_free hf ?_ hfree ⟨parts, after, hparts, List.drop_left⟩
    simp only [List.length_append]
    omega
  refine ⟨map_snd_operandPlaces f t, pairwise_operandPlaces hf t,
    fun m hm => standsAt_of_mem hf hm, hoff, ?_⟩
  rw [← map_snd_operandPlaces, List.map_eq_nil_iff]
  constructor
  · intro hnil before s after ht
    exact hoff before s after ht (by simp [hnil])
  · intro hnone
    refine List.eq_nil_iff_forall_not_mem.2 fun m hm => ?_
    obtain ⟨hparts, ⟨rest, hrest⟩, -⟩ := standsAt_of_mem hf hm
    exact hnone (t.take m.1) _ rest (by rw [hrest, List.take_append_drop]) ⟨m.2, hparts, rfl⟩

/-- Numbers and words with other characters among them.  A form could also start inside the first
word, at its last digit. -/
def strayOperands : Text :=
  "9x1,2,3é4,5,6,-y,7".toList

theorem findOperands_is_maximal_scan_stray :
    immediate.operandPlaces strayOperands =
        [(2, ["1".toList, "2".toList, "3é4".toList]), (10, ["5".toList, "6".toList, "-y".toList])] ∧
      immediate.StandsAt strayOperands 10 ["5".toList, "6".toList, "-y".toList] ∧
      ¬ immediate.IsForm "9x1,2,3".toList := by
  have hplaces : immediate.operandPlaces strayOperands =
      [(2, ["1".toList, "2".toList, "3é4".toList]),
        (10, ["5".toList, "6".toList, "-y".toList])] := by
    decide +kernel
  obtain ⟨-, -, hstands, hoff, -⟩ :=
    findOperands_is_maximal_scan (f := .immediate) (by decide) strayOperands
  refine ⟨hplaces, hstands (10, _) (by simp [hplaces]), ?_⟩
  exact hoff [] "9x1,2,3".toList "é4,5,6,-y,7".toList rfl (by simp [hplaces])

end WordAsm.Format
