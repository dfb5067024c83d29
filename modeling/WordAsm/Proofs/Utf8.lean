import WordAsm.Text.Utf8

/-!
# Bytes of a text are read back

The bytes of a text are read as the text, whatever blocks they come in.  A block may end inside a
character.  The bytes left over are then the start of the bytes of that character.  Before the last
block they are no fault, and the next reading starts with them.
-/

namespace WordAsm.Utf8

/-- A character is read from a first byte and some more.  If some of these are missing then the
reading is cut off. -/
structure Spells (c : Char) (a : UInt8) (more : List UInt8) : Prop where
  whole : ∀ rest, lead a (more ++ rest) = .char c (more.length + 1)
  part : ∀ p q, more = p ++ q → q ≠ [] → lead a p = .cut

/-! ## The bytes of one character -/

section Character

variable {c : Char} {a b d e : UInt8}

theorem isTail_iff : isTail b = true ↔ 128 ≤ b.toNat ∧ b.toNat ≤ 191 := by
  simp [isTail, UInt8.le_iff_toNat_le]

theorem isForbiddenSecond_iff : isForbiddenSecond a b = true ↔
    a.toNat = 224 ∧ b.toNat < 160 ∨ a.toNat = 237 ∧ 160 ≤ b.toNat ∨
      a.toNat = 240 ∧ b.toNat < 144 ∨ a.toNat = 244 ∧ 144 ≤ b.toNat := by
  simp [isForbiddenSecond, UInt8.le_iff_toNat_le, UInt8.lt_iff_toNat_lt, ← UInt8.toNat_inj,
    or_assoc]

theorem lead_eq (a : UInt8) (rest : List UInt8) :
    lead a rest =
      if a.toNat < 128 then .char (.ofNat a.toNat) 1
      else if a.toNat < 194 then .bad 1 .startByte
      else if a.toNat < 224 then leadTwo a rest
      else if a.toNat < 240 then leadThree a rest
      else if a.toNat < 245 then leadFour a rest
      else .bad 1 .startByte := by
  simp only [lead, UInt8.lt_iff_toNat_lt]
  rfl

theorem isTail_ofNat (n : Nat) : isTail (UInt8.ofNat (n % 64 + 128)) = true := by
  rw [isTail_iff, UInt8.toNat_ofNat']
  omega

theorem tailBits_ofNat (n : Nat) : tailBits (UInt8.ofNat (n % 64 + 128)) = n % 64 := by
  rw [tailBits, UInt8.toNat_ofNat']
  omega

theorem spells_one (ha : a.toNat < 128) (hc : a.toNat = c.toNat) : Spells c a [] := by
  refine ⟨fun rest => ?_, fun p q h hq => ?_⟩
  · rw [lead_eq, if_pos ha, hc, Char.ofNat_toNat]
    rfl
  · exact absurd (List.append_eq_nil_iff.1 h.symm).2 hq

theorem spells_two (hlow : 194 ≤ a.toNat) (hhigh : a.toNat < 224) (hb : isTail b = true)
    (hc : a.toNat % 32 * 64 + tailBits b = c.toNat) : Spells c a [b] := by
  have hlead : ∀ rest, lead a rest = leadTwo a rest := by
    intro rest
    rw [lead_eq, if_neg (by omega), if_neg (by omega), if_pos hhigh]
  refine ⟨fun rest => ?_, fun p q h hq => ?_⟩
  · rw [hlead, List.singleton_append, leadTwo, if_pos hb, hc, Char.ofNat_toNat]
    rfl
  · cases p with
    | nil => exact hlead []
    | cons x p =>
        have hnil := (List.cons.inj h).2
        exact absurd (List.append_eq_nil_iff.1 hnil.symm).2 hq

theorem spells_three (hlow : 224 ≤ a.toNat) (hhigh : a.toNat < 240) (hb : isTail b = true)
    (hab : isForbiddenSecond a b = false) (hd : isTail d = true)
    (hc : (a.toNat % 16 * 64 + tailBits b) * 64 + tailBits d = c.toNat) : Spells c a [b, d] := by
  have hlead : ∀ rest, lead a rest = leadThree a rest := by
    intro rest
    rw [lead_eq, if_neg (by omega), if_neg (by omega), if_neg (by omega), if_pos hhigh]
  have hsecond : ¬ ((!isTail b || isForbiddenSecond a b) = true) := by simp [hb, hab]
  refine ⟨fun rest => ?_, fun p q h hq => ?_⟩
  · simp only [hlead, List.cons_append, List.nil_append, leadThree]
    rw [if_neg hsecond, if_pos hd, hc, Char.ofNat_toNat]
    rfl
  · -- There is no second byte, or it is there and the third is missing.
    rcases p with _ | ⟨x, _ | ⟨y, p⟩⟩
    · exact hlead []
    · obtain ⟨rfl, -⟩ := List.cons.inj h
      simp only [hlead, leadThree]
      rw [if_neg hsecond]
    · have hnil := (List.cons.inj (List.cons.inj h).2).2
      exact absurd (List.append_eq_nil_iff.1 hnil.symm).2 hq

theorem spells_four (hlow : 240 ≤ a.toNat) (hhigh : a.toNat < 245) (hb : isTail b = true)
    (hab : isForbiddenSecond a b = false) (hd : isTail d = true) (he : isTail e = true)
    (hc : ((a.toNat % 8 * 64 + tailBits b) * 64 + tailBits d) * 64 + tailBits e = c.toNat) :
    Spells c a [b, d, e] := by
  have hlead : ∀ rest, lead a rest = leadFour a rest := by
    intro rest
    rw [lead_eq, if_neg (by omega), if_neg (by omega), if_neg (by omega), if_neg (by omega),
      if_pos hhigh]
  have hsecond : ¬ ((!isTail b || isForbiddenSecond a b) = true) := by simp [hb, hab]
  have hthird : ¬ ((!isTail d) = true) := by simp [hd]
  refine ⟨fun rest => ?_, fun p q h hq => ?_⟩
  · simp only [hlead, List.cons_append, List.nil_append, leadFour]
    rw [if_neg hsecond, if_neg hthird, if_pos he, hc, Char.ofNat_toNat]
    rfl
  · rcases p with _ | ⟨x, _ | ⟨y, _ | ⟨z, p⟩⟩⟩
    · exact hlead []
    · obtain ⟨rfl, -⟩ := List.cons.inj h
      simp only [hlead, leadFour]
      rw [if_neg hsecond]
    · obtain ⟨rfl, hrest⟩ := List.cons.inj h
      obtain ⟨rfl, -⟩ := List.cons.inj hrest
      simp only [hlead, leadFour]
      rw [if_neg hsecond, if_neg hthird]
    · have hnil := (List.cons.inj (List.cons.inj (List.cons.inj h).2).2).2
      exact absurd (List.append_eq_nil_iff.1 hnil.symm).2 hq

/-- The code points of characters: no surrogates, and none above the last plane. -/
theorem toNat_bounds (c : Char) :
    c.toNat < 55296 ∨ 57343 < c.toNat ∧ c.toNat < 1114112 :=
  c.valid

/-- The bytes of a character spell it. -/
theorem spells_utf8EncodeChar (c : Char) :
    ∃ a more, String.utf8EncodeChar c = a :: more ∧ Spells c a more := by
  have hbounds := toNat_bounds c
  unfold String.utf8EncodeChar
  simp only [Char.toNat_val]
  split
  · refine ⟨_, _, rfl, spells_one ?_ ?_⟩
    · rw [UInt8.toNat_ofNat']
      omega
    · rw [UInt8.toNat_ofNat']
      omega
  · split
    · refine ⟨_, _, rfl, spells_two ?_ ?_ (isTail_ofNat _) ?_⟩
      · rw [UInt8.toNat_ofNat']
        omega
      · rw [UInt8.toNat_ofNat']
        omega
      · rw [UInt8.toNat_ofNat', tailBits_ofNat]
        omega
    · split
      · refine ⟨_, _, rfl, spells_three ?_ ?_ (isTail_ofNat _) ?_ (isTail_ofNat _) ?_⟩
        · rw [UInt8.toNat_ofNat']
          omega
        · rw [UInt8.toNat_ofNat']
          omega
        · rw [← Bool.not_eq_true, isForbiddenSecond_iff, UInt8.toNat_ofNat', UInt8.toNat_ofNat']
          omega
        · rw [UInt8.toNat_ofNat', tailBits_ofNat, tailBits_ofNat]
          omega
      · refine ⟨_, _, rfl,
          spells_four ?_ ?_ (isTail_ofNat _) ?_ (isTail_ofNat _) (isTail_ofNat _) ?_⟩
        · rw [UInt8.toNat_ofNat']
          omega
        · rw [UInt8.toNat_ofNat']
          omega
        · rw [← Bool.not_eq_true, isForbiddenSecond_iff, UInt8.toNat_ofNat', UInt8.toNat_ofNat']
          omega
        · rw [UInt8.toNat_ofNat', tailBits_ofNat, tailBits_ofNat, tailBits_ofNat]
          omega

end Character

/-! ## Reading -/

section Reading

theorem readBytes_skip (last : Bool) (position : Nat) (more rest : List UInt8) :
    readBytes last more.length position (more ++ rest) =
      readBytes last 0 (position + more.length) rest := by
  induction more generalizing position with
  | nil => rfl
  | cons b more ih =>
      rw [List.cons_append, List.length_cons, readBytes, ih]
      congr 1
      omega

/-- The bytes of a character are read as the character. -/
theorem readBytes_utf8EncodeChar (last : Bool) (position : Nat) (c : Char) (rest : List UInt8) :
    readBytes last 0 position (String.utf8EncodeChar c ++ rest) =
      (readBytes last 0 (position + (String.utf8EncodeChar c).length) rest).map
        fun r => (c :: r.1, r.2) := by
  obtain ⟨a, more, hbytes, hspells⟩ := spells_utf8EncodeChar c
  rw [hbytes, List.cons_append, readBytes, hspells.whole]
  dsimp only
  rw [Nat.add_sub_cancel, readBytes_skip, List.length_cons]
  congr 2
  omega

/-- The bytes of a text are read as the text, and then reading goes on. -/
theorem readBytes_encode_append (last : Bool) (t : Text) {rest left : List UInt8}
    (hrest : ∀ position, readBytes last 0 position rest = .ok ([], left)) (position : Nat) :
    readBytes last 0 position (encode t ++ rest) = .ok (t, left) := by
  induction t generalizing position with
  | nil => exact hrest position
  | cons c t ih =>
      have hencode : encode (c :: t) = String.utf8EncodeChar c ++ encode t := rfl
      rw [hencode, List.append_assoc, readBytes_utf8EncodeChar, ih]
      rfl

/-- The start of the bytes of a character is left over if more is to come. -/
theorem readBytes_cut {c : Char} {p q : List UInt8} (hq : q ≠ [])
    (hbytes : String.utf8EncodeChar c = p ++ q) (position : Nat) :
    readBytes false 0 position p = .ok ([], p) := by
  cases p with
  | nil => rfl
  | cons b p =>
      obtain ⟨a, more, heq, hspells⟩ := spells_utf8EncodeChar c
      obtain ⟨rfl, hmore⟩ := List.cons.inj (heq.symm.trans hbytes)
      rw [readBytes, hspells.part p q hmore hq]
      rfl

/-- Where the bytes of a text are cut, a text stands before the cut, and after it the start of the
bytes of one character. -/
theorem exists_text_of_prefix {t : Text} {first rest : List UInt8}
    (h : first ++ rest = encode t) :
    ∃ u v c p q, t = u ++ v ∧ first = encode u ++ p ∧ p ++ rest = encode v ∧ q ≠ [] ∧
      String.utf8EncodeChar c = p ++ q := by
  induction t generalizing first with
  | nil =>
      obtain ⟨rfl, rfl⟩ := List.append_eq_nil_iff.1 h
      exact ⟨[], [], 'a', [], String.utf8EncodeChar 'a', rfl, rfl, rfl,
        String.utf8EncodeChar_ne_nil, rfl⟩
  | cons x t ih =>
      have hencode : encode (x :: t) = String.utf8EncodeChar x ++ encode t := rfl
      rw [hencode] at h
      rcases List.append_eq_append_iff.1 h with ⟨q, hq, hrest⟩ | ⟨more, rfl, hmore⟩
      · by_cases hnil : q = []
        · -- The cut is right after the first character.
          subst hnil
          refine ⟨[x], t, 'a', [], String.utf8EncodeChar 'a', rfl, ?_, ?_,
            String.utf8EncodeChar_ne_nil, rfl⟩
          · simpa [encode] using hq.symm
          · simpa using hrest
        · exact ⟨[], x :: t, x, first, q, rfl, rfl, h.trans hencode.symm, hnil, hq⟩
      · obtain ⟨u, v, c, p, q, rfl, rfl, hp, hq, hbytes⟩ := ih hmore.symm
        exact ⟨x :: u, v, c, p, q, rfl, by simp [encode], hp, hq, hbytes⟩

/-- Blocks that come to the bytes of a text, with the bytes carried over, are read as the text. -/
theorem readBlocks_eq_ok {carried : List UInt8} {bs : List (List UInt8)} {t : Text}
    (h : carried ++ bs.flatten = encode t) : readBlocks carried bs = .ok t := by
  induction bs generalizing carried t with
  | nil =>
      have hlast : readBytes true 0 0 (encode t ++ []) = .ok (t, []) :=
        readBytes_encode_append true t (fun _ => rfl) 0
      rw [List.append_nil] at hlast
      obtain rfl : carried = encode t := by simpa using h
      rw [readBlocks, hlast]
      rfl
  | cons block bs ih =>
      rw [List.flatten_cons, ← List.append_assoc] at h
      -- What the block leaves unfinished is the start of what the next blocks are read as.
      obtain ⟨u, v, c, p, q, rfl, hfirst, hrest, hq, hbytes⟩ := exists_text_of_prefix h
      have hblock := readBytes_encode_append false u (readBytes_cut hq hbytes) 0
      rw [readBlocks, hfirst, hblock]
      dsimp only
      rw [ih hrest]
      rfl

theorem flatten_blocks (size : Nat) (bytes : List UInt8) : (blocks size bytes).flatten = bytes := by
  fun_induction blocks size bytes with
  | case1 => rfl
  | case2 b rest ih => rw [List.flatten_cons, ih, List.cons_append, List.take_append_drop]

/-- The bytes of a text spell the text. -/
theorem decode_encode (t : Text) : decode (encode t) = .ok t :=
  readBlocks_eq_ok (flatten_blocks _ _)

end Reading

end WordAsm.Utf8
