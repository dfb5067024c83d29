import WordAsm.Operands
import WordAsm.Proofs.Pattern

/-!
# Operands as they are written

Which operands the parts of a match denote is given by one rule for each format.  A register
is denoted by any numeral of its number, so several texts denote one register; the
destination is not register zero, but for a branch.  The value is kept as it is written and
need not denote anything yet.
-/

namespace WordAsm

/-- A reading in two steps succeeds only if both do. -/
theorem ok_of_bind {ε α β : Type} {x : Except ε α} {next : α → Except ε β} {b : β}
    (h : (x >>= next) = .ok b) : ∃ a, x = .ok a ∧ next a = .ok b := by
  cases x with
  | error e => cases h
  | ok a => exact ⟨a, rfl, h⟩

/-- A reading in two steps fails in the first of them or in the second. -/
theorem error_of_bind {ε α β : Type} {x : Except ε α} {next : α → Except ε β} {e : ε}
    (h : (x >>= next) = .error e) : x = .error e ∨ ∃ a, x = .ok a ∧ next a = .error e := by
  cases x with
  | error e' => exact .inl (congrArg Except.error (Except.error.inj h))
  | ok a => exact .inr ⟨a, rfl, h⟩

namespace Operands

/-- The parts of a match denote operands, for a command and a format. -/
inductive Denotes (m : Mnemonic) : Format → List Text → Operands → Prop
  | register {dt st tt : Text} {d s t : Register} (hd : readNumber dt = .ok d)
      (hs : readNumber st = .ok s) (ht : readNumber tt = .ok t) (hzero : d ≠ .zero) :
      Denotes m .register [dt, st, tt] (.register d s t)
  | immediate {dt st v : Text} {d s : Register} (hd : readNumber dt = .ok d)
      (hs : readNumber st = .ok s) (hzero : m = .beq ∨ d ≠ .zero) :
      Denotes m .immediate [dt, st, v] (.immediate d s (.written v))
  | upper {dt v : Text} {d : Register} (hd : readNumber dt = .ok d) (hzero : d ≠ .zero) :
      Denotes m .upper [dt, v] (.upper d (.written v))
  | link {dt st : Text} {d s : Register} (hd : readNumber dt = .ok d)
      (hs : readNumber st = .ok s) (hzero : d ≠ .zero) : Denotes m .link [dt, st] (.link d s)
  | jump {v : Text} : Denotes m .jump [v] (.jump (.written v))

theorem boundFaults_eq_nil_iff (fault : RegisterFault) (n : Nat) :
    boundFaults fault n = [] ↔ n < 16 := by
  unfold boundFaults
  split <;> simp <;> omega

theorem destinationFaults_eq_nil_iff (zeroAllowed : Bool) (n : Nat) :
    destinationFaults zeroAllowed n = [] ↔ (zeroAllowed = true ∨ n ≠ 0) ∧ n < 16 := by
  unfold destinationFaults
  split
  · simp_all
  · rename_i hzero
    have hzero : zeroAllowed = true ∨ n ≠ 0 := by
      cases zeroAllowed <;> simp_all
    rw [boundFaults_eq_nil_iff]
    exact (and_iff_right hzero).symm

theorem unlessFaulty_eq_ok_iff {f : Format} {line : Option Int} {faults : List RegisterFault}
    {o o' : Operands} : unlessFaulty f line faults o = .ok o' ↔ faults = [] ∧ o = o' := by
  cases faults with
  | nil => simp [unlessFaulty]
  | cons fault faults => simp [unlessFaulty]

theorem ofNumber_val {n : Nat} (hn : n < 16) : (Register.ofNumber n).val = n :=
  Nat.mod_eq_of_lt hn

theorem ofNumber_ne_zero {n : Nat} (hn : n < 16) (hzero : n ≠ 0) : Register.ofNumber n ≠ .zero := by
  intro h
  apply hzero
  rw [← ofNumber_val hn, h]
  rfl

theorem ofNumber_of_register (r : Register) : Register.ofNumber r = r :=
  Fin.ext (Nat.mod_eq_of_lt r.isLt)

theorem val_ne_zero {d : Register} (hd : d ≠ .zero) : d.val ≠ 0 :=
  fun h => hd (Fin.ext h)

/-- Only what the rules allow is read. -/
theorem denotes_of_ofGroups {f : Format} {i : Instruction} {parts : List Text} {o : Operands}
    (h : ofGroups f i parts = .ok o) : Denotes i.mnemonic f parts o := by
  unfold ofGroups at h
  split at h
  · obtain ⟨d, hd, h⟩ := ok_of_bind h
    obtain ⟨s, hs, h⟩ := ok_of_bind h
    obtain ⟨t, ht, h⟩ := ok_of_bind h
    obtain ⟨hfaults, rfl⟩ := unlessFaulty_eq_ok_iff.1 h
    obtain ⟨hfaults, htarget⟩ := List.append_eq_nil_iff.1 hfaults
    obtain ⟨hdest, hsource⟩ := List.append_eq_nil_iff.1 hfaults
    obtain ⟨hzero, hlt⟩ := (destinationFaults_eq_nil_iff _ _).1 hdest
    have hs' := (boundFaults_eq_nil_iff _ s).1 hsource
    have ht' := (boundFaults_eq_nil_iff _ t).1 htarget
    exact .register (by rw [ofNumber_val hlt, hd]) (by rw [ofNumber_val hs', hs])
      (by rw [ofNumber_val ht', ht]) (ofNumber_ne_zero hlt (by simpa using hzero))
  · obtain ⟨d, hd, h⟩ := ok_of_bind h
    obtain ⟨s, hs, h⟩ := ok_of_bind h
    obtain ⟨hfaults, rfl⟩ := unlessFaulty_eq_ok_iff.1 h
    obtain ⟨hdest, hsource⟩ := List.append_eq_nil_iff.1 hfaults
    obtain ⟨hzero, hlt⟩ := (destinationFaults_eq_nil_iff _ _).1 hdest
    have hs' := (boundFaults_eq_nil_iff _ s).1 hsource
    refine .immediate (by rw [ofNumber_val hlt, hd]) (by rw [ofNumber_val hs', hs]) ?_
    exact hzero.imp of_decide_eq_true (ofNumber_ne_zero hlt)
  · obtain ⟨d, hd, h⟩ := ok_of_bind h
    obtain ⟨hfaults, rfl⟩ := unlessFaulty_eq_ok_iff.1 h
    obtain ⟨hzero, hlt⟩ := (destinationFaults_eq_nil_iff _ _).1 hfaults
    exact .upper (by rw [ofNumber_val hlt, hd]) (ofNumber_ne_zero hlt (by simpa using hzero))
  · obtain ⟨d, hd, h⟩ := ok_of_bind h
    obtain ⟨s, hs, h⟩ := ok_of_bind h
    obtain ⟨hfaults, rfl⟩ := unlessFaulty_eq_ok_iff.1 h
    -- Only the first fault is reported here, but where there is no first there is none.
    have hfaults : destinationFaults false d ++ boundFaults .largeSource s = [] := by
      simpa [List.take_eq_nil_iff] using hfaults
    obtain ⟨hdest, hsource⟩ := List.append_eq_nil_iff.1 hfaults
    obtain ⟨hzero, hlt⟩ := (destinationFaults_eq_nil_iff _ _).1 hdest
    have hs' := (boundFaults_eq_nil_iff _ s).1 hsource
    exact .link (by rw [ofNumber_val hlt, hd]) (by rw [ofNumber_val hs', hs])
      (ofNumber_ne_zero hlt (by simpa using hzero))
  · obtain rfl := Except.ok.inj h
    exact .jump
  · cases h

/-- All that the rules allow is read. -/
theorem ofGroups_of_denotes {f : Format} {i : Instruction} {parts : List Text} {o : Operands}
    (h : Denotes i.mnemonic f parts o) : ofGroups f i parts = .ok o := by
  cases h with
  | @register dt st tt d s t hd hs ht hzero =>
      simp only [ofGroups, hd, hs, ht, bind, Except.bind]
      refine unlessFaulty_eq_ok_iff.2 ⟨?_, by simp only [ofNumber_of_register]⟩
      rw [List.append_eq_nil_iff, List.append_eq_nil_iff]
      exact ⟨⟨(destinationFaults_eq_nil_iff _ _).2 ⟨.inr (val_ne_zero hzero), d.isLt⟩,
        (boundFaults_eq_nil_iff _ _).2 s.isLt⟩, (boundFaults_eq_nil_iff _ _).2 t.isLt⟩
  | @immediate dt st v d s hd hs hzero =>
      simp only [ofGroups, hd, hs, bind, Except.bind]
      refine unlessFaulty_eq_ok_iff.2 ⟨?_, by simp only [ofNumber_of_register]⟩
      rw [List.append_eq_nil_iff]
      refine ⟨(destinationFaults_eq_nil_iff _ _).2 ⟨?_, d.isLt⟩,
        (boundFaults_eq_nil_iff _ _).2 s.isLt⟩
      exact hzero.imp decide_eq_true val_ne_zero
  | @upper dt v d hd hzero =>
      simp only [ofGroups, hd, bind, Except.bind]
      refine unlessFaulty_eq_ok_iff.2 ⟨?_, by simp only [ofNumber_of_register]⟩
      exact (destinationFaults_eq_nil_iff _ _).2 ⟨.inr (val_ne_zero hzero), d.isLt⟩
  | @link dt st d s hd hs hzero =>
      simp only [ofGroups, hd, hs, bind, Except.bind]
      refine unlessFaulty_eq_ok_iff.2 ⟨?_, by simp only [ofNumber_of_register]⟩
      have hdest : destinationFaults false d = [] :=
        (destinationFaults_eq_nil_iff _ _).2 ⟨.inr (val_ne_zero hzero), d.isLt⟩
      have hsource : boundFaults .largeSource s = [] :=
        (boundFaults_eq_nil_iff _ _).2 s.isLt
      rw [hdest, hsource]
      rfl
  | jump => rfl

theorem ofGroups_eq_ok_iff {f : Format} {i : Instruction} {parts : List Text} {o : Operands} :
    ofGroups f i parts = .ok o ↔ Denotes i.mnemonic f parts o :=
  ⟨denotes_of_ofGroups, ofGroups_of_denotes⟩

/-- What reading the operands of an instruction comes to: a halt without operand text, or the
first match denotes them. -/
theorem read_eq_ok_iff {f : Format} {i : Instruction} {o : Operands} :
    read f i = .ok o ↔ (f = .halt ∧ i.operands = [] ∧ o = .halt) ∨
      (f ≠ .halt ∧ Denotes i.mnemonic f ((f.findOperands i.operands).head?.getD []) o) := by
  cases f with
  | halt =>
      by_cases hempty : i.operands = []
      · simp [read, hempty, eq_comm]
      · simp [read, hempty]
  | _ => simp [read, ofGroups_eq_ok_iff]

theorem Denotes.format_eq {m : Mnemonic} {f : Format} {parts : List Text} {o : Operands}
    (h : Denotes m f parts o) : o.format = f := by
  cases h <;> rfl

/-- Operands have the format in which they were read. -/
theorem format_of_read {f : Format} {i : Instruction} {o : Operands} (h : read f i = .ok o) :
    o.format = f := by
  rcases read_eq_ok_iff.1 h with ⟨rfl, -, rfl⟩ | ⟨-, hdenotes⟩
  · rfl
  · exact hdenotes.format_eq

theorem Denotes.value?_eq {m : Mnemonic} {f : Format} {parts : List Text} {o : Operands}
    (h : Denotes m f parts o) {v : Immediate} (hv : o.value? = some v) :
    ∃ text, v = .written text := by
  cases h <;> cases hv <;> exact ⟨_, rfl⟩

/-- A value stands as text right after reading. -/
theorem value?_of_read {f : Format} {i : Instruction} {o : Operands} (h : read f i = .ok o)
    {v : Immediate} (hv : o.value? = some v) : ∃ text, v = .written text := by
  rcases read_eq_ok_iff.1 h with ⟨-, -, rfl⟩ | ⟨-, hdenotes⟩
  · cases hv
  · exact hdenotes.value?_eq hv

end Operands

end WordAsm
