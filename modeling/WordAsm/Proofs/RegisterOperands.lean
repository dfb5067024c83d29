import WordAsm.Proofs.Numeral
import WordAsm.Proofs.OperandForm

/-!
# Register operands

The registers of an instruction are numbers of the first form in its operand text.  An encoder is
made exactly when there is such a form and all of its registers are in range: each is below sixteen,
and the destination is not zero, but for a branch.  Zeros in front leave a number as it is; they
only count as digits, of which a numeral may not have too many.

The four formats with registers check them in chains of their own, and the one with two registers
and no value names only the first fault.  What they accept is given by one rule for each role.
-/

namespace WordAsm

/-- The part that a register plays in an instruction. -/
inductive RegisterRole where
  | destination
  | source
  | target
  deriving DecidableEq, Repr

namespace RegisterRole

/-- The numbers that a register may have in its role.  Zero is a destination only in a branch that
is read in the format of branches. -/
def Admits (m : Mnemonic) (f : Format) : RegisterRole → Nat → Prop
  | destination, n => (if f = .immediate ∧ m = .beq then 0 else 1) ≤ n ∧ n ≤ 15
  | source, n => n ≤ 15
  | target, n => n ≤ 15

instance (m : Mnemonic) (f : Format) (role : RegisterRole) (n : Nat) :
    Decidable (role.Admits m f n) :=
  match role with
  | destination => inferInstanceAs (Decidable (_ ∧ _))
  | source => inferInstanceAs (Decidable (_ ≤ _))
  | target => inferInstanceAs (Decidable (_ ≤ _))

/-- Digits write a register in its role: they are not too many, and the role admits the number that
they write in base ten. -/
def Accepts (m : Mnemonic) (f : Format) (role : RegisterRole) (digits : Text) : Prop :=
  digits.length ≤ Numeral.digitLimit ∧ role.Admits m f (Nat.ofDigitChars 10 digits 0)

instance (m : Mnemonic) (f : Format) (role : RegisterRole) (digits : Text) :
    Decidable (role.Accepts m f digits) :=
  inferInstanceAs (Decidable (_ ∧ _))

end RegisterRole

/-- The role of the register that a fault is about. -/
def RegisterFault.role : RegisterFault → RegisterRole
  | zeroDestination => .destination
  | largeDestination => .destination
  | largeSource => .source
  | largeTarget => .target

/-- The register in a role. -/
def Operands.registerIn? (o : Operands) : RegisterRole → Option Register
  | .destination => o.destination?
  | .source => o.source?
  | .target => o.target?

namespace Format

/-- The roles of the registers of a format, in the order in which they are written. -/
def roles : Format → List RegisterRole
  | register => [.destination, .source, .target]
  | immediate => [.destination, .source]
  | upper => [.destination]
  | link => [.destination, .source]
  | jump => []
  | halt => []

/-- The parts of a form that write registers, with the roles of these. -/
def registerParts (f : Format) (parts : List Text) : List (RegisterRole × Text) :=
  f.roles.zip parts

/-- All registers that the parts of a form write are accepted. -/
def AcceptsRegisters (f : Format) (m : Mnemonic) (parts : List Text) : Prop :=
  ∀ part ∈ f.registerParts parts, part.1.Accepts m f part.2

instance (f : Format) (m : Mnemonic) (parts : List Text) :
    Decidable (f.AcceptsRegisters m parts) :=
  inferInstanceAs (Decidable (∀ part ∈ f.registerParts parts, part.1.Accepts m f part.2))

end Format

/-- A fault is about a register that parts of a form write and that is out of range. -/
def RegisterFault.Applies (m : Mnemonic) (f : Format) (parts : List Text)
    (fault : RegisterFault) : Prop :=
  ∃ digits, (fault.role, digits) ∈ f.registerParts parts ∧
    ¬ fault.role.Admits m f (Nat.ofDigitChars 10 digits 0)

/-- Why an instruction cannot be read in a format. -/
inductive Format.Refuses (f : Format) (i : Instruction) : Rejection → Prop
  /-- The operand text has no form of the format. -/
  | absent (habsent : ∀ before parts after, ¬ f.FirstForm i.operands before parts after) :
      Refuses f i (.operandShape f i.line)
  /-- A register of the first form has too many digits. -/
  | long {before after : Text} {parts : List Text} {role : RegisterRole} {digits : Text}
      (hform : f.FirstForm i.operands before parts after)
      (hmem : (role, digits) ∈ f.registerParts parts)
      (hlong : Numeral.digitLimit < digits.length) :
      Refuses f i (.numeral (.tooLong digits.length))
  /-- Registers of the first form are out of range. -/
  | range {before after : Text} {parts : List Text} {faults : List RegisterFault}
      (hform : f.FirstForm i.operands before parts after) (hne : faults ≠ [])
      (hfaults : ∀ fault ∈ faults, fault.Applies i.mnemonic f parts) :
      Refuses f i (.registers f faults i.line)

/-! ## One register -/

namespace Operands

theorem readNumber_eq_ok_iff {digits : Text} (hdigits : ∀ c ∈ digits, Text.isAsciiDigit c = true)
    {n : Nat} :
    readNumber digits = .ok n ↔
      digits.length ≤ Numeral.digitLimit ∧ Nat.ofDigitChars 10 digits 0 = n := by
  rw [← Numeral.magnitude_eq_ofDigitChars hdigits, readNumber, Numeral.readDigits]
  by_cases hshort : digits.length ≤ Numeral.digitLimit
  · simp [hshort, Except.mapError]
  · simp [hshort, Except.mapError]

theorem readNumber_eq_error {digits : Text} {why : Rejection} (h : readNumber digits = .error why) :
    Numeral.digitLimit < digits.length ∧ why = .numeral (.tooLong digits.length) := by
  rw [readNumber, Numeral.readDigits] at h
  by_cases hshort : digits.length ≤ Numeral.digitLimit
  · rw [if_pos hshort] at h
    cases h
  · rw [if_neg hshort] at h
    exact ⟨Nat.lt_of_not_le hshort, (Except.error.inj h).symm⟩

end Operands

namespace RegisterRole

variable {m : Mnemonic} {f : Format} {role : RegisterRole} {digits : Text} {n : Nat}

theorem Admits.lt (h : role.Admits m f n) : n < 16 := by
  cases role with
  | destination => exact Nat.lt_succ_of_le h.2
  | source => exact Nat.lt_succ_of_le h
  | target => exact Nat.lt_succ_of_le h

/-- Every register is admitted where it is not the destination. -/
theorem admits_of_ne_destination (h : role ≠ .destination) (r : Register) : role.Admits m f r := by
  cases role with
  | destination => exact absurd rfl h
  | source => exact Nat.le_of_lt_succ r.isLt
  | target => exact Nat.le_of_lt_succ r.isLt

theorem admits_destination_iff (d : Register) :
    Admits m f .destination d ↔ (f = .immediate ∧ m = .beq) ∨ d ≠ .zero := by
  have hd : d ≠ .zero ↔ d.val ≠ 0 :=
    ⟨Operands.val_ne_zero, fun h hzero => h (congrArg Fin.val hzero)⟩
  have hlt := d.isLt
  rw [hd, Admits]
  split
  · rename_i hbranch
    simp only [hbranch, and_self, true_or, iff_true]
    omega
  · rename_i hbranch
    simp only [hbranch, false_or]
    omega

theorem admits_of_ne_zero {d : Register} (hd : d ≠ .zero) : Admits m f .destination d :=
  (admits_destination_iff d).2 (.inr hd)

/-- Digits are accepted exactly when they are read as a register that the role admits. -/
theorem accepts_iff (hdigits : ∀ c ∈ digits, Text.isAsciiDigit c = true) :
    role.Accepts m f digits ↔
      ∃ r : Register, Operands.readNumber digits = .ok r ∧ role.Admits m f r := by
  constructor
  · rintro ⟨hshort, hadmits⟩
    exact ⟨⟨_, hadmits.lt⟩, (Operands.readNumber_eq_ok_iff hdigits).2 ⟨hshort, rfl⟩, hadmits⟩
  · rintro ⟨r, hread, hadmits⟩
    obtain ⟨hshort, hnumber⟩ := (Operands.readNumber_eq_ok_iff hdigits).1 hread
    exact ⟨hshort, hnumber ▸ hadmits⟩

end RegisterRole

/-! ## The registers of a form -/

namespace Format

variable {f : Format} {parts : List Text}

/-- The runs of a form start with those of its registers, which are runs of ASCII digits. -/
theorem exists_classes_eq (f : Format) :
    ∃ others, f.classes = List.replicate f.roles.length Text.isAsciiDigit ++ others := by
  cases f with
  | register => exact ⟨[], rfl⟩
  | immediate => exact ⟨[Text.isOperandChar], rfl⟩
  | upper => exact ⟨[Text.isOperandChar], rfl⟩
  | link => exact ⟨[], rfl⟩
  | jump => exact ⟨[Text.isOperandChar], rfl⟩
  | halt => exact ⟨[], rfl⟩

theorem classes_of_roles {k : Nat} {role : RegisterRole} (h : f.roles[k]? = some role) :
    f.classes[k]? = some Text.isAsciiDigit := by
  have hk : k < f.roles.length := (List.getElem?_eq_some_iff.1 h).1
  obtain ⟨others, hclasses⟩ := exists_classes_eq f
  rw [hclasses, List.getElem?_append_left (by simpa using hk), List.getElem?_replicate, if_pos hk]

/-- A register is written in ASCII digits. -/
theorem IsParts.isAsciiDigit (hparts : f.IsParts parts) {part : RegisterRole × Text}
    (hmem : part ∈ f.registerParts parts) : ∀ c ∈ part.2, Text.isAsciiDigit c = true := by
  obtain ⟨k, hk⟩ := List.mem_iff_getElem?.1 hmem
  obtain ⟨hrole, hdigits⟩ := List.getElem?_zip_eq_some.1 hk
  have hzip : (f.classes.zip parts)[k]? = some (Text.isAsciiDigit, part.2) :=
    List.getElem?_zip_eq_some.2 ⟨classes_of_roles hrole, hdigits⟩
  have htakes := (List.forall₂_iff_zip.1 hparts).2 (List.mem_of_getElem? hzip)
  exact htakes.2

/-- The registers of a form are accepted exactly when each of them is read as one that its role
admits. -/
theorem IsParts.acceptsRegisters_iff (hparts : f.IsParts parts) (m : Mnemonic) :
    f.AcceptsRegisters m parts ↔ ∀ part ∈ f.registerParts parts,
      ∃ r : Register, Operands.readNumber part.2 = .ok r ∧ part.1.Admits m f r :=
  forall₂_congr fun _ hmem => RegisterRole.accepts_iff (hparts.isAsciiDigit hmem)

end Format

namespace Operands

variable {m : Mnemonic} {f : Format} {parts : List Text} {o : Operands}

/-- The registers that parts denote are read from them, and their roles admit them. -/
theorem Denotes.registers (h : Denotes m f parts o) :
    ∀ part ∈ f.registerParts parts, ∃ r : Register, o.registerIn? part.1 = some r ∧
      readNumber part.2 = .ok r ∧ part.1.Admits m f r := by
  have hother : ∀ {role : RegisterRole} (r : Register), role ≠ .destination → role.Admits m f r :=
    fun r hrole => RegisterRole.admits_of_ne_destination hrole r
  cases h with
  | @register dt st tt d s t hd hs ht hzero =>
      exact List.forall_mem_cons.2 ⟨⟨d, rfl, hd, RegisterRole.admits_of_ne_zero hzero⟩,
        List.forall_mem_cons.2 ⟨⟨s, rfl, hs, hother s (by simp)⟩,
          List.forall_mem_singleton.2 ⟨t, rfl, ht, hother t (by simp)⟩⟩⟩
  | @immediate dt st v d s hd hs hzero =>
      have hdest : RegisterRole.Admits m .immediate .destination d :=
        (RegisterRole.admits_destination_iff d).2 (hzero.imp_left fun hbranch => ⟨rfl, hbranch⟩)
      exact List.forall_mem_cons.2 ⟨⟨d, rfl, hd, hdest⟩,
        List.forall_mem_singleton.2 ⟨s, rfl, hs, hother s (by simp)⟩⟩
  | @upper dt v d hd hzero =>
      exact List.forall_mem_singleton.2 ⟨d, rfl, hd, RegisterRole.admits_of_ne_zero hzero⟩
  | @link dt st d s hd hs hzero =>
      exact List.forall_mem_cons.2 ⟨⟨d, rfl, hd, RegisterRole.admits_of_ne_zero hzero⟩,
        List.forall_mem_singleton.2 ⟨s, rfl, hs, hother s (by simp)⟩⟩
  | jump => exact List.forall_mem_nil _

/-- Parts whose registers are all read as ones that their roles admit denote operands. -/
theorem exists_denotes (hf : f ≠ .halt) (hlength : parts.length = f.classes.length)
    (h : ∀ part ∈ f.registerParts parts,
      ∃ r : Register, readNumber part.2 = .ok r ∧ part.1.Admits m f r) :
    ∃ o, Denotes m f parts o := by
  cases f with
  | register =>
      obtain ⟨dt, st, tt, rfl⟩ := List.length_eq_three.1 hlength
      obtain ⟨⟨d, hd, hdest⟩, h⟩ := List.forall_mem_cons.1 h
      obtain ⟨⟨s, hs, -⟩, h⟩ := List.forall_mem_cons.1 h
      obtain ⟨t, ht, -⟩ := List.forall_mem_singleton.1 h
      have hzero := (RegisterRole.admits_destination_iff d).1 hdest
      exact ⟨_, .register hd hs ht (by simpa using hzero)⟩
  | immediate =>
      obtain ⟨dt, st, v, rfl⟩ := List.length_eq_three.1 hlength
      obtain ⟨⟨d, hd, hdest⟩, h⟩ := List.forall_mem_cons.1 h
      obtain ⟨s, hs, -⟩ := List.forall_mem_singleton.1 h
      have hzero := (RegisterRole.admits_destination_iff d).1 hdest
      exact ⟨_, .immediate hd hs (hzero.imp_left And.right)⟩
  | upper =>
      obtain ⟨dt, v, rfl⟩ := List.length_eq_two.1 hlength
      obtain ⟨d, hd, hdest⟩ := List.forall_mem_singleton.1 h
      have hzero := (RegisterRole.admits_destination_iff d).1 hdest
      exact ⟨_, .upper hd (by simpa using hzero)⟩
  | link =>
      obtain ⟨dt, st, rfl⟩ := List.length_eq_two.1 hlength
      obtain ⟨⟨d, hd, hdest⟩, h⟩ := List.forall_mem_cons.1 h
      obtain ⟨s, hs, -⟩ := List.forall_mem_singleton.1 h
      have hzero := (RegisterRole.admits_destination_iff d).1 hdest
      exact ⟨_, .link hd hs (by simpa using hzero)⟩
  | jump =>
      obtain ⟨v, rfl⟩ := List.length_eq_one_iff.1 hlength
      exact ⟨_, .jump⟩
  | halt => exact absurd rfl hf

theorem exists_denotes_iff (hf : f ≠ .halt) (hparts : f.IsParts parts) :
    (∃ o, Denotes m f parts o) ↔ f.AcceptsRegisters m parts := by
  rw [hparts.acceptsRegisters_iff]
  constructor
  · rintro ⟨o, h⟩ part hmem
    obtain ⟨r, -, hread, hadmits⟩ := h.registers part hmem
    exact ⟨r, hread, hadmits⟩
  · intro h
    exact exists_denotes hf hparts.length_eq.symm h

end Operands

/-! ## Refusals -/

namespace RegisterFault

variable {m : Mnemonic} {f : Format} {parts : List Text} {fault : RegisterFault} {digits : Text}

/-- What the check of an upper bound reports is a fault of the register that it looks at. -/
theorem applies_of_mem_boundFaults (named : RegisterFault)
    (hmem : (named.role, digits) ∈ f.registerParts parts)
    (h : fault ∈ Operands.boundFaults named (Nat.ofDigitChars 10 digits 0)) :
    fault.Applies m f parts := by
  have hlarge : ¬ Nat.ofDigitChars 10 digits 0 < 16 := fun hlt =>
    List.ne_nil_of_mem h ((Operands.boundFaults_eq_nil_iff _ _).2 hlt)
  obtain rfl : fault = named := by
    unfold Operands.boundFaults at h
    split at h
    · exact List.mem_singleton.1 h
    · cases h
  exact ⟨digits, hmem, fun hadmits => hlarge hadmits.lt⟩

theorem applies_of_mem_destinationFaults
    (hmem : (.destination, digits) ∈ f.registerParts parts) {zeroAllowed : Bool}
    (hzero : zeroAllowed = true ↔ f = .immediate ∧ m = .beq)
    (h : fault ∈ Operands.destinationFaults zeroAllowed (Nat.ofDigitChars 10 digits 0)) :
    fault.Applies m f parts := by
  unfold Operands.destinationFaults at h
  split at h
  · rename_i hnumber
    simp only [Bool.and_eq_true, decide_eq_true_eq, Bool.not_eq_true', ← Bool.not_eq_true, hzero]
      at hnumber
    obtain rfl := List.mem_singleton.1 h
    refine ⟨digits, hmem, ?_⟩
    rintro ⟨hlow, -⟩
    rw [if_neg hnumber.2, hnumber.1] at hlow
    exact absurd hlow (by decide)
  · exact applies_of_mem_boundFaults .largeDestination hmem h

theorem applies_of_mem_pairFaults {dt st : Text}
    (hd : (.destination, dt) ∈ f.registerParts parts) (hs : (.source, st) ∈ f.registerParts parts)
    {zeroAllowed : Bool} (hzero : zeroAllowed = true ↔ f = .immediate ∧ m = .beq)
    (h : fault ∈ Operands.destinationFaults zeroAllowed (Nat.ofDigitChars 10 dt 0) ++
      Operands.boundFaults .largeSource (Nat.ofDigitChars 10 st 0)) : fault.Applies m f parts := by
  rcases List.mem_append.1 h with h | h
  · exact applies_of_mem_destinationFaults hd hzero h
  · exact applies_of_mem_boundFaults .largeSource hs h

end RegisterFault

namespace Operands

section Refuses

variable {f : Format} {i : Instruction} {before after : Text} {parts : List Text} {why : Rejection}

/-- A register has too many digits, or what follows is done with its number. -/
theorem refuses_of_bind (hform : f.FirstForm i.operands before parts after) {role : RegisterRole}
    {digits : Text} (hmem : (role, digits) ∈ f.registerParts parts)
    {next : Nat → Except Rejection Operands} (h : (readNumber digits >>= next) = .error why)
    (hnext : next (Nat.ofDigitChars 10 digits 0) = .error why → f.Refuses i why) :
    f.Refuses i why := by
  rcases error_of_bind h with hdigits | ⟨n, hn, h⟩
  · obtain ⟨hlong, rfl⟩ := readNumber_eq_error hdigits
    exact .long hform hmem hlong
  · obtain ⟨-, rfl⟩ := (readNumber_eq_ok_iff (hform.isParts.isAsciiDigit hmem)).1 hn
    exact hnext h

theorem refuses_of_unlessFaulty (hform : f.FirstForm i.operands before parts after)
    {faults : List RegisterFault} {o : Operands}
    (hfaults : ∀ fault ∈ faults, fault.Applies i.mnemonic f parts)
    (h : unlessFaulty f i.line faults o = .error why) : f.Refuses i why := by
  cases faults with
  | nil => cases h
  | cons fault faults =>
      obtain rfl := Except.error.inj h
      exact .range hform (List.cons_ne_nil fault faults) hfaults

/-- What is not read from a form is refused for its registers. -/
theorem refuses_of_ofGroups (hf : f ≠ .halt) (hform : f.FirstForm i.operands before parts after)
    (h : ofGroups f i parts = .error why) : f.Refuses i why := by
  have hlength : parts.length = f.classes.length := hform.isParts.length_eq.symm
  cases f with
  | register =>
      obtain ⟨dt, st, tt, rfl⟩ := List.length_eq_three.1 hlength
      have hd : (.destination, dt) ∈ Format.register.registerParts [dt, st, tt] :=
        List.mem_cons_self
      have hs : (.source, st) ∈ Format.register.registerParts [dt, st, tt] :=
        List.mem_cons_of_mem _ List.mem_cons_self
      have ht : (.target, tt) ∈ Format.register.registerParts [dt, st, tt] :=
        List.mem_cons_of_mem _ (List.mem_cons_of_mem _ List.mem_cons_self)
      refine refuses_of_bind hform hd h fun h => ?_
      refine refuses_of_bind hform hs h fun h => ?_
      refine refuses_of_bind hform ht h fun h => ?_
      refine refuses_of_unlessFaulty hform (fun fault hfault => ?_) h
      rcases List.mem_append.1 hfault with hfault | hfault
      · exact RegisterFault.applies_of_mem_pairFaults hd hs (by simp) hfault
      · exact RegisterFault.applies_of_mem_boundFaults .largeTarget ht hfault
  | immediate =>
      obtain ⟨dt, st, v, rfl⟩ := List.length_eq_three.1 hlength
      have hd : (.destination, dt) ∈ Format.immediate.registerParts [dt, st, v] :=
        List.mem_cons_self
      have hs : (.source, st) ∈ Format.immediate.registerParts [dt, st, v] :=
        List.mem_cons_of_mem _ List.mem_cons_self
      refine refuses_of_bind hform hd h fun h => ?_
      refine refuses_of_bind hform hs h fun h => ?_
      refine refuses_of_unlessFaulty hform (fun fault hfault => ?_) h
      exact RegisterFault.applies_of_mem_pairFaults hd hs (by simp) hfault
  | upper =>
      obtain ⟨dt, v, rfl⟩ := List.length_eq_two.1 hlength
      have hd : (.destination, dt) ∈ Format.upper.registerParts [dt, v] := List.mem_cons_self
      refine refuses_of_bind hform hd h fun h => ?_
      refine refuses_of_unlessFaulty hform (fun fault hfault => ?_) h
      exact RegisterFault.applies_of_mem_destinationFaults hd (by simp) hfault
  | link =>
      obtain ⟨dt, st, rfl⟩ := List.length_eq_two.1 hlength
      have hd : (.destination, dt) ∈ Format.link.registerParts [dt, st] := List.mem_cons_self
      have hs : (.source, st) ∈ Format.link.registerParts [dt, st] :=
        List.mem_cons_of_mem _ List.mem_cons_self
      refine refuses_of_bind hform hd h fun h => ?_
      refine refuses_of_bind hform hs h fun h => ?_
      -- Only the first fault is named here, and it is one of those that the others would name.
      refine refuses_of_unlessFaulty hform (fun fault hfault => ?_) h
      exact RegisterFault.applies_of_mem_pairFaults hd hs (by simp) (List.mem_of_mem_take hfault)
  | jump =>
      obtain ⟨v, rfl⟩ := List.length_eq_one_iff.1 hlength
      cases h
  | halt => exact absurd rfl hf

theorem refuses_of_read (hf : f ≠ .halt) (h : read f i = .error why) : f.Refuses i why := by
  have hread : read f i = ofGroups f i ((f.findOperands i.operands).head?.getD []) := by
    cases f with
    | halt => exact absurd rfl hf
    | _ => rfl
  rw [hread] at h
  cases hfound : (f.findOperands i.operands).head? with
  | none =>
      rw [hfound] at h
      obtain rfl : .operandShape f i.line = why := by
        cases f <;> exact Except.error.inj h
      refine .absent fun before parts after hform => ?_
      rw [(Format.findOperands_head?_eq_some_iff hf).2 ⟨before, after, hform⟩] at hfound
      cases hfound
  | some parts =>
      rw [hfound] at h
      obtain ⟨before, after, hform⟩ := (Format.findOperands_head?_eq_some_iff hf).1 hfound
      exact refuses_of_ofGroups hf hform h

end Refuses

/-- The operands that are read are those that the first form denotes. -/
theorem denotes_of_firstForm {f : Format} (hf : f ≠ .halt) {i : Instruction} {before after : Text}
    {parts : List Text} {o : Operands} (hform : f.FirstForm i.operands before parts after)
    (ho : read f i = .ok o) : Denotes i.mnemonic f parts o := by
  obtain ⟨before', parts', after', hform', hdenotes⟩ := (read_eq_ok_iff_firstForm hf).1 ho
  have hfound := (Format.findOperands_head?_eq_some_iff hf).2 ⟨before, after, hform⟩
  have hfound' := (Format.findOperands_head?_eq_some_iff hf).2 ⟨before', after', hform'⟩
  obtain rfl : parts = parts' := Option.some.inj (hfound.symm.trans hfound')
  exact hdenotes

end Operands

/-! ## Encoders -/

namespace Encoder

variable {f : Format} {i : Instruction}

/-- An encoder is made exactly when the registers of the first form are accepted. -/
theorem exists_ofInstruction_iff (hf : f ≠ .halt) (i : Instruction) :
    (∃ e, ofInstruction f i = .ok e) ↔
      ∃ before parts after, f.FirstForm i.operands before parts after ∧
        f.AcceptsRegisters i.mnemonic parts := by
  constructor
  · rintro ⟨e, he⟩
    obtain ⟨o, ho, -⟩ := ofInstruction_eq_ok_iff.1 he
    obtain ⟨before, parts, after, hform, hdenotes⟩ := (Operands.read_eq_ok_iff_firstForm hf).1 ho
    exact ⟨before, parts, after, hform,
      (Operands.exists_denotes_iff hf hform.isParts).1 ⟨o, hdenotes⟩⟩
  · rintro ⟨before, parts, after, hform, hregisters⟩
    obtain ⟨o, hdenotes⟩ := (Operands.exists_denotes_iff hf hform.isParts).2 hregisters
    have ho := (Operands.read_eq_ok_iff_firstForm hf).2 ⟨before, parts, after, hform, hdenotes⟩
    exact ⟨_, ofInstruction_eq_ok_iff.2 ⟨o, ho, rfl⟩⟩

/-- Where no encoder is made, the rejection says what the registers lack. -/
theorem refuses_of_ofInstruction (hf : f ≠ .halt) {why : Rejection}
    (h : ofInstruction f i = .error why) : f.Refuses i why := by
  cases hread : Operands.read f i with
  | error why' =>
      rw [ofInstruction, hread] at h
      obtain rfl := Except.error.inj h
      exact Operands.refuses_of_read hf hread
  | ok o =>
      rw [ofInstruction, hread] at h
      cases h

end Encoder

end WordAsm
