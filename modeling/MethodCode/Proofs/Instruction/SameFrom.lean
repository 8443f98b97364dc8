import MethodCode.Proofs.Instruction.Report

/-! Codes that are equal from a position on. No reader looks back, so an instruction tells the same over such
codes even where it is cut off by the end: it reports the same, and it decodes to the same kind or fails in the
same way. -/

namespace MethodCode

/-- The codes end together and hold the same bytes from a position on. -/
structure Code.SameFrom (d c : Code) (bci : Nat) : Prop where
  size : d.size = c.size
  bytes : Set.EqOn d.byteAt c.byteAt (Set.Ici bci)

variable {c d : Code} {bci : Nat} {mode : Mode} {method : Option Method}

namespace Code.SameFrom

variable (h : d.SameFrom c bci)

include h

/-! ### Cursors -/

theorem rawOpcode_eq : (d.viewAt mode method bci).rawOpcode = (c.viewAt mode method bci).rawOpcode :=
  opcodeAt_congr (h.bytes (Set.mem_Ici.mpr (Nat.le_refl _)))

theorem wideOpcode_eq : (d.viewAt mode method bci).wideOpcode = (c.viewAt mode method bci).wideOpcode :=
  opcodeAt_congr (h.bytes (Set.mem_Ici.mpr (Nat.le_succ _)))

theorem u16At_eq (order : ByteOrder) (k : Nat) :
    (d.viewAt mode method bci).code.u16At order ((d.viewAt mode method bci).bci + k) =
      (c.viewAt mode method bci).code.u16At order ((c.viewAt mode method bci).bci + k) :=
  u16At_congr (h.bytes.mono fun _ hp => Nat.le_trans (Nat.le_add_right bci k) hp.1)

theorem u32At_eq (order : ByteOrder) (k : Nat) :
    (d.viewAt mode method bci).code.u32At order ((d.viewAt mode method bci).bci + k) =
      (c.viewAt mode method bci).code.u32At order ((c.viewAt mode method bci).bci + k) :=
  u32At_congr (h.bytes.mono fun _ hp => Nat.le_trans (Nat.le_add_right bci k) hp.1)

theorem wordAt_eq (offset : Nat) :
    (d.viewAt mode method bci).wordAt offset = (c.viewAt mode method bci).wordAt offset := by
  rw [Cursor.wordAt, Cursor.wordAt, h.u32At_eq]

theorem switchWord_eq (k : Nat) :
    (d.viewAt mode method bci).switchWord k = (c.viewAt mode method bci).switchWord k :=
  h.wordAt_eq _

/-- A claim about an instruction looks at its opcode, and behind a wide prefix. -/
theorem claimFormat_eq (op : Opcode) (wide : Bool) :
    (d.viewAt mode method bci).claimFormat op wide = (c.viewAt mode method bci).claimFormat op wide := by
  rw [Cursor.claimFormat, Cursor.claimFormat, h.rawOpcode_eq, h.wideOpcode_eq]
  rfl

theorem cacheIndexU2_eq (op : Opcode) (tag : UInt32) :
    (d.viewAt mode method bci).cacheIndexU2 op tag = (c.viewAt mode method bci).cacheIndexU2 op tag := by
  rw [Cursor.cacheIndexU2, Cursor.cacheIndexU2, h.claimFormat_eq, h.u16At_eq]
  rfl

theorem indexU4_eq (op : Opcode) :
    (d.viewAt mode method bci).indexU4 op = (c.viewAt mode method bci).indexU4 op := by
  rw [Cursor.indexU4, Cursor.indexU4, h.claimFormat_eq, h.u32At_eq]
  rfl

theorem opcode_eq : (d.viewAt mode method bci).opcode = (c.viewAt mode method bci).opcode := by
  rw [Cursor.opcode, Cursor.opcode, h.rawOpcode_eq]
  rfl

theorem family_eq : (d.viewAt mode method bci).family = (c.viewAt mode method bci).family := by
  rw [Cursor.family, Cursor.family, h.rawOpcode_eq]
  rfl

theorem length_eq : (d.viewAt mode method bci).length = (c.viewAt mode method bci).length := by
  have hswitch (op : Opcode) :
      (d.viewAt mode method bci).switchLength op = (c.viewAt mode method bci).switchLength op := by
    simp only [Cursor.switchLength, h.switchWord_eq]
    rfl
  simp only [Cursor.length, h.rawOpcode_eq, h.wideOpcode_eq, hswitch]
  rfl

theorem checkedLength_eq :
    (d.viewAt mode method bci).checkedLength = (c.viewAt mode method bci).checkedLength := by
  rw [Cursor.checkedLength_eq_lengthAt rfl, Cursor.checkedLength_eq_lengthAt rfl]
  exact lengthAt_congr h.size h.bytes

theorem branchDestination_eq :
    (d.viewAt mode method bci).branchDestination = (c.viewAt mode method bci).branchDestination := by
  have hshort (op : Opcode) :
      (d.viewAt mode method bci).offsetS2 op = (c.viewAt mode method bci).offsetS2 op := by
    rw [Cursor.offsetS2, Cursor.offsetS2, h.claimFormat_eq, h.u16At_eq]
    rfl
  have hword (op : Opcode) :
      (d.viewAt mode method bci).offsetS4 op = (c.viewAt mode method bci).offsetS4 op := by
    rw [Cursor.offsetS4, Cursor.offsetS4, h.claimFormat_eq, h.wordAt_eq]
    rfl
  simp only [Cursor.branchDestination, h.rawOpcode_eq, hshort, hword]
  rfl

theorem report_eq : (d.viewAt mode method bci).report = (c.viewAt mode method bci).report := by
  rw [Cursor.report, Cursor.report, h.opcode_eq, h.family_eq, h.length_eq, h.checkedLength_eq,
    h.branchDestination_eq]

end Code.SameFrom

/-! ### Bodies -/

section Body

variable {body body' : MethodBody} (h : body'.code.SameFrom body.code bci)
  (hmethod : body'.method = body.method)
  (hreferences : body'.constants.references = body.constants.references)

include h hmethod hreferences

theorem Code.SameFrom.memberRef_report_eq :
    (body'.memberRefAt mode bci).report = (body.memberRefAt mode bci).report := by
  have hview : (body'.memberRefAt mode bci).cursor = body'.code.viewAt mode (some body.method) bci :=
    MethodBody.cursor_eq hmethod
  have htag := MemberRef.indexTag_congr hreferences mode bci
  have hraw : (body'.memberRefAt mode bci).rawOpcode = (body.memberRefAt mode bci).rawOpcode := by
    rw [MemberRef.rawOpcode, hview]
    exact h.rawOpcode_eq
  have hwide : (body'.memberRefAt mode bci).hasWideIndex = (body.memberRefAt mode bci).hasWideIndex := by
    rw [MemberRef.hasWideIndex, MemberRef.hasWideIndex, hraw]
    rfl
  have hindex : (body'.memberRefAt mode bci).index = (body.memberRefAt mode bci).index := by
    rw [MemberRef.index, MemberRef.index, hraw, hwide, htag, hview]
    simp only [h.indexU4_eq, h.cacheIndexU2_eq]
    rfl
  have hopcode : (body'.memberRefAt mode bci).opcode = (body.memberRefAt mode bci).opcode := by
    rw [MemberRef.opcode, hview]
    exact h.opcode_eq
  refine MemberRef.report_congr hmethod rfl hreferences hindex ?_ hopcode
  rw [MemberRef.cacheIndex, MemberRef.cacheIndex, hwide, hindex, htag]

theorem Code.SameFrom.kind_eq :
    Decoded.kind <$> Decoded.decode mode body' bci = Decoded.kind <$> Decoded.decode mode body bci := by
  have hview : body'.cursor mode bci = body'.code.viewAt mode (some body.method) bci :=
    MethodBody.cursor_eq hmethod
  have hfamily : (body'.cursor mode bci).family = (body.cursor mode bci).family := hview ▸ h.family_eq
  have hraw : (body'.cursor mode bci).rawOpcode = (body.cursor mode bci).rawOpcode := hview ▸ h.rawOpcode_eq
  have hword (k : Nat) : (body'.cursor mode bci).switchWord k = (body.cursor mode bci).switchWord k :=
    hview ▸ h.switchWord_eq k
  have hsize : LookupSwitch.size ⟨body'.cursor mode bci⟩ = LookupSwitch.size ⟨body.cursor mode bci⟩ := by
    rw [LookupSwitch.size, LookupSwitch.size, hword]
  refine Decoded.kind_congr hmethod hreferences hfamily (hview ▸ h.opcode_eq) (fun _ => ?_) (fun _ => ?_)
    fun _ => ?_
  · exact LoadConstant.failAlike_decode hraw hfamily
  · exact TableSwitch.failAlike_decode rfl rfl hfamily (hword 1) (hword 2)
  · refine LookupSwitch.failAlike_decode rfl rfl hfamily hsize fun _ _ i _ => ?_
    rw [LookupSwitch.pairAt, LookupSwitch.pairAt, hsize, hword, hword]
    rfl

end Body

/-! ### Either way -/

/-- The instruction at a position has kept its operands, or everything from its start on is as it was. -/
inductive Code.SameInstruction (d c : Code) (bci : Nat) : Prop where
  | operands {n : Nat} {op' op : Opcode} {e' e : FormatEntry} (h : d.SameOperands c bci n op' op e' e)
  | rest (h : d.SameFrom c bci)

namespace Code.SameInstruction

theorem lengthAt_eq (h : d.SameInstruction c bci) : d.lengthAt bci = c.lengthAt bci := by
  cases h with
  | operands h => rw [h.after.lengthAt, h.before.lengthAt]
  | rest h => exact lengthAt_congr h.size h.bytes

theorem report_eq (h : d.SameInstruction c bci) :
    (d.viewAt mode method bci).report = (c.viewAt mode method bci).report := by
  cases h with
  | operands h => exact h.report_eq
  | rest h => exact h.report_eq

section Body

variable {body body' : MethodBody} (h : body'.code.SameInstruction body.code bci)
  (hmethod : body'.method = body.method)
  (hreferences : body'.constants.references = body.constants.references)

include h hmethod hreferences

theorem kind_eq :
    Decoded.kind <$> Decoded.decode mode body' bci = Decoded.kind <$> Decoded.decode mode body bci := by
  cases h with
  | operands h => exact Code.SameOperands.kind_eq h hmethod hreferences
  | rest h => exact Code.SameFrom.kind_eq h hmethod hreferences

theorem memberRef_report_eq {family : Family} (hfamily : (body.cursor mode bci).family = .ok family)
    (hmember : family ∈ MemberRef.families) :
    (body'.memberRefAt mode bci).report = (body.memberRefAt mode bci).report := by
  cases h with
  | @operands _ _ op _ e h =>
      have hraw : (body.cursor mode bci).rawOpcode = .ok op := h.before.opcode
      obtain rfl : e.family = family :=
        Except.ok.inj ((Cursor.family_of_entry hraw h.before.entry).symm.trans hfamily)
      exact Code.SameOperands.memberRef_report_eq h hmethod hreferences hmember
  | rest h => exact Code.SameFrom.memberRef_report_eq h hmethod hreferences

end Body

end Code.SameInstruction

end MethodCode
