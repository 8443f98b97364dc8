import MethodCode.Proofs.Cursor.IndexRead
import MethodCode.Proofs.Instruction.Safety

/-! Operands as they are laid out: the opcode, after a wide prefix if there is one, and its fields in java order. What
a reader returns is found in two steps. A reader that takes the instruction for an opcode of the same format passes all
its tests, since these look at nothing but the layout and the length that the format tells; and the bytes that it then
joins are those that were laid out. Main statement: the readers that match a format answer with the operands that were
laid out, and an instruction branches exactly if its format has an offset. -/

namespace MethodCode

open FormatTable (standard)
open Format (SuitsIndex)

/-! ### Readers that pass their tests -/

theorem map_eq_ok_iff {α β : Type} {f : α → β} (hf : Function.Injective f) {x : Except Fault α} {a : α} :
    (do return f (← x)) = Except.ok (f a) ↔ x = .ok a := by
  cases x <;> simp [pure, Except.pure, hf.eq_iff]

namespace Cursor.HasLayout

variable {c : Cursor} {op : Opcode} {wide : Bool} {set : FormatFlags} {offset size : Nat}

theorem indexU1_eq_ok (h : c.HasLayout op false set) (hsuits : SuitsIndex set 1 false) {index : UInt8} :
    c.indexU1 op = .ok index ↔ c.byteAt 1 = .ok index := by
  have hinj : Function.Injective UInt8.toUInt32 := fun _ _ => UInt8.toUInt32_inj.mp
  rw [← map_eq_ok_iff hinj, ← map_eq_ok_iff hinj]
  exact IndexReader.read_of_layout (r := .byte) h hsuits nofun

theorem indexU2_eq_ok (h : c.HasLayout op wide set) (hsuits : SuitsIndex set 2 wide) (hjava : set.order = .java)
    {index : UInt16} :
    c.indexU2 op wide = .ok index ↔ c.code.u16At .java (c.bci + if wide then 2 else 1) = .ok index := by
  have hinj : Function.Injective UInt16.toUInt32 := fun _ _ => UInt16.toUInt32_inj.mp
  rw [← map_eq_ok_iff hinj, ← map_eq_ok_iff hinj, ← hjava]
  exact IndexReader.read_of_layout (r := .short wide) h hsuits nofun

/-- The flags of a constant may come with that of a local. -/
theorem claimConstantSize (h : c.HasLayout op wide set) {need : FormatFlags} (hneed : need ∈ constantFlags? size)
    (hset : set &&& ~~~(.of [.hasLocal]) = widened need wide)
    (hlength : c.formats.length op wide = .ok (some (offset + size))) :
    c.claimConstantSize size offset op wide = .ok () := by
  obtain ⟨e, he, rfl⟩ := h.entry
  rw [FormatEntry.layoutIn, BitVec.and_assoc] at hset
  rw [FormatTable.length_of_entry he] at hlength
  exact (claimConstantSize_eq_ok h.mode).mpr ⟨e, he, ⟨need, hneed, hset⟩, Except.ok.inj hlength⟩

theorem constantS1_eq (h : c.HasLayout op false set) (hset : set &&& ~~~(.of [.hasLocal]) = .byteConstant)
    (hlength : c.formats.length op false = .ok (some (offset + 1))) :
    c.constantS1 offset op = (do return (← c.byteAt offset).toInt8) := by
  rw [constantS1, h.format, ok_bind, h.claimConstantSize rfl hset hlength, ok_bind]

theorem constantS2_eq (h : c.HasLayout op wide set)
    (hset : set &&& ~~~(.of [.hasLocal]) = widened (FormatFlags.byteConstant.insert .hasU2) wide)
    (hlength : c.formats.length op wide = .ok (some (offset + 2))) :
    c.constantS2 offset op wide = (do return (← c.code.u16At .java (c.bci + offset)).toInt16) := by
  rw [constantS2, h.format, ok_bind, h.claimConstantSize rfl hset hlength, ok_bind]

theorem offsetS2_eq (h : c.HasLayout op false .shortOffset) :
    c.offsetS2 op = (do return (← c.code.u16At .java (c.bci + 1)).toInt16) := by
  obtain ⟨e, he, hlayout⟩ := h.entry
  rw [offsetS2, h.format, ok_bind, claimOffsetSize_of_layout he (by simp) hlayout, ok_bind]

theorem offsetS4_eq (h : c.HasLayout op false .longOffset) : c.offsetS4 op = c.wordAt 1 := by
  obtain ⟨e, he, hlayout⟩ := h.entry
  rw [offsetS4, h.format, ok_bind, claimOffsetSize_of_layout he (by simp) hlayout, ok_bind]

end Cursor.HasLayout

/-! ### Operands -/

/-- The operands of an instruction, one kind for each format whose fields are read as they are. -/
inductive Operands where
  /-- A local of the first 256, as of `iload`. -/
  | local8 (index : UInt8)
  /-- A byte, as of `bipush`. -/
  | constant8 (value : Int8)
  /-- Two bytes, as of `sipush`. -/
  | constant16 (value : Int16)
  /-- A local and what is added to it, as of `iinc`. -/
  | increment (index : UInt8) (value : Int8)
  /-- A constant of the first 256 of the pool, as of `ldc`. -/
  | pool8 (index : UInt8)
  /-- Any constant of the pool, as of `new`. -/
  | pool16 (index : UInt16)
  /-- A class of the pool and the dimensions of an array, as of `multianewarray`. -/
  | array (index : UInt16) (dimensions : UInt8)
  /-- The offset of a branch, as of `goto`. -/
  | branch16 (offset : Int16)
  /-- The offset of a far branch, as of `goto_w`. -/
  | branch32 (offset : Int32)
  /-- Any local, after a wide prefix. -/
  | wideLocal (index : UInt16)
  /-- Any local and what is added to it, after a wide prefix. -/
  | wideIncrement (index : UInt16) (value : Int16)

namespace Operands

/-- The format that has these operands. -/
def format : Operands → String
  | local8 _ => "bi"
  | constant8 _ => "bc"
  | constant16 _ => "bcc"
  | increment _ _ => "bic"
  | pool8 _ => "bk"
  | pool16 _ => "bkk"
  | array _ _ => "bkkc"
  | branch16 _ => "boo"
  | branch32 _ => "boooo"
  | wideLocal _ => "wbii"
  | wideIncrement _ _ => "wbiicc"

/-- Whether a wide prefix comes first. -/
def isWide : Operands → Bool
  | wideLocal _ | wideIncrement _ _ => true
  | _ => false

/-- What the format tells of the layout. -/
def layout : Operands → FormatFlags
  | local8 _ => .of [.notVariable, .hasLocal]
  | constant8 _ => .byteConstant
  | constant16 _ => FormatFlags.byteConstant.insert .hasU2
  | increment _ _ => FormatFlags.byteConstant.insert .hasLocal
  | pool8 _ => .of [.notVariable, .hasPoolIndex]
  | pool16 _ => .of [.notVariable, .hasPoolIndex, .hasU2]
  | array _ _ => .of [.notVariable, .hasPoolIndex, .hasU2, .hasConstant]
  | branch16 _ => .shortOffset
  | branch32 _ => .longOffset
  | wideLocal _ => .of [.notSimple, .notVariable, .hasLocal, .hasU2]
  | wideIncrement _ _ => .of [.notSimple, .notVariable, .hasLocal, .hasU2, .hasConstant]

theorem flags_format (o : Operands) : Format.flags o.format 0 = .ok o.layout := by
  cases o <;> dsimp only [format, layout] <;> decide +kernel

/-- How long the instruction is. -/
def length : Operands → Nat
  | local8 _ | constant8 _ | pool8 _ => 2
  | constant16 _ | increment _ _ | pool16 _ | branch16 _ => 3
  | array _ _ | wideLocal _ => 4
  | branch32 _ => 5
  | wideIncrement _ _ => 6

theorem utf8ByteSize_format (o : Operands) : o.format.utf8ByteSize = o.length := by
  cases o <;> dsimp only [format, length] <;> decide

/-- The fields after the opcode. -/
def fields : Operands → List UInt8
  | local8 index => [index]
  | constant8 value => [value.toUInt8]
  | constant16 value => ByteOrder.java.split16 value.toUInt16
  | increment index value => [index, value.toUInt8]
  | pool8 index => [index]
  | pool16 index => ByteOrder.java.split16 index
  | array index dimensions => ByteOrder.java.split16 index ++ [dimensions]
  | branch16 offset => ByteOrder.java.split16 offset.toUInt16
  | branch32 offset => ByteOrder.java.split32 offset.toUInt32
  | wideLocal index => ByteOrder.java.split16 index
  | wideIncrement index value => ByteOrder.java.split16 index ++ ByteOrder.java.split16 value.toUInt16

/-- The bytes of an instruction with these operands. -/
def bytes (o : Operands) (op : Opcode) : List UInt8 :=
  if o.isWide then Opcode.wide.byte :: op.byte :: o.fields else op.byte :: o.fields

/-- Where an instruction with these operands branches to, from a position. -/
def target (bci : Nat) : Operands → Option UInt64
  | branch16 offset => some (.ofInt (bci + offset.toInt))
  | branch32 offset => some (.ofInt (bci + offset.toInt))
  | _ => none

/-- The readers that match the format of the instruction answer with the operands. -/
def ReadBack (c : Cursor) (op : Opcode) : Operands → Prop
  | local8 index => c.indexU1 op = .ok index
  | constant8 value => c.constantS1 1 op = .ok value
  | constant16 value => c.constantS2 1 op false = .ok value
  | increment index value => c.indexU1 op = .ok index ∧ c.constantS1 2 op = .ok value
  | pool8 index => c.indexU1 op = .ok index
  | pool16 index => c.indexU2 op false = .ok index
  | array index dimensions =>
    c.indexU2 op false = .ok index ∧
      ∀ body : MethodBody, body.code = c.code → ∃ r, TypeRef.decode .checked body c.bci = .ok r ∧
        r.index = .ok index ∧ r.dimensions = .ok (some dimensions)
  | branch16 offset => c.offsetS2 op = .ok offset
  | branch32 offset => c.offsetS4 op = .ok offset
  | wideLocal index => c.indexU2 op true = .ok index
  | wideIncrement index value => c.indexU2 op true = .ok index ∧ c.constantS2 4 op true = .ok value

end Operands

/-! ### Instructions with operands -/

/-- The code holds an instruction of the standard set with operands that suit its format. -/
structure Code.HoldsOperands (c : Code) (bci : Nat) (d : OpcodeDefinition) (o : Operands) : Prop where
  defined : d ∈ OpcodeDefinition.standard
  format : d.formatIn o.isWide = some o.format
  bytes : c.Carries bci (o.bytes d.code)

private theorem formats_of_breakpoint : ∀ d ∈ OpcodeDefinition.standard, d.code = .breakpoint →
    d.format = "" ∧ d.wideFormat = none := by
  decide +kernel

variable {c : Cursor} {d claimed : OpcodeDefinition} {o : Operands}

namespace Code.HoldsOperands

section Place

variable (h : c.code.HoldsOperands c.bci d o)

include h

theorem shows_and_carries :
    c.Shows o.isWide d.code ∧ c.code.Carries (c.bci + if o.isWide then 2 else 1) o.fields := by
  have hbytes := h.bytes
  unfold Operands.bytes at hbytes
  cases hwide : o.isWide with
  | false =>
      rw [hwide, if_neg Bool.false_ne_true] at hbytes
      exact ⟨opcodeAt_eq_ok.mpr hbytes.1, hbytes.2⟩
  | true =>
      rw [hwide, if_pos rfl] at hbytes
      exact ⟨⟨opcodeAt_eq_ok.mpr hbytes.1, opcodeAt_eq_ok.mpr hbytes.2.1⟩, hbytes.2.2⟩

/-- A breakpoint has no format, and so no operands. -/
theorem inSight : c.InSight o.isWide := by
  have hne : d.code ≠ .breakpoint := by
    intro hcode
    have hformat := h.format
    obtain ⟨hnarrow, hwide⟩ := formats_of_breakpoint d h.defined hcode
    cases o <;> simp [OpcodeDefinition.formatIn, Operands.isWide, Operands.format, hnarrow, hwide] at hformat
  obtain ⟨hshows, -⟩ := h.shows_and_carries
  cases hwide : o.isWide with
  | false =>
      rw [hwide] at hshows
      have hop : c.rawOpcode = .ok d.code := hshows
      exact ⟨by rwa [hop, Ne, Except.ok.injEq], nofun⟩
  | true =>
      rw [hwide] at hshows
      refine ⟨?_, fun _ _ => by rwa [hshows.2, Ne, Except.ok.injEq]⟩
      rw [hshows.1]
      decide

theorem hasLayout (hmode : c.mode = .checked) (hformats : c.formats = standard)
    (hclaimed : claimed ∈ OpcodeDefinition.standard) (hsame : claimed.formatIn o.isWide = some o.format) :
    c.HasLayout claimed.code o.isWide o.layout :=
  Cursor.hasLayout_of_shows (hformats ▸ FormatTable.ofDefinitions_standard) hmode h.inSight h.defined hclaimed
    h.shows_and_carries.1 h.format hsame o.flags_format

end Place

private theorem canonical_of_array : ∀ d ∈ OpcodeDefinition.standard, d.format = "bkkc" →
    d.canonical = .multianewarray := by
  decide +kernel

/-- An array creation is a type reference, with dimensions beside the class. -/
theorem typeRef {body : MethodBody} {bci : Nat} {index : UInt16} {dimensions : UInt8}
    (h : body.code.HoldsOperands bci d (.array index dimensions)) :
    ∃ r, TypeRef.decode .checked body bci = .ok r ∧ r.index = .ok index ∧ r.dimensions = .ok (some dimensions) := by
  let c := body.cursor .checked bci
  have hholds : c.code.HoldsOperands c.bci d (.array index dimensions) := h
  obtain ⟨hop, hfields⟩ := hholds.shows_and_carries
  obtain ⟨hindex, hdimensions⟩ := carries_append.mp hfields
  have hop : c.rawOpcode = .ok d.code := hop
  obtain ⟨e, he, hdescribes⟩ := FormatTable.entry_of_definition FormatTable.ofDefinitions_standard h.defined
  have hcanonical : e.canonical = .multianewarray :=
    hdescribes.canonical.trans (canonical_of_array d h.defined (Option.some.inj h.format))
  have hlayout : c.HasLayout d.code false (.of [.notVariable, .hasPoolIndex, .hasU2, .hasConstant]) :=
    hholds.hasLayout rfl rfl h.defined h.format
  refine ⟨⟨c, body⟩, ?_, ?_, ?_⟩
  · have hvalid : TypeRef.isValid ⟨c, body⟩ = .ok true := by
      rw [TypeRef.isValid, Cursor.family_of_entry hop he, FormatEntry.family, hcanonical]
      rfl
    have htest : (do ensure (← TypeRef.isValid ⟨c, body⟩) (.notTypeRef bci)) = Except.ok () := by
      rw [hvalid]
      rfl
    change (do Mode.checked.check _; .ok _) = _
    rw [Cursor.check_of_ok htest, ok_bind]
  · rw [TypeRef.index, hop, ok_bind]
    exact (hlayout.indexU2_eq_ok (by decide) (by decide)).mpr (u16At_of_carries hindex)
  · have hread : c.byteAt 3 = .ok dimensions := hdimensions.1
    rw [TypeRef.dimensions, Cursor.opcode_of_entry hop he, ok_bind, if_pos hcanonical, hread]
    rfl

/-- The readers answer with the operands, whichever opcode of the same format they take the instruction for. -/
theorem readBack (h : c.code.HoldsOperands c.bci d o) (hmode : c.mode = .checked) (hformats : c.formats = standard)
    (hclaimed : claimed ∈ OpcodeDefinition.standard) (hsame : claimed.formatIn o.isWide = some o.format) :
    o.ReadBack c claimed.code := by
  have hlayout := h.hasLayout hmode hformats hclaimed hsame
  have hne : o.format ≠ "" := by cases o <;> simp [Operands.format]
  have hlength := FormatTable.length_of_definition (hformats ▸ FormatTable.ofDefinitions_standard) hclaimed hsame hne
  rw [o.utf8ByteSize_format] at hlength
  obtain ⟨-, hfields⟩ := h.shows_and_carries
  cases o with
  | local8 index =>
      replace hlayout : c.HasLayout _ false (.of [.notVariable, .hasLocal]) := hlayout
      exact (hlayout.indexU1_eq_ok (by decide)).mpr hfields.1
  | constant8 value =>
      replace hlayout : c.HasLayout _ false .byteConstant := hlayout
      have hread : c.byteAt 1 = .ok value.toUInt8 := hfields.1
      rw [Operands.ReadBack, hlayout.constantS1_eq (by decide) hlength, hread]
      rfl
  | constant16 value =>
      replace hlayout : c.HasLayout _ false (FormatFlags.byteConstant.insert .hasU2) := hlayout
      have hread : c.code.u16At .java (c.bci + 1) = .ok value.toUInt16 := u16At_of_carries hfields
      rw [Operands.ReadBack, hlayout.constantS2_eq (by decide) hlength, hread]
      rfl
  | increment index value =>
      replace hlayout : c.HasLayout _ false (FormatFlags.byteConstant.insert .hasLocal) := hlayout
      have hread : c.byteAt 2 = .ok value.toUInt8 := hfields.2.1
      refine ⟨(hlayout.indexU1_eq_ok (by decide)).mpr hfields.1, ?_⟩
      rw [hlayout.constantS1_eq (by decide) hlength, hread]
      rfl
  | pool8 index =>
      replace hlayout : c.HasLayout _ false (.of [.notVariable, .hasPoolIndex]) := hlayout
      exact (hlayout.indexU1_eq_ok (by decide)).mpr hfields.1
  | pool16 index =>
      replace hlayout : c.HasLayout _ false (.of [.notVariable, .hasPoolIndex, .hasU2]) := hlayout
      exact (hlayout.indexU2_eq_ok (by decide) (by decide)).mpr (u16At_of_carries hfields)
  | array index dimensions =>
      replace hlayout : c.HasLayout _ false (.of [.notVariable, .hasPoolIndex, .hasU2, .hasConstant]) := hlayout
      obtain ⟨hindex, -⟩ := carries_append.mp hfields
      refine ⟨(hlayout.indexU2_eq_ok (by decide) (by decide)).mpr (u16At_of_carries hindex), fun body hbody => ?_⟩
      rw [← hbody] at h
      exact h.typeRef
  | branch16 offset =>
      have hread : c.code.u16At .java (c.bci + 1) = .ok offset.toUInt16 := u16At_of_carries hfields
      rw [Operands.ReadBack, hlayout.offsetS2_eq, hread]
      rfl
  | branch32 offset =>
      have hread : c.code.u32At .java (c.bci + 1) = .ok offset.toUInt32 := u32At_of_carries hfields
      rw [Operands.ReadBack, hlayout.offsetS4_eq, Cursor.wordAt, hread]
      rfl
  | wideLocal index =>
      replace hlayout : c.HasLayout _ true (.of [.notSimple, .notVariable, .hasLocal, .hasU2]) := hlayout
      exact (hlayout.indexU2_eq_ok (by decide) (by decide)).mpr (u16At_of_carries hfields)
  | wideIncrement index value =>
      replace hlayout : c.HasLayout _ true (.of [.notSimple, .notVariable, .hasLocal, .hasU2, .hasConstant]) := hlayout
      obtain ⟨hindex, hvalue⟩ := carries_append.mp hfields
      have hread : c.code.u16At .java (c.bci + 4) = .ok value.toUInt16 := u16At_of_carries hvalue
      refine ⟨(hlayout.indexU2_eq_ok (by decide) (by decide)).mpr (u16At_of_carries hindex), ?_⟩
      rw [hlayout.constantS2_eq (by decide) hlength, hread]
      rfl

end Code.HoldsOperands

/-! ### Branches -/

private theorem offset_of_format : ∀ d ∈ OpcodeDefinition.standard, d.format ≠ "boo" → d.format ≠ "boooo" →
    (Format.flags d.format 0).toOption.map (·.has .hasOffset) = some false := by
  decide +kernel

theorem Cursor.branchDestination_of_format (hformats : c.formats = standard) (hd : d ∈ OpcodeDefinition.standard)
    (hop : c.rawOpcode = .ok d.code) (hnear : d.format ≠ "boo") (hfar : d.format ≠ "boooo") :
    c.branchDestination = .ok none := by
  obtain ⟨e, he, hdescribes⟩ := FormatTable.entry_of_definition FormatTable.ofDefinitions_standard hd
  have hflags : Format.flags d.format 0 = .ok (e.layoutIn false) := hdescribes.layoutIn rfl
  have hlayout := offset_of_format d hd hnear hfar
  rw [hflags] at hlayout
  have hoffset : (e.layoutIn false).has .hasOffset = false := Option.some.inj hlayout
  rw [FormatEntry.has_layoutIn (by decide)] at hoffset
  have hnone : ¬e.flags.has .hasOffset = true := Bool.eq_false_iff.mp hoffset
  rw [branchDestination_of_entry hop (hformats ▸ he), if_neg hnone]

private theorem exists_prefix : ∃ d ∈ OpcodeDefinition.standard, d.code = .wide ∧ d.format = "" := by decide +kernel

/-- An instruction with operands branches by its offset, if it has one. -/
theorem Code.HoldsOperands.branchDestination (h : c.code.HoldsOperands c.bci d o) (hmode : c.mode = .checked)
    (hformats : c.formats = standard) : c.branchDestination = .ok (o.target c.bci) := by
  obtain ⟨hshows, -⟩ := h.shows_and_carries
  have hother (hnear : o.format ≠ "boo") (hfar : o.format ≠ "boooo") : c.branchDestination = .ok none := by
    cases hwide : o.isWide with
    | false =>
        rw [hwide] at hshows
        have hformat := h.format
        rw [hwide] at hformat
        have hsame : d.format = o.format := Option.some.inj hformat
        exact Cursor.branchDestination_of_format hformats h.defined hshows (hsame ▸ hnear) (hsame ▸ hfar)
    | true =>
        -- what tells is the prefix, which has no format
        rw [hwide] at hshows
        obtain ⟨first, hfirst, hcode, hempty⟩ := exists_prefix
        exact Cursor.branchDestination_of_format hformats hfirst (hcode ▸ hshows.1) (by simp [hempty])
          (by simp [hempty])
  have hread := h.readBack hmode hformats h.defined h.format
  have hlayout := h.hasLayout hmode hformats h.defined h.format
  obtain ⟨e, he, hset⟩ := hlayout.entry
  have hoffset : (e.flagsIn o.isWide).has .hasOffset = o.layout.has .hasOffset := by
    rw [← hset, FormatEntry.has_layoutIn (by decide)]
  have hword : (e.flagsIn o.isWide).has .hasU4 = o.layout.has .hasU4 := by
    rw [← hset, FormatEntry.has_layoutIn (by decide)]
  cases o with
  | branch16 offset =>
      have hoffset : e.flags.has .hasOffset = true :=
        hoffset.trans (show FormatFlags.shortOffset.has .hasOffset = true by decide)
      have hshort : e.flags.has .hasU4 = false :=
        hword.trans (show FormatFlags.shortOffset.has .hasU4 = false by decide)
      have hread : c.offsetS2 d.code = .ok offset := hread
      rw [Cursor.branchDestination_of_entry hshows he, if_pos hoffset, hshort, hread]
      rfl
  | branch32 offset =>
      have hoffset : e.flags.has .hasOffset = true :=
        hoffset.trans (show FormatFlags.longOffset.has .hasOffset = true by decide)
      have hword : e.flags.has .hasU4 = true :=
        hword.trans (show FormatFlags.longOffset.has .hasU4 = true by decide)
      have hread : c.offsetS4 d.code = .ok offset := hread
      rw [Cursor.branchDestination_of_entry hshows he, if_pos hoffset, hword, hread]
      rfl
  | local8 _ | constant8 _ | constant16 _ | increment _ _ | pool8 _ | pool16 _ | array _ _ | wideLocal _
  | wideIncrement _ _ => exact hother (by simp [Operands.format]) (by simp [Operands.format])

/-- What was laid out as operands is what the readers of a checked cursor answer, wherever the instruction stands: each
reader that matches the format passes its tests, also for another opcode of the same format, and the instruction
branches by its offset if it has one. No other instruction of the standard set branches. -/
theorem Operands.read_back (hmode : c.mode = .checked) (hformats : c.formats = standard) :
    (∀ d o, c.code.HoldsOperands c.bci d o →
      (∀ claimed ∈ OpcodeDefinition.standard, claimed.formatIn o.isWide = some o.format →
        o.ReadBack c claimed.code) ∧
      c.branchDestination = .ok (o.target c.bci)) ∧
    ∀ d ∈ OpcodeDefinition.standard, d.format ≠ "boo" → d.format ≠ "boooo" → c.rawOpcode = .ok d.code →
      c.branchDestination = .ok none :=
  ⟨fun _ _ h => ⟨fun _ hclaimed hsame => h.readBack hmode hformats hclaimed hsame, h.branchDestination hmode hformats⟩,
    fun _ hd hnear hfar hop => Cursor.branchDestination_of_format hformats hd hop hnear hfar⟩

/-- A wide increment after another instruction, and a branch to the last address of all. -/
def sampleOperands : Code := .ofList [0x00, 0xc4, 0x84, 0x01, 0x02, 0xff, 0xfe, 0xa7, 0xff, 0xf8]

theorem Operands.read_back_sample :
    ∃ increment branch, increment.code = ⟨0x84⟩ ∧ branch.code = ⟨0xa7⟩ ∧
      sampleOperands.HoldsOperands 1 increment (.wideIncrement 0x102 (-2)) ∧
      sampleOperands.HoldsOperands 7 branch (.branch16 (-8)) ∧
      (⟨.checked, standard, sampleOperands, none, 1⟩ : Cursor).constantS2 4 ⟨0x84⟩ true = .ok (-2) ∧
      (⟨.checked, standard, sampleOperands, none, 1⟩ : Cursor).branchDestination = .ok none ∧
      (⟨.checked, standard, sampleOperands, none, 7⟩ : Cursor).offsetS2 ⟨0xa7⟩ = .ok (-8) ∧
      (⟨.checked, standard, sampleOperands, none, 7⟩ : Cursor).branchDestination = .ok (some 0xffffffffffffffff) := by
  obtain ⟨increment, hincrement, hcode, hformat⟩ :
      ∃ d ∈ OpcodeDefinition.standard, d.code = ⟨0x84⟩ ∧ d.formatIn true = some "wbiicc" := by decide +kernel
  obtain ⟨branch, hbranch, hcode', hformat'⟩ :
      ∃ d ∈ OpcodeDefinition.standard, d.code = ⟨0xa7⟩ ∧ d.formatIn false = some "boo" := by decide +kernel
  have hwide : sampleOperands.HoldsOperands 1 increment (.wideIncrement 0x102 (-2)) :=
    ⟨hincrement, hformat, by rw [hcode]; decide⟩
  have hback : sampleOperands.HoldsOperands 7 branch (.branch16 (-8)) := ⟨hbranch, hformat', by rw [hcode']; decide⟩
  obtain ⟨hread, hnone⟩ := (read_back (c := ⟨.checked, standard, sampleOperands, none, 1⟩) rfl rfl).1 _ _ hwide
  obtain ⟨hread', hsome⟩ := (read_back (c := ⟨.checked, standard, sampleOperands, none, 7⟩) rfl rfl).1 _ _ hback
  exact ⟨increment, branch, hcode, hcode', hwide, hback, hcode ▸ (hread _ hincrement hformat).2, hnone,
    hcode' ▸ hread' _ hbranch hformat', hsome⟩

end MethodCode
