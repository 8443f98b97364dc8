import MethodCode.Instruction.LookupSwitch
import MethodCode.Instruction.TableSwitch
import MethodCode.Proofs.Code.Instruction
import MethodCode.Proofs.Cursor.Index

/-! The structure of an instruction: its length, the standard code that it stands for, and where it may
go. Main statement: an instruction that makes room for a fast form of its own keeps its structure, as long
as the operands that tell where it goes stay. -/

namespace MethodCode

open FormatTable (standard)

/-- A cursor over code, in either mode and with or without a method. -/
def Code.viewAt (c : Code) (mode : Mode) (method : Option Method) (bci : Nat) : Cursor :=
  ⟨mode, .standard, c, method, bci⟩

/-- Two table switches with the same keys and offsets. -/
structure TableSwitch.SameTargets (t t' : TableSwitch) : Prop where
  defaultOffset : t.defaultOffset = t'.defaultOffset
  low : t.low = t'.low
  high : t.high = t'.high
  size : t.size = t'.size
  offsetAt : ∀ n, t'.size = .ok n → ∀ i < n, t.offsetAt i = t'.offsetAt i
  offsetFor : ∀ key, t.offsetFor key = t'.offsetFor key

/-- Two lookup switches with the same keys and offsets. -/
structure LookupSwitch.SameTargets (l l' : LookupSwitch) : Prop where
  defaultOffset : l.defaultOffset = l'.defaultOffset
  size : l.size = l'.size
  pairAt : ∀ n, l'.size = .ok n → ∀ i < n, l.pairAt i = l'.pairAt i
  pairs : l.pairs = l'.pairs

/-- Two cursors at instructions of the same structure. -/
structure Cursor.SameStructure (d c : Cursor) : Prop where
  length : d.checkedLength = c.checkedLength
  opcode : d.opcode = c.opcode
  family : d.family = c.family
  destination : d.branchDestination = c.branchDestination
  table : c.family = .ok .tableSwitch → TableSwitch.SameTargets ⟨d⟩ ⟨c⟩
  lookup : c.family = .ok .lookupSwitch → LookupSwitch.SameTargets ⟨d⟩ ⟨c⟩

variable {c d : Code} {bci n : Nat} {op op' : Opcode} {e e' : FormatEntry} {mode : Mode}
  {method : Option Method}

/-! ### Switches -/

/-- The words of a switch that lie in its instruction are equal where the operands are. -/
theorem switchWord_viewAt (hbytes : Set.EqOn d.byteAt c.byteAt (Set.Ico (bci + 1) (bci + n))) {k : Nat}
    (hk : (c.cursorAt bci).alignedOffset 1 + k * 4 + 4 ≤ n) :
    (d.viewAt mode method bci).switchWord k = (c.viewAt mode method bci).switchWord k := by
  have halign := (c.cursorAt bci).one_le_alignedOffset
  refine Cursor.switchWord_congr rfl (hbytes.mono (Set.Ico_subset_Ico ?_ ?_))
  · change bci + 1 ≤ bci + ((c.cursorAt bci).alignedOffset 1 + k * 4)
    omega
  · change bci + ((c.cursorAt bci).alignedOffset 1 + k * 4) + 4 ≤ bci + n
    omega

theorem TableSwitch.sameTargets (h : c.Occupies bci n op e) (hfamily : e.family = .tableSwitch)
    (hbytes : Set.EqOn d.byteAt c.byteAt (Set.Ico (bci + 1) (bci + n))) :
    TableSwitch.SameTargets ⟨d.viewAt mode method bci⟩ ⟨c.viewAt mode method bci⟩ := by
  obtain ⟨low, high, hlow, hhigh, hn⟩ := h.table_words hfamily
  have hword {k : Nat} (hk : k < 3 + (high.toInt - low.toInt + 1).toNat) :
      (d.viewAt mode method bci).switchWord k = (c.viewAt mode method bci).switchWord k :=
    switchWord_viewAt hbytes (by omega)
  have hlow : TableSwitch.low ⟨c.viewAt mode method bci⟩ = .ok low := hlow
  have hhigh : TableSwitch.high ⟨c.viewAt mode method bci⟩ = .ok high := hhigh
  have hlow' : TableSwitch.low ⟨d.viewAt mode method bci⟩ = .ok low := (hword (by omega)).trans hlow
  have hhigh' : TableSwitch.high ⟨d.viewAt mode method bci⟩ = .ok high := (hword (by omega)).trans hhigh
  have hsize : TableSwitch.size ⟨c.viewAt mode method bci⟩ =
      .ok (high.toInt - low.toInt + 1).toNat := by
    rw [TableSwitch.size, hlow, hhigh]
    rfl
  refine ⟨hword (by omega), hlow'.trans hlow.symm, hhigh'.trans hhigh.symm, ?_, ?_, ?_⟩
  · rw [TableSwitch.size, TableSwitch.size, hlow', hlow, hhigh', hhigh]
  · intro m hm i hi
    rw [hsize] at hm
    obtain rfl := Except.ok.inj hm
    exact hword (by omega)
  · intro key
    rw [TableSwitch.offsetFor, TableSwitch.offsetFor, hlow', hlow, hhigh', hhigh]
    by_cases hout : key < low ∨ high < key
    · simp only [ok_bind, if_pos hout]
      exact hword (by omega)
    · simp only [ok_bind, if_neg hout]
      rw [Int32.lt_iff_toInt_lt, Int32.lt_iff_toInt_lt] at hout
      exact hword (by omega)

theorem LookupSwitch.pairsFrom_congr {l l' : LookupSwitch} {m : Nat}
    (h : ∀ i < m, l.pairAt i = l'.pairAt i) (i count : Nat) (hm : i + count ≤ m) :
    l.pairsFrom i count = l'.pairsFrom i count := by
  induction count generalizing i with
  | zero => rfl
  | succ count ih => rw [pairsFrom, pairsFrom, h i (by omega), ih (i + 1) (by omega)]

theorem LookupSwitch.sameTargets (h : c.Occupies bci n op e) (hfamily : e.family = .lookupSwitch)
    (hbytes : Set.EqOn d.byteAt c.byteAt (Set.Ico (bci + 1) (bci + n))) :
    LookupSwitch.SameTargets ⟨d.viewAt mode method bci⟩ ⟨c.viewAt mode method bci⟩ := by
  obtain ⟨pairs, hpairs, hn⟩ := h.lookup_words hfamily
  have hword {k : Nat} (hk : k < 2 + pairs.toInt.toNat * 2) :
      (d.viewAt mode method bci).switchWord k = (c.viewAt mode method bci).switchWord k :=
    switchWord_viewAt hbytes (by omega)
  have hpairs : (c.viewAt mode method bci).switchWord 1 = .ok pairs := hpairs
  have hsize : LookupSwitch.size ⟨c.viewAt mode method bci⟩ = .ok pairs.toInt.toNat := by
    rw [LookupSwitch.size, hpairs]
    rfl
  have hsize' : LookupSwitch.size ⟨d.viewAt mode method bci⟩ = .ok pairs.toInt.toNat := by
    rw [← hsize, LookupSwitch.size, LookupSwitch.size, hword (by omega)]
  have hpair (i : Nat) (hi : i < pairs.toInt.toNat) :
      LookupSwitch.pairAt ⟨d.viewAt mode method bci⟩ i = LookupSwitch.pairAt ⟨c.viewAt mode method bci⟩ i := by
    rw [LookupSwitch.pairAt, LookupSwitch.pairAt, hsize, hsize', hword (by omega), hword (by omega)]
    rfl
  refine ⟨hword (by omega), hsize'.trans hsize.symm, ?_, ?_⟩
  · intro m hm i hi
    rw [hsize] at hm
    obtain rfl := Except.ok.inj hm
    exact hpair i hi
  · rw [LookupSwitch.pairs, LookupSwitch.pairs, hsize, hsize']
    exact LookupSwitch.pairsFrom_congr hpair 0 _ (by omega)

/-! ### Branches -/

theorem Cursor.branchDestination_of_entry {c : Cursor} (hop : c.rawOpcode = .ok op)
    (he : c.formats.entry? op = some e) :
    c.branchDestination =
      if e.flags.has .hasOffset then do
        let offset ← if e.flags.has .hasU4 then Int32.toInt <$> c.offsetS4 op
          else Int16.toInt <$> c.offsetS2 op
        return some (.ofInt (c.bci + offset))
      else .ok none := by
  have hflags : c.formats.flags op false = .ok e.flags := FormatTable.flags_of_entry he false
  rw [branchDestination, hop, ok_bind, hflags, ok_bind]
  cases e.flags.has .hasOffset with
  | true => rfl
  | false => rfl

/-- A branch goes where its opcode and its offset say. -/
theorem branchDestination_viewAt (hc : c.Occupies bci n op e) (hop : d.opcodeAt bci = .ok op)
    (hfamily : e.family = .branch) (hbytes : Set.EqOn d.byteAt c.byteAt (Set.Ico (bci + 1) (bci + n))) :
    (d.viewAt mode method bci).branchDestination = (c.viewAt mode method bci).branchDestination := by
  have hraw : (c.viewAt mode method bci).rawOpcode = .ok op := hc.opcode
  have hraw' : (d.viewAt mode method bci).rawOpcode = .ok op := hop
  have hentry : (c.viewAt mode method bci).formats.entry? op = some e := hc.entry
  have hentry' : (d.viewAt mode method bci).formats.entry? op = some e := hc.entry
  have hlaid := FormatTable.laidOut_standard hc.entry
  rw [hfamily] at hlaid
  have hn := hc.eq_of_length hlaid.1
  rw [Cursor.branchDestination_of_entry hraw hentry, Cursor.branchDestination_of_entry hraw' hentry']
  cases hwide : e.flags.has .hasU4 with
  | true =>
      rw [hwide] at hn
      have hword : (d.viewAt mode method bci).wordAt 1 = (c.viewAt mode method bci).wordAt 1 := by
        have h32 : d.u32At .java (bci + 1) = c.u32At .java (bci + 1) :=
          Code.u32At_congr (hbytes.mono (Set.Ico_subset_Ico_right (by rw [hn, if_pos rfl])))
        change (do return (← d.u32At .java (bci + 1)).toInt32) = _
        rw [h32]
        rfl
      have hoffset : (d.viewAt mode method bci).offsetS4 op = (c.viewAt mode method bci).offsetS4 op := by
        rw [Cursor.offsetS4, Cursor.offsetS4, Cursor.claimFormat_self hraw hentry,
          Cursor.claimFormat_self hraw' hentry', hword]
        rfl
      simp only [hoffset]
      rfl
  | false =>
      rw [hwide] at hn
      have hshort : (d.viewAt mode method bci).code.u16At .java (bci + 1) =
          (c.viewAt mode method bci).code.u16At .java (bci + 1) :=
        Code.u16At_congr (hbytes.mono (Set.Ico_subset_Ico_right (by rw [hn, if_neg Bool.false_ne_true])))
      have hoffset : (d.viewAt mode method bci).offsetS2 op = (c.viewAt mode method bci).offsetS2 op := by
        rw [Cursor.offsetS2, Cursor.offsetS2, Cursor.claimFormat_self hraw hentry,
          Cursor.claimFormat_self hraw' hentry', show (d.viewAt mode method bci).bci = bci from rfl,
          show (c.viewAt mode method bci).bci = bci from rfl, hshort]
        rfl
      simp only [hoffset]
      rfl

/-! ### Any instruction -/

/-- The families of the instructions that may go elsewhere than to the next instruction, as their operands
tell. -/
def jumpFamilies : List Family := [.tableSwitch, .lookupSwitch, .branch]

theorem branchDestination_of_not_branch {c : Cursor} (hop : c.rawOpcode = .ok op)
    (hformats : c.formats = standard) (he : standard.entry? op = some e) (hfamily : e.family ≠ .branch) :
    c.branchDestination = .ok none := by
  have hoffset := mt (FormatTable.regular_standard he).2.2.1.mp hfamily
  rw [Cursor.branchDestination_of_entry hop (hformats ▸ he), if_neg hoffset]

/-- A fast form has the structure of the code that it stands for. -/
theorem sameStructure_of_occupies (hc : c.Occupies bci n op e) (hd : d.Occupies bci n op' e')
    (hcanonical : e'.canonical = e.canonical) (hbranch : e.family = .branch → op' = op)
    (hbytes : e.family ∈ jumpFamilies → Set.EqOn d.byteAt c.byteAt (Set.Ico (bci + 1) (bci + n))) :
    (d.viewAt mode method bci).SameStructure (c.viewAt mode method bci) := by
  have hraw : (c.viewAt mode method bci).rawOpcode = .ok op := hc.opcode
  have hraw' : (d.viewAt mode method bci).rawOpcode = .ok op' := hd.opcode
  have hfamily : e'.family = e.family := by rw [FormatEntry.family, FormatEntry.family, hcanonical]
  have hfound : (c.viewAt mode method bci).family = .ok e.family := Cursor.family_of_entry hraw hc.entry
  constructor
  case length =>
      have hlength {c : Code} : (c.viewAt mode method bci).checkedLength = c.lengthAt bci :=
        Cursor.checkedLength_eq_lengthAt rfl
      rw [hlength, hlength, hd.lengthAt, hc.lengthAt]
  case opcode =>
      rw [Cursor.opcode_of_entry hraw hc.entry, Cursor.opcode_of_entry hraw' hd.entry, hcanonical]
  case family => rw [hfound, Cursor.family_of_entry hraw' hd.entry, hfamily]
  case destination =>
      by_cases hjump : e.family = .branch
      · obtain rfl := hbranch hjump
        exact branchDestination_viewAt hc hd.opcode hjump (hbytes (by rw [hjump]; decide))
      · rw [branchDestination_of_not_branch hraw rfl hc.entry hjump,
          branchDestination_of_not_branch hraw' rfl hd.entry (hfamily ▸ hjump)]
  case table =>
      intro h
      have htable : e.family = .tableSwitch := Except.ok.inj (hfound.symm.trans h)
      exact TableSwitch.sameTargets hc htable (hbytes (by rw [htable]; decide))
  case lookup =>
      intro h
      have hlookup : e.family = .lookupSwitch := Except.ok.inj (hfound.symm.trans h)
      exact LookupSwitch.sameTargets hc hlookup (hbytes (by rw [hlookup]; decide))

end MethodCode
