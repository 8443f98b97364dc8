import MethodCode.Proofs.Instruction.SameStructure

/-! Switches as they are laid out: the opcode, padding up to a multiple of four from the start of the code, and words
in java order. Main statement: the code of a table switch reads back as the default, the keys and the targets that
were laid out, whatever the code around it is, and the instruction is exactly as long as its layout. -/

namespace MethodCode

open FormatTable (standard)

/-! ### Words -/

/-- Words in java order. -/
def javaWords (ws : List Int32) : List UInt8 := ws.flatMap fun w => ByteOrder.java.split32 w.toUInt32

@[simp] theorem length_javaWords (ws : List Int32) : (javaWords ws).length = ws.length * 4 := by
  induction ws with
  | nil => rfl
  | cons w ws ih =>
      rw [javaWords, List.flatMap_cons, List.length_append, ByteOrder.length_split32, ← javaWords, ih,
        List.length_cons]
      omega

theorem Code.u32At_of_javaWords {c : Code} {pos : Nat} {ws : List Int32} {k : Nat} {w : Int32}
    (h : c.Carries pos (javaWords ws)) (hk : ws[k]? = some w) : c.u32At .java (pos + k * 4) = .ok w.toUInt32 := by
  induction ws generalizing pos k with
  | nil => cases hk
  | cons w' ws ih =>
      obtain ⟨hfirst, hrest⟩ := carries_append.mp h
      rw [ByteOrder.length_split32] at hrest
      cases k with
      | zero =>
          obtain rfl : w' = w := by simpa using hk
          rw [Nat.zero_mul]
          exact u32At_of_carries hfirst
      | succ k =>
          have hword := ih hrest (by simpa using hk)
          rwa [show pos + (k + 1) * 4 = pos + 4 + k * 4 by omega]

/-! ### Switches -/

/-- The bytes of a switch. -/
def switchBytes (op : Opcode) (padding : List UInt8) (words : List Int32) : List UInt8 :=
  op.byte :: (padding ++ javaWords words)

/-- The code holds a switch at a position, with its words at a multiple of four from the start of the code. -/
structure Code.HoldsSwitch (c : Code) (bci : Nat) (op : Opcode) (padding : List UInt8) (words : List Int32) :
    Prop where
  short : padding.length < 4
  aligned : (bci + 1 + padding.length) % 4 = 0
  bytes : c.Carries bci (switchBytes op padding words)

/-- A default and the targets of consecutive keys, of which there is at least one and none too high for a key. -/
structure TableSwitch.Table where
  default : Int32
  low : Int32
  targets : List Int32
  nonempty : targets ≠ []
  fits : low.toInt + targets.length - 1 ≤ Int32.maxValue.toInt

namespace TableSwitch.Table

/-- The key of the last target. -/
def high (t : Table) : Int32 := .ofInt (t.low.toInt + t.targets.length - 1)

/-- The words of a table switch. -/
def words (t : Table) : List Int32 := t.default :: t.low :: t.high :: t.targets

theorem length_pos (t : Table) : 0 < t.targets.length := List.length_pos_iff.mpr t.nonempty

@[simp] theorem toInt_high (t : Table) : t.high.toInt = t.low.toInt + t.targets.length - 1 := by
  have hpos := t.length_pos
  have hlow := t.low.minValue_le_toInt
  have hfits := t.fits
  have hmin : Int32.minValue.toInt = -2147483648 := rfl
  have hmax : Int32.maxValue.toInt = 2147483647 := rfl
  exact Int32.toInt_ofInt_of_le (by omega) (by omega)

end TableSwitch.Table

variable {c : Code} {bci : Nat} {op : Opcode} {padding : List UInt8} {words : List Int32} {mode : Mode}
  {method : Option Method}

theorem length_switchBytes (op : Opcode) (padding : List UInt8) (words : List Int32) :
    (switchBytes op padding words).length = 1 + padding.length + words.length * 4 := by
  rw [switchBytes, List.length_cons, List.length_append, length_javaWords]
  omega

namespace Code.HoldsSwitch

variable (h : c.HoldsSwitch bci op padding words)

include h

theorem rawOpcode : (c.viewAt mode method bci).rawOpcode = .ok op :=
  opcodeAt_eq_ok.mpr h.bytes.1

theorem alignedOffset : (c.viewAt mode method bci).alignedOffset 1 = 1 + padding.length := by
  have hshort := h.short
  have haligned := h.aligned
  change (bci + 1 + 3) / 4 * 4 - bci = _
  omega

/-- Every word of a switch is read back from its place. -/
theorem switchWord {k : Nat} {w : Int32} (hk : words[k]? = some w) :
    (c.viewAt mode method bci).switchWord k = .ok w := by
  obtain ⟨-, hwords⟩ := carries_append.mp h.bytes.2
  have hword := u32At_of_javaWords hwords hk
  rw [Cursor.switchWord, Cursor.wordAt, h.alignedOffset]
  change (c.u32At .java (bci + (1 + padding.length + k * 4)) >>= fun n => .ok n.toInt32) = _
  rw [show bci + (1 + padding.length + k * 4) = bci + 1 + padding.length + k * 4 by omega, hword]
  simp

theorem end_le : bci + (switchBytes op padding words).length ≤ c.size := h.bytes.end_le

section Shape

variable {canonical : Opcode} (hshape : standard.shape? op = some (none, canonical))

include hshape

theorem family : (c.viewAt mode method bci).family = .ok (.ofCanonical canonical) := by
  obtain ⟨e, he, -, hcanonical⟩ := FormatTable.entry_of_shape? hshape
  rw [Cursor.family_of_entry h.rawOpcode he, FormatEntry.family, hcanonical]

/-- The length of a switch is read off its words. -/
theorem length (hswitch : canonical = .tableswitch ∨ canonical = .lookupswitch) :
    (c.viewAt mode method bci).length = (c.viewAt mode method bci).switchLength canonical := by
  obtain ⟨e, he, hlength, rfl⟩ := FormatTable.entry_of_shape? hshape
  have hwide : e.canonical ≠ .wide := by
    intro hwide
    rw [hwide] at hswitch
    revert hswitch
    decide
  rw [Cursor.length_of_none h.rawOpcode he hlength, if_neg hwide, if_pos hswitch]

end Shape

end Code.HoldsSwitch

/-! ### Table switches -/

namespace TableSwitch

private theorem shape?_tableswitch : standard.shape? .tableswitch = some (none, .tableswitch) := by
  decide +kernel

variable {t : Table} (h : c.HoldsSwitch bci .tableswitch padding t.words)

include h

theorem low_of_holds : low ⟨c.viewAt mode method bci⟩ = .ok t.low := h.switchWord rfl

theorem high_of_holds : high ⟨c.viewAt mode method bci⟩ = .ok t.high := h.switchWord rfl

theorem offsetAt_of_holds {i : Nat} {target : Int32} (hi : t.targets[i]? = some target) :
    offsetAt ⟨c.viewAt mode method bci⟩ i = .ok target := by
  refine h.switchWord ?_
  rw [Nat.add_comm]
  exact hi

theorem size_of_holds : size ⟨c.viewAt mode method bci⟩ = .ok t.targets.length := by
  rw [size, high_of_holds h, low_of_holds h, ok_bind, ok_bind, t.toInt_high]
  exact congrArg Except.ok (by omega)

theorem offsetFor_of_holds (key : Int32) :
    offsetFor ⟨c.viewAt mode method bci⟩ key =
      if key < t.low ∨ t.high < key then .ok t.default
      else offsetAt ⟨c.viewAt mode method bci⟩ (key.toInt - t.low.toInt).toNat := by
  have hdefault : defaultOffset ⟨c.viewAt mode method bci⟩ = .ok t.default := h.switchWord rfl
  rw [offsetFor, low_of_holds h, high_of_holds h, ok_bind, ok_bind, hdefault]

/-- Both builds accept the switch: its keys are in order. -/
theorem decode_of_holds : decode (c.viewAt mode method bci) = .ok ⟨c.viewAt mode method bci⟩ := by
  have hfamily : isValid ⟨c.viewAt mode method bci⟩ = .ok true := by
    rw [isValid, h.family shape?_tableswitch]
    rfl
  have hle : t.low ≤ t.high := by
    have hpos := t.length_pos
    rw [Int32.le_iff_toInt_le, t.toInt_high]
    omega
  have htrue (v : Violation) : ensure true v = .ok () := rfl
  rw [decode, hfamily, ok_bind, Cursor.check_of_ok (htrue _), ok_bind, high_of_holds h, ok_bind,
    low_of_holds h, ok_bind, decide_eq_true hle, Cursor.check_of_ok (htrue _)]
  rfl

theorem length_of_holds :
    (c.viewAt mode method bci).length = .ok (switchBytes .tableswitch padding t.words).length := by
  rw [h.length shape?_tableswitch (.inl rfl), Cursor.switchLength_eq_ok (.inl rfl)]
  refine .inl ⟨rfl, t.low, t.high, low_of_holds h, high_of_holds h, ?_⟩
  rw [h.alignedOffset, t.toInt_high, length_switchBytes, Table.words]
  simp only [List.length_cons]
  omega

/-- What was laid out as a table switch is what the instruction tells, at any position and in both builds. -/
theorem reads_back_layout (mode : Mode) (method : Option Method) :
    decode (c.viewAt mode method bci) = .ok ⟨c.viewAt mode method bci⟩ ∧
      defaultOffset ⟨c.viewAt mode method bci⟩ = .ok t.default ∧
      low ⟨c.viewAt mode method bci⟩ = .ok t.low ∧
      high ⟨c.viewAt mode method bci⟩ = .ok t.high ∧
      t.high.toInt = t.low.toInt + t.targets.length - 1 ∧
      size ⟨c.viewAt mode method bci⟩ = .ok t.targets.length ∧
      (∀ i (hi : i < t.targets.length), offsetAt ⟨c.viewAt mode method bci⟩ i = .ok t.targets[i]) ∧
      (∀ key, t.low ≤ key → key ≤ t.high → ∃ target,
        t.targets[(key.toInt - t.low.toInt).toNat]? = some target ∧
          offsetFor ⟨c.viewAt mode method bci⟩ key = .ok target) ∧
      (∀ key, key < t.low ∨ t.high < key → offsetFor ⟨c.viewAt mode method bci⟩ key = .ok t.default) ∧
      (c.viewAt mode method bci).length = .ok (switchBytes .tableswitch padding t.words).length ∧
      (c.viewAt mode method bci).checkedLength = .ok (some (switchBytes .tableswitch padding t.words).length) := by
  have hlength : (c.viewAt mode method bci).length = .ok (switchBytes .tableswitch padding t.words).length :=
    length_of_holds h
  refine ⟨decode_of_holds h, h.switchWord rfl, low_of_holds h, high_of_holds h, t.toInt_high, size_of_holds h,
    fun i hi => offsetAt_of_holds h (List.getElem?_eq_getElem hi), fun key hlow hhigh => ?_, fun key hout => ?_,
    hlength, Cursor.checkedLength_eq_some_iff.mpr ⟨hlength, h.end_le⟩⟩
  · have hinside : (key.toInt - t.low.toInt).toNat < t.targets.length := by
      have htop := t.toInt_high
      rw [Int32.le_iff_toInt_le] at hlow hhigh
      omega
    have htarget := List.getElem?_eq_getElem hinside
    refine ⟨_, htarget, ?_⟩
    rw [offsetFor_of_holds h, if_neg, offsetAt_of_holds h htarget]
    exact not_or.mpr ⟨Int32.not_lt.mpr hlow, Int32.not_lt.mpr hhigh⟩
  · rw [offsetFor_of_holds h, if_pos hout]

/-- Two targets next to the lowest key that there is. -/
def sampleTable : Table := ⟨-1, Int32.minValue, [20, -7], by decide, by decide⟩

/-- A table switch at position two, and other code around it. -/
def sampleLaidOut : Code :=
  .ofList ([0x03, 0x3c] ++ switchBytes .tableswitch [0xff] sampleTable.words ++ [0xb1])

end TableSwitch

theorem TableSwitch.reads_back_layout_sample :
    sampleLaidOut.HoldsSwitch 2 .tableswitch [0xff] sampleTable.words ∧
      offsetFor ⟨sampleLaidOut.viewAt .unchecked none 2⟩ (Int32.minValue + 1) = .ok (-7) ∧
      offsetFor ⟨sampleLaidOut.viewAt .checked none 2⟩ Int32.maxValue = .ok (-1) := by
  have hholds : sampleLaidOut.HoldsSwitch 2 .tableswitch [0xff] sampleTable.words :=
    ⟨by decide, by decide, by decide +kernel⟩
  obtain ⟨-, -, -, -, -, -, -, hinside, -⟩ := reads_back_layout hholds .unchecked none
  obtain ⟨-, -, -, -, -, -, -, -, houtside, -⟩ := reads_back_layout hholds .checked none
  obtain ⟨target, htarget, hfor⟩ := hinside (Int32.minValue + 1) (by decide) (by decide)
  obtain rfl : -7 = target := Option.some.inj (Eq.trans (by decide) htarget)
  exact ⟨hholds, hfor, houtside Int32.maxValue (.inr (by decide))⟩

end MethodCode
