import MethodCode.Cursor.Length
import MethodCode.Proofs.Code.Bytes
import MethodCode.Proofs.FormatTable.Layout

/-! The two lengths of an instruction, over any format table. `length` takes the instruction for complete and reads
what it needs; the checked length tests for every form how much is there before it reads. What carries the comparison
is that each test asks for exactly the bytes that `length` reads: the opcode after a wide prefix, and the header of a
switch to its last word. Main statement: a defined opcode always has a checked length, which is a number exactly if
`length` answers this number and the code holds that many bytes; of an undefined opcode neither length is told. -/

namespace MethodCode.Cursor

variable {c : Cursor} {k n : Nat} {op : Opcode} {e : FormatEntry}

theorem one_le_alignedOffset (c : Cursor) : 1 ≤ c.alignedOffset 1 := by
  unfold alignedOffset
  omega

/-! ### The forms of instructions -/

section Entry

variable (hop : c.rawOpcode = .ok op)

include hop

theorem statedLength_of_undefined (hundefined : c.formats.entry? op = none) :
    c.statedLength = .error (.violation (.invalidOpcode op)) := by
  have hlength : c.formats.length op false = .error (.violation (.invalidOpcode op)) := by
    rw [FormatTable.length, FormatTable.entry, hundefined]
    rfl
  rw [statedLength, hop, ok_bind, hlength, error_bind]

theorem length_of_undefined (hundefined : c.formats.entry? op = none) :
    c.length = .error (.violation (.invalidOpcode op)) := by
  have hlength : c.formats.length op false = .error (.violation (.invalidOpcode op)) := by
    rw [FormatTable.length, FormatTable.entry, hundefined]
    rfl
  rw [length, hop, ok_bind, hlength, error_bind]

variable (he : c.formats.entry? op = some e)

include he

theorem statedLength_of_fixed (hlength : e.length = some n) : c.statedLength = .ok (some n) := by
  have hl : c.formats.length op false = .ok (some n) :=
    (FormatTable.length_of_entry he false).trans (congrArg _ hlength)
  rw [statedLength, hop, ok_bind, hl]
  rfl

theorem length_of_fixed (hlength : e.length = some n) : c.length = .ok n := by
  have hl : c.formats.length op false = .ok (some n) :=
    (FormatTable.length_of_entry he false).trans (congrArg _ hlength)
  rw [length, hop, ok_bind, hl]
  rfl

/-- The length of an instruction that has its length among its operands. -/
theorem statedLength_of_none (hlength : e.length = none) :
    c.statedLength =
      if e.canonical = .wide then
        if c.code.size ≤ c.bci + 1 then .ok none
        else c.wideOpcode >>= fun inner =>
          if c.formats.isDefined inner then c.formats.length inner true else .ok none
      else if e.canonical = .tableswitch ∨ e.canonical = .lookupswitch then
        if c.code.size < c.bci + c.switchHeaderEnd e.canonical then .ok none
        else c.switchLength e.canonical >>= fun n => .ok (some n)
      else .ok (some 1) := by
  have hl : c.formats.length op false = .ok none :=
    (FormatTable.length_of_entry he false).trans (congrArg _ hlength)
  rw [statedLength, hop, ok_bind, hl, ok_bind]
  dsimp only
  rw [FormatTable.canonical_of_entry he, ok_bind]
  rfl

theorem length_of_none (hlength : e.length = none) :
    c.length =
      if e.canonical = .wide then
        c.wideOpcode >>= fun inner => c.formats.length inner true >>= fun
          | some n => .ok n
          | none => c.formats.name inner >>= fun name => .error (.violation (.noWideForm name c.bci))
      else if e.canonical = .tableswitch ∨ e.canonical = .lookupswitch then c.switchLength e.canonical
      else .ok 1 := by
  have hl : c.formats.length op false = .ok none :=
    (FormatTable.length_of_entry he false).trans (congrArg _ hlength)
  rw [length, hop, ok_bind, hl, ok_bind]
  dsimp only
  rw [FormatTable.canonical_of_entry he, ok_bind]
  rfl

end Entry

/-! ### Switches -/

theorem switchLength_eq_ok (hswitch : op = .tableswitch ∨ op = .lookupswitch) :
    c.switchLength op = .ok n ↔
      (op = .tableswitch ∧ ∃ low high, c.switchWord 1 = .ok low ∧ c.switchWord 2 = .ok high ∧
        c.alignedOffset 1 + 12 + (high.toInt - low.toInt + 1).toNat * 4 = n) ∨
      (op = .lookupswitch ∧ ∃ pairs, c.switchWord 1 = .ok pairs ∧
        c.alignedOffset 1 + 8 + pairs.toInt.toNat * 8 = n) := by
  rcases hswitch with rfl | rfl
  · have hother : Opcode.tableswitch ≠ .lookupswitch := by decide
    simp [switchLength, bind_eq_ok, pure, Except.pure, hother]
  · have hother : Opcode.lookupswitch ≠ .tableswitch := by decide
    simp [switchLength, bind_eq_ok, pure, Except.pure, hother]

/-- The words of a switch lie at multiples of four after its padding. -/
theorem switchWord_congr {d : Cursor} (hbci : d.bci = c.bci)
    (h : Set.EqOn d.code.byteAt c.code.byteAt
      (Set.Ico (c.bci + (c.alignedOffset 1 + k * 4)) (c.bci + (c.alignedOffset 1 + k * 4) + 4))) :
    d.switchWord k = c.switchWord k := by
  have halign : d.alignedOffset 1 = c.alignedOffset 1 := by rw [alignedOffset, alignedOffset, hbci]
  rw [switchWord, switchWord, wordAt, wordAt, halign, hbci, Code.u32At_congr h]

/-- A word of a switch can be read if the code holds its four bytes. -/
theorem exists_switchWord_iff :
    (∃ w, c.switchWord k = .ok w) ↔ c.bci + c.alignedOffset 1 + k * 4 + 4 ≤ c.code.size := by
  unfold switchWord wordAt
  constructor
  · rintro ⟨w, h⟩
    obtain ⟨n, hn, -⟩ := bind_eq_ok.mp h
    obtain ⟨_, _, _, _, -, -, -, hlast, -⟩ := Code.u32At_eq_ok.mp hn
    have hlt := Code.lt_size_of_byteAt hlast
    omega
  · intro hroom
    have hend : c.bci + (c.alignedOffset 1 + k * 4) + 4 ≤ c.code.size := by omega
    obtain ⟨n, hn⟩ := Code.exists_u32At .java hend
    exact ⟨n.toInt32, by rw [hn]; rfl⟩

/-- The header of a switch is what tells its length. -/
theorem exists_switchLength_iff (hswitch : op = .tableswitch ∨ op = .lookupswitch) :
    (∃ n, c.switchLength op = .ok n) ↔ c.bci + c.switchHeaderEnd op ≤ c.code.size := by
  have hword (k : Nat) := c.exists_switchWord_iff (k := k)
  simp only [switchLength_eq_ok hswitch, switchHeaderEnd]
  rcases hswitch with rfl | rfl
  · rw [if_pos rfl]
    constructor
    · rintro ⟨n, ⟨-, low, high, -, hhigh, -⟩ | ⟨hother, -⟩⟩
      · have hroom := (hword 2).mp ⟨high, hhigh⟩
        omega
      · exact absurd hother (by decide)
    · intro hroom
      obtain ⟨low, hlow⟩ := (hword 1).mpr (by omega)
      obtain ⟨high, hhigh⟩ := (hword 2).mpr (by omega)
      exact ⟨_, .inl ⟨rfl, low, high, hlow, hhigh, rfl⟩⟩
  · rw [if_neg (by decide)]
    constructor
    · rintro ⟨n, ⟨hother, -⟩ | ⟨-, pairs, hpairs, -⟩⟩
      · exact absurd hother (by decide)
      · have hroom := (hword 1).mp ⟨pairs, hpairs⟩
        omega
    · intro hroom
      obtain ⟨pairs, hpairs⟩ := (hword 1).mpr (by omega)
      exact ⟨_, .inr ⟨rfl, pairs, hpairs, rfl⟩⟩

/-! ### Both lengths -/

/-- There is enough of an instruction to state its length exactly if `length` can read it. -/
theorem statedLength_eq_some_iff : c.statedLength = .ok (some n) ↔ c.length = .ok n := by
  cases hop : c.rawOpcode with
  | error f =>
      rw [statedLength, length, hop, error_bind, error_bind]
      simp
  | ok op =>
  cases he : c.formats.entry? op with
  | none =>
      rw [statedLength_of_undefined hop he, length_of_undefined hop he]
      simp
  | some e =>
  cases hlength : e.length with
  | some m => simp [statedLength_of_fixed hop he hlength, length_of_fixed hop he hlength]
  | none =>
      rw [statedLength_of_none hop he hlength, length_of_none hop he hlength]
      by_cases hwide : e.canonical = .wide
      · rw [if_pos hwide, if_pos hwide]
        by_cases hroom : c.code.size ≤ c.bci + 1
        · -- a prefix at the end of the code
          have hnone : c.wideOpcode = .error .outOfBounds := by
            rw [wideOpcode, Code.opcodeAt, Code.byteAt_of_size_le hroom, error_bind]
          rw [if_pos hroom, hnone, error_bind]
          simp
        · obtain ⟨b, hb⟩ := Code.exists_byteAt (Nat.not_le.mp hroom)
          have hinner : c.wideOpcode = .ok ⟨b⟩ := Code.opcodeAt_eq_ok.mpr hb
          rw [if_neg hroom, hinner, ok_bind, ok_bind, FormatTable.isDefined]
          cases he' : c.formats.entry? ⟨b⟩ with
          | none =>
              simp [FormatTable.length, FormatTable.entry, he']
          | some e' =>
              have hname := FormatTable.name_of_entry he'
              rw [FormatTable.length_of_entry he', if_pos rfl, ok_bind]
              cases e'.wideLength <;> simp [hname]
      rw [if_neg hwide, if_neg hwide]
      by_cases hswitch : e.canonical = .tableswitch ∨ e.canonical = .lookupswitch
      · rw [if_pos hswitch, if_pos hswitch]
        by_cases hroom : c.code.size < c.bci + c.switchHeaderEnd e.canonical
        · rw [if_pos hroom]
          refine iff_of_false (by simp) fun hn => ?_
          have := (exists_switchLength_iff hswitch).mp ⟨n, hn⟩
          omega
        · rw [if_neg hroom, bind_eq_ok]
          simp
      · rw [if_neg hswitch, if_neg hswitch]
        simp

/-- Of a defined opcode there is always enough to tell the length, or too little of the instruction. -/
theorem exists_statedLength (hop : c.rawOpcode = .ok op) (he : c.formats.entry? op = some e) :
    ∃ l, c.statedLength = .ok l := by
  cases hlength : e.length with
  | some n => exact ⟨_, statedLength_of_fixed hop he hlength⟩
  | none =>
      rw [statedLength_of_none hop he hlength]
      by_cases hwide : e.canonical = .wide
      · rw [if_pos hwide]
        split
        · exact ⟨none, rfl⟩
        · rename_i hroom
          obtain ⟨b, hb⟩ := Code.exists_byteAt (Nat.not_le.mp hroom)
          have hinner : c.wideOpcode = .ok ⟨b⟩ := Code.opcodeAt_eq_ok.mpr hb
          rw [hinner, ok_bind]
          split
          · rename_i hdefined
            obtain ⟨e', he'⟩ := FormatTable.isDefined_iff.mp hdefined
            exact ⟨_, FormatTable.length_of_entry he' true⟩
          · exact ⟨none, rfl⟩
      rw [if_neg hwide]
      split
      · rename_i hswitch
        split
        · exact ⟨none, rfl⟩
        · rename_i hroom
          obtain ⟨n, hn⟩ := (exists_switchLength_iff hswitch).mpr (Nat.not_lt.mp hroom)
          exact ⟨some n, by rw [hn]; rfl⟩
      · exact ⟨some 1, rfl⟩

theorem checkedLength_of_undefined (hop : c.rawOpcode = .ok op) (hundefined : c.formats.entry? op = none) :
    c.checkedLength = .error (.violation (.invalidOpcode op)) := by
  have hlt := Code.lt_size_of_byteAt (Code.opcodeAt_eq_ok.mp hop)
  rw [checkedLength, if_neg (Nat.not_le.mpr hlt), statedLength_of_undefined hop hundefined, error_bind]

theorem exists_checkedLength (hop : c.rawOpcode = .ok op) (he : c.formats.entry? op = some e) :
    ∃ l, c.checkedLength = .ok l := by
  have hlt := Code.lt_size_of_byteAt (Code.opcodeAt_eq_ok.mp hop)
  obtain ⟨l, hl⟩ := exists_statedLength hop he
  rw [checkedLength, if_neg (Nat.not_le.mpr hlt), hl, ok_bind]
  cases l with
  | none => exact ⟨none, rfl⟩
  | some n => exact ⟨_, rfl⟩

/-- The checked length of an instruction is its length, if the code holds that many bytes. -/
theorem checkedLength_eq_some_iff :
    c.checkedLength = .ok (some n) ↔ c.length = .ok n ∧ c.bci + n ≤ c.code.size := by
  rw [← statedLength_eq_some_iff, checkedLength]
  by_cases hend : c.code.size ≤ c.bci
  · -- past the end there is no opcode to state a length
    have hnone : c.rawOpcode = .error .outOfBounds := by
      rw [rawOpcode, Code.opcodeAt, Code.byteAt_of_size_le hend, error_bind]
    rw [if_pos hend, statedLength, hnone, error_bind]
    simp [pure, Except.pure]
  · rw [if_neg hend]
    cases hstated : c.statedLength with
    | error f => simp
    | ok l =>
        rw [ok_bind]
        cases l with
        | none => simp [pure, Except.pure]
        | some m =>
            change Except.ok (if c.bci + m ≤ c.code.size then some m else none) = _ ↔ _
            by_cases hroom : c.bci + m ≤ c.code.size
            · rw [if_pos hroom]
              constructor
              · rintro ⟨⟩
                exact ⟨rfl, hroom⟩
              · exact fun h => h.1
            · rw [if_neg hroom]
              refine iff_of_false (by simp) ?_
              rintro ⟨⟨⟩, hfits⟩
              exact hroom hfits

/-- The checked length is the safe version of `length`: it faults at undefined opcodes alone, where `length` does too,
and otherwise tells what `length` tells of the instructions that the code holds in full. -/
theorem lengths_agree (h : c.bci < c.code.size) :
    ∃ op, c.rawOpcode = .ok op ∧
      (c.formats.isDefined op = false →
        c.checkedLength = .error (.violation (.invalidOpcode op)) ∧
          c.length = .error (.violation (.invalidOpcode op))) ∧
      (c.formats.isDefined op = true →
        ∃ answer, c.checkedLength = .ok answer ∧
          ∀ n, answer = some n ↔ c.length = .ok n ∧ c.bci + n ≤ c.code.size) := by
  obtain ⟨b, hb⟩ := Code.exists_byteAt h
  have hop : c.rawOpcode = .ok ⟨b⟩ := Code.opcodeAt_eq_ok.mpr hb
  refine ⟨⟨b⟩, hop, fun hundefined => ?_, fun hdefined => ?_⟩
  · have hnone : c.formats.entry? ⟨b⟩ = none := Option.isSome_eq_false_iff.mp hundefined |> Option.isNone_iff_eq_none.mp
    exact ⟨checkedLength_of_undefined hop hnone, length_of_undefined hop hnone⟩
  · obtain ⟨e, he⟩ := FormatTable.isDefined_iff.mp hdefined
    obtain ⟨answer, hanswer⟩ := exists_checkedLength hop he
    refine ⟨answer, hanswer, fun n => ?_⟩
    rw [← checkedLength_eq_some_iff, hanswer, Except.ok.injEq]

/-- A table switch whose header is there, and one of its two targets. -/
def sampleCut : Cursor :=
  ⟨.checked, .standard, .ofList [0xaa, 0, 0, 0, 0, 0, 0, 9, 0, 0, 0, 1, 0, 0, 0, 2, 0, 0, 0, 20], none, 0⟩

theorem lengths_agree_sample :
    sampleCut.bci < sampleCut.code.size ∧ sampleCut.length = .ok 24 ∧ sampleCut.checkedLength = .ok none := by
  have hin : sampleCut.bci < sampleCut.code.size := by decide
  have hlength : sampleCut.length = .ok 24 := by decide +kernel
  obtain ⟨op, hop, -, hagree⟩ := lengths_agree hin
  have hswitch : sampleCut.rawOpcode = .ok .tableswitch := by decide
  have hdefined : sampleCut.formats.isDefined .tableswitch = true := by decide +kernel
  obtain rfl : op = .tableswitch := Except.ok.inj (hop.symm.trans hswitch)
  obtain ⟨answer, hanswer, hiff⟩ := hagree hdefined
  refine ⟨hin, hlength, ?_⟩
  cases answer with
  | none => exact hanswer
  | some n =>
      obtain ⟨hn, hroom⟩ := (hiff n).mp rfl
      obtain rfl : 24 = n := Except.ok.inj (hlength.symm.trans hn)
      exact absurd hroom (by decide)

end MethodCode.Cursor
