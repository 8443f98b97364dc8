import MethodCode.Cursor.Operand
import MethodCode.Proofs.Code.Bytes
import MethodCode.Proofs.FormatTable.Layout

/-! Reading the index of an instruction. A reader that is called with the opcode that stands there claims
what is true of the layout. Main statements: in either mode, a reader of an index answers the bytes after
the opcode, if the layout is the one it is made for. -/

namespace MethodCode.Cursor

theorem check_of_ok {mode : Mode} {test : Except Fault Unit} (h : test = .ok ()) :
    mode.check test = .ok () := by
  cases mode with
  | checked => exact h
  | unchecked => rfl

variable {c : Cursor} {op : Opcode} {e : FormatEntry}

theorem opcode_of_entry (hop : c.rawOpcode = .ok op) (he : c.formats.entry? op = some e) :
    c.opcode = .ok e.canonical := by
  rw [opcode, hop]
  exact FormatTable.canonical_of_entry he

theorem family_of_entry (hop : c.rawOpcode = .ok op) (he : c.formats.entry? op = some e) :
    c.family = .ok e.family := by
  rw [family, hop]
  exact FormatTable.family_of_entry he

/-! ### Claims -/

/-- The opcode that stands there has the layout that it has. -/
theorem claimFormat_self (hop : c.rawOpcode = .ok op) (he : c.formats.entry? op = some e) :
    c.claimFormat op false = .ok () := by
  apply check_of_ok
  have hflags := FormatTable.flags_of_entry he false
  by_cases hbreak : op = .breakpoint
  · simp only [hop, bind, Except.bind, if_pos hbreak]
    rfl
  · simp [hop, bind, Except.bind, hbreak, hflags, pure, Except.pure]

private theorem claimIndexSize_of_flags {size : Nat} {need : FormatFlags}
    (hneed : (size, need) ∈ [(1, .of []), (2, .of [.hasU2]), (4, .of [.hasU4])])
    (he : c.formats.entry? op = some e) (hflags : e.flags &&& FormatFlags.indexSize = need) :
    c.claimIndexSize size op false = .ok () := by
  apply check_of_ok
  have hfound := FormatTable.flags_of_entry he false
  have hname := FormatTable.name_of_entry he
  have heq : e.flags &&& .of [.hasU2, .hasU4, .notSimple, .hasOffset] = need := hflags
  simp only [List.mem_cons, Prod.mk.injEq, List.not_mem_nil, or_false] at hneed
  rcases hneed with ⟨rfl, rfl⟩ | ⟨rfl, rfl⟩ | ⟨rfl, rfl⟩ <;>
    simp [hfound, hname, heq, bind, Except.bind, pure, Except.pure, widened, ensure]

theorem isNative_of_entry (he : c.formats.entry? op = some e) :
    c.formats.isNative op false = .ok (e.flags.contains (.of [.hasNative])) :=
  FormatTable.hasAllFlags_of_entry he _

theorem claimNativeIndex_of_flags (he : c.formats.entry? op = some e)
    (hnative : e.flags.contains (.of [.hasNative]) = true) : c.claimNativeIndex op false = .ok () := by
  apply check_of_ok
  simp [isNative_of_entry he, FormatTable.name_of_entry he, hnative, bind, Except.bind, ensure]

theorem claimNativeWideIndex_of_flags (he : c.formats.entry? op = some e)
    (hnative : e.flags.contains (.of [.hasNative]) = true) : c.claimNativeWideIndex op = .ok () := by
  apply check_of_ok
  simp [isNative_of_entry he, FormatTable.name_of_entry he, hnative, bind, Except.bind, ensure]

/-! ### Readers -/

variable (hop : c.rawOpcode = .ok op) (he : c.formats.entry? op = some e)

include hop he

theorem indexU1_eq (hbyte : e.HasByteIndex) : c.indexU1 op = c.code.byteAt (c.bci + 1) := by
  rw [indexU1, claimFormat_self hop he, claimIndexSize_of_flags (by simp) he hbyte]
  rfl

theorem indexU2_eq {native : Bool} (hshort : e.HasShortIndex native) :
    c.indexU2 op false = c.code.u16At (if native then .native else .java) (c.bci + 1) := by
  rw [indexU2, claimFormat_self hop he, claimIndexSize_of_flags (by simp) he hshort.1,
    isNative_of_entry he, hshort.2.1]
  rfl

theorem cacheIndexU2_eq (hshort : e.HasShortIndex true) (tag : UInt32) :
    c.cacheIndexU2 op tag = (do return (← c.code.u16At .native (c.bci + 1)).toUInt32 + tag) := by
  rw [cacheIndexU2, claimFormat_self hop he, claimIndexSize_of_flags (by simp) he hshort.1,
    claimNativeIndex_of_flags he hshort.2.1]
  rfl

theorem indexU4_eq (hword : e.HasWordIndex) : c.indexU4 op = c.code.u32At .native (c.bci + 1) := by
  rw [indexU4, claimFormat_self hop he, claimIndexSize_of_flags (by simp) he hword.1,
    claimNativeWideIndex_of_flags he hword.2.1]
  rfl

end MethodCode.Cursor
