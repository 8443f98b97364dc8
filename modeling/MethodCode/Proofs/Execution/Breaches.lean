import MethodCode.Cursor.Claims
import MethodCode.Cursor.Operand
import MethodCode.Cursor.Length
import MethodCode.Instruction.LoadConstant
import MethodCode.Instruction.MemberRef
import MethodCode.Proofs.Execution.Failures

/-! Reading code gives no errors. Where the bytes or the format table have no answer, reading ends in a
breach, and so does every test of what a caller claims. Main statements: no reader of the instruction under
a cursor ends in an error, and errors of a member reference or of a load come from the pool or the cache. -/

namespace MethodCode

open Fault (IsBreach)

theorem fails_check {mode : Mode} {test : Except Fault Unit} (h : Fails IsBreach test) :
    Fails IsBreach (mode.check test) := by
  cases mode with
  | checked => exact h
  | unchecked => exact .pure ()

namespace Code

variable (c : Code) (pos : Nat)

theorem fails_byteAt_outOfBounds : Fails (· = .outOfBounds) (c.byteAt pos) := by
  unfold byteAt
  cases c.bytes[pos]? with
  | some b => exact .pure b
  | none => exact .throw rfl

theorem fails_opcodeAt_outOfBounds : Fails (· = .outOfBounds) (c.opcodeAt pos) :=
  .bind (c.fails_byteAt_outOfBounds pos) fun _ => .pure _

theorem fails_u16At_outOfBounds (order : ByteOrder) : Fails (· = .outOfBounds) (c.u16At order pos) :=
  .bind (c.fails_byteAt_outOfBounds pos) fun _ => .bind (c.fails_byteAt_outOfBounds _) fun _ => .pure _

theorem fails_byteAt : Fails IsBreach (c.byteAt pos) := .of_outOfBounds (c.fails_byteAt_outOfBounds pos)

theorem fails_opcodeAt : Fails IsBreach (c.opcodeAt pos) := .of_outOfBounds (c.fails_opcodeAt_outOfBounds pos)

theorem fails_u16At (order : ByteOrder) : Fails IsBreach (c.u16At order pos) :=
  .of_outOfBounds (c.fails_u16At_outOfBounds pos order)

theorem fails_u32At (order : ByteOrder) : Fails IsBreach (c.u32At order pos) :=
  .bind (c.fails_byteAt pos) fun _ => .bind (c.fails_byteAt _) fun _ => .bind (c.fails_byteAt _) fun _ =>
    .bind (c.fails_byteAt _) fun _ => .pure _

theorem fails_setOpcode (op : Opcode) : Fails IsBreach (c.setOpcode pos op) := by
  unfold setOpcode setByte
  split
  · exact .pure _
  · exact .throw Fault.isBreach_outOfBounds

end Code

namespace FormatTable

variable (t : FormatTable) (op : Opcode) (wide : Bool)

theorem fails_entry : Fails IsBreach (t.entry op) := by
  unfold entry
  cases t.entry? op with
  | some e => exact .pure e
  | none => exact .throw (Fault.isBreach_violation _)

theorem fails_name : Fails IsBreach (t.name op) := .bind (t.fails_entry op) fun _ => .pure _

theorem fails_length : Fails IsBreach (t.length op wide) := .bind (t.fails_entry op) fun _ => .pure _

theorem fails_flags : Fails IsBreach (t.flags op wide) := .bind (t.fails_entry op) fun _ => .pure _

theorem fails_isNative : Fails IsBreach (t.isNative op wide) :=
  .bind (t.fails_flags op wide) fun _ => .pure _

theorem fails_canonical : Fails IsBreach (t.canonical op) := .bind (t.fails_entry op) fun _ => .pure _

theorem fails_family : Fails IsBreach (t.family op) := .bind (t.fails_canonical op) fun _ => .pure _

theorem fails_hasWideIndex : Fails IsBreach (t.hasWideIndex op) :=
  .bind (t.fails_flags op false) fun _ => .pure _

end FormatTable

namespace Cursor

variable (c : Cursor) (op : Opcode) (wide : Bool)

theorem fails_rawOpcode : Fails IsBreach c.rawOpcode := c.code.fails_opcodeAt c.bci

theorem fails_wideOpcode : Fails IsBreach c.wideOpcode := c.code.fails_opcodeAt _

theorem fails_opcode : Fails IsBreach c.opcode :=
  .bind c.fails_rawOpcode fun _ => c.formats.fails_canonical _

theorem fails_family : Fails IsBreach c.family :=
  .bind c.fails_rawOpcode fun _ => c.formats.fails_family _

theorem fails_switchWord (n : Nat) : Fails IsBreach (c.switchWord n) :=
  .bind (c.code.fails_u32At _ _) fun _ => .pure _

theorem fails_switchLength : Fails IsBreach (c.switchLength op) := by
  unfold switchLength
  dsimp only
  split
  · exact .bind (c.fails_switchWord 1) fun _ => .bind (c.fails_switchWord 2) fun _ => .pure _
  · exact .bind (c.fails_switchWord 1) fun _ => .pure _

theorem fails_length : Fails IsBreach c.length := by
  unfold length
  refine .bind c.fails_rawOpcode fun raw => .bind (c.formats.fails_length raw false) fun stated => ?_
  split
  · exact .pure _
  · refine .bind (c.formats.fails_canonical raw) fun op => ?_
    split
    · refine .bind c.fails_wideOpcode fun inner => .bind (c.formats.fails_length inner true) fun n => ?_
      split
      · exact .pure _
      · exact .bind (c.formats.fails_name inner) fun _ => .throw (Fault.isBreach_violation _)
    · split
      · exact c.fails_switchLength op
      · exact .pure _

/-! ### Claims -/

theorem fails_claimFormat : Fails IsBreach (c.claimFormat op wide) := by
  apply fails_check
  refine .bind c.fails_rawOpcode fun raw => ?_
  split
  · exact .pure ()
  have hcompare (actual : Opcode) : Fails IsBreach (do
      if actual = .breakpoint then return
      let claimedFlags := (← c.formats.flags op wide) &&& FormatFlags.layout
      let actualFlags := (← c.formats.flags actual wide) &&& FormatFlags.layout
      if actualFlags ≠ claimedFlags then
        throw (.violation (.formatMismatch (← c.formats.name op) wide c.bci (← c.formats.name actual)
          claimedFlags actualFlags))) := by
    split
    · exact .pure ()
    refine .bind (c.formats.fails_flags op wide) fun claimed =>
      .bind (c.formats.fails_flags actual wide) fun found => ?_
    dsimp only
    split
    · exact .bind (c.formats.fails_name op) fun _ => .bind (c.formats.fails_name actual) fun _ =>
        .throw (Fault.isBreach_violation _)
    · exact .pure ()
  cases wide with
  | true => exact .bind fails_ensure fun _ => .bind c.fails_wideOpcode hcompare
  | false => exact .bind (.pure raw) hcompare

theorem fails_claimIndexSize (size : Nat) : Fails IsBreach (c.claimIndexSize size op wide) := by
  apply fails_check
  refine .bind (c.formats.fails_flags op wide) fun found => ?_
  dsimp only
  split
  case _ | _ | _ => exact .bind (.pure _) fun _ => .bind (c.formats.fails_name op) fun _ => fails_ensure
  case _ =>
    exact .bind (.throw (Fault.isBreach_violation _)) fun _ => .bind (c.formats.fails_name op) fun _ =>
      fails_ensure

theorem fails_claimOffsetSize (size : Nat) : Fails IsBreach (c.claimOffsetSize size op wide) := by
  apply fails_check
  refine .bind (c.formats.fails_flags op wide) fun found => ?_
  dsimp only
  split
  case _ | _ => exact .bind (.pure _) fun _ => .bind (c.formats.fails_name op) fun _ => fails_ensure
  case _ =>
    exact .bind (.throw (Fault.isBreach_violation _)) fun _ => .bind (c.formats.fails_name op) fun _ =>
      fails_ensure

theorem fails_claimConstantSize (size offset : Nat) :
    Fails IsBreach (c.claimConstantSize size offset op wide) := by
  apply fails_check
  have hrest (need : FormatFlags) (found : FormatFlags) : Fails IsBreach (do
      let length ← c.formats.length op wide
      let name ← c.formats.name op
      ensure (found = widened need wide) (.constantMismatch size offset name wide found (widened need wide))
      ensure (length = some (offset + size)) (.constantOverrun offset name)) :=
    .bind (c.formats.fails_length op wide) fun _ => .bind (c.formats.fails_name op) fun _ =>
      .bind fails_ensure fun _ => fails_ensure
  refine .bind (c.formats.fails_flags op wide) fun found => ?_
  dsimp only
  split
  case _ | _ => exact .bind (.pure _) fun need => hrest need _
  case _ => exact .bind (.throw (Fault.isBreach_violation _)) fun need => hrest need _

theorem fails_claimNativeIndex : Fails IsBreach (c.claimNativeIndex op wide) :=
  fails_check (.bind (c.formats.fails_isNative op wide) fun _ =>
    .bind (c.formats.fails_name op) fun _ => fails_ensure)

theorem fails_claimNativeWideIndex : Fails IsBreach (c.claimNativeWideIndex op) :=
  fails_check (.bind (c.formats.fails_isNative op false) fun _ =>
    .bind (c.formats.fails_name op) fun _ => fails_ensure)

/-- The test before a fast form is stored. -/
theorem fails_lengthChange (raw fast : Opcode) (bci : Nat) :
    Fails IsBreach (do
      ensure ((← c.formats.length fast false) = some (← c.length))
        (.lengthChange (← c.formats.name fast) (← c.formats.name raw) bci)) :=
  .bind (c.formats.fails_length fast false) fun _ => .bind c.fails_length fun _ =>
    .bind (c.formats.fails_name fast) fun _ => .bind (c.formats.fails_name raw) fun _ => fails_ensure

/-! ### Operands -/

theorem fails_indexU1 : Fails IsBreach (c.indexU1 op) :=
  .bind (c.fails_claimFormat op false) fun _ => .bind (c.fails_claimIndexSize op false 1) fun _ =>
    c.code.fails_byteAt _

theorem fails_indexU2 : Fails IsBreach (c.indexU2 op wide) :=
  .bind (c.fails_claimFormat op wide) fun _ => .bind (c.fails_claimIndexSize op wide 2) fun _ =>
    .bind (c.formats.fails_isNative op wide) fun _ => c.code.fails_u16At _ _

theorem fails_cacheIndexU2 (tag : UInt32) : Fails IsBreach (c.cacheIndexU2 op tag) :=
  .bind (c.fails_claimFormat op false) fun _ => .bind (c.fails_claimIndexSize op false 2) fun _ =>
    .bind (c.fails_claimNativeIndex op false) fun _ => .bind (c.code.fails_u16At _ _) fun _ => .pure _

theorem fails_indexU4 : Fails IsBreach (c.indexU4 op) :=
  .bind (c.fails_claimFormat op false) fun _ => .bind (c.fails_claimIndexSize op false 4) fun _ =>
    .bind (c.fails_claimNativeWideIndex op) fun _ => c.code.fails_u32At _ _

theorem fails_name : Fails IsBreach c.name :=
  .bind c.fails_rawOpcode fun _ => c.formats.fails_name _

end Cursor

/-! ### Instructions -/

namespace MemberRef

variable (r : MemberRef)

theorem fails_isValid : Fails IsBreach r.isValid := by
  refine .bind r.cursor.fails_family fun family => ?_
  split <;> exact .pure _

theorem fails_invokeKind : Fails IsBreach r.invokeKind := .bind r.cursor.fails_opcode fun _ => .pure _

theorem fails_fieldAccess : Fails IsBreach r.fieldAccess := .bind r.cursor.fails_opcode fun _ => .pure _

theorem fails_decode (mode : Mode) (body : MethodBody) (bci : Nat) : Fails IsBreach (decode mode body bci) := by
  refine .bind (fails_check (.bind (fails_isValid _) fun _ => fails_ensure)) fun _ =>
    .bind (fails_invokeKind _) fun kind => ?_
  split
  · exact .bind (fails_check fails_ensure) fun _ => .pure _
  · exact .pure _

theorem fails_hasWideIndex : Fails IsBreach r.hasWideIndex :=
  .bind r.cursor.fails_rawOpcode fun _ => r.cursor.formats.fails_hasWideIndex _

theorem fails_index : Fails IsBreach r.index := by
  refine .bind r.cursor.fails_rawOpcode fun raw => .bind r.fails_hasWideIndex fun wide => ?_
  split
  · exact r.cursor.fails_indexU4 raw
  · exact r.cursor.fails_cacheIndexU2 raw r.indexTag

theorem fails_cacheIndex : Fails IsBreach r.cacheIndex := by
  refine .bind r.fails_hasWideIndex fun wide => ?_
  split
  · exact r.fails_index
  · exact .bind r.fails_index fun _ => .pure _

end MemberRef

namespace LoadConstant

variable (l : LoadConstant)

theorem fails_decode (mode : Mode) (body : MethodBody) (bci : Nat) : Fails IsBreach (decode mode body bci) :=
  .bind (fails_check (.bind (Cursor.fails_rawOpcode _) fun _ => fails_ensure)) fun _ =>
    .bind (fails_check (.bind (.bind (Cursor.fails_family _) fun _ => .pure _) fun _ => fails_ensure)) fun _ =>
      .pure _

theorem fails_rawIndex : Fails IsBreach l.rawIndex := by
  refine .bind l.cursor.fails_rawOpcode fun raw => .bind (fails_check fails_ensure) fun _ =>
    .bind (l.cursor.formats.fails_canonical raw) fun op => ?_
  split
  · exact .bind (l.cursor.fails_indexU1 raw) fun _ => .pure _
  · exact l.cursor.fails_indexU2 raw false

theorem fails_hasCacheIndex : Fails IsBreach l.hasCacheIndex :=
  .bind l.cursor.fails_rawOpcode fun _ => .pure _

end LoadConstant

end MethodCode
