import MethodCode.Code
import MethodCode.FormatTable

/-! Cursors: positions at the start of one instruction. A cursor reads code through a format table and
tests what its caller claims as its mode says. -/

namespace MethodCode

/-- A position at the start of an instruction. -/
structure Cursor where
  mode : Mode
  formats : FormatTable
  code : Code
  /-- The method the code belongs to; none over bare code. -/
  method : Option Method
  bci : Nat

namespace Cursor

/-- The byte at an offset from the opcode. -/
def byteAt (c : Cursor) (offset : Nat) : Except Fault UInt8 :=
  c.code.byteAt (c.bci + offset)

/-- The opcode as it is stored, fast forms included. -/
def rawOpcode (c : Cursor) : Except Fault Opcode :=
  c.code.opcodeAt c.bci

/-- The standard code that the stored opcode stands for. -/
def opcode (c : Cursor) : Except Fault Opcode := do
  c.formats.canonical (← c.rawOpcode)

/-- Whether the instruction starts with a wide prefix. -/
def isWide (c : Cursor) : Except Fault Bool :=
  return (← c.rawOpcode) = .wide

/-- The opcode after a wide prefix. -/
def wideOpcode (c : Cursor) : Except Fault Opcode :=
  c.code.opcodeAt (c.bci + 1)

/-- The family of the instruction. -/
def family (c : Cursor) : Except Fault Family := do
  c.formats.family (← c.rawOpcode)

/-- The name of the stored opcode. -/
def name (c : Cursor) : Except Fault String := do
  c.formats.name (← c.rawOpcode)

/-- An offset rounded up so that its position in the code is a multiple of four. -/
def alignedOffset (c : Cursor) (offset : Nat) : Nat :=
  (c.bci + offset + 3) / 4 * 4 - c.bci

/-- The signed word at an offset, in java order. -/
def wordAt (c : Cursor) (offset : Nat) : Except Fault Int32 :=
  return (← c.code.u32At .java (c.bci + offset)).toInt32

/-- The signed word of the given number in a switch, counted from the first one after the padding. -/
def switchWord (c : Cursor) (n : Nat) : Except Fault Int32 :=
  c.wordAt (c.alignedOffset 1 + n * 4)

end Cursor

end MethodCode
