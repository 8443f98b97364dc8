import MethodCode.Cursor.Claims

/-! Operands of the instruction under a cursor. Every reader takes the opcode its caller has in mind,
tests that the instruction is laid out like it, and then reads at a fixed offset. -/

namespace MethodCode.Cursor

/-- The one-byte index of the instruction. -/
def indexU1 (c : Cursor) (op : Opcode) : Except Fault UInt8 := do
  c.claimFormat op false
  c.claimIndexSize 1 op false
  c.byteAt 1

/-- The two-byte index of the instruction, after the wide prefix if `wide`, in the byte order of `op`. -/
def indexU2 (c : Cursor) (op : Opcode) (wide : Bool) : Except Fault UInt16 := do
  c.claimFormat op wide
  c.claimIndexSize 2 op wide
  let order := if ← c.formats.isNative op wide then ByteOrder.native else ByteOrder.java
  c.code.u16At order (c.bci + if wide then 2 else 1)

/-- The two-byte cache index of the instruction, with the tag of the cache added. -/
def cacheIndexU2 (c : Cursor) (op : Opcode) (tag : UInt32) : Except Fault UInt32 := do
  c.claimFormat op false
  c.claimIndexSize 2 op false
  c.claimNativeIndex op false
  return (← c.code.u16At .native (c.bci + 1)).toUInt32 + tag

/-- The four-byte index of the instruction. -/
def indexU4 (c : Cursor) (op : Opcode) : Except Fault UInt32 := do
  c.claimFormat op false
  c.claimIndexSize 4 op false
  c.claimNativeWideIndex op
  c.code.u32At .native (c.bci + 1)

/-- The two-byte branch offset of the instruction. -/
def offsetS2 (c : Cursor) (op : Opcode) : Except Fault Int16 := do
  c.claimFormat op false
  c.claimOffsetSize 2 op false
  return (← c.code.u16At .java (c.bci + 1)).toInt16

/-- The four-byte branch offset of the instruction. -/
def offsetS4 (c : Cursor) (op : Opcode) : Except Fault Int32 := do
  c.claimFormat op false
  c.claimOffsetSize 4 op false
  c.wordAt 1

/-- The one-byte constant at an offset of the instruction. -/
def constantS1 (c : Cursor) (offset : Nat) (op : Opcode) : Except Fault Int8 := do
  c.claimFormat op false
  c.claimConstantSize 1 offset op false
  return (← c.byteAt offset).toInt8

/-- The two-byte constant at an offset of the instruction. -/
def constantS2 (c : Cursor) (offset : Nat) (op : Opcode) (wide : Bool) : Except Fault Int16 := do
  c.claimFormat op wide
  c.claimConstantSize 2 offset op wide
  return (← c.code.u16At .java (c.bci + offset)).toInt16

/-- Where a branch goes, as an address of 64 bits; none for other instructions. -/
def branchDestination (c : Cursor) : Except Fault (Option UInt64) := do
  let raw ← c.rawOpcode
  let flags ← c.formats.flags raw false
  if !FormatFlags.has flags .hasOffset then return none
  let offset ← if FormatFlags.has flags .hasU4 then
      Int32.toInt <$> c.offsetS4 raw
    else
      Int16.toInt <$> c.offsetS2 raw
  return some (.ofInt (c.bci + offset))

end MethodCode.Cursor
