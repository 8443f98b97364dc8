import MethodCode.Cursor

/-! Table switches. Padding after the opcode brings the table to a multiple of four from the start of the
code; then follow signed words in java order: the default offset, the lowest and the highest key, and an
offset for every key between them. -/

namespace MethodCode

/-- A switch that finds its target by position. -/
structure TableSwitch where
  cursor : Cursor

namespace TableSwitch

/-- Whether the instruction is a table switch at all. -/
def isValid (t : TableSwitch) : Except Fault Bool :=
  return (← t.cursor.family) = .tableSwitch

/-- The branch offset of keys that the table does not hold. -/
def defaultOffset (t : TableSwitch) : Except Fault Int32 := t.cursor.switchWord 0

/-- The lowest key of the table. -/
def low (t : TableSwitch) : Except Fault Int32 := t.cursor.switchWord 1

/-- The highest key of the table. -/
def high (t : TableSwitch) : Except Fault Int32 := t.cursor.switchWord 2

/-- The table switch at a cursor. -/
def decode (cursor : Cursor) : Except Fault TableSwitch := do
  let t : TableSwitch := ⟨cursor⟩
  cursor.mode.check do ensure (← t.isValid) (.notTableSwitch cursor.bci)
  cursor.mode.check do
    let high ← t.high
    let low ← t.low
    ensure (low ≤ high) (.switchBounds cursor.bci high low)
  return t

/-- The number of keys in the table. -/
def size (t : TableSwitch) : Except Fault Nat := do
  let high ← t.high
  let low ← t.low
  return (high.toInt - low.toInt + 1).toNat

/-- The branch offset at a position of the table. -/
def offsetAt (t : TableSwitch) (i : Nat) : Except Fault Int32 := t.cursor.switchWord (3 + i)

/-- The branch offset taken for a key. -/
def offsetFor (t : TableSwitch) (key : Int32) : Except Fault Int32 := do
  let low ← t.low
  let high ← t.high
  if key < low ∨ high < key then t.defaultOffset else t.offsetAt (key.toInt - low.toInt).toNat

end TableSwitch

end MethodCode
