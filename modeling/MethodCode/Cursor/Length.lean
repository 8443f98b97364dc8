import MethodCode.Cursor

/-! Lengths of instructions. Most follow from the format; a wide prefix takes that of the opcode after
it, and a switch that of the table it carries. `length` trusts that the instruction is complete, and
`checkedLength` tests it. -/

namespace MethodCode.Cursor

/-- The offset just past the fixed part of a switch. -/
def switchHeaderEnd (c : Cursor) (op : Opcode) : Nat :=
  c.alignedOffset 1 + if op = .tableswitch then 12 else 8

/-- The length of a switch: a table has a word for every key between its bounds, a lookup two words for
every pair. -/
def switchLength (c : Cursor) (op : Opcode) : Except Fault Nat := do
  let base := c.alignedOffset 1
  if op = .tableswitch then
    let low ← c.switchWord 1
    let high ← c.switchWord 2
    return base + 12 + (high.toInt - low.toInt + 1).toNat * 4
  else
    let pairs ← c.switchWord 1
    return base + 8 + pairs.toInt.toNat * 8

/-- The length of the instruction, with its wide prefix or the table it carries. A breakpoint hides the
opcode it replaced, and counts as one byte. -/
def length (c : Cursor) : Except Fault Nat := do
  let raw ← c.rawOpcode
  match ← c.formats.length raw false with
  | some n => return n
  | none =>
    let op ← c.formats.canonical raw
    if op = .wide then
      let inner ← c.wideOpcode
      match ← c.formats.length inner true with
      | some n => return n
      | none => throw (.violation (.noWideForm (← c.formats.name inner) c.bci))
    else if op = .tableswitch ∨ op = .lookupswitch then c.switchLength op
    else return 1

/-- The length that the instruction would have, if enough of it is there to tell. -/
def statedLength (c : Cursor) : Except Fault (Option Nat) := do
  let raw ← c.rawOpcode
  match ← c.formats.length raw false with
  | some n => return some n
  | none =>
    let op ← c.formats.canonical raw
    if op = .wide then
      if c.code.size ≤ c.bci + 1 then return none
      let inner ← c.wideOpcode
      if c.formats.isDefined inner then c.formats.length inner true else return none
    else if op = .tableswitch ∨ op = .lookupswitch then
      if c.code.size < c.bci + c.switchHeaderEnd op then return none
      return some (← c.switchLength op)
    else return some 1

/-- The length of the instruction, if it is complete: none when it runs past the end of the code, or when
a wide prefix has nothing valid after it. -/
def checkedLength (c : Cursor) : Except Fault (Option Nat) := do
  if c.code.size ≤ c.bci then return none
  let some n ← c.statedLength | return none
  return if c.bci + n ≤ c.code.size then some n else none

end MethodCode.Cursor
