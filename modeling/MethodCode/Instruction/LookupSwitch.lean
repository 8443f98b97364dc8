import MethodCode.Cursor

/-! Lookup switches and their fast forms. After the same padding as in a table switch come the default
offset and the number of pairs, then the pairs themselves, each a key and a branch offset, in ascending
order of keys. -/

namespace MethodCode

/-- A key of a lookup switch, with the branch offset taken for it. -/
structure SwitchPair where
  key : Int32
  offset : Int32
  deriving DecidableEq

/-- A switch that finds its target by search. -/
structure LookupSwitch where
  cursor : Cursor

namespace LookupSwitch

/-- Whether the instruction is a lookup switch at all. -/
def isValid (l : LookupSwitch) : Except Fault Bool :=
  return (← l.cursor.family) = .lookupSwitch

/-- The branch offset of keys that no pair holds. -/
def defaultOffset (l : LookupSwitch) : Except Fault Int32 := l.cursor.switchWord 0

/-- The number of pairs; a negative count stands for none. -/
def size (l : LookupSwitch) : Except Fault Nat :=
  return (← l.cursor.switchWord 1).toInt.toNat

/-- The pair at a position. -/
def pairAt (l : LookupSwitch) (i : Nat) : Except Fault SwitchPair := do
  l.cursor.mode.check do ensure (i < (← l.size)) (.pairOutOfBounds i)
  return ⟨← l.cursor.switchWord (2 + i * 2), ← l.cursor.switchWord (3 + i * 2)⟩

/-- The pairs at `count` positions from `i` on. -/
def pairsFrom (l : LookupSwitch) (i : Nat) : Nat → Except Fault (List SwitchPair)
  | 0 => .ok []
  | count + 1 => do
    let pair ← l.pairAt i
    return pair :: (← pairsFrom l (i + 1) count)

/-- The first pairs, `limit` of them at most. -/
def firstPairs (l : LookupSwitch) (limit : Nat) : Except Fault (List SwitchPair) := do
  l.pairsFrom 0 (min limit (← l.size))

/-- All pairs. -/
def pairs (l : LookupSwitch) : Except Fault (List SwitchPair) := do
  l.pairsFrom 0 (← l.size)

/-- Every key among `count` pairs after position `i` is greater than the one before it. -/
def ascendingFrom (l : LookupSwitch) (i : Nat) : Nat → Except Fault Unit
  | 0 => .ok ()
  | count + 1 => do
    let pair ← l.pairAt i
    let next ← l.pairAt (i + 1)
    ensure (pair.key < next.key) (.keysOutOfOrder l.cursor.bci pair.key next.key)
    ascendingFrom l (i + 1) count

/-- The lookup switch at a cursor. -/
def decode (cursor : Cursor) : Except Fault LookupSwitch := do
  let l : LookupSwitch := ⟨cursor⟩
  cursor.mode.check do ensure (← l.isValid) (.notLookupSwitch cursor.bci)
  cursor.mode.check do l.ascendingFrom 0 ((← l.size) - 1)
  return l

end LookupSwitch

end MethodCode
