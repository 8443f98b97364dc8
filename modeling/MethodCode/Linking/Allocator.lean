/-! Allocation of cache slots. References to one member share a slot by their pool index; every dynamic
call site takes a slot of its own. Slots are numbered in the order in which they are taken. -/

namespace MethodCode

/-- A slot that has been taken. -/
structure AllocatedSlot where
  poolIndex : UInt16
  /-- Whether later references to the same pool index use the slot too. -/
  isShared : Bool
  deriving DecidableEq

/-- The slots taken so far. -/
structure Allocator where
  slots : Array AllocatedSlot
  deriving DecidableEq

namespace Allocator

/-- No slot taken. -/
def empty : Allocator := ⟨#[]⟩

/-- The number of slots taken. -/
def size (a : Allocator) : Nat := a.slots.size

/-- The pool indices of the slots, in order. -/
def poolIndices (a : Allocator) : List UInt16 :=
  a.slots.toList.map AllocatedSlot.poolIndex

/-- The shared slot of a pool index, if it has been taken. -/
def shared? (a : Allocator) (poolIndex : UInt16) : Option Nat :=
  a.slots.findIdx? fun slot => slot.isShared && slot.poolIndex == poolIndex

/-- Takes the next slot. -/
def push (a : Allocator) (slot : AllocatedSlot) : UInt32 × Allocator :=
  (.ofNat a.size, ⟨a.slots.push slot⟩)

/-- The slot that references to a pool index share, taken if none has been. -/
def shared (a : Allocator) (poolIndex : UInt16) : UInt32 × Allocator :=
  match a.shared? poolIndex with
  | some index => (.ofNat index, a)
  | none => a.push ⟨poolIndex, true⟩

/-- A slot for one dynamic call site. -/
def callSite (a : Allocator) (poolIndex : UInt16) : UInt32 × Allocator :=
  a.push ⟨poolIndex, false⟩

end Allocator

end MethodCode
