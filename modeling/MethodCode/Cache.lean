import MethodCode.Pool

/-! Resolution caches: one slot for every reference that linking has numbered. A slot knows the pool
index it stands for, and what the reference resolved to once that is known; the first outcome published
to a slot stays there. -/

namespace MethodCode

/-- A slot of a resolution cache. -/
structure CacheSlot where
  poolIndex : UInt16
  resolved : Option Resolved
  deriving DecidableEq

/-- A resolution cache. -/
structure Cache where
  slots : Array CacheSlot
  /-- What is added to two-byte cache indices when they are read from code. -/
  tag : UInt32
  deriving DecidableEq

namespace Cache

/-- The cache for the given pool indices, nothing resolved yet. -/
def ofPoolIndices (indices : List UInt16) (tag : UInt32) : Cache :=
  ⟨(indices.map (⟨·, none⟩)).toArray, tag⟩

/-- The number of slots. -/
def size (c : Cache) : Nat := c.slots.size

/-- The slot at an index. -/
def slotAt (c : Cache) (index : UInt32) : Except Error CacheSlot :=
  match c.slots[index.toNat]? with
  | some slot => .ok slot
  | none => failWith (.cacheIndexOutOfRange index c.size)

/-- The pool index that the slot at an index stands for. -/
def poolIndexAt (c : Cache) (index : UInt32) : Except Error UInt16 :=
  return (← c.slotAt index).poolIndex

/-- What the slot at an index holds; nothing while the reference is unresolved. -/
def resolvedAt (c : Cache) (index : UInt32) : Option Resolved :=
  c.slots[index.toNat]?.bind CacheSlot.resolved

/-- Publishes an outcome to a slot. The answer is what the slot holds from then on: the outcome if it is
the first, else the earlier one. -/
def publish (c : Cache) (index : UInt32) (outcome : Resolved) : Except Error (Resolved × Cache) := do
  let slot ← c.slotAt index
  match slot.resolved with
  | some winner => return (winner, c)
  | none =>
    return (outcome,
      { c with slots := c.slots.setIfInBounds index.toNat { slot with resolved := some outcome } })

end Cache

/-- The constants of a class: its pool, and its resolution cache once the class is linked. -/
structure Constants where
  pool : Pool
  cache : Option Cache
  deriving DecidableEq

end MethodCode
