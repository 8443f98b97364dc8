import MethodCode.Cursor.Operand
import MethodCode.MethodBody

/-! Loads of constants, in all their forms. A standard form names a pool entry and a fast form a cache
slot. Over bare code a load can still tell its operand, but nothing that needs the pool. -/

namespace MethodCode

/-- A load of a constant. -/
structure LoadConstant where
  cursor : Cursor
  /-- The body that the load stands in; none over bare code. -/
  body : Option MethodBody

namespace LoadConstant

/-- Whether the instruction is a load of a constant at all. -/
def isValid (l : LoadConstant) : Except Fault Bool :=
  return (← l.cursor.family) = .loadConstant

/-- The load, if it is one; a load takes no wide prefix. -/
def verified (l : LoadConstant) : Except Fault LoadConstant := do
  l.cursor.mode.check do
    ensure ((← l.cursor.rawOpcode) ≠ .wide) (.wideLoadConstant l.cursor.bci)
  l.cursor.mode.check do ensure (← l.isValid) (.notLoadConstant l.cursor.bci)
  return l

/-- The load at a position of a body. -/
def decode (mode : Mode) (body : MethodBody) (bci : Nat) : Except Fault LoadConstant :=
  verified ⟨body.cursor mode bci, some body⟩

/-- The load at a position of bare code. -/
def detached (mode : Mode) (code : Code) (bci : Nat) : Except Fault LoadConstant :=
  verified ⟨⟨mode, .standard, code, none, bci⟩, none⟩

/-- The body that the load stands in. -/
def boundBody (l : LoadConstant) : Except Fault MethodBody :=
  match l.body with
  | some body => .ok body
  | none => .error (.of (.detachedLoad l.cursor.bci))

/-- The operand as it is stored: a pool index, or the cache index of a fast form. -/
def rawIndex (l : LoadConstant) : Except Fault UInt16 := do
  let raw ← l.cursor.rawOpcode
  l.cursor.mode.check (ensure (raw ≠ .wide) (.wideLoadConstant l.cursor.bci))
  if (← l.cursor.formats.canonical raw) = .ldc then
    return (← l.cursor.indexU1 raw).toUInt16
  else
    l.cursor.indexU2 raw false

/-- Whether the operand is a cache index. -/
def hasCacheIndex (l : LoadConstant) : Except Fault Bool :=
  return (← l.cursor.rawOpcode).isFast

/-- The pool entry that the load refers to. -/
def poolIndex (l : LoadConstant) : Except Fault UInt16 := do
  let index ← l.rawIndex
  if !(← l.hasCacheIndex) then return index
  let body ← l.boundBody
  match body.constants.cache with
  | none => throw (.of (.noCache body.method))
  | some cache => cache.poolIndexAt index.toUInt32

/-- The category of the constant. -/
def resultType (l : LoadConstant) : Except Fault ValueType := do
  let body ← l.boundBody
  let tag ← body.constants.pool.tagAt (← l.poolIndex)
  match tag.valueType with
  | .illegal => throw (.of (.notLoadableAt tag l.cursor.bci))
  | t => return t

end LoadConstant

end MethodCode
