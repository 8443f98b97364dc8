import MethodCode.Cursor.Operand
import MethodCode.MethodBody

/-! Type references: the instructions that name a class by a pool index, which linking leaves alone. -/

namespace MethodCode

/-- An instruction that names a class. -/
structure TypeRef where
  cursor : Cursor
  body : MethodBody

namespace TypeRef

/-- Whether the instruction is a type reference at all. -/
def isValid (r : TypeRef) : Except Fault Bool :=
  return (← r.cursor.family) = .typeReference

/-- The type reference at a position. -/
def decode (mode : Mode) (body : MethodBody) (bci : Nat) : Except Fault TypeRef := do
  let r : TypeRef := ⟨body.cursor mode bci, body⟩
  mode.check do ensure (← r.isValid) (.notTypeRef bci)
  return r

/-- The pool index of the class. -/
def index (r : TypeRef) : Except Fault UInt16 := do
  r.cursor.indexU2 (← r.cursor.rawOpcode) false

/-- The name of the class. -/
def className (r : TypeRef) : Except Fault Symbol := do
  let index ← r.index
  inContext (.site r.body.method r.cursor.bci) (r.body.constants.pool.classNameAt index)

/-- The dimensions that `multianewarray` creates. -/
def dimensions (r : TypeRef) : Except Fault (Option UInt8) := do
  if (← r.cursor.opcode) = .multianewarray then return some (← r.cursor.byteAt 3) else return none

end TypeRef

end MethodCode
