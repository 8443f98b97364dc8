import MethodCode.Cursor.Operand
import MethodCode.Descriptor.Category
import MethodCode.MethodBody

/-! Member references: the instructions that access a field or invoke a method, in all their forms. Once
linked, their operand numbers a slot of the resolution cache, and the slot tells the pool index. Two-byte
cache indices carry the tag of the cache; the four-byte index of a dynamic call site does not. -/

namespace MethodCode

/-- The dispatch that an invoke asks for. -/
inductive InvokeKind where
  | virtual
  | special
  | static
  | interface
  | dynamic
  deriving DecidableEq

/-- The kind's name in listings. -/
def InvokeKind.label : InvokeKind → String
  | virtual => "Virtual"
  | special => "Special"
  | static => "Static"
  | interface => "Interface"
  | dynamic => "Dynamic"

/-- The dispatch of a standard code, for those that invoke. -/
def InvokeKind.ofOpcode? (op : Opcode) : Option InvokeKind :=
  if op = .invokevirtual then some virtual
  else if op = .invokespecial then some special
  else if op = .invokestatic then some static
  else if op = .invokeinterface then some interface
  else if op = .invokedynamic then some dynamic
  else none

/-- The ways to access a field. -/
inductive FieldAccess where
  | getStatic
  | putStatic
  | getField
  | putField
  deriving DecidableEq

/-- The access's name in listings. -/
def FieldAccess.label : FieldAccess → String
  | getStatic => "GetStatic"
  | putStatic => "PutStatic"
  | getField => "GetField"
  | putField => "PutField"

/-- The access of a standard code, for those that access a field. -/
def FieldAccess.ofOpcode? (op : Opcode) : Option FieldAccess :=
  if op = .getstatic then some getStatic
  else if op = .putstatic then some putStatic
  else if op = .getfield then some getField
  else if op = .putfield then some putField
  else none

/-- What a resolver is asked to link: the pool entry that names the member, and the cache slot that takes
the outcome. -/
structure SymbolicRef where
  poolIndex : UInt16
  cacheIndex : UInt32
  deriving DecidableEq

/-- A field access or an invoke. -/
structure MemberRef where
  cursor : Cursor
  body : MethodBody

namespace MemberRef

/-- The stored opcode. -/
def rawOpcode (r : MemberRef) : Except Fault Opcode := r.cursor.rawOpcode

/-- The standard code. -/
def opcode (r : MemberRef) : Except Fault Opcode := r.cursor.opcode

/-- Whether the instruction is a member reference at all. -/
def isValid (r : MemberRef) : Except Fault Bool := do
  match ← r.cursor.family with
  | .fieldAccess | .invoke | .dynamicInvoke => return true
  | _ => return false

/-- The dispatch that the instruction asks for, if it is an invoke. -/
def invokeKind (r : MemberRef) : Except Fault (Option InvokeKind) :=
  return InvokeKind.ofOpcode? (← r.opcode)

/-- The access that the instruction makes, if it accesses a field. -/
def fieldAccess (r : MemberRef) : Except Fault (Option FieldAccess) :=
  return FieldAccess.ofOpcode? (← r.opcode)

/-- The member reference at a position. An invoke has no meaning before its class is linked. -/
def decode (mode : Mode) (body : MethodBody) (bci : Nat) : Except Fault MemberRef := do
  let r : MemberRef := ⟨body.cursor mode bci, body⟩
  mode.check do ensure (← r.isValid) (.notMemberRef bci)
  if (← r.invokeKind).isSome then
    mode.check (ensure body.constants.cache.isSome (.unlinkedInvoke bci body.method))
  return r

/-- The tag of the cache; zero before the class is linked. -/
def indexTag (r : MemberRef) : UInt32 :=
  match r.body.constants.cache with
  | some cache => cache.tag
  | none => 0

/-- Whether the index takes four bytes. -/
def hasWideIndex (r : MemberRef) : Except Fault Bool := do
  r.cursor.formats.hasWideIndex (← r.rawOpcode)

/-- The cache index as the interpreter sees it, with the tag in two-byte forms. -/
def index (r : MemberRef) : Except Fault UInt32 := do
  let raw ← r.rawOpcode
  if ← r.hasWideIndex then r.cursor.indexU4 raw else r.cursor.cacheIndexU2 raw r.indexTag

/-- The cache slot that the instruction refers to. -/
def cacheIndex (r : MemberRef) : Except Fault UInt32 := do
  if ← r.hasWideIndex then r.index else return (← r.index) - r.indexTag

/-- The pool entry that the instruction refers to. -/
def poolIndex (r : MemberRef) : Except Fault UInt16 := do
  match r.body.constants.cache with
  | none => throw (.of (.noCache r.body.method))
  | some cache =>
    let index ← r.cacheIndex
    inContext (.site r.body.method r.cursor.bci) (cache.poolIndexAt index)

/-- What a resolver is asked to link for the instruction. -/
def symbolicRef (r : MemberRef) : Except Fault SymbolicRef :=
  return ⟨← r.poolIndex, ← r.cacheIndex⟩

/-- The name of the member. -/
def name (r : MemberRef) : Except Fault Symbol := do
  r.body.constants.pool.memberNameAt (← r.poolIndex)

/-- The signature of the member. -/
def signature (r : MemberRef) : Except Fault Symbol := do
  r.body.constants.pool.memberSignatureAt (← r.poolIndex)

/-- The class that the member is declared in; a dynamic call site has none. -/
def holderName (r : MemberRef) : Except Fault Symbol := do
  r.body.constants.pool.holderNameAt (← r.poolIndex)

/-- The category of the field's value or of the method's result. -/
def resultType (r : MemberRef) : Except Fault ValueType := do
  Descriptor.resultType (← r.signature).text

/-- Whether the access needs no object. -/
def isStatic (r : MemberRef) : Except Fault Bool := do
  let op ← r.opcode
  return op = .getstatic || op = .putstatic || op = .invokestatic || op = .invokedynamic

/-- Whether the access needs an object. -/
def hasReceiver (r : MemberRef) : Except Fault Bool :=
  return !(← r.isStatic)

/-- The stack slots that an invoke pops, receiver included. -/
def parameterSize (r : MemberRef) : Except Fault Nat := do
  let slots ← Descriptor.parameterSlots (← r.signature).text
  return slots + if ← r.hasReceiver then 1 else 0

end MemberRef

end MethodCode
