import MethodCode.Linking.Quicken

/-! Resolvers: whatever links the references of methods. A registry is one of them, and an interpreter brings
its own, which may load classes and run code. Views and quickening ask every resolver in the same way. -/

namespace MethodCode

/-- What references are linked by. It is told the method that refers and the thread that waits. -/
structure Resolver where
  method : Method → SymbolicRef → Thread → LinkM Method
  interfaceMethod : Method → SymbolicRef → Thread → LinkM Method
  callSite : Method → SymbolicRef → Thread → LinkM Method
  field : Method → SymbolicRef → Thread → LinkM Field

/-- A registry links in the same way whoever refers. -/
def Registry.resolver (r : Registry) : Resolver where
  method _ := r.resolveMethod
  interfaceMethod _ := r.resolveInterfaceMethod
  callSite _ := r.resolveCallSite
  field _ := r.resolveField

namespace MemberRef

/-- The method that a resolver links an invoke to. -/
def staticTargetBy (r : MemberRef) (resolver : Resolver) (thread : Thread) : LinkM Method := do
  let site ← r.symbolicRef
  match ← r.invokeKind with
  | some .dynamic => resolver.callSite r.body.method site thread
  | some .interface => resolver.interfaceMethod r.body.method site thread
  | some _ => resolver.method r.body.method site thread
  | none => throw (.of (.notInvoke (← r.cursor.name) r.cursor.bci))

/-- The field that a resolver links a field access to. -/
def resolveFieldBy (r : MemberRef) (resolver : Resolver) (thread : Thread) : LinkM Field := do
  if (← r.fieldAccess).isNone then throw (.of (.notFieldAccess (← r.cursor.name) r.cursor.bci))
  resolver.field r.body.method (← r.symbolicRef) thread

theorem staticTargetBy_registry (r : MemberRef) (registry : Registry) (thread : Thread) :
    r.staticTargetBy registry.resolver thread = r.staticTarget registry thread := rfl

theorem resolveFieldBy_registry (r : MemberRef) (registry : Registry) (thread : Thread) :
    r.resolveFieldBy registry.resolver thread = r.resolveField registry thread := rfl

end MemberRef

namespace LinkM

/-- The fast form that a field access goes over to, once a resolver has linked it. -/
def fastAccessBy (body : MethodBody) (mode : Mode) (bci : Nat) (raw : Opcode) (resolver : Resolver)
    (thread : Thread) : LinkM Opcode := do
  let access ← MemberRef.decode mode body bci
  let field ← access.resolveFieldBy resolver thread
  if field.isStatic then throw (.of (.staticField field.holder field.name))
  match raw.fastField? field.type with
  | some fast => return fast
  | none => throw (.of (.fieldWithoutValue field.name))

/-- The fast form that an instruction goes over to. -/
def fastFormBy (body : MethodBody) (mode : Mode) (bci : Nat) (raw : Opcode) (resolver : Resolver)
    (thread : Thread) : LinkM (Option Opcode) := do
  if raw = .getfield ∨ raw = .putfield then
    return some (← fastAccessBy body mode bci raw resolver thread)
  else if raw = .aload0 then
    if bci + 1 < body.code.size then
      if (← (body.cursor mode (bci + 1)).rawOpcode) = .getfield then
        report (.quickeningDeferred body.method bci)
        return none
    return some .fastAload0
  else return none

/-- Puts the fast form of the instruction at a position in its place. -/
def quickenBy (mode : Mode) (method : Method) (bci : Nat) (resolver : Resolver) (thread : Thread) :
    LinkM (Option Opcode) := do
  let body ← bodyOf method
  let cursor := body.cursor mode bci
  let raw ← cursor.rawOpcode
  match ← fastFormBy body mode bci raw resolver thread with
  | none => return none
  | some fast =>
    mode.check do
      ensure ((← cursor.formats.length fast false) = some (← cursor.length))
        (.lengthChange (← cursor.formats.name fast) (← cursor.formats.name raw) bci)
    let code ← (← get).code.setOpcode bci fast
    modify fun s => { s with code }
    report (.quickened thread.name (← cursor.formats.name raw) bci (← cursor.formats.name fast))
    return some fast

theorem quickenBy_registry (mode : Mode) (method : Method) (bci : Nat) (registry : Registry) (thread : Thread) :
    quickenBy mode method bci registry.resolver thread = quicken mode method bci registry thread := rfl

end LinkM

end MethodCode
