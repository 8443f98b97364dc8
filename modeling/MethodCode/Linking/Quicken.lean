import MethodCode.Cursor.Length
import MethodCode.Linking.Registry

/-! Quickening: putting the fast form of an instruction in its place while the code runs. A field access
is resolved first, and its outcome is in the cache before the fast opcode is in the code, so whoever meets
the opcode finds the outcome. -/

namespace MethodCode

/-- The fast form of `getfield` for fields of a category. -/
def Opcode.fastGetfield? : ValueType → Option Opcode
  | .object | .array => some fastAgetfield
  | .boolean | .byte => some fastBgetfield
  | .char => some fastCgetfield
  | .double => some fastDgetfield
  | .float => some fastFgetfield
  | .int => some fastIgetfield
  | .long => some fastLgetfield
  | .short => some fastSgetfield
  | .void | .illegal => none

/-- The fast form of `putfield` for fields of a category. -/
def Opcode.fastPutfield? : ValueType → Option Opcode
  | .object | .array => some fastAputfield
  | .boolean | .byte => some fastBputfield
  | .char => some fastCputfield
  | .double => some fastDputfield
  | .float => some fastFputfield
  | .int => some fastIputfield
  | .long => some fastLputfield
  | .short => some fastSputfield
  | .void | .illegal => none

/-- The fast form of an access to an object's field. -/
def Opcode.fastField? (op : Opcode) (type : ValueType) : Option Opcode :=
  if op = .getfield then fastGetfield? type else fastPutfield? type

namespace LinkM

/-- The fast form that a field access goes over to, once it is resolved. -/
def fastAccess (body : MethodBody) (mode : Mode) (bci : Nat) (raw : Opcode) (registry : Registry)
    (thread : Thread) : LinkM Opcode := do
  let access ← MemberRef.decode mode body bci
  let field ← access.resolveField registry thread
  if field.isStatic then throw (.of (.staticField field.holder field.name))
  match raw.fastField? field.type with
  | some fast => return fast
  | none => throw (.of (.fieldWithoutValue field.name))

/-- The fast form that an instruction goes over to. An `aload_0` waits while a `getfield` follows it, so
that the two can still be combined. -/
def fastForm (body : MethodBody) (mode : Mode) (bci : Nat) (raw : Opcode) (registry : Registry)
    (thread : Thread) : LinkM (Option Opcode) := do
  if raw = .getfield ∨ raw = .putfield then
    return some (← fastAccess body mode bci raw registry thread)
  else if raw = .aload0 then
    if bci + 1 < body.code.size then
      if (← (body.cursor mode (bci + 1)).rawOpcode) = .getfield then
        report (.quickeningDeferred body.method bci)
        return none
    return some .fastAload0
  else return none

/-- Puts the fast form of the instruction at a position in its place. The answer is the opcode stored;
none when there is nothing to do. -/
def quicken (mode : Mode) (method : Method) (bci : Nat) (registry : Registry) (thread : Thread) :
    LinkM (Option Opcode) := do
  let body ← bodyOf method
  let cursor := body.cursor mode bci
  let raw ← cursor.rawOpcode
  match ← fastForm body mode bci raw registry thread with
  | none => return none
  | some fast =>
    mode.check do
      ensure ((← cursor.formats.length fast false) = some (← cursor.length))
        (.lengthChange (← cursor.formats.name fast) (← cursor.formats.name raw) bci)
    let code ← (← get).code.setOpcode bci fast
    modify fun s => { s with code }
    report (.quickened thread.name (← cursor.formats.name raw) bci (← cursor.formats.name fast))
    return some fast

end LinkM

end MethodCode
