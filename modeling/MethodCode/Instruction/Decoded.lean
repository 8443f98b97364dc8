import MethodCode.Instruction.LoadConstant
import MethodCode.Instruction.LookupSwitch
import MethodCode.Instruction.MemberRef
import MethodCode.Instruction.TableSwitch
import MethodCode.Instruction.TypeRef

/-! Decoded instructions: the instruction at a position, seen as what its family makes of it. -/

namespace MethodCode

/-- An instruction, by the family it belongs to. -/
inductive Decoded where
  | memberRef (r : MemberRef)
  | loadConstant (l : LoadConstant)
  | tableSwitch (t : TableSwitch)
  | lookupSwitch (l : LookupSwitch)
  | typeRef (r : TypeRef)
  /-- Anything else, of which the cursor tells all there is to tell. -/
  | plain (c : Cursor)

/-- The instruction at a position of a body. -/
def Decoded.decode (mode : Mode) (body : MethodBody) (bci : Nat) : Except Fault Decoded := do
  let cursor := body.cursor mode bci
  match ← cursor.family with
  | .fieldAccess | .invoke | .dynamicInvoke => return memberRef (← MemberRef.decode mode body bci)
  | .loadConstant => return loadConstant (← LoadConstant.decode mode body bci)
  | .tableSwitch => return tableSwitch (← TableSwitch.decode cursor)
  | .lookupSwitch => return lookupSwitch (← LookupSwitch.decode cursor)
  | .typeReference => return typeRef (← TypeRef.decode mode body bci)
  | .branch | .other => return plain cursor

end MethodCode
