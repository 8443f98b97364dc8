import MethodCode.LoadedConstant
import MethodCode.Method

/-! What resolution yields, and so what an entry of a resolution cache can hold. -/

namespace MethodCode

/-- A field that a reference was resolved to. -/
structure Field where
  holder : Symbol
  name : Symbol
  type : ValueType
  offset : UInt32
  isStatic : Bool
  deriving DecidableEq

/-- A field as messages describe it. -/
def Field.describe (f : Field) : String :=
  s!"ResolvedField \x7b holder: {f.holder.describe}, name: {f.name.describe}, " ++
    s!"field_type: {f.type.label}, offset: {f.offset}, is_static: {f.isStatic} \x7d"

/-- The kinds of resolved references. -/
inductive ResolvedKind where
  | field
  | method
  | callSite
  | constant
  deriving DecidableEq

/-- A kind with its article, as messages name it. -/
def ResolvedKind.text : ResolvedKind → String
  | field => "a field"
  | method => "a method"
  | callSite => "a call site"
  | constant => "a constant"

/-- A resolved reference. -/
inductive Resolved where
  | field (f : Field)
  | method (m : Method)
  | callSite (target : Method)
  | constant (c : LoadedConstant)
  deriving DecidableEq

namespace Resolved

/-- The kind of a resolved reference. -/
def kind : Resolved → ResolvedKind
  | field _ => .field
  | method _ => .method
  | callSite _ => .callSite
  | constant _ => .constant

/-- A resolved reference as messages describe it. -/
def describe : Resolved → String
  | field f => s!"Field({f.describe})"
  | method m => s!"Method({m.text})"
  | callSite m => s!"CallSite({m.text})"
  | constant c => s!"Constant({c.describe})"

end Resolved

end MethodCode
