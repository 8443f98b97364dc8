import MethodCode.Symbol

/-! Methods, as what a call is linked to. -/

namespace MethodCode

/-- A method's identity: the class that holds it, its name and its signature. Two methods that were
made apart stay apart by their serial numbers, whatever they are named. -/
structure Method where
  serial : Nat
  holder : Symbol
  name : Symbol
  signature : Symbol
  deriving DecidableEq

/-- A method as messages name it. -/
def Method.text (m : Method) : String :=
  m.holder.text ++ "." ++ m.name.text ++ m.signature.text

end MethodCode
