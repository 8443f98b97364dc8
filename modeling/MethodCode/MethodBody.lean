import MethodCode.Cache
import MethodCode.Cursor
import MethodCode.FormatTable.Standard

/-! Method bodies: a method with the code it runs and the constants that code refers to. -/

namespace MethodCode

/-- A method together with its code and the constants of its class. -/
structure MethodBody where
  method : Method
  code : Code
  constants : Constants

namespace MethodBody

/-- A cursor over the code of a body. -/
def cursor (body : MethodBody) (mode : Mode) (bci : Nat) : Cursor :=
  ⟨mode, .standard, body.code, some body.method, bci⟩

end MethodBody

end MethodCode
