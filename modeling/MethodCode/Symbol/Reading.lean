import MethodCode.Error

/-! Reading symbols from the bytes of a class file. -/

namespace MethodCode

/-- The symbol with the given bytes; bytes that cannot be read make none. -/
def Symbol.ofBytes (bytes : List UInt8) : Except Error Symbol :=
  match ofBytes? bytes with
  | some s => .ok s
  | none => failWith .unreadableSymbol

end MethodCode
