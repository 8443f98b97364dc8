import MethodCode.Text.Hex

/-! Opcodes. The standard codes come first, then `breakpoint`, then the fast forms that a runtime puts
in place of standard codes. Any byte is an opcode; which of them are defined, a format table says. -/

namespace MethodCode

/-- A kind of instruction, as its byte. -/
structure Opcode where
  byte : UInt8
  deriving DecidableEq

namespace Opcode

/-- The first code past the standard set and `breakpoint`. -/
def firstFast : UInt8 := 0xcb

/-- Fast forms are private to the runtime. -/
def isFast (op : Opcode) : Bool :=
  firstFast ≤ op.byte

/-- Every opcode in ascending order. -/
def all : List Opcode :=
  (List.range 256).map fun n => ⟨.ofNat n⟩

/-- The byte as messages show it. -/
def text (op : Opcode) : String :=
  "0x" ++ Hex.byte op.byte

def ldc : Opcode := ⟨0x12⟩
def ldcW : Opcode := ⟨0x13⟩
def iload : Opcode := ⟨0x15⟩
def aload0 : Opcode := ⟨0x2a⟩
def tableswitch : Opcode := ⟨0xaa⟩
def lookupswitch : Opcode := ⟨0xab⟩
def returnVoid : Opcode := ⟨0xb1⟩
def getstatic : Opcode := ⟨0xb2⟩
def putstatic : Opcode := ⟨0xb3⟩
def getfield : Opcode := ⟨0xb4⟩
def putfield : Opcode := ⟨0xb5⟩
def invokevirtual : Opcode := ⟨0xb6⟩
def invokespecial : Opcode := ⟨0xb7⟩
def invokestatic : Opcode := ⟨0xb8⟩
def invokeinterface : Opcode := ⟨0xb9⟩
def invokedynamic : Opcode := ⟨0xba⟩
def new : Opcode := ⟨0xbb⟩
def wide : Opcode := ⟨0xc4⟩
def multianewarray : Opcode := ⟨0xc5⟩
def breakpoint : Opcode := ⟨0xca⟩
def fastAgetfield : Opcode := ⟨0xcb⟩
def fastBgetfield : Opcode := ⟨0xcc⟩
def fastCgetfield : Opcode := ⟨0xcd⟩
def fastDgetfield : Opcode := ⟨0xce⟩
def fastFgetfield : Opcode := ⟨0xcf⟩
def fastIgetfield : Opcode := ⟨0xd0⟩
def fastLgetfield : Opcode := ⟨0xd1⟩
def fastSgetfield : Opcode := ⟨0xd2⟩
def fastAputfield : Opcode := ⟨0xd3⟩
def fastBputfield : Opcode := ⟨0xd4⟩
def fastCputfield : Opcode := ⟨0xd5⟩
def fastDputfield : Opcode := ⟨0xd6⟩
def fastFputfield : Opcode := ⟨0xd7⟩
def fastIputfield : Opcode := ⟨0xd8⟩
def fastLputfield : Opcode := ⟨0xd9⟩
def fastSputfield : Opcode := ⟨0xda⟩
def fastAload0 : Opcode := ⟨0xdb⟩
def fastLinearswitch : Opcode := ⟨0xe3⟩
def fastBinaryswitch : Opcode := ⟨0xe4⟩
def fastAldc : Opcode := ⟨0xe5⟩
def fastAldcW : Opcode := ⟨0xe6⟩

end Opcode

end MethodCode
