import MethodCode.Fault
import MethodCode.Text.Hex

/-! Code: the instruction bytes of a method. Operands that come from the class file are in java order,
most significant byte first; operands that linking has written are in native order, least significant
byte first. Nothing can be read or written past the end. -/

namespace MethodCode

/-- The order of the bytes of an operand. -/
inductive ByteOrder where
  /-- Most significant byte first. -/
  | java
  /-- Least significant byte first. -/
  | native
  deriving DecidableEq

namespace ByteOrder

/-- The number that two bytes make. -/
def join16 (order : ByteOrder) (a b : UInt8) : UInt16 :=
  match order with
  | java => .ofNat (a.toNat * 256 + b.toNat)
  | native => .ofNat (b.toNat * 256 + a.toNat)

/-- The number that four bytes make. -/
def join32 (order : ByteOrder) (a b c d : UInt8) : UInt32 :=
  match order with
  | java => .ofNat (((a.toNat * 256 + b.toNat) * 256 + c.toNat) * 256 + d.toNat)
  | native => .ofNat (((d.toNat * 256 + c.toNat) * 256 + b.toNat) * 256 + a.toNat)

/-- The two bytes of a number. -/
def split16 (order : ByteOrder) (n : UInt16) : List UInt8 :=
  let bytes := [.ofNat (n.toNat / 256), .ofNat n.toNat]
  match order with
  | java => bytes
  | native => bytes.reverse

/-- The four bytes of a number. -/
def split32 (order : ByteOrder) (n : UInt32) : List UInt8 :=
  let bytes := [.ofNat (n.toNat / 0x1000000), .ofNat (n.toNat / 0x10000), .ofNat (n.toNat / 256),
    .ofNat n.toNat]
  match order with
  | java => bytes
  | native => bytes.reverse

end ByteOrder

/-- The instruction bytes of a method. -/
structure Code where
  bytes : Array UInt8
  deriving DecidableEq

namespace Code

/-- Code of no instructions. -/
def empty : Code := ⟨#[]⟩

/-- The code of the given bytes. -/
def ofList (bytes : List UInt8) : Code := ⟨bytes.toArray⟩

/-- The number of bytes. -/
def size (c : Code) : Nat := c.bytes.size

/-- The byte at a position. -/
def byteAt (c : Code) (pos : Nat) : Except Fault UInt8 :=
  match c.bytes[pos]? with
  | some b => .ok b
  | none => .error .outOfBounds

/-- The opcode at a position. -/
def opcodeAt (c : Code) (pos : Nat) : Except Fault Opcode :=
  return ⟨← c.byteAt pos⟩

/-- The two-byte number at a position. -/
def u16At (c : Code) (order : ByteOrder) (pos : Nat) : Except Fault UInt16 :=
  return order.join16 (← c.byteAt pos) (← c.byteAt (pos + 1))

/-- The four-byte number at a position. -/
def u32At (c : Code) (order : ByteOrder) (pos : Nat) : Except Fault UInt32 :=
  return order.join32 (← c.byteAt pos) (← c.byteAt (pos + 1)) (← c.byteAt (pos + 2))
    (← c.byteAt (pos + 3))

/-- The code with another byte at a position. -/
def setByte (c : Code) (pos : Nat) (b : UInt8) : Except Fault Code :=
  if h : pos < c.bytes.size then .ok ⟨c.bytes.set pos b⟩ else .error .outOfBounds

/-- The code with other bytes from a position on. -/
def setBytes (c : Code) (pos : Nat) : List UInt8 → Except Fault Code
  | [] => .ok c
  | b :: bs => do setBytes (← c.setByte pos b) (pos + 1) bs

/-- The code with another opcode at a position. -/
def setOpcode (c : Code) (pos : Nat) (op : Opcode) : Except Fault Code :=
  c.setByte pos op.byte

/-- The bytes of code in hexadecimal. -/
def hex (c : Code) : String :=
  Hex.bytes "" c.bytes.toList

/-- Code as messages describe it. -/
def describe (c : Code) : String :=
  "CodeBuffer(" ++ Hex.bytes " " c.bytes.toList ++ ")"

end Code

end MethodCode
