import MethodCode.Error

/-! Constant pools: the numbered entries that the instructions of a class refer to. A name or a
descriptor is an entry of its own, and a reference names it by index. Slot zero and the slot after a long
or a double hold nothing. -/

namespace MethodCode

/-- An entry of a constant pool. -/
inductive PoolEntry where
  | invalid
  | utf8 (text : Symbol)
  | integer (value : Int32)
  | float (bits : UInt32)
  | long (value : Int64)
  | double (bits : UInt64)
  | classRef (name : UInt16)
  | string (text : UInt16)
  | fieldRef (holder nameAndType : UInt16)
  | methodRef (holder nameAndType : UInt16)
  | interfaceMethodRef (holder nameAndType : UInt16)
  | nameAndType (name descriptor : UInt16)
  | methodHandle (kind : UInt8) (reference : UInt16)
  | methodType (descriptor : UInt16)
  | invokeDynamic (bootstrap nameAndType : UInt16)
  deriving DecidableEq

/-- The tag of an entry. -/
def PoolEntry.tag : PoolEntry → ConstantTag
  | invalid => .invalid
  | utf8 _ => .utf8
  | integer _ => .integer
  | float _ => .float
  | long _ => .long
  | double _ => .double
  | classRef _ => .classRef
  | string _ => .string
  | fieldRef _ _ => .fieldRef
  | methodRef _ _ => .methodRef
  | interfaceMethodRef _ _ => .interfaceMethodRef
  | nameAndType _ _ => .nameAndType
  | methodHandle _ _ => .methodHandle
  | methodType _ => .methodType
  | invokeDynamic _ _ => .invokeDynamic

/-- A constant pool. -/
structure Pool where
  entries : Array PoolEntry
  deriving DecidableEq

namespace Pool

/-- The number of slots, slot zero included. -/
def size (p : Pool) : Nat := p.entries.size

/-- The entry at an index. -/
def entryAt (p : Pool) (index : UInt16) : Except Error PoolEntry :=
  match p.entries[index.toNat]? with
  | none | some .invalid => failWith (.noEntry index)
  | some e => .ok e

/-- The tag at an index. -/
def tagAt (p : Pool) (index : UInt16) : Except Error ConstantTag :=
  return (← p.entryAt index).tag

/-- The text at an index. -/
def utf8At (p : Pool) (index : UInt16) : Except Error Symbol := do
  match ← p.entryAt index with
  | .utf8 s => return s
  | other => failWith (.notUtf8 index other.tag)

/-- The indices of the name and the descriptor of the member reference at an index. -/
def nameAndTypeOf (p : Pool) (index : UInt16) : Except Error (UInt16 × UInt16) := do
  let pair ← match ← p.entryAt index with
    | .fieldRef _ nt | .methodRef _ nt | .interfaceMethodRef _ nt | .invokeDynamic _ nt => pure nt
    | other => failWith (.notMember index other.tag)
  match ← p.entryAt pair with
  | .nameAndType name descriptor => return (name, descriptor)
  | other => failWith (.notNameAndType pair other.tag)

/-- The name of the member referred to at an index. -/
def memberNameAt (p : Pool) (index : UInt16) : Except Error Symbol := do
  p.utf8At (← p.nameAndTypeOf index).1

/-- The signature of the member referred to at an index. -/
def memberSignatureAt (p : Pool) (index : UInt16) : Except Error Symbol := do
  p.utf8At (← p.nameAndTypeOf index).2

/-- The name of the class at an index. -/
def classNameAt (p : Pool) (index : UInt16) : Except Error Symbol := do
  match ← p.entryAt index with
  | .classRef name => p.utf8At name
  | other => failWith (.notClass index other.tag)

/-- The name of the class that the member referred to at an index is declared in. A dynamic call site has
none. -/
def holderNameAt (p : Pool) (index : UInt16) : Except Error Symbol := do
  match ← p.entryAt index with
  | .fieldRef holder _ | .methodRef holder _ | .interfaceMethodRef holder _ => p.classNameAt holder
  | other => failWith (.noHolder other.tag index)

end Pool

end MethodCode
