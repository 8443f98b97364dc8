import MethodCode.ValueType

/-! Tags of constant pool entries, numbered as in the class file format. -/

namespace MethodCode

/-- What kind of entry a constant pool slot holds. -/
inductive ConstantTag where
  /-- Slot zero, and the unusable slot after a long or a double. -/
  | invalid
  | utf8
  | integer
  | float
  | long
  | double
  | classRef
  | string
  | fieldRef
  | methodRef
  | interfaceMethodRef
  | nameAndType
  | methodHandle
  | methodType
  | invokeDynamic
  deriving DecidableEq

namespace ConstantTag

/-- Every tag, in the order of declaration. -/
def all : List ConstantTag :=
  [invalid, utf8, integer, float, long, double, classRef, string, fieldRef, methodRef,
    interfaceMethodRef, nameAndType, methodHandle, methodType, invokeDynamic]

/-- The tag's number in a class file. -/
def value : ConstantTag → UInt8
  | invalid => 0
  | utf8 => 1
  | integer => 3
  | float => 4
  | long => 5
  | double => 6
  | classRef => 7
  | string => 8
  | fieldRef => 9
  | methodRef => 10
  | interfaceMethodRef => 11
  | nameAndType => 12
  | methodHandle => 15
  | methodType => 16
  | invokeDynamic => 18

/-- The category of the value that loading such a constant pushes; `illegal` when it cannot be
loaded. -/
def valueType : ConstantTag → ValueType
  | integer => .int
  | float => .float
  | long => .long
  | double => .double
  | string | classRef | methodHandle | methodType => .object
  | _ => .illegal

/-- Method handles and method types are materialized through the resolution cache only. -/
def isExecutableReference : ConstantTag → Bool
  | methodHandle | methodType => true
  | _ => false

/-- The tag's name in messages and listings. -/
def label : ConstantTag → String
  | invalid => "Invalid"
  | utf8 => "Utf8"
  | integer => "Integer"
  | float => "Float"
  | long => "Long"
  | double => "Double"
  | classRef => "Class"
  | string => "String"
  | fieldRef => "FieldRef"
  | methodRef => "MethodRef"
  | interfaceMethodRef => "InterfaceMethodRef"
  | nameAndType => "NameAndType"
  | methodHandle => "MethodHandle"
  | methodType => "MethodType"
  | invokeDynamic => "InvokeDynamic"

/-- The tag with a given label. -/
def ofLabel? (label : String) : Option ConstantTag :=
  all.find? (·.label == label)

end ConstantTag

end MethodCode
