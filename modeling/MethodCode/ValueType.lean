/-! Value categories: how the operand stack of an interpreter tells values apart. A descriptor
character names a category, and the category fixes how many stack slots a value takes. -/

namespace MethodCode

/-- The category of a value on the operand stack. -/
inductive ValueType where
  | boolean
  | char
  | float
  | double
  | byte
  | short
  | int
  | long
  | object
  | array
  | void
  /-- No category applies, as for the result of a reference that is not resolved yet. -/
  | illegal
  deriving DecidableEq

namespace ValueType

/-- Every category, in the order of declaration. -/
def all : List ValueType :=
  [boolean, char, float, double, byte, short, int, long, object, array, void, illegal]

/-- The category a descriptor character stands for, `L` and `[` included. -/
def ofDescriptorChar? : Char → Option ValueType
  | 'Z' => some boolean
  | 'C' => some char
  | 'F' => some float
  | 'D' => some double
  | 'B' => some byte
  | 'S' => some short
  | 'I' => some int
  | 'J' => some long
  | 'L' => some object
  | '[' => some array
  | 'V' => some void
  | _ => none

/-- Objects and arrays are reached through a reference. -/
def isReference : ValueType → Bool
  | object | array => true
  | _ => false

/-- The number of operand stack slots a value of the category takes. -/
def slots : ValueType → Nat
  | long | double => 2
  | void | illegal => 0
  | _ => 1

/-- The category as the source language spells it. -/
def text : ValueType → String
  | boolean => "boolean"
  | char => "char"
  | float => "float"
  | double => "double"
  | byte => "byte"
  | short => "short"
  | int => "int"
  | long => "long"
  | object => "object"
  | array => "array"
  | void => "void"
  | illegal => "illegal"

/-- The category's name in messages and listings. -/
def label : ValueType → String
  | boolean => "Boolean"
  | char => "Char"
  | float => "Float"
  | double => "Double"
  | byte => "Byte"
  | short => "Short"
  | int => "Int"
  | long => "Long"
  | object => "Object"
  | array => "Array"
  | void => "Void"
  | illegal => "Illegal"

/-- The category with a given label. -/
def ofLabel? (label : String) : Option ValueType :=
  all.find? (·.label == label)

end ValueType

end MethodCode
