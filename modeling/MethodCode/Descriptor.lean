import MethodCode.ValueType

/-! Descriptors: the types of fields and methods. A primitive is one letter, an object type its class
name between `L` and a semicolon, an array type a bracket before its element type; a method descriptor
lists its parameter types in parentheses before its result. -/

namespace MethodCode

/-- The types that are no references. -/
inductive Primitive where
  | boolean
  | char
  | float
  | double
  | byte
  | short
  | int
  | long
  deriving DecidableEq

namespace Primitive

/-- The letter of a primitive type. -/
def letter : Primitive → Char
  | boolean => 'Z'
  | char => 'C'
  | float => 'F'
  | double => 'D'
  | byte => 'B'
  | short => 'S'
  | int => 'I'
  | long => 'J'

/-- The primitive type with a given letter. -/
def ofLetter? : Char → Option Primitive
  | 'Z' => some boolean
  | 'C' => some char
  | 'F' => some float
  | 'D' => some double
  | 'B' => some byte
  | 'S' => some short
  | 'I' => some int
  | 'J' => some long
  | _ => none

/-- The category of a primitive type's values. -/
def valueType : Primitive → ValueType
  | boolean => .boolean
  | char => .char
  | float => .float
  | double => .double
  | byte => .byte
  | short => .short
  | int => .int
  | long => .long

end Primitive

/-- A class name as a descriptor can hold it: not empty, and without the semicolon that ends it. -/
structure ClassName where
  chars : List Char
  nonempty : chars ≠ []
  noSemicolon : ';' ∉ chars
  deriving DecidableEq

/-- The type of a field or parameter. -/
inductive FieldType where
  | primitive (p : Primitive)
  | object (name : ClassName)
  | array (element : FieldType)
  deriving DecidableEq

namespace FieldType

/-- The descriptor of a field type. -/
def text : FieldType → List Char
  | primitive p => [p.letter]
  | object name => 'L' :: (name.chars ++ [';'])
  | array element => '[' :: element.text

/-- The category of a field type's values. -/
def valueType : FieldType → ValueType
  | primitive p => p.valueType
  | object _ => .object
  | array _ => .array

/-- The stack slots that a value of the type takes. -/
def slots (t : FieldType) : Nat := t.valueType.slots

end FieldType

/-- The type of a method; no result type stands for `void`. -/
structure MethodType where
  parameters : List FieldType
  result : Option FieldType
  deriving DecidableEq

namespace MethodType

/-- The descriptor of a result type. -/
def resultText : Option FieldType → List Char
  | none => ['V']
  | some t => t.text

/-- The descriptor of a method type. -/
def text (m : MethodType) : List Char :=
  '(' :: (m.parameters.flatMap FieldType.text ++ ')' :: resultText m.result)

/-- The category of a method's result. -/
def resultType (m : MethodType) : ValueType :=
  match m.result with
  | none => .void
  | some t => t.valueType

/-- The stack slots that a method's parameters take, the receiver left out. -/
def parameterSlots (m : MethodType) : Nat :=
  m.parameters.foldl (fun slots t => slots + t.slots) 0

end MethodType

end MethodCode
