import MethodCode.Descriptor.Parser
import MethodCode.Error

/-! What an interpreter needs of a descriptor: the category of the value it produces, and the stack
slots its parameters take. -/

namespace MethodCode.Descriptor

/-- The category of the value that a member with the given descriptor produces: a method's result or a
field's value. A text that starts with a parenthesis can only describe a method. -/
def resultType (descriptor : String) : Except Error ValueType :=
  let cs := descriptor.toList
  let type := if cs.head? = some '(' then (MethodType.parse? cs).map MethodType.resultType
    else (FieldType.parse? cs).map FieldType.valueType
  match type with
  | some t => .ok t
  | none => failWith (.malformedDescriptor descriptor)

/-- The stack slots that the parameters of a method descriptor take, the receiver left out. -/
def parameterSlots (descriptor : String) : Except Error Nat :=
  match MethodType.parse? descriptor.toList with
  | some m => .ok m.parameterSlots
  | none => failWith (.malformedMethodDescriptor descriptor)

end MethodCode.Descriptor
