import MethodCode.Opcode
import MethodCode.ValueType

/-! Definitions of opcodes: what a format table is made of. -/

namespace MethodCode

/-- What is said of one opcode. -/
structure OpcodeDefinition where
  code : Opcode
  name : String
  /-- The layout; empty for an instruction of no fixed length. -/
  format : String
  /-- The layout after a wide prefix, prefix included, for opcodes that have one. -/
  wideFormat : Option String := none
  /-- The category of the value the instruction leaves on the stack. -/
  result : ValueType
  canTrap : Bool := false
  /-- The standard code that the opcode stands for. -/
  canonical : Opcode := code
  canRewrite : Bool := false

namespace OpcodeDefinition

/-- An opcode that stands for itself, cannot trap and has no other form. -/
def plain (code : UInt8) (name format : String) (result : ValueType) : OpcodeDefinition :=
  { code := ⟨code⟩, name, format, result }

/-- The same opcode with a layout after the wide prefix. -/
def widened (d : OpcodeDefinition) (format : String) : OpcodeDefinition :=
  { d with wideFormat := some format }

/-- The same opcode, able to trap. -/
def trapping (d : OpcodeDefinition) : OpcodeDefinition :=
  { d with canTrap := true }

/-- The same opcode, with another form to be rewritten to. -/
def rewritable (d : OpcodeDefinition) : OpcodeDefinition :=
  { d with canRewrite := true }

/-- The same opcode as a form of a standard one. -/
def formOf (d : OpcodeDefinition) (canonical : Opcode) : OpcodeDefinition :=
  { d with canonical }

end OpcodeDefinition

end MethodCode
