import MethodCode.ByteMap
import MethodCode.Fault
import MethodCode.Format.Scan
import MethodCode.Opcode.Definition

/-! Format tables: what is known of every opcode, looked up by its byte. A table is made from
definitions once and never changes. An opcode that no definition names has no entry, and to ask about it
breaks a contract. -/

namespace MethodCode

/-- The groups of opcodes that are decoded alike. -/
inductive Family where
  | loadConstant
  | fieldAccess
  | invoke
  | dynamicInvoke
  | typeReference
  | tableSwitch
  | lookupSwitch
  | branch
  | other
  deriving DecidableEq

namespace Family

/-- The family's name in listings. -/
def label : Family → String
  | loadConstant => "LoadConstant"
  | fieldAccess => "FieldAccess"
  | invoke => "Invoke"
  | dynamicInvoke => "DynamicInvoke"
  | typeReference => "TypeReference"
  | tableSwitch => "TableSwitch"
  | lookupSwitch => "LookupSwitch"
  | branch => "Branch"
  | other => "Other"

/-- The family of a standard code. -/
def ofCanonical (op : Opcode) : Family :=
  let b := op.byte
  if 0x12 ≤ b ∧ b ≤ 0x14 then loadConstant
  else if 0x99 ≤ b ∧ b ≤ 0xa8 then branch
  else if b = 0xaa then tableSwitch
  else if b = 0xab then lookupSwitch
  else if 0xb2 ≤ b ∧ b ≤ 0xb5 then fieldAccess
  else if 0xb6 ≤ b ∧ b ≤ 0xb9 then invoke
  else if b = 0xba then dynamicInvoke
  else if b = 0xbb ∨ b = 0xbd ∨ b = 0xc0 ∨ b = 0xc1 ∨ b = 0xc5 then typeReference
  else if 0xc6 ≤ b ∧ b ≤ 0xc9 then branch
  else other

end Family

/-- What a table knows of one opcode. -/
structure FormatEntry where
  name : String
  flags : FormatFlags
  wideFlags : FormatFlags
  /-- The length in bytes, unless it varies. -/
  length : Option Nat
  /-- The length with a wide prefix, for opcodes that take one. -/
  wideLength : Option Nat
  result : ValueType
  canonical : Opcode
  deriving DecidableEq

/-- The entry that a definition describes. -/
def FormatEntry.ofDefinition (d : OpcodeDefinition) : Except Error FormatEntry := do
  let more := FormatFlags.of
    ((if d.canTrap then [Flag.canTrap] else []) ++ if d.canRewrite then [Flag.canRewrite] else [])
  let flags ← inContext (.opcode d.name) (Format.flags d.format more)
  let wideFlags ← match d.wideFormat with
    | some wide => inContext (.wideOpcode d.name) (Format.flags wide more)
    | none => .ok 0
  return {
    name := d.name
    flags
    wideFlags
    length := if d.format.isEmpty then none else some d.format.utf8ByteSize
    wideLength := d.wideFormat.map String.utf8ByteSize
    result := d.result
    canonical := d.canonical }

/-- What is known of every opcode, by its byte. -/
structure FormatTable where
  entries : ByteMap FormatEntry

namespace FormatTable

/-- The table in which no opcode is defined. -/
def empty : FormatTable := ⟨.empty⟩

/-- The entry of an opcode, if it is defined. -/
def entry? (t : FormatTable) (op : Opcode) : Option FormatEntry :=
  t.entries.get? op.byte

/-- The table with one more opcode defined; no opcode is defined twice. -/
def define (t : FormatTable) (d : OpcodeDefinition) : Except Error FormatTable := do
  let entry ← FormatEntry.ofDefinition d
  match t.entry? d.code with
  | some _ => failWith (.duplicateOpcode d.code)
  | none => .ok ⟨t.entries.insert d.code.byte entry⟩

/-- The table with more opcodes defined, in the order given. -/
def defineAll (t : FormatTable) : List OpcodeDefinition → Except Error FormatTable
  | [] => .ok t
  | d :: ds => do (← t.define d).defineAll ds

/-- The table that definitions make. -/
def ofDefinitions (ds : List OpcodeDefinition) : Except Error FormatTable :=
  empty.defineAll ds

/-- Whether an opcode is defined. -/
def isDefined (t : FormatTable) (op : Opcode) : Bool :=
  (t.entry? op).isSome

/-- The defined opcodes in ascending order. -/
def opcodes (t : FormatTable) : List Opcode :=
  Opcode.all.filter t.isDefined

/-- The entry of an opcode that must be defined. -/
def entry (t : FormatTable) (op : Opcode) : Except Fault FormatEntry :=
  match t.entry? op with
  | some e => .ok e
  | none => .error (.violation (.invalidOpcode op))

/-- The name of an opcode. -/
def name (t : FormatTable) (op : Opcode) : Except Fault String :=
  return (← t.entry op).name

/-- The length of an instruction, with a wide prefix if `wide`: none if it varies, or if the opcode takes
no prefix. -/
def length (t : FormatTable) (op : Opcode) (wide : Bool) : Except Fault (Option Nat) := do
  let e ← t.entry op
  return if wide then e.wideLength else e.length

/-- The properties of an instruction, with a wide prefix if `wide`. -/
def flags (t : FormatTable) (op : Opcode) (wide : Bool) : Except Fault FormatFlags := do
  let e ← t.entry op
  return if wide then e.wideFlags else e.flags

/-- Whether an instruction has every property of a set. -/
def hasAllFlags (t : FormatTable) (op : Opcode) (test : FormatFlags) (wide : Bool) : Except Fault Bool :=
  return (← t.flags op wide).contains test

/-- Whether an opcode has another form to be rewritten to. -/
def canRewrite (t : FormatTable) (op : Opcode) : Except Fault Bool :=
  t.hasAllFlags op (.of [.canRewrite]) false

/-- Whether an opcode can trap or block. -/
def canTrap (t : FormatTable) (op : Opcode) : Except Fault Bool :=
  t.hasAllFlags op (.of [.canTrap]) false

/-- Whether an instruction has fields in native byte order. -/
def isNative (t : FormatTable) (op : Opcode) (wide : Bool) : Except Fault Bool :=
  t.hasAllFlags op (.of [.hasNative]) wide

/-- The standard code that an opcode stands for. -/
def canonical (t : FormatTable) (op : Opcode) : Except Fault Opcode :=
  return (← t.entry op).canonical

/-- The category of the value that an opcode leaves on the stack. -/
def result (t : FormatTable) (op : Opcode) : Except Fault ValueType :=
  return (← t.entry op).result

/-- The family of the standard code that an opcode stands for. -/
def family (t : FormatTable) (op : Opcode) : Except Fault Family :=
  return .ofCanonical (← t.canonical op)

/-- Whether an opcode carries a cache index of four bytes in native order. -/
def hasWideIndex (t : FormatTable) (op : Opcode) : Except Fault Bool :=
  t.hasAllFlags op (.of [.hasCacheIndex, .hasU4, .hasNative]) false

/-- Whether an interpreter rewrites an opcode as soon as it meets it. It may hold back `aload_0` until a
following `getfield` has been rewritten, it leaves `lookupswitch` to linking, and `new` depends on the
state of a class. -/
def mustRewrite (t : FormatTable) (op : Opcode) : Except Fault Bool :=
  return (← t.canRewrite op) && op ≠ .aload0 && op ≠ .lookupswitch && op ≠ .new

end FormatTable

end MethodCode
