/-! Layout properties of an instruction. The two lowest flags describe its behaviour; all the others
follow from its format alone. -/

namespace MethodCode

/-- A property of an instruction's behaviour or layout. -/
inductive Flag where
  /-- Execution can trap or block. -/
  | canTrap
  /-- The opcode has another, rewritten form. -/
  | canRewrite
  /-- A signed constant, as in `sipush`. -/
  | hasConstant
  /-- An index into the resolution cache, as in `getfield`. -/
  | hasCacheIndex
  /-- An index into the constant pool, as in `ldc`. -/
  | hasPoolIndex
  /-- The index of a local variable, as in `iload`. -/
  | hasLocal
  /-- A branch offset, as in `ifeq`. -/
  | hasOffset
  /-- Fields in native byte order. -/
  | hasNative
  /-- A field of two bytes. -/
  | hasU2
  /-- A field of four bytes. -/
  | hasU4
  /-- The length is fixed, with or without a wide prefix. -/
  | notVariable
  /-- The instruction is wide or of variable length. -/
  | notSimple
  deriving DecidableEq

namespace Flag

/-- Every flag, from the lowest bit to the highest. -/
def all : List Flag :=
  [canTrap, canRewrite, hasConstant, hasCacheIndex, hasPoolIndex, hasLocal, hasOffset, hasNative, hasU2,
    hasU4, notVariable, notSimple]

/-- The position of a flag's bit. -/
def position : Flag → Nat
  | canTrap => 0
  | canRewrite => 1
  | hasConstant => 2
  | hasCacheIndex => 3
  | hasPoolIndex => 4
  | hasLocal => 5
  | hasOffset => 6
  | hasNative => 7
  | hasU2 => 8
  | hasU4 => 9
  | notVariable => 10
  | notSimple => 11

/-- The flag's name in messages and listings. -/
def label : Flag → String
  | canTrap => "CAN_TRAP"
  | canRewrite => "CAN_REWRITE"
  | hasConstant => "HAS_C"
  | hasCacheIndex => "HAS_J"
  | hasPoolIndex => "HAS_K"
  | hasLocal => "HAS_I"
  | hasOffset => "HAS_O"
  | hasNative => "HAS_NBO"
  | hasU2 => "HAS_U2"
  | hasU4 => "HAS_U4"
  | notVariable => "NOT_VARIABLE"
  | notSimple => "NOT_SIMPLE"

end Flag

/-- A set of flags, one bit each. -/
abbrev FormatFlags := BitVec 12

namespace FormatFlags

/-- The set of the flags listed. -/
def of (flags : List Flag) : FormatFlags :=
  flags.foldl (fun set flag => set ||| BitVec.twoPow 12 flag.position) 0

/-- Whether a flag is in a set. -/
def has (set : FormatFlags) (flag : Flag) : Bool :=
  set.getLsbD flag.position

/-- A set together with one more flag. -/
def insert (set : FormatFlags) (flag : Flag) : FormatFlags :=
  set ||| BitVec.twoPow 12 flag.position

/-- Whether every flag of `test` is in a set. -/
def contains (set test : FormatFlags) : Bool :=
  set &&& test == test

/-- The flags that a format determines. -/
def layout : FormatFlags :=
  .of [.hasConstant, .hasCacheIndex, .hasPoolIndex, .hasLocal, .hasOffset, .hasNative, .hasU2, .hasU4,
    .notVariable, .notSimple]

/-- The layout of a signed byte constant alone. -/
def byteConstant : FormatFlags := .of [.notVariable, .hasConstant]

/-- The layout of a two-byte branch offset alone. -/
def shortOffset : FormatFlags := .of [.notVariable, .hasOffset, .hasU2]

/-- The layout of a four-byte branch offset alone. -/
def longOffset : FormatFlags := .of [.notVariable, .hasOffset, .hasU4]

/-- The names of the flags in a set. -/
def text (set : FormatFlags) : String :=
  match Flag.all.filter (has set) with
  | [] => "FormatFlags(0x0)"
  | flags => "FormatFlags(" ++ " | ".intercalate (flags.map Flag.label) ++ ")"

end FormatFlags

end MethodCode
