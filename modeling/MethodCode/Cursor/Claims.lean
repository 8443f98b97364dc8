import MethodCode.Cursor

/-! What callers claim about an instruction when they read its operands, and the tests of these claims.
They hold whenever caller and format table agree, so a verified instruction never fails one. -/

namespace MethodCode.Cursor

/-- The instruction has the same layout as `claimed`, with a wide prefix if `wide`. A breakpoint hides
the layout, so any claim about one stands. -/
def claimFormat (c : Cursor) (claimed : Opcode) (wide : Bool) : Except Fault Unit :=
  c.mode.check do
    let raw ← c.rawOpcode
    if raw = .breakpoint then return
    if wide then ensure (raw = .wide) (.notWide c.bci)
    let actual ← if wide then c.wideOpcode else pure raw
    if actual = .breakpoint then return
    let claimedFlags := (← c.formats.flags claimed wide) &&& FormatFlags.layout
    let actualFlags := (← c.formats.flags actual wide) &&& FormatFlags.layout
    if actualFlags ≠ claimedFlags then
      throw (.violation (.formatMismatch (← c.formats.name claimed) wide c.bci
        (← c.formats.name actual) claimedFlags actualFlags))

/-- A set of flags with `notSimple`, as wide instructions have it. -/
def widened (flags : FormatFlags) (wide : Bool) : FormatFlags :=
  if wide then flags.insert .notSimple else flags

/-- The index of `op` takes `size` bytes. A branch offset is no index. -/
def claimIndexSize (c : Cursor) (size : Nat) (op : Opcode) (wide : Bool) : Except Fault Unit :=
  c.mode.check do
    let found := (← c.formats.flags op wide) &&& .of [.hasU2, .hasU4, .notSimple, .hasOffset]
    let need ← match size with
      | 1 => pure (.of [])
      | 2 => pure (.of [.hasU2])
      | 4 => pure (.of [.hasU4])
      | _ => throw (.violation (.badIndexSize size))
    ensure (found = widened need wide)
      (.indexMismatch size (← c.formats.name op) wide found (widened need wide))

/-- The branch offset of `op` takes `size` bytes. -/
def claimOffsetSize (c : Cursor) (size : Nat) (op : Opcode) (wide : Bool) : Except Fault Unit :=
  c.mode.check do
    let found := (← c.formats.flags op wide) &&& FormatFlags.layout
    let need ← match size with
      | 2 => pure FormatFlags.shortOffset
      | 4 => pure FormatFlags.longOffset
      | _ => throw (.violation (.badOffsetSize size))
    ensure (found = widened need wide)
      (.offsetMismatch size (← c.formats.name op) wide found (widened need wide))

/-- The signed constant of `op` takes `size` bytes at `offset` and ends the instruction. A local index
beside it does not matter. -/
def claimConstantSize (c : Cursor) (size offset : Nat) (op : Opcode) (wide : Bool) :
    Except Fault Unit :=
  c.mode.check do
    let found := (← c.formats.flags op wide) &&& (FormatFlags.layout &&& ~~~(.of [.hasLocal]))
    let need ← match size with
      | 1 => pure FormatFlags.byteConstant
      | 2 => pure (FormatFlags.byteConstant.insert .hasU2)
      | _ => throw (.violation (.badConstantSize size))
    let length ← c.formats.length op wide
    let name ← c.formats.name op
    ensure (found = widened need wide)
      (.constantMismatch size offset name wide found (widened need wide))
    ensure (length = some (offset + size)) (.constantOverrun offset name)

/-- The index of `op` is in native order. -/
def claimNativeIndex (c : Cursor) (op : Opcode) (wide : Bool) : Except Fault Unit :=
  c.mode.check do
    ensure (← c.formats.isNative op wide) (.noNativeIndex (← c.formats.name op))

/-- The four-byte index of `op` is in native order. -/
def claimNativeWideIndex (c : Cursor) (op : Opcode) : Except Fault Unit :=
  c.mode.check do
    ensure (← c.formats.isNative op false) (.wideIndexNotNative (← c.formats.name op))

end MethodCode.Cursor
