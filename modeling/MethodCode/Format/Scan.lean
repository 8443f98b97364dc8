import MethodCode.Error
import MethodCode.Format.Flags

/-! Formats spell an instruction's layout, one letter for every byte: `b` the opcode, `w` the wide
prefix, `c` a signed constant, `i` a local variable, `k` a pool index, `j` a cache index, `o` a branch
offset, and an underscore a byte of no use. An upper-case letter stands for native byte order, and a run
of one letter is one field. The flags of a layout are read off its format. -/

namespace MethodCode.Format

/-- The bytes of a format. -/
def bytes (format : String) : List UInt8 :=
  format.toUTF8.data.toList

/-- The flag of the field that a letter spells, in either case. -/
def fieldFlag? (letter : UInt8) : Option Flag :=
  match Char.ofNat letter.toNat with
  | 'j' | 'J' => some .hasCacheIndex
  | 'k' | 'K' => some .hasPoolIndex
  | 'i' | 'I' => some .hasLocal
  | 'c' | 'C' => some .hasConstant
  | 'o' | 'O' => some .hasOffset
  | _ => none

/-- Upper-case letters stand for native byte order. -/
def isUpper (letter : UInt8) : Bool :=
  'A'.toUInt8 ≤ letter && letter ≤ 'Z'.toUInt8

/-- What has been seen of a format. -/
structure Scan where
  flags : FormatFlags
  /-- A field in native order has been seen. -/
  native : Bool
  /-- A field in java order has been seen. -/
  java : Bool
  /-- The size of the field before, zero before the first one. -/
  size : Nat
  deriving DecidableEq

/-- The scan after one more field of the given letter and size. Byte orders do not mix, fields have one,
two or four bytes, and only a field that ends the format may be shorter than the one before it. -/
def Scan.field (scan : Scan) (format : String) (letter : UInt8) (size : Nat) (last : Bool) :
    Except Error Scan :=
  match fieldFlag? letter with
  | none => failWith (.badFormatLetter letter format)
  | some flag =>
    let native := scan.native || isUpper letter
    let java := scan.java || !isUpper letter
    if native && java then failWith (.mixedByteOrders format)
    else if size ≠ 1 ∧ size ≠ 2 ∧ size ≠ 4 then failWith (.badFieldSize size format)
    else if scan.size ≠ 0 ∧ size ≠ scan.size ∧ ¬(size < scan.size ∧ last) then
      failWith (.mixedFieldSizes format)
    else
      let flags := scan.flags.insert flag
      let flags := if native then flags.insert .hasNative else flags
      let flags := if size = 2 then flags.insert .hasU2 else flags
      let flags := if size = 4 then flags.insert .hasU4 else flags
      .ok ⟨flags, native, java, size⟩

/-- The flags after the rest of a format. -/
def Scan.run (scan : Scan) (format : String) : List UInt8 → Except Error FormatFlags
  | [] => .ok scan.flags
  | letter :: rest =>
    if letter = '_'.toUInt8 then run scan format rest
    else
      have : (rest.dropWhile (· = letter)).length ≤ rest.length := (List.dropWhile_suffix _).length_le
      let size := 1 + (rest.takeWhile (· = letter)).length
      match scan.field format letter size (rest.dropWhile (· = letter)).isEmpty with
      | .error e => .error e
      | .ok next => run next format (rest.dropWhile (· = letter))
termination_by bs => bs.length

/-- The flags of a format, together with those given. An empty format belongs to instructions of
variable length, which are never simple. -/
def flags (format : String) (more : FormatFlags) : Except Error FormatFlags :=
  match bytes format with
  | [] => .ok (more.insert .notSimple)
  | first :: rest =>
    let start (set : FormatFlags) : Scan := ⟨set.insert .notVariable, false, false, 0⟩
    if first = 'b'.toUInt8 then (start more).run format rest
    else if first = 'w'.toUInt8 then
      match rest with
      | [] => failWith (.wideFormatStart format)
      | second :: rest =>
        if second = 'b'.toUInt8 then (start (more.insert .notSimple)).run format rest
        else failWith (.wideFormatStart format)
    else failWith (.formatStart format)

end MethodCode.Format
