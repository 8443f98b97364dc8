import MethodCode.Error
import MethodCode.Format.Flags

/-! Broken contracts. A caller that claims something about an instruction which the format table
contradicts, or that meets a byte which is no opcode, has no answer to get: the call ends in a
violation, not in an error. -/

namespace MethodCode

/-- A contract that a call broke. -/
inductive Violation where
  | invalidOpcode (op : Opcode)
  | noWideForm (name : String) (bci : Nat)
  | notWide (bci : Nat)
  | formatMismatch (claimed : String) (wide : Bool) (bci : Nat) (found : String)
      (claimedFlags foundFlags : FormatFlags)
  | badIndexSize (size : Nat)
  | badOffsetSize (size : Nat)
  | badConstantSize (size : Nat)
  | indexMismatch (size : Nat) (name : String) (wide : Bool) (found need : FormatFlags)
  | offsetMismatch (size : Nat) (name : String) (wide : Bool) (found need : FormatFlags)
  | constantMismatch (size offset : Nat) (name : String) (wide : Bool) (found need : FormatFlags)
  | constantOverrun (offset : Nat) (name : String)
  | noNativeIndex (name : String)
  | wideIndexNotNative (name : String)
  | pairOutOfBounds (index : Nat)
  | notTableSwitch (bci : Nat)
  | notLookupSwitch (bci : Nat)
  | notTypeRef (bci : Nat)
  | notMemberRef (bci : Nat)
  | notLoadConstant (bci : Nat)
  | wideLoadConstant (bci : Nat)
  | switchBounds (bci : Nat) (high low : Int32)
  | keysOutOfOrder (bci : Nat) (key next : Int32)
  | unlinkedInvoke (bci : Nat) (method : Method)
  | lengthChange (fast raw : String) (bci : Nat)
  deriving DecidableEq

namespace Violation

/-- An opcode's name, marked when its wide form is meant. -/
def form (name : String) (wide : Bool) : String :=
  if wide then name ++ "/wide" else name

/-- The message of a violation. -/
def message : Violation → String
  | invalidOpcode op => s!"invalid opcode {op.text}"
  | noWideForm name bci => s!"{name} has no wide form at bci {bci}"
  | notWide bci => s!"expected a wide instruction at bci {bci}"
  | formatMismatch claimed wide bci found claimedFlags foundFlags =>
    s!"expected format of {form claimed wide} at bci {bci}, found {found}: " ++
      s!"{FormatFlags.text claimedFlags} != {FormatFlags.text foundFlags}"
  | badIndexSize size => s!"bad index size {size}"
  | badOffsetSize size => s!"bad offset size {size}"
  | badConstantSize size => s!"bad constant size {size}"
  | indexMismatch size name wide found need =>
    s!"index size {size} does not fit {form name wide}: " ++
      s!"{FormatFlags.text found} != {FormatFlags.text need}"
  | offsetMismatch size name wide found need =>
    s!"offset size {size} does not fit {form name wide}: " ++
      s!"{FormatFlags.text found} != {FormatFlags.text need}"
  | constantMismatch size offset name wide found need =>
    s!"constant size {size} @{offset} does not fit {form name wide}: " ++
      s!"{FormatFlags.text found} != {FormatFlags.text need}"
  | constantOverrun offset name => s!"constant at @{offset} overruns {name}"
  | noNativeIndex name => s!"{name} has no native index"
  | wideIndexNotNative name => s!"u4 index of {name} is not native"
  | pairOutOfBounds index => s!"pair index {index} out of bounds"
  | notTableSwitch bci => s!"not a tableswitch at bci {bci}"
  | notLookupSwitch bci => s!"not a lookupswitch at bci {bci}"
  | notTypeRef bci => s!"not a type reference at bci {bci}"
  | notMemberRef bci => s!"not a member reference at bci {bci}"
  | notLoadConstant bci => s!"not a load constant at bci {bci}"
  | wideLoadConstant bci => s!"load constant reached through a wide prefix at bci {bci}"
  | switchBounds bci high low =>
    s!"incorrect hi/low values in tableswitch at bci {bci}: {high.toInt} < {low.toInt}"
  | keysOutOfOrder bci key next =>
    s!"lookupswitch keys out of order at bci {bci}: {key.toInt} then {next.toInt}"
  | unlinkedInvoke bci method => s!"invoke at bci {bci} decoded before {method.text} was linked"
  | lengthChange fast raw bci => s!"{fast} would change the length of {raw} at bci {bci}"

end Violation

end MethodCode
