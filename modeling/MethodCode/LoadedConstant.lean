import MethodCode.Decimal.FloatText
import MethodCode.Symbol
import MethodCode.ValueType

/-! Constants as a load instruction pushes them. -/

namespace MethodCode

/-- A materialized constant. Floating-point numbers are kept as their bits, so that two constants are
equal exactly when they are the same value, NaN and the sign of zero included. -/
inductive LoadedConstant where
  | int (value : Int32)
  | float (bits : UInt32)
  | long (value : Int64)
  | double (bits : UInt64)
  | string (value : String)
  | classRef (name : Symbol)
  | methodType (descriptor : Symbol)
  | methodHandle (kind : UInt8) (member : Symbol)
  deriving DecidableEq

namespace LoadedConstant

/-- The category of a constant. -/
def valueType : LoadedConstant → ValueType
  | int _ => .int
  | float _ => .float
  | long _ => .long
  | double _ => .double
  | string _ | classRef _ | methodType _ | methodHandle _ _ => .object

/-- Numbers from `0.0001` up to sixteen whole digits are written positionally. -/
def floatStyle : Decimal.Style := ⟨-4, 15⟩

/-- A constant as messages describe it. -/
def describe : LoadedConstant → String
  | int v => s!"Int({v.toInt})"
  | float bits => "Float(" ++ Decimal.Format.single.text floatStyle bits.toNat ++ ")"
  | long v => s!"Long({v.toInt})"
  | double bits => "Double(" ++ Decimal.Format.double.text floatStyle bits.toNat ++ ")"
  | string s => "String(" ++ Quoted.quote s ++ ")"
  | classRef name => s!"Class({name.describe})"
  | methodType descriptor => s!"MethodType({descriptor.describe})"
  | methodHandle kind member => s!"MethodHandle \x7b kind: {kind}, member: {member.describe} \x7d"

end LoadedConstant

end MethodCode
