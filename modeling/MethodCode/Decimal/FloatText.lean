import MethodCode.Decimal.Shortest

/-! The text of floating-point numbers given by their bits: the shortest digits that read back, written
positionally within a range of exponents and with a power of ten outside it. -/

namespace MethodCode.Decimal

/-- The widths of a binary interchange format. -/
structure Format where
  exponentBits : Nat
  fractionBits : Nat
  /-- Digits that always suffice to read a number back. -/
  mostDigits : Nat

/-- Numbers of 32 bits. -/
def Format.single : Format := ⟨8, 23, 9⟩

/-- Numbers of 64 bits. -/
def Format.double : Format := ⟨11, 52, 17⟩

/-- Where positional writing ends. -/
structure Style where
  /-- The least power of ten of the first digit that is written positionally. -/
  least : Int
  /-- The greatest one. -/
  most : Int

namespace Format

/-- The fraction field of a number. -/
def fraction (f : Format) (bits : Nat) : Nat :=
  bits % Nat.pow 2 f.fractionBits

/-- The exponent field of a number. -/
def exponentField (f : Format) (bits : Nat) : Nat :=
  bits / Nat.pow 2 f.fractionBits % Nat.pow 2 f.exponentBits

/-- The sign bit of a number. -/
def isNegative (f : Format) (bits : Nat) : Bool :=
  bits / Nat.pow 2 (f.fractionBits + f.exponentBits) % 2 == 1

/-- The magnitude of a finite number other than zero. -/
def magnitude (f : Format) (bits : Nat) : Binary :=
  let bias : Int := Nat.pow 2 (f.exponentBits - 1) - 1
  let fraction := f.fraction bits
  match f.exponentField bits with
  | 0 => ⟨fraction, 1 - bias - f.fractionBits, false⟩
  | e + 1 => ⟨Nat.pow 2 f.fractionBits + fraction, e + 1 - bias - f.fractionBits, fraction == 0 && e != 0⟩

end Format

/-- Digits with a point after the first `point` of them, zeros filling the places that are missing; a
whole number keeps one zero after the point. -/
def positional (digits : List Char) (point : Int) : String :=
  if point ≤ 0 then
    "0." ++ String.ofList (List.replicate (-point).toNat '0' ++ digits)
  else
    let whole := digits.take point.toNat
    let rest := digits.drop point.toNat
    String.ofList (whole ++ List.replicate (point.toNat - whole.length) '0') ++ "." ++
      (if rest.isEmpty then "0" else String.ofList rest)

/-- Digits with a point after the first one, and the power of ten of that one. -/
def scientific (digits : List Char) (exponent : Int) : String :=
  match digits with
  | [] => ""
  | [d] => String.ofList [d] ++ "e" ++ toString exponent
  | d :: rest => String.ofList (d :: '.' :: rest) ++ "e" ++ toString exponent

/-- A decimal number, without trailing zeros, in a given style. -/
def Number.text (style : Style) (x : Number) : String :=
  let all := Nat.toDigits 10 x.digits
  let exponent := x.exponent + all.length - 1
  let digits := (all.reverse.dropWhile (· == '0')).reverse
  if style.least ≤ exponent ∧ exponent ≤ style.most then positional digits (exponent + 1)
  else scientific digits exponent

/-- The text of the number with the given bits. -/
def Format.text (f : Format) (style : Style) (bits : Nat) : String :=
  let sign := if f.isNegative bits then "-" else ""
  if f.exponentField bits = Nat.pow 2 f.exponentBits - 1 then
    if f.fraction bits = 0 then sign ++ "inf" else "NaN"
  else if f.exponentField bits = 0 ∧ f.fraction bits = 0 then sign ++ "0.0"
  else sign ++ ((f.magnitude bits).shortest f.mostDigits).text style

end MethodCode.Decimal
