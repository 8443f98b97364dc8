/-! The shortest decimal that reads back as a given binary number. The reals that round to the number
form an interval around it, whose ends belong to it when the significand is even. Counting digits
upwards, the first decimal grid that meets the interval gives the answer: of its two points next to the
number, the one in the interval, and of two the nearer. -/

namespace MethodCode.Decimal

/-- A positive binary number, `significand · 2 ^ exponent`. At the first significand of an exponent the
neighbour below is half as far away as the one above. -/
structure Binary where
  significand : Nat
  exponent : Int
  isFirst : Bool

/-- A decimal number, `digits · 10 ^ exponent`. -/
structure Number where
  digits : Nat
  exponent : Int

/-- The interval of reals that round to a number, as numerators over one denominator. -/
structure Interval where
  low : Nat
  value : Nat
  high : Nat
  denominator : Nat
  closed : Bool

/-- Halfway to the neighbours on either side, in quarters of the last place. -/
def Binary.interval (x : Binary) : Interval :=
  let up := Nat.pow 2 (x.exponent - 2).toNat
  { low := (4 * x.significand - if x.isFirst then 1 else 2) * up
    value := 4 * x.significand * up
    high := (4 * x.significand + 2) * up
    denominator := Nat.pow 2 (2 - x.exponent).toNat
    closed := x.significand % 2 == 0 }

namespace Interval

/-- Whether `digits · p / q` lies in the interval. -/
def mem (i : Interval) (digits p q : Nat) : Bool :=
  if i.closed then i.low * q ≤ digits * p && digits * p ≤ i.high * q
  else i.low * q < digits * p && digits * p < i.high * q

/-- The power of ten of the value's first digit, for values above `10 ^ -400`. -/
def magnitude (i : Interval) : Int :=
  (Nat.toDigits 10 (i.value * Nat.pow 10 400 / i.denominator)).length - 401

/-- The point of the grid of multiples of `10 ^ k` that lies in the interval next to the value; an exact
tie goes to the upper one. -/
def onGrid? (i : Interval) (k : Int) : Option Number :=
  let p := i.denominator * Nat.pow 10 k.toNat
  let q := Nat.pow 10 (-k).toNat
  let d := i.value * q / p
  let below := i.mem d p q
  let above := i.mem (d + 1) p q
  if above && (!below || p ≤ 2 * (i.value * q - d * p)) then some ⟨d + 1, k⟩
  else if below then some ⟨d, k⟩
  else none

end Interval

/-- The decimal of fewest digits, at most `most` of them, that reads back as `x`. -/
def Binary.shortest (x : Binary) (most : Nat) : Number :=
  let i := x.interval
  let finest := i.magnitude + 1 - most
  ((List.range most).findSome? fun (n : Nat) => i.onGrid? (i.magnitude - n)).getD
    ⟨i.value * Nat.pow 10 (-finest).toNat / (i.denominator * Nat.pow 10 finest.toNat), finest⟩

end MethodCode.Decimal
