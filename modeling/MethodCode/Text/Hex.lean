/-! Lower-case hexadecimal text of bytes and numbers. -/

namespace MethodCode.Hex

/-- A byte as two digits. -/
def byte (b : UInt8) : String :=
  String.ofList [Nat.digitChar (b.toNat / 16), Nat.digitChar (b.toNat % 16)]

/-- Bytes as two digits each, with a separator between them. -/
def bytes (separator : String) (bs : List UInt8) : String :=
  separator.intercalate (bs.map byte)

/-- A natural number without leading zeros. -/
def nat (n : Nat) : String :=
  String.ofList (Nat.toDigits 16 n)

/-- A natural number in at least `width` digits. -/
def padded (width n : Nat) : String :=
  let digits := Nat.toDigits 16 n
  String.ofList (List.replicate (width - digits.length) '0' ++ digits)

/-- The value of a digit, either case. -/
def digit? (c : Char) : Option Nat :=
  if '0' ≤ c ∧ c ≤ '9' then some (c.toNat - '0'.toNat)
  else if 'a' ≤ c ∧ c ≤ 'f' then some (c.toNat - 'a'.toNat + 10)
  else if 'A' ≤ c ∧ c ≤ 'F' then some (c.toNat - 'A'.toNat + 10)
  else none

/-- The bytes a text of digit pairs spells. -/
def bytes? : List Char → Option (List UInt8)
  | [] => some []
  | [_] => none
  | hi :: lo :: rest => do
    let h ← digit? hi
    let l ← digit? lo
    let bs ← bytes? rest
    return UInt8.ofNat (h * 16 + l) :: bs

/-- The number a text of digits spells. -/
def nat? (cs : List Char) : Option Nat :=
  cs.foldlM (fun n c => (digit? c).map (n * 16 + ·)) 0

end MethodCode.Hex
