import MethodCode.Text.ModifiedUtf8
import MethodCode.Text.Quoted

/-! Symbols are the names and descriptors of class files. They are kept as the bytes that stand in the
file, and only readable bytes make a symbol, so that every symbol has a text. Two symbols are equal when
their bytes are, and are ordered byte by byte. -/

namespace MethodCode

/-- A name or descriptor: bytes that can be read as a text. -/
structure Symbol where
  bytes : List UInt8
  readable : (ModifiedUtf8.decode bytes).isSome
  deriving DecidableEq

namespace Symbol

/-- The symbol of a text, in modified UTF-8. -/
def ofString (s : String) : Symbol :=
  ⟨ModifiedUtf8.encode s.toList, ModifiedUtf8.isSome_decode_encode s.toList⟩

/-- The symbol with the given bytes, if they can be read. -/
def ofBytes? (bytes : List UInt8) : Option Symbol :=
  if h : (ModifiedUtf8.decode bytes).isSome then some ⟨bytes, h⟩ else none

/-- The text a symbol's bytes stand for. -/
def text (s : Symbol) : String :=
  String.ofList ((ModifiedUtf8.decode s.bytes).get s.readable)

/-- A symbol keeps the text that it was made of. -/
@[simp]
theorem text_ofString (s : String) : (ofString s).text = s := by
  simp only [text, ofString, ModifiedUtf8.decode_encode, Option.get_some, String.ofList_toList]

theorem ofString_injective {s t : String} (h : ofString s = ofString t) : s = t := by
  rw [← text_ofString s, ← text_ofString t, h]

/-- A symbol as it appears inside a described value. -/
def describe (s : Symbol) : String :=
  "Symbol(" ++ Quoted.quote s.text ++ ")"

/-- The order of symbols is the order of their bytes, a proper beginning first. -/
instance : LE Symbol where
  le s t := s.bytes ≤ t.bytes

instance : DecidableLE Symbol :=
  fun s t => inferInstanceAs (Decidable (s.bytes ≤ t.bytes))

/-- Symbols in ascending order. -/
def sort (symbols : List Symbol) : List Symbol :=
  symbols.mergeSort

end Symbol

end MethodCode
