import MethodCode.Text.ExtendingMark
import MethodCode.Text.Hex
import MethodCode.Text.Unprintable

/-! Quoted text, as names and strings appear inside messages. The quote itself, the backslash and all
characters that do not stand for themselves on a line are escaped; any other character, of whatever
script, appears as it is. -/

namespace MethodCode.Quoted

/-- Characters that a reader could not see, or that would join the character before them. -/
def isHidden (c : Char) : Bool :=
  CodeSet.unprintable.contains c || CodeSet.extendingMarks.contains c

/-- How one character is written between quotes. -/
def escape (c : Char) : String :=
  if c = '"' then "\\\""
  else if c = '\\' then "\\\\"
  else if c = '\x00' then "\\0"
  else if c = '\t' then "\\t"
  else if c = '\n' then "\\n"
  else if c = '\r' then "\\r"
  else if isHidden c then "\\u\x7b" ++ Hex.nat c.toNat ++ "\x7d"
  else c.toString

/-- A text between quotes. -/
def quote (s : String) : String :=
  "\"" ++ String.join (s.toList.map escape) ++ "\""

end MethodCode.Quoted
