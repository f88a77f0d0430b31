import ReplicaRing.Text.Hex
import ReplicaRing.Text.Unprintable

/-!
# Quoted strings

The text of a string, or of a list, inside a printed value.

* `Quoted.escape` — what stands for one character between the quotes;
* `Quoted.string` — a string in double quotes;
* `Quoted.list` — printed elements in square brackets.
-/

namespace ReplicaRing.Quoted

/-- Short escapes for quotes, backslashes and common controls, the code point in braces for other
characters without a visible form of their own, and all others as they are. -/
def escape (c : Char) : List Char :=
  if c = '"' then ['\\', '"']
  else if c = '\\' then ['\\', '\\']
  else if c = '\n' then ['\\', 'n']
  else if c = '\t' then ['\\', 't']
  else if c = '\r' then ['\\', 'r']
  else if c.toNat = 0 then ['\\', '0']
  else if Unprintable.contains c then
    ['\\', 'u', '\x7b'] ++ Hex.plain c.toNat ++ ['\x7d']
  else [c]

/-- A string in double quotes. -/
def string (s : String) : String :=
  String.ofList ('"' :: s.toList.flatMap escape ++ ['"'])

/-- Printed elements in square brackets. -/
def list (items : List String) : String := "[" ++ ", ".intercalate items ++ "]"

end ReplicaRing.Quoted
