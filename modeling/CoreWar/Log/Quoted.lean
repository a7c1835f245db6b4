/-
# Quoted names

A name in a log line stands between double quotes. The quote and the backslash
are escaped, the usual control characters have short escapes, and every other
hidden character (`Text.isHidden`) is written by its code in hexadecimal.

Key definitions: `Log.quoted`.
-/
import CoreWar.Text.Hidden

namespace CoreWar.Log

/-- A character inside a quoted name. -/
def quotedChar (c : Char) : List Char :=
  if c = '"' then ['\\', '"']
  else if c = '\\' then ['\\', '\\']
  else if c = '\t' then ['\\', 't']
  else if c = '\n' then ['\\', 'n']
  else if c = '\r' then ['\\', 'r']
  else if c.toNat = 0 then ['\\', '0']
  else if Text.isHidden c then ['\\', 'u', '\x7b'] ++ Nat.toDigits 16 c.toNat ++ ['\x7d']
  else [c]

/-- A name as it stands in a log line. -/
def quoted (s : String) : String :=
  String.ofList ('"' :: s.toList.flatMap quotedChar ++ ['"'])

end CoreWar.Log
