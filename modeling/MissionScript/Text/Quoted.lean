import MissionScript.Text.Basic
import MissionScript.Text.Hidden

/-!
# Quoted lines

A line quoted in a log message stands between double quotes. Quotes and backslashes get a
backslash, the common controls their letter, and every other hidden character its code point.
-/

namespace MissionScript

namespace Text

def quoteChar (c : Char) : Text :=
  if c = '"' then ['\\', '"']
  else if c = '\\' then ['\\', '\\']
  else if c = '\t' then ['\\', 't']
  else if c = '\n' then ['\\', 'n']
  else if c = '\r' then ['\\', 'r']
  else if c.toNat = 0 then ['\\', '0']
  else if isHidden c then "\\u\x7b".toList ++ hex c.toNat ++ ['\x7d']
  else [c]

def quoted (t : Text) : Text := '"' :: (t.flatMap quoteChar ++ ['"'])

end Text

end MissionScript
