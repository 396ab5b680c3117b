/-
# Quoted texts

A text in a message is put in single quotes, or in double quotes if it has
single quotes and no double ones.  The quote and the backslash are escaped, and
so is every character that cannot be printed.
-/

import DevicetreePrep.Text.Basic
import DevicetreePrep.Text.Printable

namespace DevicetreePrep
namespace Text

/-- A character inside of quotes. -/
def quotedChar (quote c : Char) : Text :=
  if c = quote || c = '\\' then ['\\', c]
  else if c = '\n' then ['\\', 'n']
  else if c = '\r' then ['\\', 'r']
  else if c = '\t' then ['\\', 't']
  else if isPrintable c then [c]
  else if c.toNat < 0x100 then '\\' :: 'x' :: hex 2 c.toNat
  else if c.toNat < 0x10000 then '\\' :: 'u' :: hex 4 c.toNat
  else '\\' :: 'U' :: hex 8 c.toNat

/-- A text in quotes. -/
def quoted (t : Text) : Text :=
  let quote := if t.contains '\'' && !t.contains '"' then '"' else '\''
  quote :: t.flatMap (quotedChar quote) ++ [quote]

end Text
end DevicetreePrep
