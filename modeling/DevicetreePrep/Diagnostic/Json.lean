/-
# Diagnostics in JSON

A diagnostic as a JSON object on one line, without spaces and in ASCII.
-/

import DevicetreePrep.Diagnostic
import DevicetreePrep.Text.Basic

namespace DevicetreePrep
namespace Json

/-- A unit of sixteen bits in an escape. -/
def unit (n : Nat) : Text :=
  '\\' :: 'u' :: Text.hex 4 n

/-- A character inside of a JSON string.  One beyond the first plane is written as
two units. -/
def escapeChar (c : Char) : Text :=
  if c = '"' || c = '\\' then ['\\', c]
  else if c = '\n' then ['\\', 'n']
  else if c = '\r' then ['\\', 'r']
  else if c = '\t' then ['\\', 't']
  else if c = '\x08' then ['\\', 'b']
  else if c = '\x0C' then ['\\', 'f']
  else if 0x20 ≤ c.toNat && c.toNat < 0x7F then [c]
  else if c.toNat < 0x10000 then unit c.toNat
  else
    let n := c.toNat - 0x10000
    unit (0xD800 + n / 0x400) ++ unit (0xDC00 + n % 0x400)

/-- A JSON string. -/
def string (s : String) : String :=
  String.ofList ('"' :: s.toList.flatMap escapeChar ++ ['"'])

/-- A JSON value that may be missing. -/
def optional {α : Type} (write : α → String) : Option α → String
  | some a => write a
  | none => "null"

end Json

/-- A diagnostic as a JSON object. -/
def Diagnostic.toJson (d : Diagnostic) : String :=
  let fields : List (String × String) := [
    ("stage", Json.string d.stage),
    ("filename", Json.string d.file),
    ("line", Json.optional toString d.line),
    ("column", Json.optional toString d.column),
    ("end_column", Json.optional toString d.endColumn),
    ("severity", Json.string d.severity.name),
    ("code", Json.optional Json.string d.code),
    ("message", Json.string d.message)]
  "\x7b" ++ ",".intercalate (fields.map fun (k, v) => Json.string k ++ ":" ++ v) ++ "\x7d"

end DevicetreePrep
