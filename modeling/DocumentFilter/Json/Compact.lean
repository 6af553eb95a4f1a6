/-
The compact text of a JSON value: no blanks, entries in source order.
-/
import DocumentFilter.Json.Basic
import DocumentFilter.Text.Hex

namespace DocumentFilter.Json

/-- A character of a string: quote, backslash and what is below the blank are escaped, all else is raw. -/
def escapeChar (c : Char) : List Char :=
  match c with
  | '"' => ['\\', '"']
  | '\\' => ['\\', '\\']
  | '\x08' => ['\\', 'b']
  | '\x0c' => ['\\', 'f']
  | '\n' => ['\\', 'n']
  | '\r' => ['\\', 'r']
  | '\t' => ['\\', 't']
  | c => if c < ' ' then '\\' :: 'u' :: Text.Hex.writePadded 4 c.toNat else [c]

/-- A string in double quotes. -/
def quoted (s : String) : String := String.ofList ('"' :: s.toList.flatMap escapeChar ++ ['"'])

mutual
/-- The compact text of a value. -/
def compact : Json → String
  | .null => "null"
  | .bool b => if b then "true" else "false"
  | .number n => n.text
  | .string s => quoted s
  | .array items => "[" ++ ",".intercalate (compactItems items) ++ "]"
  | .object entries => "\x7b" ++ ",".intercalate (compactEntries entries) ++ "\x7d"

/-- The texts of an array's items. -/
def compactItems : List Json → List String
  | [] => []
  | item :: items => compact item :: compactItems items

/-- The texts of an object's entries. -/
def compactEntries : List (String × Json) → List String
  | [] => []
  | (key, value) :: entries => (quoted key ++ ":" ++ compact value) :: compactEntries entries
end

end DocumentFilter.Json
