/-
A string as it is shown inside messages: values in double quotes, with every
character that does not stand visibly for itself written as an escape, and
names in single quotes as they are.
-/
import DocumentFilter.Text.Hex
import DocumentFilter.Text.Visible

namespace DocumentFilter.Text

/-- A character as it is shown; a single quote needs no escape. -/
def showChar (c : Char) : List Char :=
  match c with
  | '\x00' => ['\\', '0']
  | '\t' => ['\\', 't']
  | '\n' => ['\\', 'n']
  | '\r' => ['\\', 'r']
  | '"' => ['\\', '"']
  | '\\' => ['\\', '\\']
  | c => if isVisible c then [c] else '\\' :: 'u' :: '\x7b' :: Hex.write c.toNat ++ ['\x7d']

/-- A name as it is shown. -/
def inQuotes (s : String) : String := "'" ++ s ++ "'"

/-- A string value as it is shown. -/
def quoted (s : String) : String := String.ofList ('"' :: s.toList.flatMap showChar ++ ['"'])

end DocumentFilter.Text
