/-
Reading JSON text.

`parse?` accepts one JSON value with blanks around it. A number without
fraction and exponent is an integer where it fits 64 bits. An object's
entries stay in source order; a key that is written again keeps its first
place and takes its last value.
-/
import DocumentFilter.Json.Basic
import DocumentFilter.Text.Hex

namespace DocumentFilter.Json

namespace Reader

/-- The blanks between tokens. -/
def isBlank (c : Char) : Bool := c == ' ' || c == '\n' || c == '\r' || c == '\t'

/-- The text after any leading blanks. -/
def skipBlanks (cs : List Char) : List Char := cs.dropWhile isBlank

/-! ## Strings -/

/-- The character that a one-letter escape stands for. -/
def unescape? : Char → Option Char
  | '"' => some '"'
  | '\\' => some '\\'
  | '/' => some '/'
  | 'b' => some '\x08'
  | 'f' => some '\x0c'
  | 'n' => some '\n'
  | 'r' => some '\r'
  | 't' => some '\t'
  | _ => none

/-- The code units of a string up to its closing quote, and the text behind it. -/
def stringUnits? : List Char → Option (List Nat × List Char)
  | [] => none
  | '"' :: rest => some ([], rest)
  | '\\' :: 'u' :: a :: b :: c :: d :: rest => do
    let unit ← Text.Hex.read? [a, b, c, d]
    let (units, rest) ← stringUnits? rest
    return (unit :: units, rest)
  | '\\' :: c :: rest => do
    let c ← unescape? c
    let (units, rest) ← stringUnits? rest
    return (c.toNat :: units, rest)
  | c :: rest => do
    guard (' ' ≤ c)
    let (units, rest) ← stringUnits? rest
    return (c.toNat :: units, rest)

/-- Joins the two halves of each surrogate pair; a half that stands alone is refused. -/
def joinSurrogates? : List Nat → Option (List Char)
  | [] => some []
  | [unit] => if 0xD800 ≤ unit && unit < 0xE000 then none else some [Char.ofNat unit]
  | unit :: next :: units =>
    if 0xD800 ≤ unit && unit < 0xDC00 then
      if 0xDC00 ≤ next && next < 0xE000 then
        (joinSurrogates? units).map
          (Char.ofNat (0x10000 + (unit - 0xD800) * 0x400 + (next - 0xDC00)) :: ·)
      else none
    else if 0xDC00 ≤ unit && unit < 0xE000 then none
    else (joinSurrogates? (next :: units)).map (Char.ofNat unit :: ·)

/-- A string behind its opening quote. -/
def string? (cs : List Char) : Option (String × List Char) := do
  let (units, rest) ← stringUnits? cs
  let chars ← joinSurrogates? units
  return (String.ofList chars, rest)

/-! ## Numbers -/

/-- The number written by decimal digits. -/
def ofDigits (cs : List Char) : Nat := cs.foldl (fun n c => 10 * n + (c.toNat - '0'.toNat)) 0

/-- The leading decimal digits, of which there must be one, and the text behind them. -/
def digits? (cs : List Char) : Option (List Char × List Char) :=
  match cs.takeWhile Char.isDigit with
  | [] => none
  | digits => some (digits, cs.dropWhile Char.isDigit)

/-- A fraction's digits; none without a point. -/
def fraction? : List Char → Option (List Char × List Char)
  | '.' :: cs => digits? cs
  | cs => some ([], cs)

/-- An exponent, if one is written. -/
def exponent? (cs : List Char) : Option (Option Int × List Char) :=
  let signed (negative : Bool) (cs : List Char) : Option (Option Int × List Char) :=
    (digits? cs).map fun (digits, rest) =>
      (some (if negative then -(ofDigits digits : Int) else ofDigits digits), rest)
  match cs with
  | c :: cs =>
    if c == 'e' || c == 'E' then
      match cs with
      | '-' :: cs => signed true cs
      | '+' :: cs => signed false cs
      | cs => signed false cs
    else some (none, c :: cs)
  | [] => some (none, [])

/-- A number without its sign. -/
def unsigned? (negative : Bool) (cs : List Char) : Option (Number × List Char) := do
  let (whole, cs) ← digits? cs
  guard (whole.length == 1 || whole.head? != some '0')
  let (fraction, cs) ← fraction? cs
  let (exponent, cs) ← exponent? cs
  let number ←
    if fraction.isEmpty && exponent.isNone then Number.ofIntegerLiteral? negative (ofDigits whole)
    else
      Number.ofDecimalLiteral? negative
        ⟨ofDigits (whole ++ fraction), exponent.getD 0 - fraction.length⟩
  return (number, cs)

/-- A number. -/
def number? : List Char → Option (Number × List Char)
  | '-' :: cs => unsigned? true cs
  | cs => unsigned? false cs

/-! ## Values -/

/-- Puts an entry at the end, or its value in place of an earlier one of the key. -/
def putEntry (entries : List (String × Json)) (entry : String × Json) : List (String × Json) :=
  if entries.any (·.1 == entry.1) then
    entries.map fun old => if old.1 == entry.1 then entry else old
  else entries ++ [entry]

mutual
/-- A value, nested at most as deep as the fuel allows. -/
def value? : Nat → List Char → Option (Json × List Char)
  | 0, _ => none
  | fuel + 1, cs =>
    match skipBlanks cs with
    | 'n' :: 'u' :: 'l' :: 'l' :: rest => some (.null, rest)
    | 't' :: 'r' :: 'u' :: 'e' :: rest => some (.bool true, rest)
    | 'f' :: 'a' :: 'l' :: 's' :: 'e' :: rest => some (.bool false, rest)
    | '"' :: rest => (string? rest).map fun (s, rest) => (.string s, rest)
    | '[' :: rest =>
      match skipBlanks rest with
      | ']' :: rest => some (.array [], rest)
      | rest => (items? fuel rest).map fun (items, rest) => (.array items, rest)
    | '\x7b' :: rest =>
      match skipBlanks rest with
      | '\x7d' :: rest => some (.object [], rest)
      | rest => (entries? fuel rest).map fun (entries, rest) => (.object (entries.foldl putEntry []), rest)
    | rest => (number? rest).map fun (n, rest) => (.number n, rest)

/-- The items of an array up to its closing bracket. -/
def items? : Nat → List Char → Option (List Json × List Char)
  | 0, _ => none
  | fuel + 1, cs => do
    let (item, rest) ← value? fuel cs
    match skipBlanks rest with
    | ',' :: rest =>
      let (items, rest) ← items? fuel rest
      return (item :: items, rest)
    | ']' :: rest => return ([item], rest)
    | _ => none

/-- The entries of an object up to its closing brace. -/
def entries? : Nat → List Char → Option (List (String × Json) × List Char)
  | 0, _ => none
  | fuel + 1, cs =>
    match skipBlanks cs with
    | '"' :: rest => do
      let (key, rest) ← string? rest
      match skipBlanks rest with
      | ':' :: rest =>
        let (value, rest) ← value? fuel rest
        match skipBlanks rest with
        | ',' :: rest =>
          let (entries, rest) ← entries? fuel rest
          return ((key, value) :: entries, rest)
        | '\x7d' :: rest => return ([(key, value)], rest)
        | _ => none
      | _ => none
    | _ => none
end

end Reader

/-- The value written by a text; every nesting level takes a bracket, so its length bounds the depth. -/
def parse? (text : String) : Option Json :=
  let cs := text.toList
  match Reader.value? (2 * cs.length + 2) cs with
  | some (value, rest) => if (Reader.skipBlanks rest).isEmpty then some value else none
  | none => none

end DocumentFilter.Json
