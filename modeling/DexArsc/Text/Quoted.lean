/-
Hexadecimal text of numbers: lower-case digits, without leading zeros or padded to a width.
-/

import DexArsc.Text.Character

namespace DexArsc.Text

/-- The lower-case hexadecimal digits of a number, without leading zeros. -/
def hex (value : Nat) : String :=
  String.ofList (Nat.toDigits 16 value)

/-- The hexadecimal digits of a number, padded with zeros to at least `width` digits. -/
def hexPadded (width value : Nat) : String :=
  let digits := Nat.toDigits 16 value
  String.ofList (List.replicate (width - digits.length) '0' ++ digits)

end DexArsc.Text

namespace DexArsc.Text

/-- The escape of one character of a quoted text. A visible character stands for itself. -/
def escaped (c : Char) : String :=
  match c with
  | '\u0000' => "\\0"
  | '\t' => "\\t"
  | '\n' => "\\n"
  | '\r' => "\\r"
  | '"' => "\\\""
  | '\\' => "\\\\"
  | c => if isInvisible c then "\\u\x7b" ++ hex c.toNat ++ "\x7d" else c.toString

/-- A text between double quotes. -/
def quoted (text : String) : String :=
  "\"" ++ String.join (text.toList.map escaped) ++ "\""

/-- The items of a list between brackets, with a comma and a space between neighbours. -/
def bracketed (items : List String) : String :=
  "[" ++ String.intercalate ", " items ++ "]"

end DexArsc.Text
