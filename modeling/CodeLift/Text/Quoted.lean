import CodeLift.Text.Plain

/-!
# Quoted text

A string constant is printed between double quotes, with a backslash escape for the quote, the backslash and the common
controls, and the code point in hexadecimal for every other character that would not show.
-/

namespace CodeLift.Text

/-- The code point of a character, lower case hexadecimal without padding. -/
def hexCode (c : Char) : String := String.ofList (Nat.toDigits 16 c.toNat)

/-- How a character is written between double quotes. -/
def escape (c : Char) : String :=
  if c = '"' then "\\\""
  else if c = '\\' then "\\\\"
  else if c = '\n' then "\\n"
  else if c = '\r' then "\\r"
  else if c = '\t' then "\\t"
  else if c = '\x00' then "\\0"
  else if isPlain c then c.toString
  else "\\u\x7b" ++ hexCode c ++ "\x7d"

/-- A text between double quotes, each character written by `escape`. -/
def quote (text : String) : String :=
  "\"" ++ String.join (text.toList.map escape) ++ "\""

end CodeLift.Text
