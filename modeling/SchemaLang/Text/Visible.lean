import SchemaLang.Text.Hidden

/-!
# Showing single characters

An error that names a character shows it between quotes, and writes the ones that would not be seen
by their number.
-/

namespace SchemaLang.Text

/-- Digits of `n` in base 16, lower case, without leading zeros. -/
def hexText (n : Nat) : String :=
  String.ofList (Nat.toDigits 16 n)

/-- A character as it stands between two of `quote`: that quote and the backslash after a backslash,
five controls by a letter, other hidden characters by their number. -/
def visibleChar (quote c : Char) : String :=
  if c == '\x00' then "\\0"
  else if c == '\t' then "\\t"
  else if c == '\n' then "\\n"
  else if c == '\r' then "\\r"
  else if c == '\\' || c == quote then String.ofList ['\\', c]
  else if isHidden c then "\\u\x7b" ++ hexText c.toNat ++ "\x7d"
  else String.singleton c

/-- A character between single quotes. -/
def quotedChar (c : Char) : String :=
  "'" ++ visibleChar '\'' c ++ "'"

/-- A text between double quotes with every hidden character made visible. -/
def visibleString (s : String) : String :=
  "\"" ++ String.join (s.toList.map (visibleChar '"')) ++ "\""

end SchemaLang.Text
