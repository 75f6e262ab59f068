import ChoiceTree.Text.Unprintable

/-!
# Quoted text

Strings are written between `"` and characters between `'`, on one line and in
visible characters: the quote in use, the backslash and the common control
characters are escaped by a backslash, other unprintable characters by their
code point.
-/

namespace ChoiceTree.Text

/-- The character as it is written between two of the given quotes. -/
def escape (quote c : Char) : String :=
  if c = '\x00' then "\\0"
  else if c = '\t' then "\\t"
  else if c = '\r' then "\\r"
  else if c = '\n' then "\\n"
  else if c = '\\' ∨ c = quote then "\\" ++ String.singleton c
  else if isUnprintable c then "\\u\x7b" ++ String.ofList (Nat.toDigits 16 c.toNat) ++ "\x7d"
  else String.singleton c

/-- The string between double quotes. -/
def quoteString (s : String) : String :=
  "\"" ++ "".intercalate (s.toList.map (escape '"')) ++ "\""

/-- The character between single quotes. -/
def quoteChar (c : Char) : String := "'" ++ escape '\'' c ++ "'"

end ChoiceTree.Text
