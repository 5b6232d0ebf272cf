import FiberVM.Text.Printable

/-!
# Quoted text

Names and characters are shown between quotes in descriptions. The quote itself, the backslash and
the common control characters are written with a backslash, and any other character that cannot be
shown as it is by its code point in hexadecimal.
-/

namespace FiberVM.Text

/-- The written form of a character between the given quotes. -/
def escape (quote c : Char) : String :=
  if c = Char.ofNat 0 then "\\0"
  else if c = '\t' then "\\t"
  else if c = '\r' then "\\r"
  else if c = '\n' then "\\n"
  else if c = '\\' ∨ c = quote then String.ofList ['\\', c]
  else if isPrintable c then String.singleton c
  else "\\u\x7b" ++ String.ofList (Nat.toDigits 16 c.toNat) ++ "\x7d"

/-- A text between double quotes. -/
def quoted (s : String) : String :=
  "\"" ++ String.join (s.toList.map (escape '"')) ++ "\""

/-- A character between single quotes. -/
def quotedChar (c : Char) : String := "'" ++ escape '\'' c ++ "'"

end FiberVM.Text
