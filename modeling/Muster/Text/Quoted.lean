import Muster.Text.Extender
import Muster.Text.Unseen

/-!
Texts between double quotes, written so that every character can be seen.
-/

namespace Muster

/-- The escape that gives a code point in hexadecimal digits. -/
def codeEscape (c : Char) : String :=
  "\\u\x7b" ++ String.ofList (Nat.toDigits 16 c.toNat) ++ "\x7d"

/-- A character between quotes. Quotes and backslashes are escaped, and so is what cannot be seen by
itself: some control characters by a letter, all else by its code point. -/
def escaped (c : Char) : String :=
  match c with
  | '"' => "\\\""
  | '\\' => "\\\\"
  | '\n' => "\\n"
  | '\r' => "\\r"
  | '\t' => "\\t"
  | '\x00' => "\\0"
  | c => if isExtender c || isUnseen c then codeEscape c else c.toString

/-- A text between quotes. -/
def quoted (s : String) : String := "\"" ++ String.join (s.toList.map escaped) ++ "\""

end Muster
