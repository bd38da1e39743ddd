import Keyring.Text.Shown

/-!
# Quoted text for messages

A message quotes a text so that it stays on one line and every character can be told: quotes and
backslashes are escaped, the common controls have short escapes, and a character without a visible
form of its own is given by its code point.
-/

namespace Keyring.Text

/-- One character inside quotes. -/
def quotedChar (c : Char) : String :=
  match c with
  | '\x00' => "\\0"
  | '\t' => "\\t"
  | '\r' => "\\r"
  | '\n' => "\\n"
  | '"' => "\\\""
  | '\\' => "\\\\"
  | c =>
    if isShown c then c.toString
    else "\\u\x7b" ++ String.ofList (Nat.toDigits 16 c.toNat) ++ "\x7d"

/-- A text inside quotes. -/
def quoted (text : String) : String :=
  "\"" ++ String.join (text.toList.map quotedChar) ++ "\""

end Keyring.Text
