import InfixFormula.Text.Unprinted

/-!
# Quoted text

A quoted text stands between double quotes.  Inside, a quote and a backslash follow a backslash;
tab, line feed, carriage return and the null character are written with a letter or digit behind a
backslash; any other character that leaves no ink of its own is written by its hexadecimal code.
-/

namespace InfixFormula.Text

/-- A character as it stands in a quoted text. -/
def quotedChar (c : Char) : Text :=
  match c with
  | '"' => ['\\', '"']
  | '\\' => ['\\', '\\']
  | '\t' => ['\\', 't']
  | '\n' => ['\\', 'n']
  | '\r' => ['\\', 'r']
  | _ =>
      if c.toNat = 0 then ['\\', '0']
      else if isUnprinted c then
        "\\u\x7b".toList ++ Nat.toDigits 16 c.toNat ++ "\x7d".toList
      else [c]

/-- The text between quotes. -/
def quoted (t : Text) : Text := '"' :: t.flatMap quotedChar ++ ['"']

end InfixFormula.Text
