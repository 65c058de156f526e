/-
# `Text.Quoted` — text as it stands inside messages

Quoted text stands between double quotes.  A double quote and a backslash
in it follow a backslash, NUL, tab, line feed and carriage return have a
letter of their own, and any other character that is not printable is
named by its code point in lower-case hexadecimal digits.  Everything else
stands for itself, the single quote included.
-/
import MethodArea.Text.Printable

namespace MethodArea.Text

/-- The code point form of a character, without leading zeros. -/
def codePoint (c : Char) : List Char :=
  ['\\', 'u', '\x7b'] ++ Nat.toDigits 16 c.toNat ++ ['\x7d']

/-- A character as it stands inside quotes. -/
def quoteChar (c : Char) : List Char :=
  match c with
  | '\x00' => ['\\', '0']
  | '\t' => ['\\', 't']
  | '\n' => ['\\', 'n']
  | '\r' => ['\\', 'r']
  | '"' => ['\\', '"']
  | '\\' => ['\\', '\\']
  | c => if isPrintable c then [c] else codePoint c

/-- A text between quotes. -/
def quote (text : String) : String :=
  String.ofList ('"' :: (text.toList.flatMap quoteChar ++ ['"']))

end MethodArea.Text
