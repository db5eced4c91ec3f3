import ServiceGraph.Text.Printable

/-!
# Quoted strings

* `Text.escape`: how one character is written between double quotes;
* `Text.quoted`: a string as a literal of source code;
* `Text.quotedList`: a list of such literals.

Tab, line feed, carriage return and NUL have short escapes, a quote and a backslash are preceded
by a backslash, and a character that shows nothing or attaches to its neighbour is written by its
code point.
-/

namespace ServiceGraph.Text

def hex (n : Nat) : List Char :=
  Nat.toDigits 16 n

def escape (c : Char) : List Char :=
  match c with
  | '\t' => ['\\', 't']
  | '\r' => ['\\', 'r']
  | '\n' => ['\\', 'n']
  | '\x00' => ['\\', '0']
  | '"' => ['\\', '"']
  | '\\' => ['\\', '\\']
  | c =>
    if attaches c || !shown c then ['\\', 'u', '\x7b'] ++ hex c.toNat ++ ['\x7d'] else [c]

def quoted (s : String) : String :=
  String.ofList ('"' :: s.toList.flatMap escape ++ ['"'])

def quotedList (items : List String) : String :=
  "[" ++ ", ".intercalate (items.map quoted) ++ "]"

end ServiceGraph.Text
