/-!
# Documents as this library writes them

A document is written on one line: every text between double quotes, lists and maps in brackets,
and every key with a mark in front, so that it may have any length.

* `Written.escape`: one character; what is not plainly visible is written by its code point;
* `Written.text`, `Written.list`, `Written.map`: texts, lists and maps.
-/

namespace ServiceGraph.Yaml.Written

def digit (n : Nat) : Char := Nat.digitChar n

def eightDigits (n : Nat) : List Char :=
  [7, 6, 5, 4, 3, 2, 1, 0].map fun i => digit (n / Nat.pow 16 i % 16)

/-- the character stands for itself between quotes -/
def isPlain (c : Char) : Bool :=
  0x21 ≤ c.toNat && c.toNat ≤ 0x7e && c != '"' && c != '\\'

def escape (c : Char) : List Char :=
  if isPlain c then [c] else '\\' :: 'U' :: eightDigits c.toNat

def text (s : String) : List Char := '"' :: s.toList.flatMap escape ++ ['"']

def separated (items : List (List Char)) : List Char := [',', ' '].intercalate items

def list (items : List (List Char)) : List Char := '[' :: separated items ++ [']']

def entry (key : String) (value : List Char) : List Char :=
  ['?', ' '] ++ text key ++ [' ', ':', ' '] ++ value

def map (entries : List (String × List Char)) : List Char :=
  '\x7b' :: separated (entries.map fun e => entry e.1 e.2) ++ ['\x7d']

end ServiceGraph.Yaml.Written
