import ServiceGraph.Digest.Blake3

/-!
# Digests as text

* `Digest.ofBytes`, `Digest.ofText`: the digest of a content, `blake3:` and hexadecimal digits;
* `Digest.ofParts`: the digest of a list of texts. Each text is closed by a NUL, so that no two
  lists run together;
* `Digest.key`: the first sixteen digits of the digest of a list, fit for a file name.
-/

namespace ServiceGraph.Digest

def hexDigit (n : Nat) : Char := Nat.digitChar n

def hexText (bytes : List UInt8) : List Char :=
  bytes.flatMap fun b => [hexDigit (b.toNat / 16), hexDigit (b.toNat % 16)]

def bytes (s : String) : List UInt8 := s.toUTF8.data.toList

def digits (content : List UInt8) : List Char := hexText (Blake3.hash content)

def ofBytes (content : List UInt8) : String :=
  "blake3:" ++ String.ofList (digits content)

def ofText (s : String) : String := ofBytes (bytes s)

/-- texts as one content, each closed by a NUL -/
def terminated (parts : List String) : List UInt8 :=
  parts.flatMap fun p => bytes p ++ [0]

def ofParts (parts : List String) : String := ofBytes (terminated parts)

def key (parts : List String) : String :=
  String.ofList ((digits (terminated parts)).take 16)

end ServiceGraph.Digest
