namespace ThreeAddress

abbrev Bytes := List UInt8

def encode (cs : List Char) : Bytes := cs.flatMap String.utf8EncodeChar

def utf8 (s : String) : Bytes := encode s.toList

def decimal (n : Nat) : Bytes := encode (Nat.toDigits 10 n)

def signedDecimal : Int → Bytes
  | .ofNat n => decimal n
  | .negSucc n => utf8 "-" ++ decimal (n + 1)

namespace Bytes

def newline : UInt8 := 10

def carriageReturn : UInt8 := 13

def join (separator : Bytes) (parts : List Bytes) : Bytes :=
  (parts.intersperse separator).flatten

def dropEndWhile (p : UInt8 → Bool) (text : Bytes) : Bytes :=
  (text.reverse.dropWhile p).reverse

def dropEnding (text ending : Bytes) : Bytes :=
  if ending.isSuffixOf text then text.take (text.length - ending.length) else text

/-- Bytewise lexicographic order: a proper beginning of a text comes before it. -/
def precedes : Bytes → Bytes → Bool
  | _, [] => false
  | [], _ :: _ => true
  | a :: as, b :: bs => a < b || (a == b && precedes as bs)

end Bytes

end ThreeAddress
