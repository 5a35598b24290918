import ThreeAddress.Token.Kind

namespace ThreeAddress

/-- A place in a source: line and column count from zero, the column in characters. -/
structure Position where
  line : Int := 0
  column : Int := 0
  deriving DecidableEq

structure Token where
  kind : TokenKind
  lexeme : Bytes
  position : Position
  deriving DecidableEq

/-- How a message counts from one. The count is a 64-bit word, so after the greatest comes the
least. -/
def ordinal (n : Int) : Bytes := signedDecimal (Int.bmod (n + 1) UInt64.size)

def Position.text (p : Position) : Bytes :=
  utf8 "line " ++ ordinal p.line ++ utf8 ", char " ++ ordinal p.column

end ThreeAddress
