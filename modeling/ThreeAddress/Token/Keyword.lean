import ThreeAddress.Text.Utf8
import ThreeAddress.Token.Kind

namespace ThreeAddress

namespace Keyword

/-- The capital of a character, as far as that capital is an ASCII letter. Two letters outside
ASCII have such a capital: the dotless i and the long s. -/
def capital (c : Char) : Char :=
  if c = 'ı' then 'I' else if c = 'ſ' then 'S' else c.toUpper

def table : List (List Char × TokenKind) :=
  [("DIV".toList, .intDivide), ("MOD".toList, .modulo), ("PROGRAM".toList, .programWord),
    ("END".toList, .endWord), ("IF".toList, .ifWord), ("WHILE".toList, .whileWord),
    ("THEN".toList, .thenWord), ("DO".toList, .doWord)]

end Keyword

def TokenKind.ofWord (word : List Char) : TokenKind :=
  (Keyword.table.lookup (word.map Keyword.capital)).getD .ident

end ThreeAddress
