import ThreeAddress.CharClass
import ThreeAddress.Token.Keyword

namespace ThreeAddress

inductive ScanState where
  | start
  | inIdent
  | inNumber
  | inComment
  | less
  | greater
  | endIdent
  | endNumber
  | endComment
  | openParen
  | closeParen
  | equal
  | lessEqual
  | notEqual
  | endLess
  | greaterEqual
  | endGreater
  | operator
  | punctuation
  deriving DecidableEq

structure Acceptor where
  /-- The character just read is not part of the lexeme, and is read again from the start. -/
  retract : Bool := false
  /-- The kind of the token, or none if the lexeme is skipped. -/
  kind? : List Char → Option TokenKind

namespace ScanState

/-- The state after reading a character. Nothing leads on from an accepting state but the way back
to the start. -/
def next : ScanState → CharClass → ScanState
  | start, .letter => inIdent
  | start, .digit => inNumber
  | start, .openBrace => inComment
  | start, .closeBrace => punctuation
  | start, .openParen => openParen
  | start, .closeParen => closeParen
  | start, .equal => equal
  | start, .less => less
  | start, .greater => greater
  | start, .operator => operator
  | start, .punctuation => punctuation
  | start, .blank => start
  | inIdent, .letter => inIdent
  | inIdent, .digit => inIdent
  | inIdent, _ => endIdent
  | inNumber, .digit => inNumber
  | inNumber, _ => endNumber
  | inComment, .closeBrace => endComment
  | inComment, _ => inComment
  | less, .equal => lessEqual
  | less, .greater => notEqual
  | less, _ => endLess
  | greater, .equal => greaterEqual
  | greater, _ => endGreater
  | _, _ => start

def operatorKind : List Char → TokenKind
  | ['#'] => .unaryPlus
  | ['~'] => .unaryMinus
  | ['^'] => .power
  | ['+'] => .plus
  | ['-'] => .minus
  | ['*'] => .times
  | ['/'] => .divide
  | [';'] => .semicolon
  | ['.'] => .period
  | _ => .error

def always (kind : TokenKind) (retract : Bool) : Acceptor :=
  { retract, kind? := fun _ => some kind }

def acceptor? : ScanState → Option Acceptor
  | endIdent => some { retract := true, kind? := fun lexeme => some (.ofWord lexeme) }
  | endNumber => some (always .number true)
  | endComment => some { kind? := fun _ => none }
  | openParen => some (always .openParen false)
  | closeParen => some (always .closeParen false)
  | equal => some (always .equal false)
  | lessEqual => some (always .lessEqual false)
  | notEqual => some (always .notEqual false)
  | endLess => some (always .less true)
  | greaterEqual => some (always .greaterEqual false)
  | endGreater => some (always .greater true)
  | operator => some { kind? := fun lexeme => some (operatorKind lexeme) }
  | punctuation => some (always .error false)
  | start | inIdent | inNumber | inComment | less | greater => none

end ScanState

end ThreeAddress
