import ThreeAddress.Numbering
import ThreeAddress.Text.Bytes

namespace ThreeAddress

inductive TokenKind where
  | ident
  | number
  | openParen
  | closeParen
  /-- `#`, the sign that keeps its operand. -/
  | unaryPlus
  /-- `~`, the sign that negates its operand. -/
  | unaryMinus
  | plus
  | minus
  | times
  | divide
  | equal
  | intDivide
  | modulo
  | power
  | semicolon
  | period
  | programWord
  | endWord
  | less
  | lessEqual
  | greater
  | greaterEqual
  | notEqual
  | ifWord
  | thenWord
  | whileWord
  | doWord
  /-- A character that starts no other token. -/
  | error
  /-- A number that belongs to no kind above. -/
  | other (code : Int)
  deriving DecidableEq

namespace TokenKind

def all : List TokenKind :=
  [ident, number, openParen, closeParen, unaryPlus, unaryMinus, plus, minus, times, divide, equal,
    intDivide, modulo, power, semicolon, period, programWord, endWord, less, lessEqual, greater,
    greaterEqual, notEqual, ifWord, thenWord, whileWord, doWord, error]

def ofCode (code : Int) : TokenKind := ofNumber all other code

def code : TokenKind → Int
  | ident => 0
  | number => 1
  | openParen => 2
  | closeParen => 3
  | unaryPlus => 4
  | unaryMinus => 5
  | plus => 6
  | minus => 7
  | times => 8
  | divide => 9
  | equal => 10
  | intDivide => 11
  | modulo => 12
  | power => 13
  | semicolon => 14
  | period => 15
  | programWord => 16
  | endWord => 17
  | less => 18
  | lessEqual => 19
  | greater => 20
  | greaterEqual => 21
  | notEqual => 22
  | ifWord => 23
  | thenWord => 24
  | whileWord => 25
  | doWord => 26
  | error => 27
  | other code => code

/-- How a message names the kind: the spelling of its tokens where there is only one. -/
def text : TokenKind → Bytes
  | ident => utf8 "IDENT"
  | number => utf8 "NUMBER"
  | openParen => utf8 "("
  | closeParen => utf8 ")"
  | unaryPlus => utf8 "#"
  | unaryMinus => utf8 "~"
  | plus => utf8 "+"
  | minus => utf8 "-"
  | times => utf8 "*"
  | divide => utf8 "/"
  | equal => utf8 "="
  | intDivide => utf8 "DIV"
  | modulo => utf8 "MOD"
  | power => utf8 "^"
  | semicolon => utf8 ";"
  | period => utf8 "."
  | programWord => utf8 "PROGRAM"
  | endWord => utf8 "END"
  | less => utf8 "<"
  | lessEqual => utf8 "<="
  | greater => utf8 ">"
  | greaterEqual => utf8 ">="
  | notEqual => utf8 "<>"
  | ifWord => utf8 "IF"
  | thenWord => utf8 "THEN"
  | whileWord => utf8 "WHILE"
  | doWord => utf8 "DO"
  | error => utf8 "ERROR"
  | other _ => []

theorem code_ofCode (n : Int) : (ofCode n).code = n :=
  number_ofNumber (by decide) (fun _ => rfl) n

end TokenKind

end ThreeAddress
