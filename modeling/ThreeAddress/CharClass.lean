namespace ThreeAddress

inductive CharClass where
  | letter
  | digit
  | openBrace
  | closeBrace
  | openParen
  | closeParen
  | equal
  | less
  | greater
  /-- A character that is a token of its own: `#`, `~`, `^`, `+`, `-`, `*`, `/`, `;` or `.`. -/
  | operator
  /-- Every character that the language does not know. -/
  | punctuation
  | blank
  deriving DecidableEq

namespace CharClass

def ofChar? (c : Char) : Option CharClass :=
  if ('a' ≤ c ∧ c ≤ 'z') ∨ ('A' ≤ c ∧ c ≤ 'Z') then some letter
  else if '0' ≤ c ∧ c ≤ '9' then some digit
  else
    match c with
    | ' ' | '\t' | '\r' => some blank
    | '\x7b' => some openBrace
    | '\x7d' => some closeBrace
    | '(' => some openParen
    | ')' => some closeParen
    | '=' => some equal
    | '<' => some less
    | '>' => some greater
    | '#' | '~' | '^' | '+' | '-' | '*' | '/' | ';' | '.' => some operator
    | _ => none

/-- The class of any character: those that the language does not know are punctuation. -/
def ofChar (c : Char) : CharClass := (ofChar? c).getD punctuation

def ofCode? (code : Int) : Option CharClass :=
  if 0 ≤ code ∧ code.toNat.isValidChar then ofChar? (Char.ofNat code.toNat) else none

def code : CharClass → Nat
  | letter => 0
  | digit => 1
  | openBrace => 2
  | closeBrace => 3
  | openParen => 4
  | closeParen => 5
  | equal => 6
  | less => 7
  | greater => 8
  | operator => 9
  | punctuation => 10
  | blank => 11

end CharClass

end ThreeAddress
