import ThreeAddress.Diagnostic

namespace ThreeAddress

structure Pull (σ : Type) where
  answer : Except Failure Token
  stream : σ
  warnings : List Diagnostic := []

class TokenStream (σ : Type) where
  peek : σ → Pull σ
  pop : σ → Pull σ
  /-- How many tokens the stream can still give. -/
  supply : σ → Nat

/-- A list of tokens that counts the requests made to it. One request of each sort, told by its
number from zero, can be made to fail. -/
structure CountedTokens where
  tokens : List Token
  peeks : Nat := 0
  pops : Nat := 0
  peekFault : Option (Nat × Failure) := none
  popFault : Option (Nat × Failure) := none

namespace CountedTokens

def due (fault : Option (Nat × Failure)) (count : Nat) : Option Failure :=
  match fault with
  | some (number, failure) => if number = count then some failure else none
  | none => none

def head (s : CountedTokens) (failure : Option Failure) : Except Failure Token :=
  match failure, s.tokens with
  | some f, _ => .error f
  | none, [] => .error { cause := .unexpectedEnd }
  | none, token :: _ => .ok token

def peek (s : CountedTokens) : Pull CountedTokens :=
  { answer := s.head (due s.peekFault s.peeks), stream := { s with peeks := s.peeks + 1 } }

def pop (s : CountedTokens) : Pull CountedTokens :=
  let answer := s.head (due s.popFault s.pops)
  let tokens :=
    match answer with
    | .ok _ => s.tokens.tail
    | .error _ => s.tokens
  { answer, stream := { s with tokens, pops := s.pops + 1 } }

instance : TokenStream CountedTokens where
  peek := peek
  pop := pop
  supply s := s.tokens.length

end CountedTokens

end ThreeAddress
