import ThreeAddress.Scan.Scanner
import ThreeAddress.Token.Stream

namespace ThreeAddress

structure Cursor where
  queue : List Token := []
  /-- What the requests for a line to come will give. After the last the feed stays at its end. -/
  feed : List LineAnswer
  calls : Nat := 0

namespace Cursor

def ofScanner (scanner : Scanner) : Cursor := { feed := scanner.answers }

/-- How a failure to get a line is passed on. The end of the feed is unexpected, since a token was
asked for; every other failure is one of reading the source. -/
def lineFailure (f : Failure) : Failure :=
  match f.cause with
  | .endOfInput => { cause := .unexpectedEnd }
  | .sourceRead => f
  | _ => .explain .sourceRead f.message

/-- Asks for lines until one has a token. The list holds the warnings so far. -/
def refill (warnings : List Diagnostic) (calls : Nat) : List LineAnswer →
    Except Failure (Token × List Token) × Cursor × List Diagnostic
  | [] => (.error { cause := .unexpectedEnd }, { feed := [], calls := calls + 1 }, warnings)
  | answer :: feed =>
    let warnings := warnings ++ answer.warnings
    match answer.tokens with
    | .error f => (.error (lineFailure f), { feed, calls := calls + 1 }, warnings)
    | .ok [] => refill warnings (calls + 1) feed
    | .ok (token :: queue) =>
      (.ok (token, queue), { queue := token :: queue, feed, calls := calls + 1 }, warnings)

def fill (c : Cursor) : Except Failure (Token × List Token) × Cursor × List Diagnostic :=
  match c.queue with
  | token :: queue => (.ok (token, queue), c, [])
  | [] => refill [] c.calls c.feed

def peek (c : Cursor) : Pull Cursor :=
  let (answer, stream, warnings) := c.fill
  { answer := answer.map Prod.fst, stream, warnings }

def pop (c : Cursor) : Pull Cursor :=
  match c.fill with
  | (.ok (token, queue), c, warnings) =>
    { answer := .ok token, stream := { c with queue }, warnings }
  | (.error f, stream, warnings) => { answer := .error f, stream, warnings }

def lineSupply (answer : LineAnswer) : Nat :=
  match answer.tokens with
  | .ok tokens => tokens.length
  | .error _ => 0

def feedSupply : List LineAnswer → Nat
  | [] => 0
  | answer :: feed => lineSupply answer + feedSupply feed

instance : TokenStream Cursor where
  peek := peek
  pop := pop
  supply c := c.queue.length + feedSupply c.feed

end Cursor

end ThreeAddress
