import ThreeAddress.Token.Basic

namespace ThreeAddress

structure GrammarError where
  message : Bytes
  found : Bytes
  expected : List Bytes
  position : Position
  deriving DecidableEq

def GrammarError.text (e : GrammarError) : Bytes :=
  let complaint :=
    if e.message = [] then
      utf8 "found " ++ e.found ++ utf8 ", expected " ++ Bytes.join (utf8 ", ") e.expected
    else e.message
  complaint ++ utf8 " at " ++ e.position.text

inductive Cause where
  | grammar (error : GrammarError)
  | unexpectedEnd
  | sourceRead
  | outputWrite
  | endOfInput
  | other (text : Bytes)
  /-- More steps were needed than the tokens allow for. -/
  | outOfFuel
  deriving DecidableEq

def Cause.text : Cause → Bytes
  | .grammar e => e.text
  | .unexpectedEnd => utf8 "source ended while tokens were still expected"
  | .sourceRead => utf8 "the lexical analyzer failed to read the source"
  | .outputWrite => utf8 "cannot write quadruples"
  | .endOfInput => utf8 "EOF"
  | .other text => text
  | .outOfFuel => utf8 "out of fuel"

structure Failure where
  cause : Cause
  before : Bytes := []
  after : Bytes := []
  deriving DecidableEq

namespace Failure

def message (f : Failure) : Bytes := f.before ++ f.cause.text ++ f.after

def ofText (text : Bytes) : Failure := { cause := .other text }

def within (context : Bytes) (f : Failure) : Failure :=
  { f with before := context ++ utf8 ": " ++ f.before }

def explain (cause : Cause) (reason : Bytes) : Failure :=
  { cause, after := utf8 ": " ++ reason }

/-- After a violation of the grammar a batch of programs goes on; every other failure is fatal. -/
def isGrammar (f : Failure) : Bool :=
  match f.cause with
  | .grammar _ => true
  | _ => false

end Failure

end ThreeAddress
