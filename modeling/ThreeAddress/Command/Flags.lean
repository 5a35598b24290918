import ThreeAddress.Text.Quoted

namespace ThreeAddress

structure Options where
  interactive : Bool := false
  resolve : Bool := false
  extension : Bytes := utf8 ".tac"
  deriving DecidableEq

inductive FlagError where
  | malformed (argument : Bytes)
  | undefined (name : Bytes)
  /-- No mistake: the usage was asked for. -/
  | help
  | notBoolean (name value : Bytes)
  | missingValue (name : Bytes)
  deriving DecidableEq

namespace FlagError

def message? : FlagError → Option Bytes
  | malformed argument => some (utf8 "bad flag syntax: " ++ argument)
  | undefined name => some (utf8 "flag provided but not defined: -" ++ name)
  | help => none
  | notBoolean name value =>
    some (utf8 "invalid boolean value " ++ quotedText value ++ utf8 " for -" ++ name ++
      utf8 ": parse error")
  | missingValue name => some (utf8 "flag needs an argument: -" ++ name)

def usage : Bytes :=
  utf8 "Usage of tacc:\n" ++
  utf8 "  -ext string\n" ++
  utf8 "    \textension of the output files (default \".tac\")\n" ++
  utf8 "  -i\tread programs from standard input\n" ++
  utf8 "  -resolve\n" ++
  utf8 "    \treplace labels with instruction numbers\n"

def text (e : FlagError) : Bytes :=
  match e.message? with
  | some message => message ++ [Bytes.newline] ++ usage
  | none => usage

end FlagError

inductive Argument where
  | operand
  | terminator
  | malformed
  | flag (name : Bytes) (value? : Option Bytes)

namespace Argument

def dash : UInt8 := 45

def equals : UInt8 := 61

def ofFlagText (text : Bytes) : Argument :=
  match text with
  | [] => malformed
  | b :: _ =>
    if b = dash ∨ b = equals then malformed
    else
      let name := text.takeWhile (· ≠ equals)
      match text.dropWhile (· ≠ equals) with
      | [] => flag name none
      | _ :: value => flag name (some value)

def ofText : Bytes → Argument
  | a :: b :: rest =>
    if a ≠ dash then operand
    else if b ≠ dash then ofFlagText (b :: rest)
    else if rest = [] then terminator
    else ofFlagText rest
  | _ => operand

end Argument

namespace Options

def truths : List Bytes := ["1", "t", "T", "TRUE", "true", "True"].map utf8

def falsehoods : List Bytes := ["0", "f", "F", "FALSE", "false", "False"].map utf8

/-- The value of a flag that is on or off. Alone it is on. -/
def boolean (name : Bytes) : Option Bytes → Except FlagError Bool
  | none => .ok true
  | some value =>
    if value ∈ truths then .ok true
    else if value ∈ falsehoods then .ok false
    else .error (.notBoolean name value)

/-- Reads the flags at the front of the arguments, the last of each sort counting, and gives what
comes after them. -/
def parse (o : Options) : List Bytes → Except FlagError (Options × List Bytes)
  | [] => .ok (o, [])
  | argument :: rest =>
    match Argument.ofText argument with
    | .operand => .ok (o, argument :: rest)
    | .terminator => .ok (o, rest)
    | .malformed => .error (.malformed argument)
    | .flag name value? =>
      if name = utf8 "i" then do
        let interactive ← boolean name value?
        parse { o with interactive } rest
      else if name = utf8 "resolve" then do
        let resolve ← boolean name value?
        parse { o with resolve } rest
      else if name = utf8 "ext" then
        match value?, rest with
        | some extension, rest => parse { o with extension } rest
        | none, extension :: rest => parse { o with extension } rest
        | none, [] => .error (.missingValue name)
      else if name = utf8 "h" ∨ name = utf8 "help" then .error .help
      else .error (.undefined name)

end Options

end ThreeAddress
