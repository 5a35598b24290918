import ThreeAddress.Failure
import ThreeAddress.Text.Quoted

namespace ThreeAddress

inductive Diagnostic where
  | unknownInput (char : Char) (position : Position)
  | error (error : GrammarError)
  | fatal (failure : Failure)
  deriving DecidableEq

namespace Diagnostic

def text : Diagnostic → Bytes
  | unknownInput char position =>
    utf8 "[WARN] unknown input " ++ quotedChar char ++ utf8 " at " ++ position.text
  | error e => utf8 "[ERROR] " ++ e.text
  | fatal f => utf8 "[FATAL] " ++ f.message

def line (d : Diagnostic) : Bytes := d.text ++ [Bytes.newline]

end Diagnostic

end ThreeAddress
