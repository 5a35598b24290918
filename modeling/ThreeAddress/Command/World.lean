import ThreeAddress.Command.FileTree
import ThreeAddress.Quad.Resolve
import ThreeAddress.Translator.Basic

namespace ThreeAddress

structure World where
  files : FileTree := {}
  out : Sink := {}
  /-- The pieces of text on standard error, the last first. -/
  complaints : List Bytes := []

namespace World

def print (w : World) (text : Bytes) : World := { w with out := w.out.write text }

def printLine (w : World) (text : Bytes) : World := w.print (text ++ [Bytes.newline])

def complain (w : World) (text : Bytes) : World :=
  { w with complaints := (text ++ [Bytes.newline]) :: w.complaints }

def errorText (w : World) : Bytes := w.complaints.reverse.flatten

def openFailure (path : Path) (e : FileError) : Failure :=
  .ofText (utf8 "open " ++ path ++ utf8 ": " ++ e.text)

/-- Opens a file for reading. A directory can be opened as well, but not read. -/
def openSource (w : World) (path : Path) : Except Failure Source :=
  match w.files.lookup path with
  | .ok (.file content) => .ok (.ofText content)
  | .ok .directory =>
    .ok [.failure (utf8 "read " ++ path ++ utf8 ": " ++ FileError.isDirectory.text)]
  | .error e => .error (openFailure path e)

def save (w : World) (path : Path) (content : Bytes) : Except Failure World :=
  match w.files.write path content with
  | .ok files => .ok { w with files }
  | .error e => .error (openFailure path e)

/-- Translates a source to a sink. Only the warnings of the scanner are told at once; the failure
is left to be told with the name of the file. -/
def translateTo (w : World) (source : Source) (sink : Sink) :
    Except Failure Unit × Sink × World :=
  let t := { Translator.ofSource source with emitter := { sink }, reporting := false }
  let (answer, t) := t.analyze
  (answer, t.emitter.sink, { w with complaints := t.log.map Diagnostic.line ++ w.complaints })

def reportFailure (w : World) (name : Path) (f : Failure) : World :=
  let severity := if f.isGrammar then utf8 "ParseError: " else utf8 "[FATAL] "
  w.complain (severity ++ name ++ utf8 ": " ++ f.message)

end World

end ThreeAddress
