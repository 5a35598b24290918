import ThreeAddress.Scan.Machine
import ThreeAddress.Source.Basic

namespace ThreeAddress

structure LineAnswer where
  tokens : Except Failure (List Token)
  warnings : List Diagnostic := []

structure Scanner where
  /-- What the requests for a line to come will give. -/
  readings : List LineReading
  line : Nat := 0
  reporting : Bool := true

namespace Scanner

def ofSource (source : Source) : Scanner := { readings := source.lineReadings }

/-- Scans a text as the next line would be scanned, without counting it. -/
def scanText (s : Scanner) (text : Bytes) : LineScan :=
  let scan := scanLine s.line text
  { scan with warnings := if s.reporting then scan.warnings else [] }

def trimLineEnd (text : Bytes) : Bytes :=
  text.dropEndWhile fun b => b = Bytes.carriageReturn || b = Bytes.newline

def readFailure (s : Scanner) (reason : Bytes) : Failure :=
  .explain .sourceRead (utf8 "line " ++ decimal (s.line + 1) ++ utf8 ": " ++ reason)

def nextLine (s : Scanner) : LineAnswer × Scanner :=
  match s.readings with
  | [] => ({ tokens := .error { cause := .endOfInput } }, s)
  | .ending :: readings => ({ tokens := .error { cause := .endOfInput } }, { s with readings })
  | .failure reason :: readings =>
    ({ tokens := .error (s.readFailure reason) }, { s with readings })
  | .text text :: readings =>
    let scan := s.scanText (trimLineEnd text)
    ({ tokens := .ok scan.tokens, warnings := scan.warnings },
      { s with readings, line := s.line + 1 })

def answers (s : Scanner) : List LineAnswer :=
  let ask := fun (p : Scanner × List LineAnswer) (_ : LineReading) =>
    let (answer, s) := p.1.nextLine
    (s, answer :: p.2)
  (s.readings.foldl ask (s, [])).2.reverse

end Scanner

end ThreeAddress
