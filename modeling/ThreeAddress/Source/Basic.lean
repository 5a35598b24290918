import ThreeAddress.Text.Bytes

namespace ThreeAddress

inductive SourceEvent where
  | data (bytes : Bytes)
  | failure (reason : Bytes)
  /-- An attempt to read finds the end of the source. More may follow. -/
  | ending
  deriving DecidableEq

abbrev Source := List SourceEvent

def Source.ofText (text : Bytes) : Source := [.data text]

inductive Signal where
  | byte (b : UInt8)
  | failure (reason : Bytes)
  | ending
  deriving DecidableEq

def SourceEvent.signals : SourceEvent → List Signal
  | data bytes => bytes.map Signal.byte
  | failure reason => [Signal.failure reason]
  | ending => [Signal.ending]

/-- The signals of a source: how its data is cut into events leaves no trace in them. -/
def Source.signals (source : Source) : List Signal := source.flatMap SourceEvent.signals

inductive LineReading where
  /-- A line, with its newline if it has one. -/
  | text (bytes : Bytes)
  /-- A failure. What had been read of the line is lost. -/
  | failure (reason : Bytes)
  | ending
  deriving DecidableEq

/-- The lines read so far and the line being read, all with the last element first. -/
structure LineReader where
  readings : List LineReading := []
  pending : Bytes := []

namespace LineReader

def atEnding (r : LineReader) : LineReading :=
  if r.pending = [] then .ending else .text r.pending.reverse

def accept (r : LineReader) : Signal → LineReader
  | .byte b =>
    let pending := b :: r.pending
    if b = Bytes.newline then { readings := .text pending.reverse :: r.readings }
    else { r with pending }
  | .failure reason => { readings := .failure reason :: r.readings }
  | .ending => { readings := r.atEnding :: r.readings }

end LineReader

def Source.lineReadings (source : Source) : List LineReading :=
  let r := source.signals.foldl LineReader.accept {}
  let last := if r.pending = [] then [] else [r.atEnding]
  r.readings.reverse ++ last

end ThreeAddress
