import ThreeAddress.Source.Basic

namespace ThreeAddress

structure DeliveredLine where
  text : Bytes
  failure : Option Bytes := none

structure TextLines where
  lines : List DeliveredLine
  /-- Why there are no more lines, if it is not the end of the source. -/
  failure : Option Bytes := none

namespace TextLines

/-- A line with this many bytes and no newline among them is too long. -/
def capacity : Nat := 65536

def tooLong : Bytes := utf8 "bufio.Scanner: token too long"

/-- The lines so far, the last first, and the line being read, the last byte first. -/
structure Collector where
  delivered : List DeliveredLine := []
  pending : Bytes := []
  length : Nat := 0
  /-- Set once nothing more is read, with the failure that is to blame. -/
  stopped : Option (Option Bytes) := none

namespace Collector

def complete : Bytes → Bytes
  | [] => []
  | b :: rest => if b = Bytes.carriageReturn then rest.reverse else (b :: rest).reverse

def stop (c : Collector) (failure : Option Bytes) : Collector :=
  let delivered :=
    if c.pending = [] then c.delivered else ⟨complete c.pending, failure⟩ :: c.delivered
  { delivered, stopped := some failure }

def push (c : Collector) (b : UInt8) : Collector :=
  if b = Bytes.newline then { delivered := ⟨complete c.pending, none⟩ :: c.delivered }
  else if c.length + 1 = capacity then { delivered := c.delivered, stopped := some (some tooLong) }
  else { c with pending := b :: c.pending, length := c.length + 1 }

def accept (c : Collector) (s : Signal) : Collector :=
  match c.stopped, s with
  | some _, _ => c
  | none, .byte b => c.push b
  | none, .failure reason => c.stop (some reason)
  | none, .ending => c.stop none

end Collector

end TextLines

def Source.textLines (source : Source) : TextLines :=
  let c := (source.signals ++ [Signal.ending]).foldl TextLines.Collector.accept {}
  { lines := c.delivered.reverse, failure := c.stopped.getD none }

end ThreeAddress
