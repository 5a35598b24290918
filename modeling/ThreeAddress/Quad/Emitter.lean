import ThreeAddress.Failure
import ThreeAddress.Quad.Basic

namespace ThreeAddress

structure Sink where
  /-- The pieces written, the last first. -/
  written : List Bytes := []
  /-- The number of attempts to write, those that failed included. -/
  attempts : Nat := 0
  /-- How many attempts succeed, if not all do. -/
  limit : Option Nat := none

namespace Sink

def full (s : Sink) : Bool :=
  match s.limit with
  | none => false
  | some n => n ≤ s.attempts

def refusal : Bytes := utf8 "no space left on device"

def write (s : Sink) (piece : Bytes) : Sink :=
  let written := if s.full then s.written else piece :: s.written
  { s with written, attempts := s.attempts + 1 }

def text (s : Sink) : Bytes := s.written.reverse.flatten

end Sink

structure Emitter where
  sink : Sink := {}
  failure : Option Failure := none

namespace Emitter

def emit (e : Emitter) (q : Quad) : Emitter :=
  match e.failure with
  | some _ => e
  | none =>
    { sink := e.sink.write q.line
      failure := if e.sink.full then some (.explain .outputWrite Sink.refusal) else none }

end Emitter

end ThreeAddress
