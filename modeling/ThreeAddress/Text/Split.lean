import ThreeAddress.Text.Bytes

namespace ThreeAddress

/-- The mark between two fields of a quadruple: a comma and a space. -/
def fieldMark : Bytes := [44, 32]

namespace Split

/-- Pieces cut off so far and the piece being read, all with the last element first. -/
structure Pieces where
  done : List Bytes := []
  current : Bytes := []

def Pieces.push (p : Pieces) (b : UInt8) : Pieces := { p with current := b :: p.current }

def Pieces.cut (p : Pieces) : Pieces := { done := p.current.reverse :: p.done }

def Pieces.toList (p : Pieces) : List Bytes := p.cut.done.reverse

def fieldsFrom (p : Pieces) : Bytes → Pieces
  | [] => p
  | 44 :: 32 :: rest => fieldsFrom p.cut rest
  | b :: rest => fieldsFrom (p.push b) rest

end Split

open Split

/-- The pieces of a text between the bytes `mark`: one more than there are such bytes. -/
def cutAt (mark : UInt8) (text : Bytes) : List Bytes :=
  (text.foldl (fun p b => if b = mark then p.cut else p.push b) {} : Pieces).toList

def lines (text : Bytes) : List Bytes := cutAt Bytes.newline text

def fields (text : Bytes) : List Bytes := (fieldsFrom {} text).toList

end ThreeAddress
