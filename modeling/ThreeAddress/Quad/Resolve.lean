import ThreeAddress.Quad.Basic
import ThreeAddress.Text.Split

namespace ThreeAddress

namespace Resolve

structure Layout where
  instructions : List Bytes := []
  size : Nat := 0
  /-- Each label with the number of the instruction after it. -/
  labels : List (Bytes × Nat) := []
  /-- Whether the last line defines a label. -/
  trailing : Bool := false

/-- Instructions have a field mark; a line without one defines a label. -/
def Layout.add (l : Layout) (line : Bytes) : Layout :=
  if line = [] then l
  else if (fields line).length = 1 then
    { l with labels := (line, l.size + 1) :: l.labels, trailing := true }
  else { l with instructions := line :: l.instructions, size := l.size + 1, trailing := false }

def retarget (labels : List (Bytes × Nat)) (instruction : Bytes) : Bytes :=
  let parts := fields instruction
  if parts.head? = some Opcode.jmp.mnemonic ∨ parts.head? = some Opcode.tst.mnemonic then
    match parts.getLast?.bind fun last => labels.lookup last with
    | some number => Bytes.join fieldMark (parts.dropLast ++ [decimal number])
    | none => instruction
  else instruction

end Resolve

open Resolve

/-- Resolves the labels of a listing. Labels after the last instruction stand before a `HALT`,
which is added for them. -/
def resolveLabels (listing : Bytes) : Bytes :=
  let body := listing.dropEndWhile fun b => b = Bytes.newline
  let layout := (lines body).foldl Layout.add {}
  let halt :=
    if layout.trailing ∧ layout.instructions ≠ [] then [Opcode.halt.mnemonic] else []
  let instructions := layout.instructions.reverse ++ halt
  instructions.flatMap fun i => retarget layout.labels i ++ [Bytes.newline]

end ThreeAddress
