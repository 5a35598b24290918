import ThreeAddress.Diagnostic
import ThreeAddress.Scan.State

namespace ThreeAddress

/-- Where the machine stands in a line, and what it has found, the last first. -/
structure ScanMachine where
  state : ScanState := .start
  /-- The characters of the lexeme being read, the last first. -/
  pending : List Char := []
  start : Nat := 0
  column : Nat := 0
  tokens : List Token := []
  warnings : List Diagnostic := []

namespace ScanMachine

def warn (line : Nat) (m : ScanMachine) (c : Char) : ScanMachine :=
  if CharClass.ofChar? c = none ∧ m.state ≠ .inComment then
    { m with warnings := .unknownInput c ⟨line, m.column⟩ :: m.warnings }
  else m

/-- Ends the lexeme being read and goes back to the start, in front of column `column`. -/
def finish (line : Nat) (m : ScanMachine) (kind? : List Char → Option TokenKind)
    (pending : List Char) (column : Nat) : ScanMachine :=
  let lexeme := pending.reverse
  let tokens :=
    match kind? lexeme with
    | some kind => ⟨kind, encode lexeme, ⟨line, m.start⟩⟩ :: m.tokens
    | none => m.tokens
  { m with state := .start, pending := [], start := column, column, tokens }

/-- Reads a character once. The flag tells whether the machine has passed it. -/
def step (line : Nat) (m : ScanMachine) (c : Char) : ScanMachine × Bool :=
  let state := m.state.next (.ofChar c)
  match state.acceptor? with
  | some a =>
    if a.retract then (m.finish line a.kind? m.pending m.column, false)
    else (m.finish line a.kind? (c :: m.pending) (m.column + 1), true)
  | none =>
    let column := m.column + 1
    if state = .start then ({ m with state, pending := [], start := column, column }, true)
    else ({ m with state, pending := c :: m.pending, column }, true)

def read (line : Nat) (m : ScanMachine) (c : Char) : ScanMachine :=
  match (m.warn line c).step line c with
  | (m, true) => m
  | (m, false) => (m.step line c).1

end ScanMachine

structure LineScan where
  tokens : List Token
  warnings : List Diagnostic

def scanChars (line : Nat) (cs : List Char) : LineScan :=
  let m := (cs ++ [' ']).foldl (ScanMachine.read line) {}
  { tokens := m.tokens.reverse, warnings := m.warnings.reverse }

def scanLine (line : Nat) (text : Bytes) : LineScan := scanChars line (decode text)

end ThreeAddress
