import ThreeAddress.Translator.Dialogue

namespace ThreeAddress

def Opcode.ofTermOperator? : TokenKind → Option Opcode
  | .plus => some .add
  | .minus => some .sub
  | _ => none

def Opcode.ofFactorOperator? : TokenKind → Option Opcode
  | .times => some .mul
  | .divide => some .dvd
  | .intDivide => some .div
  | .modulo => some .mod
  | _ => none

def Opcode.ofSign? : TokenKind → Option Opcode
  | .unaryPlus => some .pls
  | .unaryMinus => some .neg
  | _ => none

namespace Production

variable {ρ : Type}

/-- The part of a chain of operands after its first ones, whose value is in `left`: operators that
`operation?` knows, each with an operand after it. The chain groups to the left. -/
def chain (operation? : TokenKind → Option Opcode) (operand : Production ρ Bytes) :
    Nat → Bytes → Production ρ Bytes
  | 0, _ => outOfFuel
  | fuel + 1, left => do
    let token ← peek
    match operation? token.kind with
    | none => return left
    | some op => do
      let _ ← pop
      let right ← operand
      let result ← temporary
      emit (.binary op left right result)
      chain operation? operand fuel result

def base (value : Production ρ Bytes) : Production ρ Bytes := do
  let token ← peek
  match Opcode.ofSign? token.kind with
  | none => value
  | some op => do
    let _ ← pop
    let operand ← value
    let result ← temporary
    emit (.unary op operand result)
    return result

/-- Bases with `^` between them. The powers group to the right. -/
def factor (value : Production ρ Bytes) : Nat → Production ρ Bytes
  | 0 => outOfFuel
  | fuel + 1 => do
    let left ← base value
    if ← accept .power then
      let right ← factor value fuel
      let result ← temporary
      emit (.binary .exp left right result)
      return result
    else
      return left

def term (value : Production ρ Bytes) (fuel : Nat) : Production ρ Bytes := do
  let left ← factor value fuel
  chain Opcode.ofFactorOperator? (factor value fuel) fuel left

def sum (value : Production ρ Bytes) (fuel : Nat) : Production ρ Bytes := do
  let left ← term value fuel
  chain Opcode.ofTermOperator? (term value fuel) fuel left

def value : Nat → Production ρ Bytes
  | 0 => outOfFuel
  | fuel + 1 => do
    let token ← peek
    match token.kind with
    | .openParen => do
      let _ ← pop
      let operand ← sum (value fuel) fuel
      expect .closeParen (utf8 "Expected Close Parenthesis")
      return operand
    | .ident | .number => do
      let _ ← pop
      return token.lexeme
    | _ =>
      reject token (utf8 "Expected Open Parenthesis, Identifier, or Constant")
        [.openParen, .ident, .number]

def expression (fuel : Nat) : Production ρ Bytes := sum (value fuel) fuel

def comparator : Production ρ (Option Comparator) := do
  let token ← peek
  match Comparator.ofKind? token.kind with
  | none => return none
  | some c => do
    let _ ← pop
    return some c

def condition (place : Bytes) (fuel : Nat) : Production ρ (Bytes × Bytes × Comparator) := do
  let left ← expression fuel
  match ← comparator with
  | none => do
    let token ← peek
    reject token (utf8 "Error in " ++ place ++ utf8 ": comparison operator expected")
      [.equal, .less, .lessEqual, .greater, .greaterEqual, .notEqual]
  | some c => do
    let right ← expression fuel
    return (left, right, c)

def assignment (fuel : Nat) : Production ρ Unit := do
  let target ← pop
  expect .equal (utf8 "Expected '='")
  let operand ← expression fuel
  emit (.move operand target.lexeme)

/-- Code that runs `body` if the test succeeds and then goes on behind the label that is given. -/
def guarded (left right : Bytes) (c : Comparator) (body : Production ρ Unit) :
    Production ρ Bytes := do
  let inside ← label
  let behind ← label
  emit (.test left right c inside)
  emit (.jump behind)
  emit (.label inside)
  body
  return behind

def conditional (body : Production ρ Unit) (fuel : Nat) : Production ρ Unit := do
  let _ ← pop
  let (left, right, c) ← condition (utf8 "If statement") fuel
  expect .thenWord (utf8 "Error in If statement: Then expected")
  let behind ← guarded left right c body
  emit (.label behind)

def loop (body : Production ρ Unit) (fuel : Nat) : Production ρ Unit := do
  let _ ← pop
  let again ← label
  emit (.label again)
  let (left, right, c) ← condition (utf8 "While loop") fuel
  expect .doWord (utf8 "Error in While loop: Do expected")
  let behind ← guarded left right c body
  emit (.jump again)
  emit (.label behind)

def statementFrom (first : Token) (body : Production ρ Unit) (fuel : Nat) : Production ρ Unit :=
  match first.kind with
  | .ident => assignment fuel
  | .ifWord => conditional body fuel
  | .whileWord => loop body fuel
  | _ => reject first (utf8 "Expected statement") [.ident, .ifWord, .whileWord]

/-- A statement starts and ends with no temporary in use. -/
def statement : Nat → Production ρ Unit
  | 0 => outOfFuel
  | fuel + 1 => do
    releaseTemporaries
    let first ← peek
    statementFrom first (statement fuel) fuel
    releaseTemporaries

def startsStatement : TokenKind → Bool
  | .ident | .ifWord | .whileWord => true
  | _ => false

def statements : Nat → Production ρ Unit
  | 0 => outOfFuel
  | fuel + 1 => do
    let token ← peek
    if startsStatement token.kind then
      statement (fuel + 1)
      if ← accept .semicolon then
        statements fuel

def program (fuel : Nat) : Production ρ Unit := do
  expect .programWord (utf8 "Expected PROGRAM")
  statements fuel
  expect .endWord (utf8 "Expected END")
  expect .period (utf8 "Expected Period")

end Production

end ThreeAddress
