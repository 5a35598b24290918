import ThreeAddress.Proofs.Syntax
import ThreeAddress.Quad.Names

namespace ThreeAddress

def BinaryOperator.opcode : BinaryOperator → Opcode
  | add => .add
  | subtract => .sub
  | multiply => .mul
  | divide => .dvd
  | intDivide => .div
  | modulo => .mod
  | power => .exp

def UnaryOperator.opcode : UnaryOperator → Opcode
  | keep => .pls
  | negate => .neg

def Comparison.comparator : Comparison → Comparator
  | equal => .equal
  | less => .less
  | lessEqual => .lessEqual
  | greater => .greater
  | greaterEqual => .greaterEqual
  | notEqual => .notEqual

namespace Expression

/-- The number of operators. Each of them takes one temporary. -/
def operations : Expression → Nat
  | name _ | numeral _ => 0
  | unary _ e => e.operations + 1
  | binary _ a b => a.operations + b.operations + 1

def operand : Expression → Nat → Bytes
  | name x, _ | numeral x, _ => x
  | unary _ e, start => Names.temporaryName (start + e.operations)
  | binary _ a b, start => Names.temporaryName (start + a.operations + b.operations)

@[simp] theorem operand_unary (op : UnaryOperator) (e : Expression) (start : Nat) :
    (unary op e).operand start = Names.temporaryName (start + e.operations) := rfl

@[simp] theorem operand_binary (op : BinaryOperator) (a b : Expression) (start : Nat) :
    (binary op a b).operand start =
      Names.temporaryName (start + a.operations + b.operations) := rfl

def code : Expression → Nat → List Quad
  | name _, _ | numeral _, _ => []
  | unary op e, start =>
    e.code start ++
      [.unary op.opcode (e.operand start) (Names.temporaryName (start + e.operations))]
  | binary op a b, start =>
    a.code start ++ b.code (start + a.operations) ++
      [.binary op.opcode (a.operand start) (b.operand (start + a.operations))
        (Names.temporaryName (start + a.operations + b.operations))]

/-- The code has a quadruple for each operator, and their results are the next temporaries. -/
theorem map_code {β : Type} {f : Quad → β} {g : Nat → β}
    (hunary : ∀ (op : UnaryOperator) x k, f (.unary op.opcode x (Names.temporaryName k)) = g k)
    (hbinary : ∀ (op : BinaryOperator) x y k,
      f (.binary op.opcode x y (Names.temporaryName k)) = g k) (e : Expression) (start : Nat) :
    (e.code start).map f = (List.range' start e.operations).map g := by
  induction e generalizing start with
  | name x | numeral x => rfl
  | unary op e ih => simp [code, ih, hunary, operations, List.range'_1_concat]
  | binary op a b iha ihb =>
    have hrange : List.range' start (binary op a b).operations =
        List.range' start a.operations ++ List.range' (start + a.operations) b.operations ++
          [start + a.operations + b.operations] := by
      rw [operations, List.range'_1_concat, List.range'_append_1, Nat.add_assoc]
    simp [code, iha, ihb, hbinary, hrange, -List.range'_append_1]

end Expression

namespace Condition

def code (c : Condition) : List Quad := c.left.code 0 ++ c.right.code c.left.operations

/-- Goes on behind the label with number `inside` if the condition holds, and otherwise at the one
with number `behind`. -/
def branch (c : Condition) (inside behind : Nat) : List Quad :=
  [.test (c.left.operand 0) (c.right.operand c.left.operations) c.comparison.comparator
      (Names.labelName inside),
    .jump (Names.labelName behind), .label (Names.labelName inside)]

end Condition

namespace Statement

def labels : Statement → Nat
  | assign _ _ => 0
  | conditional _ s => s.labels + 2
  | loop _ s => s.labels + 3

/-- The code of a statement, if `first` is the number of its first label. -/
def code : Statement → Nat → List Quad
  | assign x e, _ => e.code 0 ++ [.move (e.operand 0) x]
  | conditional c s, first =>
    c.code ++ c.branch first (first + 1) ++ s.code (first + 2) ++
      [.label (Names.labelName (first + 1))]
  | loop c s, first =>
    .label (Names.labelName first) ::
      (c.code ++ c.branch (first + 1) (first + 2) ++ s.code (first + 3) ++
        [.jump (Names.labelName first), .label (Names.labelName (first + 2))])

end Statement

namespace Program

def labels : Program → Nat
  | [] => 0
  | s :: p => s.labels + Program.labels p

def code : Program → Nat → List Quad
  | [], _ => []
  | s :: p, first => s.code first ++ Program.code p (first + s.labels)

end Program

end ThreeAddress
