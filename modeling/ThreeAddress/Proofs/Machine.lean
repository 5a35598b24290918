import ThreeAddress.Proofs.Lexeme
import ThreeAddress.Proofs.Meaning
import ThreeAddress.Text.Split

namespace ThreeAddress

universe u

inductive Instruction where
  | label (name : Bytes)
  | jump (target : Bytes)
  | test (left right : Bytes) (c : Comparison) (target : Bytes)
  | move (operand result : Bytes)
  | unary (op : UnaryOperator) (operand result : Bytes)
  | binary (op : BinaryOperator) (left right result : Bytes)
  deriving DecidableEq

def UnaryOperator.ofMnemonic? (m : Bytes) : Option UnaryOperator :=
  [(utf8 "PLS", keep), (utf8 "NEG", negate)].lookup m

def BinaryOperator.ofMnemonic? (m : Bytes) : Option BinaryOperator :=
  [(utf8 "ADD", add), (utf8 "SUB", subtract), (utf8 "MUL", multiply), (utf8 "DVD", divide),
    (utf8 "DIV", intDivide), (utf8 "MOD", modulo), (utf8 "EXP", power)].lookup m

def Comparison.ofDigit? (d : Bytes) : Option Comparison :=
  [(utf8 "0", equal), (utf8 "1", less), (utf8 "2", lessEqual), (utf8 "3", greater),
    (utf8 "4", greaterEqual), (utf8 "5", notEqual)].lookup d

/-- The instruction of a line with the given fields. A line of one field defines a label. -/
def Instruction.ofFields? : List Bytes → Option Instruction
  | [name] => some (.label name)
  | [m, target] => if m = utf8 "JMP" then some (.jump target) else none
  | [m, operand, result] =>
    if m = utf8 "MOV" then some (.move operand result)
    else (UnaryOperator.ofMnemonic? m).map fun op => .unary op operand result
  | [m, left, right, result] =>
    (BinaryOperator.ofMnemonic? m).map fun op => .binary op left right result
  | [m, left, right, d, target] =>
    if m = utf8 "TST" then (Comparison.ofDigit? d).map fun c => .test left right c target
    else none
  | _ => none

abbrev Listing := List (Option Instruction)

def Listing.ofText (text : Bytes) : Listing :=
  (lines text).dropLast.map fun line => Instruction.ofFields? (fields line)

def isNumeral : Bytes → Bool
  | [] => false
  | b :: _ => Bytes.isDigit b

structure Configuration (V : Type u) where
  /-- The number of the next line, from zero. -/
  position : Nat
  store : Store V

variable {V : Type u} (I : Interpretation V)

def Interpretation.operand (s : Store V) (x : Bytes) : V :=
  if isNumeral x then I.numeral x else s x

def Instruction.execute (find : Bytes → Option Nat) (m : Configuration V) :
    Instruction → Option (Configuration V)
  | label _ => some { m with position := m.position + 1 }
  | jump target => (find target).map fun position => { m with position }
  | test left right c target =>
    if I.compare c (I.operand m.store left) (I.operand m.store right) then
      (find target).map fun position => { m with position }
    else some { m with position := m.position + 1 }
  | move x r => some ⟨m.position + 1, m.store.set r (I.operand m.store x)⟩
  | unary op x r => some ⟨m.position + 1, m.store.set r (I.unary op (I.operand m.store x))⟩
  | binary op x y r =>
    some ⟨m.position + 1, m.store.set r (I.binary op (I.operand m.store x) (I.operand m.store y))⟩

namespace Listing

def find (l : Listing) (name : Bytes) : Option Nat := l.idxOf? (some (.label name))

/-- What one step leads to. There is none after the last line, at a line that is no instruction, and
to a label that is not there. -/
def step (l : Listing) (m : Configuration V) : Option (Configuration V) :=
  match l[m.position]? with
  | some (some i) => i.execute I l.find m
  | _ => none

def steps (l : Listing) : Nat → Configuration V → Option (Configuration V)
  | 0, m => some m
  | n + 1, m => (l.step I m).bind (l.steps n)

/-- Started at the first line, the machine passes the last line and leaves the store `t`. -/
def Stops (l : Listing) (s t : Store V) : Prop :=
  ∃ n, l.steps I n ⟨0, s⟩ = some ⟨l.length, t⟩

variable {I} {l : Listing}

theorem steps_add (a b : Nat) (m : Configuration V) :
    l.steps I (a + b) m = (l.steps I a m).bind (l.steps I b) := by
  induction a generalizing m with
  | zero => rw [Nat.zero_add]; rfl
  | succ a ih =>
    rw [Nat.succ_add]
    cases h : l.step I m with
    | none => simp [steps, h]
    | some m' => simp [steps, h, ih]

theorem steps_trans {a b : Nat} {m m' m'' : Configuration V} (h : l.steps I a m = some m')
    (h' : l.steps I b m' = some m'') : l.steps I (a + b) m = some m'' := by
  rw [steps_add, h]
  exact h'

theorem steps_one {m m' : Configuration V} (h : l.step I m = some m') :
    l.steps I 1 m = some m' := by
  simp [steps, h]

theorem step_of_length_le {m : Configuration V} (h : l.length ≤ m.position) :
    l.step I m = none := by
  simp [step, List.getElem?_eq_none h]

theorem steps_of_stops {a n : Nat} {m m' : Configuration V} {t : Store V}
    (h : l.steps I a m = some m') (hn : l.steps I n m = some ⟨l.length, t⟩) :
    ∃ b, n = a + b ∧ l.steps I b m' = some ⟨l.length, t⟩ := by
  by_cases hle : a ≤ n
  · obtain ⟨b, rfl⟩ := Nat.exists_eq_add_of_le hle
    rw [steps_add, h] at hn
    exact ⟨b, rfl, hn⟩
  · obtain ⟨b, rfl⟩ := Nat.exists_eq_add_of_lt (Nat.lt_of_not_le hle)
    rw [Nat.add_assoc, steps_add, hn] at h
    simp [steps, step_of_length_le] at h

theorem Stops.unique {s t t' : Store V} (h : l.Stops I s t) (h' : l.Stops I s t') : t = t' := by
  obtain ⟨n, hn⟩ := h
  obtain ⟨n', hn'⟩ := h'
  obtain ⟨b, -, hb⟩ := steps_of_stops hn hn'
  cases b with
  | zero =>
    simp only [steps, Option.some.injEq, Configuration.mk.injEq, true_and] at hb
    exact hb
  | succ b => simp [steps, step_of_length_le] at hb

end Listing

end ThreeAddress
