import Mathlib.Data.List.Basic
import ThreeAddress.Proofs.Labels

namespace ThreeAddress

def Opcode.isArithmetic : Opcode → Bool
  | add | sub | mul | dvd | div | mod | exp | pls | neg => true
  | _ => false

namespace Quad

def defined? (q : Quad) : Option Bytes := if q.op = .label then some q.args.flatten else none

def target? (q : Quad) : Option Bytes :=
  if q.op = .jmp ∨ q.op = .tst then q.args.getLast? else none

@[simp] theorem defined?_label (x : Bytes) : (Quad.label x).defined? = some x := by
  simp [defined?, Quad.label]

@[simp] theorem defined?_jump (x : Bytes) : (Quad.jump x).defined? = none := rfl

@[simp] theorem defined?_test (x y : Bytes) (c : Comparator) (z : Bytes) :
    (Quad.test x y c z).defined? = none := rfl

@[simp] theorem target?_label (x : Bytes) : (Quad.label x).target? = none := rfl

@[simp] theorem target?_jump (x : Bytes) : (Quad.jump x).target? = some x := rfl

@[simp] theorem target?_test (x y : Bytes) (c : Comparator) (z : Bytes) :
    (Quad.test x y c z).target? = some z := rfl

def Plain (q : Quad) : Prop := q.defined? = none ∧ q.target? = none

theorem plain_of_isArithmetic {q : Quad} (h : q.op.isArithmetic = true) : q.Plain := by
  obtain ⟨op, args⟩ := q
  cases op <;> first | exact ⟨rfl, rfl⟩ | cases h

theorem plain_move (x r : Bytes) : (Quad.move x r).Plain := ⟨rfl, rfl⟩

end Quad

def definitions (qs : List Quad) : List Bytes := qs.filterMap Quad.defined?

def targets (qs : List Quad) : List Bytes := qs.filterMap Quad.target?

@[simp] theorem definitions_nil : definitions [] = [] := rfl

@[simp] theorem definitions_cons (q : Quad) (qs : List Quad) :
    definitions (q :: qs) = q.defined?.toList ++ definitions qs := by
  cases h : q.defined? <;> simp [definitions, h]

@[simp] theorem definitions_append (qs qs' : List Quad) :
    definitions (qs ++ qs') = definitions qs ++ definitions qs' :=
  List.filterMap_append

@[simp] theorem targets_nil : targets [] = [] := rfl

@[simp] theorem targets_cons (q : Quad) (qs : List Quad) :
    targets (q :: qs) = q.target?.toList ++ targets qs := by
  cases h : q.target? <;> simp [targets, h]

@[simp] theorem targets_append (qs qs' : List Quad) :
    targets (qs ++ qs') = targets qs ++ targets qs' :=
  List.filterMap_append

open Names

inductive Quad.Computation : Quad → Prop
  | unary (op : UnaryOperator) (x : Bytes) (n : Nat) :
      Computation (.unary op.opcode x (temporaryName n))
  | binary (op : BinaryOperator) (x y : Bytes) (n : Nat) :
      Computation (.binary op.opcode x y (temporaryName n))

inductive Quad.Coded : Quad → Prop
  | computation {q : Quad} (h : q.Computation) : Coded q
  | move (x r : Bytes) : Coded (.move x r)
  | test (x y : Bytes) (c : Comparison) (n : Nat) : Coded (.test x y c.comparator (labelName n))
  | jump (n : Nat) : Coded (.jump (labelName n))
  | label (n : Nat) : Coded (.label (labelName n))

theorem Quad.Computation.isArithmetic {q : Quad} (h : q.Computation) :
    q.op.isArithmetic = true := by
  cases h with
  | unary op | binary op => cases op <;> rfl

theorem Expression.computation_code (e : Expression) (start : Nat) :
    ∀ q ∈ e.code start, q.Computation := by
  induction e generalizing start with
  | name x | numeral x => exact nofun
  | unary op e ih =>
    exact List.forall_mem_append.mpr ⟨ih start, List.forall_mem_singleton.mpr (.unary ..)⟩
  | binary op a b iha ihb =>
    exact List.forall_mem_append.mpr ⟨List.forall_mem_append.mpr ⟨iha start, ihb _⟩,
      List.forall_mem_singleton.mpr (.binary ..)⟩

theorem Condition.computation_code (c : Condition) : ∀ q ∈ c.code, q.Computation :=
  List.forall_mem_append.mpr ⟨c.left.computation_code _, c.right.computation_code _⟩

theorem Condition.coded_branch (c : Condition) (inside behind : Nat) :
    ∀ q ∈ c.branch inside behind, q.Coded := by
  simp only [branch, List.forall_mem_cons]
  exact ⟨.test .., .jump .., .label .., List.forall_mem_nil _⟩

theorem Statement.coded_code (s : Statement) (first : Nat) : ∀ q ∈ s.code first, q.Coded := by
  induction s generalizing first with
  | assign x e =>
    exact List.forall_mem_append.mpr ⟨fun q hq => .computation (e.computation_code 0 q hq),
      List.forall_mem_singleton.mpr (.move ..)⟩
  | conditional c s ih =>
    simp only [code, List.forall_mem_append, List.forall_mem_singleton]
    exact ⟨⟨⟨fun q hq => .computation (c.computation_code q hq), c.coded_branch _ _⟩, ih _⟩,
      .label ..⟩
  | loop c s ih =>
    simp only [code, List.forall_mem_append, List.forall_mem_cons]
    exact ⟨.label .., ⟨⟨fun q hq => .computation (c.computation_code q hq), c.coded_branch _ _⟩,
      ih _⟩, .jump .., .label .., List.forall_mem_nil _⟩

theorem Program.coded_code (p : Program) (first : Nat) : ∀ q ∈ p.code first, q.Coded := by
  induction p generalizing first with
  | nil => exact nofun
  | cons s p ih => exact List.forall_mem_append.mpr ⟨s.coded_code first, ih _⟩

theorem Quad.Coded.definedLabel?_instruction? {q : Quad} (h : q.Coded) :
    Instruction.definedLabel? q.instruction? = q.defined? := by
  cases h with
  | computation h =>
    rw [(plain_of_isArithmetic h.isArithmetic).1]
    cases h <;> simp [Instruction.definedLabel?]
  | move | test | jump | label => simp [Instruction.definedLabel?, (plain_move _ _).1]

theorem labels_instructions {qs : List Quad} (h : ∀ q ∈ qs, q.Coded) :
    (instructions qs).labels = definitions qs := by
  rw [Listing.labels, List.filterMap_map]
  exact List.filterMap_congr fun q hq => (h q hq).definedLabel?_instruction?

theorem targets_of_computation {qs : List Quad} (h : ∀ q ∈ qs, q.Computation) :
    targets qs = [] :=
  List.filterMap_eq_nil_iff.mpr fun q hq =>
    (Quad.plain_of_isArithmetic (h q hq).isArithmetic).2

end ThreeAddress
