import ThreeAddress.Proofs.Syntax

namespace ThreeAddress

universe u

structure Interpretation (V : Type u) where
  numeral : Bytes → V
  unary : UnaryOperator → V → V
  binary : BinaryOperator → V → V → V
  compare : Comparison → V → V → Bool

abbrev Store (V : Type u) := Bytes → V

variable {V : Type u} (I : Interpretation V)

def Store.set (s : Store V) (x : Bytes) (v : V) : Store V := fun y => if y = x then v else s y

def Expression.value (s : Store V) : Expression → V
  | name x => s x
  | numeral x => I.numeral x
  | unary op e => I.unary op (e.value s)
  | binary op a b => I.binary op (a.value s) (b.value s)

def Condition.holds (s : Store V) (c : Condition) : Bool :=
  I.compare c.comparison (c.left.value I s) (c.right.value I s)

/-- The statement, started in one store, ends in another. -/
inductive Statement.Runs : Statement → Store V → Store V → Prop
  | assign (x : Bytes) (e : Expression) (s : Store V) :
      Runs (.assign x e) s (s.set x (e.value I s))
  | conditional_true {c : Condition} {b : Statement} {s t : Store V} (hc : c.holds I s = true)
      (hb : Runs b s t) : Runs (.conditional c b) s t
  | conditional_false {c : Condition} {b : Statement} {s : Store V} (hc : c.holds I s = false) :
      Runs (.conditional c b) s s
  | loop_true {c : Condition} {b : Statement} {s t u : Store V} (hc : c.holds I s = true)
      (hb : Runs b s t) (hl : Runs (.loop c b) t u) : Runs (.loop c b) s u
  | loop_false {c : Condition} {b : Statement} {s : Store V} (hc : c.holds I s = false) :
      Runs (.loop c b) s s

inductive Program.Runs : Program → Store V → Store V → Prop
  | done (s : Store V) : Runs [] s s
  | next {b : Statement} {p : Program} {s t u : Store V} (hb : b.Runs I s t) (hp : Runs p t u) :
      Runs (b :: p) s u

end ThreeAddress
