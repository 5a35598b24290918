import ThreeAddress.Proofs.Syntax

namespace ThreeAddress

/-- The forms of a whole expression by rank, which tells how loosely they bind. -/
def Form.ofRank : Nat → Form
  | 0 => value
  | 1 => base
  | 2 => factor
  | 3 => chain .product
  | _ => chain .sum

namespace BinaryOperator

def rank (op : BinaryOperator) : Nat :=
  match op.tier with
  | none => 2
  | some .product => 3
  | some .sum => 4

def leftRank (op : BinaryOperator) : Nat :=
  match op.tier with
  | none => 1
  | some _ => op.rank

def rightRank (op : BinaryOperator) : Nat :=
  match op.tier with
  | none => op.rank
  | some _ => op.rank - 1

end BinaryOperator

def enclose : Nat → List Token → List Token
  | 0, ts => ts
  | n + 1, ts => Token.ofKind .openParen :: (enclose n ts ++ [Token.ofKind .closeParen])

namespace Expression

/-- The tokens of an expression where an expression of the given rank is called for. Every part
`e` of it, the whole included, gets `extra e` pairs of parentheses more than it needs. -/
def tokens (extra : Expression → Nat) : Expression → Nat → List Token
  | name x, _ => enclose (extra (name x)) [⟨.ident, x, {}⟩]
  | numeral x, _ => enclose (extra (numeral x)) [⟨.number, x, {}⟩]
  | unary op e, rank =>
    enclose (extra (unary op e) + if 1 ≤ rank then 0 else 1)
      (Token.ofKind op.kind :: e.tokens extra 0)
  | binary op a b, rank =>
    enclose (extra (binary op a b) + if op.rank ≤ rank then 0 else 1)
      (a.tokens extra op.leftRank ++ Token.ofKind op.kind :: b.tokens extra op.rightRank)

namespace Spelled

variable {e : Expression} {ts : List Token}

theorem loosen_succ {m : Nat} (h : e.Spelled (.ofRank m) ts) : e.Spelled (.ofRank (m + 1)) ts := by
  match m with
  | 0 => exact .plain h
  | 1 => exact .single h
  | 2 => exact .whole h
  | 3 => exact .whole h
  | m + 4 => exact h

/-- What stands where a rank is called for also stands where a looser one is. -/
theorem loosen {m n : Nat} (h : e.Spelled (.ofRank m) ts) (hm : m ≤ n) :
    e.Spelled (.ofRank n) ts := by
  induction hm with
  | refl => exact h
  | step _ ih => exact ih.loosen_succ

theorem enclose {m : Nat} (h : e.Spelled (.ofRank m) ts) (k : Nat) :
    e.Spelled (.ofRank 0) (enclose (k + 1) ts) := by
  induction k with
  | zero => exact .paren rfl (h.loosen (Nat.le_add_right m 4)) rfl
  | succ k ih => exact .paren rfl (ih.loosen (Nat.zero_le 4)) rfl

/-- An expression of one rank stands where another is called for, in a pair of parentheses if it
is too loose. -/
theorem fit {m : Nat} (h : e.Spelled (.ofRank m) ts) (k n : Nat) :
    e.Spelled (.ofRank n) (ThreeAddress.enclose (k + if m ≤ n then 0 else 1) ts) := by
  by_cases hm : m ≤ n
  · rw [if_pos hm]
    cases k with
    | zero => exact h.loosen hm
    | succ k => exact (h.enclose k).loosen (Nat.zero_le n)
  · rw [if_neg hm]
    exact (h.enclose k).loosen (Nat.zero_le n)

theorem binary (op : BinaryOperator) {a b : Expression} {us : List Token}
    (ha : a.Spelled (.ofRank op.leftRank) ts) (hb : b.Spelled (.ofRank op.rightRank) us) :
    (Expression.binary op a b).Spelled (.ofRank op.rank) (ts ++ Token.ofKind op.kind :: us) := by
  cases op with
  | power => exact .power ha rfl hb
  | multiply | divide | intDivide | modulo => exact ha.snoc rfl rfl hb
  | add | subtract => exact ha.snoc rfl rfl hb

end Spelled

theorem spelled_tokens (extra : Expression → Nat) (e : Expression) (rank : Nat) :
    e.Spelled (.ofRank rank) (e.tokens extra rank) := by
  induction e generalizing rank with
  | name x =>
    have h : (Expression.name x).Spelled (.ofRank 0) [⟨.ident, x, {}⟩] :=
      .name (t := ⟨.ident, x, {}⟩) rfl
    simpa [tokens] using h.fit (extra (.name x)) rank
  | numeral x =>
    have h : (Expression.numeral x).Spelled (.ofRank 0) [⟨.number, x, {}⟩] :=
      .numeral (t := ⟨.number, x, {}⟩) rfl
    simpa [tokens] using h.fit (extra (.numeral x)) rank
  | unary op e ih =>
    have h : (Expression.unary op e).Spelled (.ofRank 1) (Token.ofKind op.kind :: _) :=
      .signed rfl (ih 0)
    exact h.fit (extra (.unary op e)) rank
  | binary op a b iha ihb =>
    exact (Spelled.binary op (iha op.leftRank) (ihb op.rightRank)).fit (extra (.binary op a b)) rank

end Expression

section

variable (extra : Expression → Nat)

def Condition.tokens (c : Condition) : List Token :=
  c.left.tokens extra 4 ++ Token.ofKind c.comparison.kind :: c.right.tokens extra 4

def Statement.tokens : Statement → List Token
  | assign x e => ⟨.ident, x, {}⟩ :: Token.ofKind .equal :: e.tokens extra 4
  | conditional c s =>
    Token.ofKind .ifWord :: (c.tokens extra ++ Token.ofKind .thenWord :: s.tokens)
  | loop c s =>
    Token.ofKind .whileWord :: (c.tokens extra ++ Token.ofKind .doWord :: s.tokens)

def Program.body (terminated : Bool) : Program → List Token
  | [] => []
  | [s] => s.tokens extra ++ if terminated then [Token.ofKind .semicolon] else []
  | s :: p => s.tokens extra ++ Token.ofKind .semicolon :: body terminated p

/-- The tokens of a program, with `extra e` pairs of parentheses around every part `e` of its
expressions that are not needed. -/
def Program.tokens (terminated : Bool) (p : Program) : List Token :=
  Token.ofKind .programWord ::
    (p.body extra terminated ++ [Token.ofKind .endWord, Token.ofKind .period])

theorem Condition.spelled_tokens (c : Condition) : c.Spelled (c.tokens extra) :=
  .compare (c.left.spelled_tokens extra 4) rfl (c.right.spelled_tokens extra 4)

theorem Statement.spelled_tokens (s : Statement) : s.Spelled (s.tokens extra) := by
  induction s with
  | assign x e => exact .assign (t := ⟨.ident, x, {}⟩) rfl rfl (e.spelled_tokens extra 4)
  | conditional c s ih => exact .conditional rfl (c.spelled_tokens extra) rfl ih
  | loop c s ih => exact .loop rfl (c.spelled_tokens extra) rfl ih

theorem Program.listed_body (terminated : Bool) (p : Program) :
    p.Listed (p.body extra terminated) := by
  fun_induction p.body extra terminated with
  | case1 => exact .none
  | case2 s =>
    cases terminated with
    | false => simpa using Listed.one (s.spelled_tokens extra)
    | true => exact .more (s.spelled_tokens extra) rfl .none
  | case3 s p _ ih => exact .more (s.spelled_tokens extra) rfl ih

theorem Program.spelled_tokens (terminated : Bool) (p : Program) :
    p.Spelled (p.tokens extra terminated) :=
  .program rfl (p.listed_body extra terminated) rfl rfl

end

end ThreeAddress
