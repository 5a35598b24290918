import ThreeAddress.Proofs.Code
import ThreeAddress.Proofs.Reading
import ThreeAddress.Proofs.Unambiguity

namespace ThreeAddress

variable {ρ : Type}

namespace Tier

def operation? : Tier → TokenKind → Option Opcode
  | product => Opcode.ofFactorOperator?
  | sum => Opcode.ofTermOperator?

def operands (limit : Nat) : Tier → Production ρ Bytes
  | product => .factor (.value limit) limit
  | sum => .term (.value limit) limit

theorem operation?_kind {tier : Tier} {op : BinaryOperator} (h : op.tier = some tier) :
    tier.operation? op.kind = some op.opcode := by
  cases op <;> simp [BinaryOperator.tier] at h <;> subst h <;> rfl

theorem isSome_operation? (tier : Tier) (kind : TokenKind) :
    (tier.operation? kind).isSome = tier.operates kind := by
  cases tier <;> cases kind <;> rfl

theorem operation?_eq_none {tier : Tier} {t : Token} {ts : List Token}
    (h : (Form.chain tier).Ends (t :: ts)) : tier.operation? t.kind = none := by
  cases h with
  | token _ ht =>
    rw [Form.continues_chain, Bool.or_eq_false_iff, ← isSome_operation?] at ht
    simpa using ht.2

end Tier

namespace Form

/-- The production that reads a form. If this is the rest of a chain, the value of the part before
is in `left`. `fuel` bounds the recursion of the production itself and `limit` that of those it
uses. -/
def production (limit fuel : Nat) (left : Bytes) : Form → Production ρ Bytes
  | value => .value fuel
  | base => .base (.value limit)
  | factor => .factor (.value limit) fuel
  | chain .product => .term (.value limit) limit
  | chain .sum => .sum (.value limit) limit
  | rest tier _ => .chain tier.operation? (tier.operands limit) fuel left

def operand (start : Nat) : Form → Bytes
  | rest _ left => left.operand start
  | _ => []

def operations : Form → Nat
  | rest _ left => left.operations
  | _ => 0

def code (start : Nat) : Form → List Quad
  | rest _ left => left.code start
  | _ => []

@[simp] theorem operations_operand (tier : Tier) : tier.operand.operations = 0 := by
  cases tier <;> rfl

@[simp] theorem code_operand (tier : Tier) (start : Nat) : tier.operand.code start = [] := by
  cases tier <;> rfl

theorem production_operand (tier : Tier) (limit : Nat) (left : Bytes) :
    (tier.operand.production limit limit left : Production ρ Bytes) = tier.operands limit := by
  cases tier <;> rfl

theorem production_chain (tier : Tier) (limit fuel : Nat) (left : Bytes)
    (next : Bytes → Dialogue ρ) :
    (chain tier).production limit fuel left next = tier.operands limit fun left =>
      Production.chain tier.operation? (tier.operands limit) limit left next := by
  cases tier <;> rfl

end Form

theorem UnaryOperator.ofSign?_kind (op : UnaryOperator) :
    Opcode.ofSign? op.kind = some op.opcode := by
  cases op <;> rfl

theorem Expression.Spelled.ofSign?_head {e : Expression} {t : Token} {ts : List Token}
    (h : e.Spelled .value (t :: ts)) : Opcode.ofSign? t.kind = none := by
  obtain ⟨u, us, hu, ht⟩ := h.value_cons
  obtain ⟨rfl, -⟩ := List.cons.inj hu
  rcases ht with ht | ht | ht <;> rw [ht] <;> rfl

/-- A production that reads an expression passes its tokens, emits its code and goes on with the
operand that holds its value. -/
theorem Expression.Spelled.read {form : Form} {e : Expression} {p r : List Token}
    (h : e.Spelled form p) {limit fuel : Nat} (hl : (p ++ r).length < limit)
    (hf : (p ++ r).length < fuel) (hr : form.Ends r) (start : Nat) (next : Bytes → Dialogue ρ)
    (f : Failure) (j : Nat) (qs : List Quad) :
    (form.production limit fuel (form.operand start) next).read
        ⟨p ++ r, f, ⟨start + form.operations, j⟩, qs ++ form.code start⟩ =
      (next (e.operand start)).read ⟨r, f, ⟨start + e.operations, j⟩, qs ++ e.code start⟩ := by
  induction h generalizing r limit fuel start next qs with
  | name ht =>
    obtain ⟨fuel, rfl⟩ := Nat.exists_eq_succ_of_ne_zero (Nat.ne_zero_of_lt hf)
    exact Production.read_value_word (.inl ht) fuel next
  | numeral ht =>
    obtain ⟨fuel, rfl⟩ := Nat.exists_eq_succ_of_ne_zero (Nat.ne_zero_of_lt hf)
    exact Production.read_value_word (.inr ht) fuel next
  | @paren o c e ts ho he hc ih =>
    obtain ⟨fuel, rfl⟩ := Nat.exists_eq_succ_of_ne_zero (Nat.ne_zero_of_lt hf)
    have hn : (ts ++ c :: r).length < fuel := by simp at hf ⊢; omega
    simp only [Form.production, List.cons_append, List.append_assoc, List.nil_append]
    rw [Production.read_value_paren ho]
    refine (ih hn hn (.token _ (by rw [hc]; rfl)) start _ qs).trans ?_
    simp [hc]
  | plain he ih =>
    obtain ⟨t, ts, rfl, -⟩ := he.value_cons
    simp only [Form.production, List.cons_append]
    rw [Production.read_base_plain he.ofSign?_head]
    exact ih hl hl (.value r) start next qs
  | @signed t op e ts ht he ih =>
    have hn : (ts ++ r).length < limit := by simp at hl ⊢; omega
    simp only [Form.production, List.cons_append]
    rw [Production.read_base_signed (by rw [ht, op.ofSign?_kind])]
    refine (ih hn hn (.value r) start _ qs).trans ?_
    simp [Expression.operations, Expression.code, Nat.add_assoc]
  | single he ih =>
    obtain ⟨fuel, rfl⟩ := Nat.exists_eq_succ_of_ne_zero (Nat.ne_zero_of_lt hf)
    simp only [Form.production]
    rw [Production.read_factor]
    refine (ih hl hf (.base r) start _ qs).trans ?_
    cases hr with
    | token ts ht =>
      have hk := of_decide_eq_false ht
      simp [hk]
  | @power x a b ts us ha hx hb iha ihb =>
    obtain ⟨fuel, rfl⟩ := Nat.exists_eq_succ_of_ne_zero (Nat.ne_zero_of_lt hf)
    have hn : (us ++ r).length < limit := by simp at hl ⊢; omega
    have hm : (us ++ r).length < fuel := by simp at hf ⊢; omega
    rw [List.append_assoc] at hl hf ⊢
    simp only [Form.production]
    rw [Production.read_factor]
    refine (iha hl hf (.base _) start _ qs).trans ?_
    simp only [List.cons_append, Production.read_accept_cons, hx, ↓reduceIte]
    have hread := fun next => ihb hn hm hr (start + a.operations) next (qs ++ a.code start)
    simp only [Form.code, List.append_nil] at hread
    refine (hread _).trans ?_
    simp [Expression.operations, Expression.code, Nat.add_assoc, BinaryOperator.opcode]
  | @chain tier a e ts us ha hs iha ihs =>
    have hn : (us ++ r).length < limit := by simp at hl ⊢; omega
    rw [List.append_assoc] at hl ⊢
    have hread := fun next => iha hl hl (hs.ends_operand hr) start next qs
    simp only [Form.production_operand, Form.operations_operand, Form.code_operand] at hread
    rw [Form.production_chain]
    exact (hread _).trans (ihs hn hn (Form.Ends.rest_iff.mpr hr) start next qs)
  | @done tier a =>
    obtain ⟨fuel, rfl⟩ := Nat.exists_eq_succ_of_ne_zero (Nat.ne_zero_of_lt hf)
    have hr' := Form.Ends.rest_iff.mp hr
    cases hr with
    | token ts ht =>
      exact Production.read_chain_done (Tier.operation?_eq_none hr') _ fuel _ next
  | @more tier op x a b e ts us ho hx hb hs ihb ihs =>
    obtain ⟨fuel, rfl⟩ := Nat.exists_eq_succ_of_ne_zero (Nat.ne_zero_of_lt hf)
    have hr' := Form.Ends.rest_iff.mp hr
    have hm : (ts ++ (us ++ r)).length < limit := by simp at hl ⊢; omega
    have hn : (us ++ r).length < limit := by simp at hl ⊢; omega
    have hk : (us ++ r).length < fuel := by simp at hf ⊢; omega
    simp only [Form.production, List.cons_append, List.append_assoc]
    rw [Production.read_chain_more (by rw [hx, Tier.operation?_kind ho])]
    have hread := fun next => ihb hm hm (hs.ends_operand hr') (start + a.operations) next
      (qs ++ a.code start)
    simp only [Form.production_operand, Form.operations_operand, Form.code_operand,
      List.append_nil] at hread
    refine (hread _).trans ?_
    have hrest := ihs hn hk (Form.Ends.rest_iff.mpr hr') start next qs
    simpa [Form.production, Form.operand, Form.operations, Form.code, Expression.operations,
      Expression.code, Nat.add_assoc] using hrest

theorem Expression.Spelled.read_expression {e : Expression} {p r : List Token}
    (h : e.Spelled (.chain .sum) p) {fuel : Nat} (hf : (p ++ r).length < fuel)
    (hr : (Form.chain .sum).Ends r) (start : Nat) (next : Bytes → Dialogue ρ) (f : Failure)
    (j : Nat) (qs : List Quad) :
    (Production.expression fuel next).read ⟨p ++ r, f, ⟨start, j⟩, qs⟩ =
      (next (e.operand start)).read ⟨r, f, ⟨start + e.operations, j⟩, qs ++ e.code start⟩ := by
  have hread := h.read hf hf hr start next f j qs
  simp only [Form.operations, Form.code, Nat.add_zero, List.append_nil] at hread
  exact hread

theorem Comparison.ofKind?_kind (c : Comparison) :
    Comparator.ofKind? c.kind = some c.comparator := by
  cases c <;> rfl

theorem Condition.Spelled.read {c : Condition} {p r : List Token} (h : c.Spelled p) {fuel : Nat}
    (hf : (p ++ r).length < fuel) (hr : (Form.chain .sum).Ends r) (place : Bytes)
    (next : Bytes × Bytes × Comparator → Dialogue ρ) (f : Failure) (j : Nat) (qs : List Quad) :
    (Production.condition place fuel next).read ⟨p ++ r, f, ⟨0, j⟩, qs⟩ =
      (next (c.left.operand 0, c.right.operand c.left.operations,
        c.comparison.comparator)).read
          ⟨r, f, ⟨c.left.operations + c.right.operations, j⟩, qs ++ c.code⟩ := by
  cases h with
  | @compare x c a b ts us ha hx hb =>
    have hn : (us ++ r).length < fuel := by simp at hf ⊢; omega
    rw [List.append_assoc] at hf ⊢
    rw [Production.read_condition, ha.read_expression hf (Comparison.ends_chain hx _ _),
      List.cons_append, Production.read_comparator_some (by rw [hx, c.ofKind?_kind])]
    rw [hb.read_expression hn hr]
    simp [Condition.code]

/-- A statement takes its labels and gives all its temporaries back. -/
theorem Statement.Spelled.read {s : Statement} {p r : List Token} (h : s.Spelled p) {fuel : Nat}
    (hf : (p ++ r).length < fuel) (hr : (Form.chain .sum).Ends r) (next : Unit → Dialogue ρ)
    (f : Failure) (i j : Nat) (qs : List Quad) :
    (Production.statement fuel next).read ⟨p ++ r, f, ⟨i, j⟩, qs⟩ =
      (next ()).read ⟨r, f, ⟨0, j + s.labels⟩, qs ++ s.code j⟩ := by
  induction h generalizing r fuel next i j qs with
  | @assign t x e ts ht hx he =>
    obtain ⟨fuel, rfl⟩ := Nat.exists_eq_succ_of_ne_zero (Nat.ne_zero_of_lt hf)
    have hn : (ts ++ r).length < fuel := by simp at hf ⊢; omega
    simp only [List.cons_append, Production.read_statement_assign ht,
      Production.read_expect_cons, hx, ↓reduceIte, he.read_expression hn hr]
    simp [Statement.labels, Statement.code]
  | @conditional i t c s ts us hi hc ht hs ih =>
    obtain ⟨fuel, rfl⟩ := Nat.exists_eq_succ_of_ne_zero (Nat.ne_zero_of_lt hf)
    have hn : (ts ++ t :: (us ++ r)).length < fuel := by simp at hf ⊢; omega
    have hm : (us ++ r).length < fuel := by simp at hf ⊢; omega
    simp only [List.cons_append, List.append_assoc, Production.read_statement_conditional hi,
      hc.read hn (.token _ (by rw [ht]; rfl)), Production.read_expect_cons, ht, ↓reduceIte,
      Production.read_guarded, ih hm hr]
    have hj : j + 2 + s.labels = j + (s.labels + 2) := by omega
    simp [Statement.labels, Statement.code, Condition.branch, hj]
  | @loop w d c s ts us hw hc hd hs ih =>
    obtain ⟨fuel, rfl⟩ := Nat.exists_eq_succ_of_ne_zero (Nat.ne_zero_of_lt hf)
    have hn : (ts ++ d :: (us ++ r)).length < fuel := by simp at hf ⊢; omega
    have hm : (us ++ r).length < fuel := by simp at hf ⊢; omega
    simp only [List.cons_append, List.append_assoc, Production.read_statement_loop hw,
      hc.read hn (.token _ (by rw [hd]; rfl)), Production.read_expect_cons, hd, ↓reduceIte,
      Production.read_guarded, ih hm hr]
    have hj : j + 1 + 2 + s.labels = j + (s.labels + 3) := by omega
    simp [Statement.labels, Statement.code, Condition.branch, hj]

theorem Statement.Spelled.startsStatement_head {s : Statement} {t : Token} {ts : List Token}
    (h : s.Spelled (t :: ts)) : Production.startsStatement t.kind = true := by
  obtain ⟨u, us, hu, ht⟩ := h.cons
  obtain ⟨rfl, -⟩ := List.cons.inj hu
  rcases ht with ht | ht | ht <;> rw [ht] <;> rfl

namespace Program

theorem Listed.read {q : Program} {p r : List Token} {e : Token} (h : q.Listed p)
    (he : e.kind = .endWord) {fuel : Nat} (hf : (p ++ e :: r).length < fuel)
    (next : Unit → Dialogue ρ) (f : Failure) (i j : Nat) (qs : List Quad) :
    (Production.statements fuel next).read ⟨p ++ e :: r, f, ⟨i, j⟩, qs⟩ =
      (next ()).read ⟨e :: r, f, ⟨if q.isEmpty then i else 0, j + q.labels⟩, qs ++ q.code j⟩ := by
  induction h generalizing fuel i j qs with
  | none =>
    obtain ⟨fuel, rfl⟩ := Nat.exists_eq_succ_of_ne_zero (Nat.ne_zero_of_lt hf)
    rw [List.nil_append, Production.read_statements_none (by rw [he]; rfl)]
    simp [Program.labels, Program.code]
  | one hs =>
    obtain ⟨fuel, rfl⟩ := Nat.exists_eq_succ_of_ne_zero (Nat.ne_zero_of_lt hf)
    obtain ⟨t, ts, rfl, -⟩ := hs.cons
    rw [List.cons_append, Production.read_statements_some hs.startsStatement_head,
      ← List.cons_append, hs.read hf (.token _ (by rw [he]; rfl))]
    simp [he, Program.labels, Program.code]
  | @more x s q ts us hs hx hq ih =>
    obtain ⟨fuel, rfl⟩ := Nat.exists_eq_succ_of_ne_zero (Nat.ne_zero_of_lt hf)
    have hn : (us ++ e :: r).length < fuel := by simp at hf ⊢; omega
    rw [List.append_assoc] at hf ⊢
    obtain ⟨t, ts, rfl, -⟩ := hs.cons
    rw [List.cons_append, Production.read_statements_some hs.startsStatement_head,
      ← List.cons_append, hs.read hf (.token _ (by rw [hx]; rfl))]
    simp [hx, ih hn, Program.labels, Program.code, Nat.add_assoc]

theorem Spelled.read {q : Program} {p r : List Token} (h : q.Spelled p) {fuel : Nat}
    (hf : (p ++ r).length ≤ fuel) (next : Unit → Dialogue ρ) (f : Failure) (qs : List Quad) :
    (Production.program fuel next).read ⟨p ++ r, f, {}, qs⟩ =
      (next ()).read ⟨r, f, ⟨0, q.labels⟩, qs ++ q.code 0⟩ := by
  cases h with
  | @program b e d q ts hb hq he hd =>
    have hn : (ts ++ e :: d :: r).length < fuel := by simp at hf ⊢; omega
    simp only [List.cons_append, List.append_assoc, List.nil_append, Production.read_program,
      Production.read_expect_cons, hb, ↓reduceIte, hq.read he hn, he, hd, Nat.zero_add, ite_self]

end Program

end ThreeAddress
