import ThreeAddress.Proofs.Lexeme
import ThreeAddress.Proofs.Parallel
import ThreeAddress.Proofs.Recognition
import ThreeAddress.Proofs.Simulation.Expression

namespace ThreeAddress

open Names

def Opcode.computes : Opcode → Bool
  | .mov | .add | .sub | .mul | .dvd | .div | .mod | .exp | .pls | .neg => true
  | .label | .tst | .jmp | .halt | .other _ => false

namespace Quad

def operands (q : Quad) : List Bytes :=
  if q.op.computes then q.args.dropLast else if q.op = .tst then q.args.take 2 else []

def result? (q : Quad) : Option Bytes :=
  if q.op.computes then q.args.getLast? else none

@[simp] theorem operands_unary (op : UnaryOperator) (x r : Bytes) :
    (unary op.opcode x r).operands = [x] := by
  cases op <;> rfl

@[simp] theorem result?_unary (op : UnaryOperator) (x r : Bytes) :
    (unary op.opcode x r).result? = some r := by
  cases op <;> rfl

@[simp] theorem operands_binary (op : BinaryOperator) (x y r : Bytes) :
    (binary op.opcode x y r).operands = [x, y] := by
  cases op <;> rfl

@[simp] theorem result?_binary (op : BinaryOperator) (x y r : Bytes) :
    (binary op.opcode x y r).result? = some r := by
  cases op <;> rfl

end Quad

/-- The quadruples set the temporaries with the numbers from `first` up to `last`, each once, and no
others. Each of them is used once, after it has been set, or else is still to be used as one of the
operands in `pending`. -/
structure Linear (first last : Nat) (quads : List Quad) (pending : List Bytes) : Prop where
  le : first ≤ last
  set_once (k : Nat) : (quads.filterMap Quad.result?).count (temporaryName k) =
    if first ≤ k ∧ k < last then 1 else 0
  used_once (k : Nat) : (quads.flatMap Quad.operands ++ pending).count (temporaryName k) =
    if first ≤ k ∧ k < last then 1 else 0
  set_before {before after : List Quad} {q : Quad} (h : quads = before ++ q :: after) {k : Nat}
    (hk : temporaryName k ∈ q.operands) : ∃ d ∈ before, d.result? = some (temporaryName k)

namespace Linear

variable {first last : Nat} {quads : List Quad} {pending used : List Bytes} {q : Quad}

theorem nil (k : Nat) : Linear k k [] [] where
  le := Nat.le_refl k
  set_once j := by simp
  used_once j := by simp
  set_before h := by simp at h

theorem count_of_not_isTemporary {x : Bytes} (hx : ¬IsTemporary x) (k : Nat) :
    [x].count (temporaryName k) = 0 :=
  List.count_eq_zero.mpr fun hk => hx ⟨k, (List.mem_singleton.mp hk).symm⟩

theorem count_temporaryName (j k : Nat) :
    [temporaryName j].count (temporaryName k) = if j = k then 1 else 0 := by
  simp [List.count_singleton, temporaryName_inj]

theorem push {x : Bytes} (h : Linear first last quads pending) (hx : ¬IsTemporary x) :
    Linear first last quads (pending ++ [x]) where
  le := h.le
  set_once := h.set_once
  used_once k := by
    rw [← List.append_assoc, List.count_append, h.used_once, count_of_not_isTemporary hx]
    rfl
  set_before := h.set_before

theorem exists_result (h : Linear first last quads pending) {k : Nat}
    (hk : temporaryName k ∈ pending) : ∃ d ∈ quads, d.result? = some (temporaryName k) := by
  have hused := h.used_once k
  have hpos : 0 < (quads.flatMap Quad.operands ++ pending).count (temporaryName k) :=
    List.count_pos_iff.mpr (List.mem_append_right _ hk)
  have hset : 0 < (quads.filterMap Quad.result?).count (temporaryName k) := by
    rw [h.set_once, ← hused]
    exact hpos
  exact List.mem_filterMap.mp (List.count_pos_iff.mp hset)

theorem set_before_concat (h : Linear first last quads (pending ++ used))
    (hq : q.operands = used) {before after : List Quad} {q' : Quad}
    (hcut : quads ++ [q] = before ++ q' :: after) {k : Nat} (hk : temporaryName k ∈ q'.operands) :
    ∃ d ∈ before, d.result? = some (temporaryName k) := by
  rcases List.eq_nil_or_concat after with rfl | ⟨after, z, rfl⟩
  · obtain ⟨rfl, hlast⟩ := List.append_inj' hcut rfl
    cases hlast
    exact h.exists_result (List.mem_append_right _ (hq ▸ hk))
  · rw [List.concat_eq_append, ← List.cons_append, ← List.append_assoc] at hcut
    exact h.set_before (List.append_inj' hcut rfl).1 hk

theorem emit (h : Linear first last quads (pending ++ used)) (hq : q.operands = used)
    (hr : ∀ k, q.result? ≠ some (temporaryName k)) :
    Linear first last (quads ++ [q]) pending where
  le := h.le
  set_once k := by
    have hresult : ([q].filterMap Quad.result?).count (temporaryName k) = 0 := by
      refine List.count_eq_zero.mpr fun hk => ?_
      obtain ⟨d, hd, hdk⟩ := List.mem_filterMap.mp hk
      exact hr k (List.mem_singleton.mp hd ▸ hdk)
    rw [List.filterMap_append, List.count_append, h.set_once, hresult]
    rfl
  used_once k := by
    have hused := h.used_once k
    simp only [List.count_append] at hused
    simp only [List.flatMap_append, List.flatMap_singleton, hq, List.count_append]
    omega
  set_before := h.set_before_concat hq

/-- A quadruple that uses what is to be used next, and sets the next temporary, which is to be used
then. -/
theorem emit_value (h : Linear first last quads (pending ++ used)) (hq : q.operands = used)
    (hr : q.result? = some (temporaryName last)) :
    Linear first (last + 1) (quads ++ [q]) (pending ++ [temporaryName last]) where
  le := Nat.le_succ_of_le h.le
  set_once k := by
    have hle := h.le
    have hresult : [q].filterMap Quad.result? = [temporaryName last] := by simp [hr]
    rw [List.filterMap_append, List.count_append, h.set_once, hresult, count_temporaryName]
    split_ifs <;> omega
  used_once k := by
    have hle := h.le
    have hused := h.used_once k
    simp only [List.count_append] at hused
    simp only [List.flatMap_append, List.flatMap_singleton, hq, List.count_append,
      count_temporaryName]
    split_ifs at hused ⊢ <;> omega
  set_before := h.set_before_concat hq

/-- The code of an expression uses up what it computes, except for its value. -/
theorem code {e : Expression} {start : Nat} (h : Linear first start quads pending)
    (he : e.Over (¬IsTemporary ·) (¬IsTemporary ·)) :
    Linear first (start + e.operations) (quads ++ e.code start) (pending ++ [e.operand start]) := by
  induction e generalizing start quads pending with
  | name x | numeral x =>
    rw [Expression.code, List.append_nil]
    exact h.push he
  | unary op e ih =>
    rw [Expression.code, ← List.append_assoc]
    exact (ih h he).emit_value (Quad.operands_unary ..) (Quad.result?_unary ..)
  | binary op a b iha ihb =>
    have hab := ihb (iha h he.1) he.2
    rw [List.append_assoc pending] at hab
    have hlast : start + (Expression.binary op a b).operations =
        start + a.operations + b.operations + 1 := by
      simp only [Expression.operations, Nat.add_assoc]
    rw [Expression.code, ← List.append_assoc, ← List.append_assoc, hlast]
    exact hab.emit_value (Quad.operands_binary ..) (Quad.result?_binary ..)

end Linear

def TokenKind.isOperator : TokenKind → Bool
  | .unaryPlus | .unaryMinus | .plus | .minus | .times | .divide | .intDivide | .modulo
  | .power => true
  | _ => false

theorem UnaryOperator.isOperator_kind (op : UnaryOperator) : op.kind.isOperator = true := by
  cases op <;> rfl

theorem BinaryOperator.isOperator_kind (op : BinaryOperator) : op.kind.isOperator = true := by
  cases op <;> rfl

def operators (ts : List Token) : Nat := ts.countP fun t => t.kind.isOperator

def words (ts : List Token) : List Bytes := ts.filterMap Token.word?

@[simp] theorem operators_nil : operators [] = 0 := rfl

@[simp] theorem operators_cons (t : Token) (ts : List Token) :
    operators (t :: ts) = (if t.kind.isOperator then 1 else 0) + operators ts := by
  rw [operators, List.countP_cons, Nat.add_comm]
  rfl

@[simp] theorem operators_append (ts us : List Token) :
    operators (ts ++ us) = operators ts + operators us := List.countP_append

@[simp] theorem words_nil : words [] = [] := rfl

theorem words_cons_of_kind {t : Token} (hi : t.kind ≠ .ident) (hn : t.kind ≠ .number)
    (ts : List Token) : words (t :: ts) = words ts := by
  simp [words, Token.word?, hi, hn]

@[simp] theorem words_append (ts us : List Token) :
    words (ts ++ us) = words ts ++ words us := List.filterMap_append

def Expression.words : Expression → List Bytes
  | name x | numeral x => [x]
  | unary _ e => e.words
  | binary _ a b => a.words ++ b.words

def Form.words : Form → List Bytes
  | rest _ left => left.words
  | _ => []

@[simp] theorem Form.words_operand (tier : Tier) : tier.operand.words = [] := by
  cases tier <;> rfl

namespace Expression

theorem Spelled.operators_eq {form : Form} {e : Expression} {p : List Token}
    (h : e.Spelled form p) : form.operations + operators p = e.operations := by
  induction h with
  | name ht | numeral ht => simp [operators, ht, TokenKind.isOperator, operations, Form.operations]
  | paren ho he hc ih => simpa [ho, hc, TokenKind.isOperator, Form.operations] using ih
  | plain he ih | single he ih => exact ih
  | @signed t op e ts ht he ih =>
    simp only [operators_cons, ht, op.isOperator_kind, operations, ← ih, Form.operations,
      ↓reduceIte]
    omega
  | power ha hx hb iha ihb =>
    simp only [operators_append, operators_cons, hx, TokenKind.isOperator, operations, ← iha, ← ihb,
      Form.operations, ↓reduceIte]
    omega
  | chain ha hr iha ihr =>
    rw [Form.operations_operand, Nat.zero_add] at iha
    simp only [operators_append, ← ihr, Form.operations, iha, Nat.zero_add]
  | done => rfl
  | @more tier op x a b e ts us ho hx hb hr ihb ihr =>
    rw [Form.operations_operand, Nat.zero_add] at ihb
    simp only [operators_cons, operators_append, hx, op.isOperator_kind, ← ihr, Form.operations,
      operations, ihb, ↓reduceIte]
    omega

theorem Spelled.words_eq {form : Form} {e : Expression} {p : List Token}
    (h : e.Spelled form p) : form.words ++ ThreeAddress.words p = e.words := by
  induction h with
  | name ht | numeral ht =>
    simp [ThreeAddress.words, Token.word?, ht, words, Form.words]
  | paren ho he hc ih =>
    rw [words_cons_of_kind (by simp [ho]) (by simp [ho]), words_append,
      words_cons_of_kind (by simp [hc]) (by simp [hc]), words_nil, List.append_nil]
    exact ih
  | plain he ih | single he ih => exact ih
  | @signed t op e ts ht he ih =>
    rw [words_cons_of_kind (by rw [ht]; cases op <;> simp [UnaryOperator.kind])
      (by rw [ht]; cases op <;> simp [UnaryOperator.kind])]
    exact ih
  | power ha hx hb iha ihb =>
    rw [words_append, words_cons_of_kind (by simp [hx]) (by simp [hx]), words, ← iha, ← ihb]
    rfl
  | chain ha hr iha ihr =>
    rw [words_append, ← ihr, Form.words, ← iha, Form.words_operand]
    rfl
  | done => exact List.append_nil _
  | @more tier op x a b e ts us ho hx hb hr ihb ihr =>
    rw [words_cons_of_kind (by rw [hx]; cases op <;> simp [BinaryOperator.kind])
      (by rw [hx]; cases op <;> simp [BinaryOperator.kind]), words_append, ← ihr, Form.words,
      Form.words, words, ← ihb, Form.words_operand]
    simp

theorem operand_of_pos {e : Expression} (h : 0 < e.operations) (start : Nat) :
    e.operand start = temporaryName (start + e.operations - 1) := by
  cases e with
  | name x | numeral x => cases h
  | unary op e => rfl
  | binary op a b => simp [operations, ← Nat.add_assoc]

theorem operand_of_zero {e : Expression} (h : e.operations = 0) (start : Nat) :
    e.words = [e.operand start] := by
  cases e with
  | name x | numeral x => rfl
  | unary op e | binary op a b => cases h

end Expression

/-- The quadruples set `n` temporaries, from the one with the number `first` on, each quadruple one
of them. A temporary is used only after it has been set, each but the last once, and the last, which
is the operand, by none of the quadruples. -/
structure LinearCode (first n : Nat) (quads : List Quad) (operand : Bytes) : Prop where
  results : quads.map Quad.result? = (List.range' first n).map fun k => some (temporaryName k)
  set_before {before after : List Quad} {q : Quad} (h : quads = before ++ q :: after) {k : Nat}
    (hk : temporaryName k ∈ q.operands) : ∃ d ∈ before, d.result? = some (temporaryName k)
  used_once {k : Nat} (hfirst : first ≤ k) (hlast : k + 1 < first + n) :
    (quads.flatMap Quad.operands).count (temporaryName k) = 1
  operand_eq (h : 0 < n) : operand = temporaryName (first + n - 1)
  not_mem (h : 0 < n) : operand ∉ quads.flatMap Quad.operands

theorem Expression.linearCode {e : Expression} (he : e.Over (¬IsTemporary ·) (¬IsTemporary ·))
    (start : Nat) : LinearCode start e.operations (e.code start) (e.operand start) := by
  have hlinear : Linear start (start + e.operations) (e.code start) [e.operand start] :=
    (Linear.nil start).code he
  refine ⟨e.map_code (by simp) (by simp) start, hlinear.set_before, fun {k} hfirst hlast => ?_,
    fun h => operand_of_pos h start, fun h => ?_⟩
  · have hused := hlinear.used_once k
    have hne : start + e.operations - 1 ≠ k := by omega
    rw [operand_of_pos (by omega), List.count_append, Linear.count_temporaryName, if_neg hne,
      if_pos ⟨hfirst, by omega⟩] at hused
    exact hused
  · have hused := hlinear.used_once (start + e.operations - 1)
    rw [operand_of_pos h, List.count_append, Linear.count_temporaryName, if_pos rfl,
      if_pos (by omega)] at hused
    rw [operand_of_pos h]
    exact List.count_eq_zero.mp (by omega)

end ThreeAddress
