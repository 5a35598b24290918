import Mathlib.Data.List.Forall2
import ThreeAddress.Proofs.Code
import ThreeAddress.Proofs.Delivery

namespace ThreeAddress

variable {ρ α β : Type}

def Token.word? (t : Token) : Option Bytes :=
  if t.kind = .ident ∨ t.kind = .number then some t.lexeme else none

/-- The tokens differ at most in where they stand and in how a word of the language is written. -/
structure Token.Alike (t u : Token) : Prop where
  kind : t.kind = u.kind
  word : t.word? = u.word?

theorem Token.word?_of_kind {t : Token} (h : t.kind = .ident ∨ t.kind = .number) :
    t.word? = some t.lexeme :=
  if_pos h

theorem Token.Alike.lexeme_eq {t u : Token} (h : t.Alike u)
    (ht : t.kind = .ident ∨ t.kind = .number) : t.lexeme = u.lexeme := by
  have hword := h.word
  rw [word?_of_kind ht, word?_of_kind (h.kind ▸ ht)] at hword
  exact Option.some.inj hword

inductive Operand (given : Token → Prop) : Bytes → Prop
  | word {t : Token} {x : Bytes} (ht : given t) (hx : t.word? = some x) : Operand given x
  | temporary (n : Nat) : Operand given (Names.temporaryName n)

inductive Quad.Built (given : Token → Prop) : Quad → Prop
  | unary (op : UnaryOperator) {x : Bytes} (hx : Operand given x) (n : Nat) :
      Built given (.unary op.opcode x (Names.temporaryName n))
  | binary (op : BinaryOperator) {x y : Bytes} (hx : Operand given x) (hy : Operand given y)
      (n : Nat) : Built given (.binary op.opcode x y (Names.temporaryName n))
  | move {x : Bytes} {t : Token} (hx : Operand given x) (ht : given t) (hi : t.kind = .ident) :
      Built given (.move x t.lexeme)
  | test (c : Comparison) {x y : Bytes} (hx : Operand given x) (hy : Operand given y) (n : Nat) :
      Built given (.test x y c.comparator (Names.labelName n))
  | jump (n : Nat) : Built given (.jump (Names.labelName n))
  | label (n : Nat) : Built given (.label (Names.labelName n))

def Operands (given : Token → Prop) (x y : Bytes) : Prop := x = y ∧ Operand given x

/-- The readings have come equally far, over tokens that are alike. -/
structure Reading.Parallel (given : Token → Prop) (s s' : Reading) : Prop where
  tokens : List.Forall₂ Token.Alike s.tokens s'.tokens
  from_given : ∀ t ∈ s.tokens, given t
  ending : s.ending = s'.ending
  names : s.names = s'.names
  quads : s.quads = s'.quads
  built : ∀ q ∈ s.quads, q.Built given

inductive SameAnswer : Except Failure ρ → Except Failure ρ → Prop
  | same (x : Except Failure ρ) : SameAnswer x x
  | rejected {t u : Token} (h : t.Alike u) (message : Bytes) (expected : List TokenKind) :
      SameAnswer (.error { cause := .grammar (Production.rejection t message expected) })
        (.error { cause := .grammar (Production.rejection u message expected) })

/-- The tokens that have been looked at, if there are any, are the next ones. -/
def Reading.AtFront (s s' : Reading) : Option (Token × Token) → Prop
  | none => True
  | some (t, u) => s.tokens.head? = some t ∧ s'.tokens.head? = some u

/-- Both dialogues end alike, if `front` has been looked at before. -/
def Dialogue.Parallel (given : Token → Prop) (front : Option (Token × Token))
    (d d' : Dialogue ρ) : Prop :=
  ∀ s s' : Reading, s.Parallel given s' → s.AtFront s' front →
    SameAnswer (d.read s).1 (d'.read s').1 ∧ (d.read s).2.Parallel given (d'.read s').2

theorem Reading.Parallel.ask_nil {given : Token → Prop} {f f' : Failure} {n n' : Names}
    {qs qs' : List Quad} (h : Reading.Parallel given ⟨[], f, n, qs⟩ ⟨[], f', n', qs'⟩)
    (r : Request) (next next' : Token → Dialogue ρ) :
    SameAnswer ((Dialogue.ask r next).read ⟨[], f, n, qs⟩).1
        ((Dialogue.ask r next').read ⟨[], f', n', qs'⟩).1 ∧
      ((Dialogue.ask r next).read ⟨[], f, n, qs⟩).2.Parallel given
        ((Dialogue.ask r next').read ⟨[], f', n', qs'⟩).2 := by
  obtain rfl : f = f' := h.ending
  rw [Dialogue.read_ask_nil, Dialogue.read_ask_nil]
  exact ⟨.same _, h⟩

theorem UnaryOperator.exists_opcode_eq {kind : TokenKind} {op : Opcode}
    (h : Opcode.ofSign? kind = some op) : ∃ u : UnaryOperator, u.opcode = op := by
  unfold Opcode.ofSign? at h
  split at h <;> cases h
  · exact ⟨.keep, rfl⟩
  · exact ⟨.negate, rfl⟩

theorem BinaryOperator.exists_opcode_of_term {kind : TokenKind} {op : Opcode}
    (h : Opcode.ofTermOperator? kind = some op) : ∃ b : BinaryOperator, b.opcode = op := by
  unfold Opcode.ofTermOperator? at h
  split at h <;> cases h
  · exact ⟨.add, rfl⟩
  · exact ⟨.subtract, rfl⟩

theorem BinaryOperator.exists_opcode_of_factor {kind : TokenKind} {op : Opcode}
    (h : Opcode.ofFactorOperator? kind = some op) : ∃ b : BinaryOperator, b.opcode = op := by
  unfold Opcode.ofFactorOperator? at h
  split at h <;> cases h
  · exact ⟨.multiply, rfl⟩
  · exact ⟨.divide, rfl⟩
  · exact ⟨.intDivide, rfl⟩
  · exact ⟨.modulo, rfl⟩

theorem Comparison.exists_comparator_eq {kind : TokenKind} {c : Comparator}
    (h : Comparator.ofKind? kind = some c) : ∃ b : Comparison, b.comparator = c := by
  unfold Comparator.ofKind? at h
  split at h <;> cases h
  · exact ⟨.equal, rfl⟩
  · exact ⟨.less, rfl⟩
  · exact ⟨.lessEqual, rfl⟩
  · exact ⟨.greater, rfl⟩
  · exact ⟨.greaterEqual, rfl⟩
  · exact ⟨.notEqual, rfl⟩

namespace Production

def Parallel (given : Token → Prop) (front : Option (Token × Token)) (P P' : Production ρ α)
    (post : α → α → Prop) : Prop :=
  ∀ next next' : α → Dialogue ρ, (∀ a b, post a b → (next a).Parallel given none (next' b)) →
    (P next).Parallel given front (P' next')

variable {given : Token → Prop} {front : Option (Token × Token)}

namespace Parallel

variable {post : α → α → Prop}

theorem weaken {P P' : Production ρ α} (h : Parallel given none P P' post) :
    Parallel given front P P' post :=
  fun _ _ hnext s s' hs _ => h _ _ hnext s s' hs trivial

theorem pure {a b : α} (h : post a b) :
    Parallel given front (Pure.pure a : Production ρ α) (Pure.pure b) post :=
  fun _ _ hnext s s' hs _ => hnext a b h s s' hs trivial

theorem bind {P P' : Production ρ β} {Q Q' : β → Production ρ α} {mid : β → β → Prop}
    (hP : Parallel given front P P' mid)
    (hQ : ∀ a b, mid a b → Parallel given none (Q a) (Q' b) post) :
    Parallel given front (P >>= Q) (P' >>= Q') post :=
  fun _ _ hnext => hP _ _ fun a b hab => hQ a b hab _ _ hnext

theorem bind_peek {Q Q' : Token → Production ρ α}
    (hQ : ∀ t u, given t → t.Alike u → Parallel given (some (t, u)) (Q t) (Q' u) post) :
    Parallel given front (Production.peek >>= Q) (Production.peek >>= Q') post := by
  rintro next next' hnext ⟨ts, f, n, qs⟩ ⟨us, f', n', qs'⟩ hs -
  cases hs.tokens with
  | nil => exact hs.ask_nil .peek _ _
  | @cons t u ts us htu htus =>
    exact hQ t u (hs.from_given t (List.mem_cons_self ..)) htu next next' hnext _ _ hs ⟨rfl, rfl⟩

/-- If a token has been looked at, it is the one that is taken. -/
theorem bind_pop {Q Q' : Token → Production ρ α}
    (hQ : ∀ t u, given t → t.Alike u → (∀ p, front = some p → p = (t, u)) →
      Parallel given none (Q t) (Q' u) post) :
    Parallel given front (Production.pop >>= Q) (Production.pop >>= Q') post := by
  rintro next next' hnext ⟨ts, f, n, qs⟩ ⟨us, f', n', qs'⟩ hs hfront
  cases hs.tokens with
  | nil => exact hs.ask_nil .pop _ _
  | @cons t u ts us htu htus =>
    have hpair : ∀ p, front = some p → p = (t, u) := by
      rintro ⟨t', u'⟩ rfl
      obtain ⟨ht, hu⟩ := hfront
      rw [Option.some.inj ht, Option.some.inj hu]
    obtain ⟨ht, hts⟩ := List.forall_mem_cons.mp hs.from_given
    simp only [bind_apply, read_pop_cons]
    exact hQ t u ht htu hpair next next' hnext _ _
      ⟨htus, hts, hs.ending, hs.names, hs.quads, hs.built⟩ trivial

theorem temporary : Parallel given front (Production.temporary : Production ρ Bytes)
    Production.temporary fun x y => x = y ∧ ∃ n, x = Names.temporaryName n := by
  rintro next next' hnext ⟨ts, f, ⟨i, j⟩, qs⟩ ⟨us, f', n', qs'⟩ hs -
  obtain rfl : _ = n' := hs.names
  rw [read_temporary, read_temporary]
  exact hnext _ _ ⟨rfl, i, rfl⟩ _ _
    ⟨hs.tokens, hs.from_given, hs.ending, rfl, hs.quads, hs.built⟩ trivial

theorem label : Parallel given front (Production.label : Production ρ Bytes)
    Production.label fun x y => x = y ∧ ∃ n, x = Names.labelName n := by
  rintro next next' hnext ⟨ts, f, ⟨i, j⟩, qs⟩ ⟨us, f', n', qs'⟩ hs -
  obtain rfl : _ = n' := hs.names
  rw [read_label, read_label]
  exact hnext _ _ ⟨rfl, j, rfl⟩ _ _
    ⟨hs.tokens, hs.from_given, hs.ending, rfl, hs.quads, hs.built⟩ trivial

theorem releaseTemporaries : Parallel given front
    (Production.releaseTemporaries : Production ρ Unit) Production.releaseTemporaries
      fun _ _ => True := by
  rintro next next' hnext ⟨ts, f, ⟨i, j⟩, qs⟩ ⟨us, f', n', qs'⟩ hs -
  obtain rfl : _ = n' := hs.names
  rw [read_releaseTemporaries, read_releaseTemporaries]
  exact hnext _ _ trivial _ _ ⟨hs.tokens, hs.from_given, hs.ending, rfl, hs.quads, hs.built⟩ trivial

theorem emit {q : Quad} (hq : q.Built given) : Parallel given front
    (Production.emit q : Production ρ Unit) (Production.emit q) fun _ _ => True := by
  rintro next next' hnext ⟨ts, f, n, qs⟩ ⟨us, f', n', qs'⟩ hs -
  obtain rfl : qs = qs' := hs.quads
  have hbuilt : ∀ q' ∈ qs ++ [q], q'.Built given :=
    List.forall_mem_append.mpr ⟨hs.built, List.forall_mem_singleton.mpr hq⟩
  rw [read_emit, read_emit]
  exact hnext _ _ trivial _ _ ⟨hs.tokens, hs.from_given, hs.ending, hs.names, rfl, hbuilt⟩ trivial

theorem reject {t u : Token} (h : t.Alike u) (message : Bytes) (expected : List TokenKind) :
    Parallel given front (Production.reject t message expected : Production ρ α)
      (Production.reject u message expected) post := by
  intro next next' _ s s' hs _
  rw [read_reject, read_reject]
  exact ⟨.rejected h message expected, hs⟩

theorem outOfFuel : Parallel given front (Production.outOfFuel : Production ρ α)
    Production.outOfFuel post := by
  intro next next' _ s s' hs _
  rw [read_outOfFuel, read_outOfFuel]
  exact ⟨.same _, hs⟩

theorem accept (kind : TokenKind) : Parallel given front
    (Production.accept kind : Production ρ Bool) (Production.accept kind) Eq := by
  refine .bind_peek fun t u _ htu => ?_
  rw [htu.kind]
  split
  · exact .bind_pop fun _ _ _ _ _ => .pure rfl
  · exact .pure rfl

theorem expect (kind : TokenKind) (message : Bytes) : Parallel given front
    (Production.expect kind message : Production ρ Unit) (Production.expect kind message)
      fun _ _ => True := by
  refine .bind_peek fun t u _ htu => ?_
  rw [htu.kind]
  split
  · exact .bind_pop fun _ _ _ _ _ => .pure trivial
  · exact .reject htu message [kind]

end Parallel

theorem parallel_chain {operation? : TokenKind → Option Opcode}
    (hop : ∀ {kind op}, operation? kind = some op → ∃ b : BinaryOperator, b.opcode = op)
    {operand : Production ρ Bytes} (h : Parallel given none operand operand (Operands given))
    (fuel : Nat) {left : Bytes} (hleft : Operand given left) :
    Parallel given none (chain operation? operand fuel left) (chain operation? operand fuel left)
      (Operands given) := by
  induction fuel generalizing left with
  | zero => exact .outOfFuel
  | succ fuel ih =>
    refine .bind_peek fun t u _ htu => ?_
    rw [htu.kind]
    cases hkind : operation? u.kind with
    | none => exact .pure ⟨rfl, hleft⟩
    | some op =>
      obtain ⟨op, rfl⟩ := hop hkind
      refine .bind_pop fun _ _ _ _ _ => .bind h ?_
      rintro right _ ⟨rfl, hright⟩
      refine .bind .temporary ?_
      rintro _ _ ⟨rfl, n, rfl⟩
      exact .bind (.emit (.binary op hleft hright n)) fun _ _ _ => ih (.temporary n)

theorem parallel_base {value : Production ρ Bytes}
    (h : Parallel given none value value (Operands given)) :
    Parallel given none (base value) (base value) (Operands given) := by
  refine .bind_peek fun t u _ htu => ?_
  rw [htu.kind]
  cases hkind : Opcode.ofSign? u.kind with
  | none => exact h.weaken
  | some op =>
    obtain ⟨op, rfl⟩ := UnaryOperator.exists_opcode_eq hkind
    refine .bind_pop fun _ _ _ _ _ => .bind h ?_
    rintro operand _ ⟨rfl, hoperand⟩
    refine .bind .temporary ?_
    rintro _ _ ⟨rfl, n, rfl⟩
    exact .bind (.emit (.unary op hoperand n)) fun _ _ _ => .pure ⟨rfl, .temporary n⟩

theorem parallel_factor {value : Production ρ Bytes}
    (h : Parallel given none value value (Operands given)) (fuel : Nat) :
    Parallel given none (factor value fuel) (factor value fuel) (Operands given) := by
  induction fuel with
  | zero => exact .outOfFuel
  | succ fuel ih =>
    refine .bind (parallel_base h) ?_
    rintro left _ ⟨rfl, hleft⟩
    refine .bind (.accept .power) ?_
    rintro more _ rfl
    split
    · refine .bind ih ?_
      rintro right _ ⟨rfl, hright⟩
      refine .bind .temporary ?_
      rintro _ _ ⟨rfl, n, rfl⟩
      exact .bind (.emit (.binary .power hleft hright n)) fun _ _ _ => .pure ⟨rfl, .temporary n⟩
    · exact .pure ⟨rfl, hleft⟩

theorem parallel_sum {value : Production ρ Bytes}
    (h : Parallel given none value value (Operands given)) (fuel : Nat) :
    Parallel given none (sum value fuel) (sum value fuel) (Operands given) := by
  have hfactor := parallel_factor h fuel
  have hterm : Parallel given none (term value fuel) (term value fuel) (Operands given) := by
    refine .bind hfactor ?_
    rintro left _ ⟨rfl, hleft⟩
    exact parallel_chain BinaryOperator.exists_opcode_of_factor hfactor fuel hleft
  refine .bind hterm ?_
  rintro left _ ⟨rfl, hleft⟩
  exact parallel_chain BinaryOperator.exists_opcode_of_term hterm fuel hleft

theorem parallel_value (fuel : Nat) :
    Parallel given none (value fuel : Production ρ Bytes) (value fuel) (Operands given) := by
  induction fuel with
  | zero => exact .outOfFuel
  | succ fuel ih =>
    refine .bind_peek fun t u ht htu => ?_
    have hword : t.kind = .ident ∨ t.kind = .number → Parallel given (some (t, u))
        (pop >>= fun _ => pure t.lexeme : Production ρ Bytes) (pop >>= fun _ => pure u.lexeme)
          (Operands given) := fun hw =>
      .bind_pop fun _ _ _ _ _ => .pure ⟨htu.lexeme_eq hw, .word ht (Token.word?_of_kind hw)⟩
    rw [← htu.kind]
    cases hkind : t.kind with
    | openParen =>
      refine .bind_pop fun _ _ _ _ _ => .bind (parallel_sum ih fuel) ?_
      rintro operand _ ⟨rfl, hoperand⟩
      exact .bind (.expect _ _) fun _ _ _ => .pure ⟨rfl, hoperand⟩
    | ident => exact hword (.inl hkind)
    | number => exact hword (.inr hkind)
    | _ => exact .reject htu _ _

theorem parallel_expression (fuel : Nat) :
    Parallel given none (expression fuel : Production ρ Bytes) (expression fuel)
      (Operands given) :=
  parallel_sum (parallel_value fuel) fuel

theorem parallel_comparator :
    Parallel given none (comparator : Production ρ (Option Comparator)) comparator
      fun c? d? => c? = d? ∧ ∀ c, c? = some c → ∃ b : Comparison, b.comparator = c := by
  refine .bind_peek fun t u _ htu => ?_
  rw [htu.kind]
  cases hkind : Comparator.ofKind? u.kind with
  | none => exact .pure ⟨rfl, nofun⟩
  | some c =>
    refine .bind_pop fun _ _ _ _ _ => .pure ⟨rfl, ?_⟩
    rintro _ ⟨⟩
    exact Comparison.exists_comparator_eq hkind

theorem parallel_condition (place : Bytes) (fuel : Nat) :
    Parallel given none (condition place fuel : Production ρ (Bytes × Bytes × Comparator))
      (condition place fuel) fun a b => a = b ∧ Operand given a.1 ∧ Operand given a.2.1 ∧
        ∃ c : Comparison, c.comparator = a.2.2 := by
  refine .bind (parallel_expression fuel) ?_
  rintro left _ ⟨rfl, hleft⟩
  refine .bind parallel_comparator ?_
  rintro c? _ ⟨rfl, hc⟩
  cases c? with
  | none => exact .bind_peek fun t u _ htu => .reject htu _ _
  | some c =>
    refine .bind (parallel_expression fuel) ?_
    rintro right _ ⟨rfl, hright⟩
    exact .pure ⟨rfl, hleft, hright, hc c rfl⟩

theorem parallel_assignment {t u : Token} (hi : t.kind = .ident) (fuel : Nat) :
    Parallel given (some (t, u)) (assignment fuel : Production ρ Unit) (assignment fuel)
      fun _ _ => True := by
  refine .bind_pop fun t' u' ht htu hpair => ?_
  obtain ⟨rfl, rfl⟩ := Prod.mk.inj (hpair (t, u) rfl)
  refine .bind (.expect _ _) fun _ _ _ => .bind (parallel_expression fuel) ?_
  rintro operand _ ⟨rfl, hoperand⟩
  rw [← htu.lexeme_eq (.inl hi)]
  exact .emit (.move hoperand ht hi)

abbrev Parallels (given : Token → Prop) (P : Production ρ Unit) : Prop :=
  Parallel given none P P fun _ _ => True

theorem parallel_guarded {left right : Bytes} {c : Comparator} (hleft : Operand given left)
    (hright : Operand given right) (hc : ∃ b : Comparison, b.comparator = c)
    {body : Production ρ Unit} (h : Parallels given body) :
    Parallel given none (guarded left right c body) (guarded left right c body)
      fun x y => x = y ∧ ∃ n, x = Names.labelName n := by
  obtain ⟨c, rfl⟩ := hc
  refine .bind .label ?_
  rintro _ _ ⟨rfl, inside, rfl⟩
  refine .bind .label ?_
  rintro _ _ ⟨rfl, behind, rfl⟩
  exact .bind (.emit (.test c hleft hright inside)) fun _ _ _ =>
    .bind (.emit (.jump behind)) fun _ _ _ => .bind (.emit (.label inside)) fun _ _ _ =>
      .bind h fun _ _ _ => .pure ⟨rfl, behind, rfl⟩

theorem parallel_conditional {body : Production ρ Unit} (h : Parallels given body) (fuel : Nat) :
    Parallels given (conditional body fuel) := by
  refine .bind_pop fun _ _ _ _ _ => .bind (parallel_condition _ fuel) ?_
  rintro ⟨left, right, c⟩ _ ⟨rfl, hleft, hright, hc⟩
  refine .bind (.expect _ _) fun _ _ _ => .bind (parallel_guarded hleft hright hc h) ?_
  rintro _ _ ⟨rfl, behind, rfl⟩
  exact .emit (.label behind)

theorem parallel_loop {body : Production ρ Unit} (h : Parallels given body) (fuel : Nat) :
    Parallels given (loop body fuel) := by
  refine .bind_pop fun _ _ _ _ _ => .bind .label ?_
  rintro _ _ ⟨rfl, again, rfl⟩
  refine .bind (.emit (.label again)) fun _ _ _ => .bind (parallel_condition _ fuel) ?_
  rintro ⟨left, right, c⟩ _ ⟨rfl, hleft, hright, hc⟩
  refine .bind (.expect _ _) fun _ _ _ => .bind (parallel_guarded hleft hright hc h) ?_
  rintro _ _ ⟨rfl, behind, rfl⟩
  exact .bind (.emit (.jump again)) fun _ _ _ => .emit (.label behind)

theorem parallel_statementFrom {t u : Token} (htu : t.Alike u) {body : Production ρ Unit}
    (h : Parallels given body) (fuel : Nat) :
    Parallel given (some (t, u)) (statementFrom t body fuel) (statementFrom u body fuel)
      fun _ _ => True := by
  unfold statementFrom
  rw [← htu.kind]
  cases hkind : t.kind with
  | ident => exact parallel_assignment hkind fuel
  | ifWord => exact (parallel_conditional h fuel).weaken
  | whileWord => exact (parallel_loop h fuel).weaken
  | _ => exact .reject htu _ _

theorem parallel_statement (fuel : Nat) :
    Parallels given (statement fuel : Production ρ Unit) := by
  induction fuel with
  | zero => exact .outOfFuel
  | succ fuel ih =>
    exact .bind .releaseTemporaries fun _ _ _ => .bind_peek fun t u _ htu =>
      .bind (parallel_statementFrom htu ih fuel) fun _ _ _ => .releaseTemporaries

theorem parallel_statements (fuel : Nat) :
    Parallels given (statements fuel : Production ρ Unit) := by
  induction fuel with
  | zero => exact .outOfFuel
  | succ fuel ih =>
    refine .bind_peek fun t u _ htu => ?_
    rw [htu.kind]
    split
    · refine .bind (parallel_statement _).weaken fun _ _ _ => .bind (.accept .semicolon) ?_
      rintro more _ rfl
      split
      · exact ih
      · exact .pure trivial
    · exact .pure trivial

theorem parallel_program (fuel : Nat) : Parallels given (program fuel : Production ρ Unit) :=
  .bind (.expect _ _) fun _ _ _ => .bind (parallel_statements fuel) fun _ _ _ =>
    .bind (.expect _ _) fun _ _ _ => .expect _ _

end Production

/-- Over tokens that are alike, readings of a program end alike. -/
theorem Translator.parallel_reading (given : Token → Prop) {ts us : List Token}
    (h : List.Forall₂ Token.Alike ts us) (hts : ∀ t ∈ ts, given t) (fuel : Nat) (f : Failure) :
    SameAnswer (reading fuel ts f).1 (reading fuel us f).1 ∧
      (reading fuel ts f).2.Parallel given (reading fuel us f).2 := by
  apply Production.parallel_program fuel Dialogue.done Dialogue.done
  · rintro ⟨⟩ ⟨⟩ - s s' hs -
    rw [Dialogue.read_done, Dialogue.read_done]
    exact ⟨.same _, hs⟩
  · exact ⟨h, hts, rfl, rfl, rfl, List.forall_mem_nil _⟩
  · exact trivial

end ThreeAddress
