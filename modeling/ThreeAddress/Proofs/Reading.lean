import ThreeAddress.Proofs.Course

namespace ThreeAddress

structure TokenRow where
  tokens : List Token
  /-- What a request meets when no tokens are left. -/
  ending : Failure

namespace TokenRow

def pull (r : Request) (s : TokenRow) : Pull TokenRow :=
  match s.tokens with
  | [] => { answer := .error s.ending, stream := s }
  | token :: _ => { answer := .ok token, stream := { s with tokens := r.rest s.tokens } }

instance : TokenStream TokenRow where
  peek := pull .peek
  pop := pull .pop
  supply s := s.tokens.length

variable {ρ : Type} (r : Request) (next : Token → Dialogue ρ) (f : Failure) (n : Names)

theorem course_ask_nil :
    (Dialogue.ask r next).course (⟨[], f⟩ : TokenRow) n =
      ⟨[.ask r (.error f) []], .error f, ⟨[], f⟩, n⟩ := by
  cases r <;> rfl

theorem course_ask_cons (t : Token) (ts : List Token) :
    (Dialogue.ask r next).course (⟨t :: ts, f⟩ : TokenRow) n =
      ((next t).course (⟨r.rest (t :: ts), f⟩ : TokenRow) n).push (.ask r (.ok t) []) := by
  cases r <;> rfl

end TokenRow

structure Reading where
  tokens : List Token
  ending : Failure
  names : Names
  quads : List Quad

namespace Dialogue

variable {ρ : Type}

/-- The course of a dialogue over a row of tokens, as far as it changes the reading. -/
def read (d : Dialogue ρ) (s : Reading) : Except Failure ρ × Reading :=
  let c := d.course (⟨s.tokens, s.ending⟩ : TokenRow) s.names
  (c.answer, ⟨c.stream.tokens, s.ending, c.names, s.quads ++ Act.quads c.acts⟩)

theorem read_done (result : ρ) (s : Reading) : (done result).read s = (.ok result, s) := by
  simp [read, course]

theorem read_ask_nil (r : Request) (next : Token → Dialogue ρ) (f : Failure) (n : Names)
    (qs : List Quad) : (ask r next).read ⟨[], f, n, qs⟩ = (.error f, ⟨[], f, n, qs⟩) := by
  simp only [read, TokenRow.course_ask_nil, Act.quads_ask, Act.quads_nil, List.append_nil]

theorem read_emit (quad : Quad) (next : Dialogue ρ) (s : Reading) :
    (emit quad next).read s = next.read { s with quads := s.quads ++ [quad] } := by
  have hquads (c : Course TokenRow ρ) :
      s.quads ++ Act.quads (c.push (.emit quad)).acts = s.quads ++ [quad] ++ Act.quads c.acts := by
    rw [List.append_assoc]
    rfl
  simp only [read, course, hquads]
  rfl

theorem read_reject (error : GrammarError) (s : Reading) :
    (reject error : Dialogue ρ).read s = (.error { cause := .grammar error }, s) := by
  have hquads : Act.quads [.complain error] = [] := rfl
  simp [read, course, hquads]

theorem read_outOfFuel (s : Reading) :
    (outOfFuel : Dialogue ρ).read s = (.error { cause := .outOfFuel }, s) := by
  simp [read, course]

end Dialogue

namespace Production

variable {ρ α : Type} {f : Failure} {n : Names} {qs : List Quad} {t : Token} {ts : List Token}

@[simp] theorem read_peek_cons (next : Token → Dialogue ρ) :
    (peek next).read ⟨t :: ts, f, n, qs⟩ = (next t).read ⟨t :: ts, f, n, qs⟩ := rfl

@[simp] theorem read_pop_cons (next : Token → Dialogue ρ) :
    (pop next).read ⟨t :: ts, f, n, qs⟩ = (next t).read ⟨ts, f, n, qs⟩ := rfl

@[simp] theorem read_temporary (next : Bytes → Dialogue ρ) (i j : Nat) :
    (temporary next).read ⟨ts, f, ⟨i, j⟩, qs⟩ =
      (next (Names.temporaryName i)).read ⟨ts, f, ⟨i + 1, j⟩, qs⟩ := rfl

@[simp] theorem read_label (next : Bytes → Dialogue ρ) (i j : Nat) :
    (label next).read ⟨ts, f, ⟨i, j⟩, qs⟩ =
      (next (Names.labelName j)).read ⟨ts, f, ⟨i, j + 1⟩, qs⟩ := rfl

@[simp] theorem read_releaseTemporaries (next : Unit → Dialogue ρ) (i j : Nat) :
    (releaseTemporaries next).read ⟨ts, f, ⟨i, j⟩, qs⟩ = (next ()).read ⟨ts, f, ⟨0, j⟩, qs⟩ := rfl

@[simp] theorem read_emit (q : Quad) (next : Unit → Dialogue ρ) :
    (emit q next).read ⟨ts, f, n, qs⟩ = (next ()).read ⟨ts, f, n, qs ++ [q]⟩ :=
  Dialogue.read_emit q (next ()) _

def rejection (found : Token) (message : Bytes) (expected : List TokenKind) : GrammarError :=
  { message, found := found.lexeme, expected := expected.map TokenKind.text,
    position := found.position }

@[simp] theorem read_reject (found : Token) (message : Bytes) (expected : List TokenKind)
    (next : α → Dialogue ρ) (s : Reading) :
    (reject found message expected next).read s =
      (.error { cause := .grammar (rejection found message expected) }, s) :=
  Dialogue.read_reject _ s

@[simp] theorem read_outOfFuel (next : α → Dialogue ρ) (s : Reading) :
    (outOfFuel next).read s = (.error { cause := .outOfFuel }, s) :=
  Dialogue.read_outOfFuel s

@[simp] theorem read_accept_cons (kind : TokenKind) (next : Bool → Dialogue ρ) :
    (accept kind next).read ⟨t :: ts, f, n, qs⟩ =
      if t.kind = kind then (next true).read ⟨ts, f, n, qs⟩
      else (next false).read ⟨t :: ts, f, n, qs⟩ := by
  simp only [accept, bind_apply, read_peek_cons]
  split <;> rfl

@[simp] theorem read_expect_cons (kind : TokenKind) (message : Bytes)
    (next : Unit → Dialogue ρ) :
    (expect kind message next).read ⟨t :: ts, f, n, qs⟩ =
      if t.kind = kind then (next ()).read ⟨ts, f, n, qs⟩
      else (.error { cause := .grammar (rejection t message [kind]) },
        ⟨t :: ts, f, n, qs⟩) := by
  simp only [expect, bind_apply, read_peek_cons]
  split
  · rfl
  · exact read_reject t message [kind] next _

theorem read_chain_done {operation? : TokenKind → Option Opcode} (h : operation? t.kind = none)
    (operand : Production ρ Bytes) (fuel : Nat) (left : Bytes) (next : Bytes → Dialogue ρ) :
    (chain operation? operand (fuel + 1) left next).read ⟨t :: ts, f, n, qs⟩ =
      (next left).read ⟨t :: ts, f, n, qs⟩ := by
  simp only [chain, bind_apply, read_peek_cons, h, pure_apply]

theorem read_chain_more {operation? : TokenKind → Option Opcode} {op : Opcode}
    (h : operation? t.kind = some op) (operand : Production ρ Bytes) (fuel : Nat) (left : Bytes)
    (next : Bytes → Dialogue ρ) :
    (chain operation? operand (fuel + 1) left next).read ⟨t :: ts, f, n, qs⟩ =
      (operand fun right => temporary fun result => emit (.binary op left right result) fun _ =>
        chain operation? operand fuel result next).read ⟨ts, f, n, qs⟩ := by
  simp only [chain, bind_apply, read_peek_cons, h, read_pop_cons]

theorem read_base_plain (h : Opcode.ofSign? t.kind = none) (value : Production ρ Bytes)
    (next : Bytes → Dialogue ρ) :
    (base value next).read ⟨t :: ts, f, n, qs⟩ = (value next).read ⟨t :: ts, f, n, qs⟩ := by
  simp only [base, bind_apply, read_peek_cons, h]

theorem read_base_signed {op : Opcode} (h : Opcode.ofSign? t.kind = some op)
    (value : Production ρ Bytes) (next : Bytes → Dialogue ρ) :
    (base value next).read ⟨t :: ts, f, n, qs⟩ =
      (value fun operand => temporary fun result => emit (.unary op operand result) fun _ =>
        next result).read ⟨ts, f, n, qs⟩ := by
  simp only [base, bind_apply, read_peek_cons, h, read_pop_cons, pure_apply]

theorem read_factor (value : Production ρ Bytes) (fuel : Nat) (next : Bytes → Dialogue ρ)
    (s : Reading) :
    (factor value (fuel + 1) next).read s =
      (base value fun left => accept .power fun more =>
        if more then factor value fuel fun right => temporary fun result =>
          emit (.binary .exp left right result) fun _ => next result
        else next left).read s := by
  simp only [factor, bind_apply]
  congr 2
  funext left
  congr 1
  funext more
  cases more <;> rfl

theorem read_value_paren (h : t.kind = .openParen) (fuel : Nat) (next : Bytes → Dialogue ρ) :
    (value (fuel + 1) next).read ⟨t :: ts, f, n, qs⟩ =
      (sum (value fuel) fuel fun operand =>
        expect .closeParen (utf8 "Expected Close Parenthesis") fun _ =>
          next operand).read ⟨ts, f, n, qs⟩ := by
  simp only [value, bind_apply, read_peek_cons, h, read_pop_cons, pure_apply]

theorem read_value_word (h : t.kind = .ident ∨ t.kind = .number) (fuel : Nat)
    (next : Bytes → Dialogue ρ) :
    (value (fuel + 1) next).read ⟨t :: ts, f, n, qs⟩ =
      (next t.lexeme).read ⟨ts, f, n, qs⟩ := by
  rcases h with h | h <;>
    simp only [value, bind_apply, read_peek_cons, h, read_pop_cons, pure_apply]

theorem read_value_reject (ho : t.kind ≠ .openParen) (hi : t.kind ≠ .ident)
    (hn : t.kind ≠ .number) (fuel : Nat) (next : Bytes → Dialogue ρ) :
    (value (fuel + 1) next).read ⟨t :: ts, f, n, qs⟩ =
      (.error { cause := .grammar (rejection t
          (utf8 "Expected Open Parenthesis, Identifier, or Constant")
          [.openParen, .ident, .number]) }, ⟨t :: ts, f, n, qs⟩) := by
  simp only [value, bind_apply, read_peek_cons, read_reject]

theorem read_condition (place : Bytes) (fuel : Nat)
    (next : Bytes × Bytes × Comparator → Dialogue ρ) (s : Reading) :
    (condition place fuel next).read s =
      (expression fuel fun left => comparator fun c? =>
        match c? with
        | none => peek fun token =>
          reject token (utf8 "Error in " ++ place ++ utf8 ": comparison operator expected")
            [.equal, .less, .lessEqual, .greater, .greaterEqual, .notEqual] next
        | some c => expression fuel fun right => next (left, right, c)).read s := by
  simp only [condition, bind_apply]
  congr 2
  funext left
  congr 1
  funext c?
  cases c? <;> rfl

theorem read_comparator_none (h : Comparator.ofKind? t.kind = none)
    (next : Option Comparator → Dialogue ρ) :
    (comparator next).read ⟨t :: ts, f, n, qs⟩ = (next none).read ⟨t :: ts, f, n, qs⟩ := by
  simp only [comparator, bind_apply, read_peek_cons, h, pure_apply]

theorem read_comparator_some {c : Comparator} (h : Comparator.ofKind? t.kind = some c)
    (next : Option Comparator → Dialogue ρ) :
    (comparator next).read ⟨t :: ts, f, n, qs⟩ = (next (some c)).read ⟨ts, f, n, qs⟩ := by
  simp only [comparator, bind_apply, read_peek_cons, h, read_pop_cons, pure_apply]

theorem read_guarded (left right : Bytes) (c : Comparator) (body : Production ρ Unit)
    (next : Bytes → Dialogue ρ) (i j : Nat) :
    (guarded left right c body next).read ⟨ts, f, ⟨i, j⟩, qs⟩ =
      (body fun _ => next (Names.labelName (j + 1))).read ⟨ts, f, ⟨i, j + 2⟩,
        qs ++ [.test left right c (Names.labelName j), .jump (Names.labelName (j + 1)),
          .label (Names.labelName j)]⟩ := by
  simp only [guarded, bind_apply, read_label, read_emit, List.append_assoc, List.cons_append,
    List.nil_append, pure_apply]

theorem read_statement_nil (fuel : Nat) (next : Unit → Dialogue ρ) (i j : Nat) :
    (statement (fuel + 1) next).read ⟨[], f, ⟨i, j⟩, qs⟩ =
      (.error f, ⟨[], f, ⟨0, j⟩, qs⟩) := by
  simp only [statement, bind_apply, read_releaseTemporaries]
  exact Dialogue.read_ask_nil .peek _ f _ qs

theorem read_statement_assign (h : t.kind = .ident) (fuel : Nat) (next : Unit → Dialogue ρ)
    (i j : Nat) :
    (statement (fuel + 1) next).read ⟨t :: ts, f, ⟨i, j⟩, qs⟩ =
      (expect .equal (utf8 "Expected '='") fun _ => expression fuel fun operand =>
        emit (.move operand t.lexeme) fun _ => releaseTemporaries next).read
          ⟨ts, f, ⟨0, j⟩, qs⟩ := by
  simp only [statement, bind_apply, read_releaseTemporaries, read_peek_cons, statementFrom, h,
    assignment, read_pop_cons]

theorem read_statement_conditional (h : t.kind = .ifWord) (fuel : Nat)
    (next : Unit → Dialogue ρ) (i j : Nat) :
    (statement (fuel + 1) next).read ⟨t :: ts, f, ⟨i, j⟩, qs⟩ =
      (condition (utf8 "If statement") fuel fun c =>
        expect .thenWord (utf8 "Error in If statement: Then expected") fun _ =>
          guarded c.1 c.2.1 c.2.2 (statement fuel) fun behind =>
            emit (.label behind) fun _ => releaseTemporaries next).read ⟨ts, f, ⟨0, j⟩, qs⟩ := by
  simp only [statement, bind_apply, read_releaseTemporaries, read_peek_cons, statementFrom, h,
    conditional, read_pop_cons]

theorem read_statement_loop (h : t.kind = .whileWord) (fuel : Nat) (next : Unit → Dialogue ρ)
    (i j : Nat) :
    (statement (fuel + 1) next).read ⟨t :: ts, f, ⟨i, j⟩, qs⟩ =
      (condition (utf8 "While loop") fuel fun c =>
        expect .doWord (utf8 "Error in While loop: Do expected") fun _ =>
          guarded c.1 c.2.1 c.2.2 (statement fuel) fun behind =>
            emit (.jump (Names.labelName j)) fun _ => emit (.label behind) fun _ =>
              releaseTemporaries next).read
        ⟨ts, f, ⟨0, j + 1⟩, qs ++ [.label (Names.labelName j)]⟩ := by
  simp only [statement, bind_apply, read_releaseTemporaries, read_peek_cons, statementFrom, h,
    loop, read_pop_cons, read_label, read_emit]

theorem read_statement_reject (h : startsStatement t.kind = false) (fuel : Nat)
    (next : Unit → Dialogue ρ) (i j : Nat) :
    (statement (fuel + 1) next).read ⟨t :: ts, f, ⟨i, j⟩, qs⟩ =
      (.error { cause := .grammar (rejection t (utf8 "Expected statement")
        [.ident, .ifWord, .whileWord]) }, ⟨t :: ts, f, ⟨0, j⟩, qs⟩) := by
  simp only [statement, bind_apply, read_releaseTemporaries, read_peek_cons, statementFrom]
  unfold startsStatement at h
  split at h <;> simp_all

theorem read_statements_nil (fuel : Nat) (next : Unit → Dialogue ρ) :
    (statements (fuel + 1) next).read ⟨[], f, n, qs⟩ = (.error f, ⟨[], f, n, qs⟩) :=
  Dialogue.read_ask_nil .peek _ f n qs

theorem read_statements_none (h : startsStatement t.kind = false) (fuel : Nat)
    (next : Unit → Dialogue ρ) :
    (statements (fuel + 1) next).read ⟨t :: ts, f, n, qs⟩ =
      (next ()).read ⟨t :: ts, f, n, qs⟩ := by
  simp only [statements, bind_apply, read_peek_cons, h, Bool.false_eq_true, ↓reduceIte, pure_apply]

theorem read_statements_some (h : startsStatement t.kind = true) (fuel : Nat)
    (next : Unit → Dialogue ρ) :
    (statements (fuel + 1) next).read ⟨t :: ts, f, n, qs⟩ =
      (statement (fuel + 1) fun _ => accept .semicolon fun more =>
        if more then statements fuel next else next ()).read ⟨t :: ts, f, n, qs⟩ := by
  simp only [statements, bind_apply, read_peek_cons, h, ↓reduceIte]
  congr 2
  funext _
  congr 1
  funext more
  cases more <;> rfl

theorem read_program (fuel : Nat) (next : Unit → Dialogue ρ) (s : Reading) :
    (program fuel next).read s =
      (expect .programWord (utf8 "Expected PROGRAM") fun _ => statements fuel fun _ =>
        expect .endWord (utf8 "Expected END") fun _ =>
          expect .period (utf8 "Expected Period") next).read s := rfl

end Production

end ThreeAddress
