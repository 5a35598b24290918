import ThreeAddress.Proofs.Acceptance
import ThreeAddress.Proofs.Course

namespace ThreeAddress

variable {σ ρ α β : Type}

/-- `d'` is `d`, except that it may go on where `d` is out of fuel. -/
inductive Dialogue.Extends : Dialogue ρ → Dialogue ρ → Prop
  | done (result : ρ) : Extends (.done result) (.done result)
  | ask (r : Request) {next next' : Token → Dialogue ρ}
      (h : ∀ token, Extends (next token) (next' token)) : Extends (ask r next) (ask r next')
  | temporary {next next' : Bytes → Dialogue ρ} (h : ∀ name, Extends (next name) (next' name)) :
      Extends (.temporary next) (.temporary next')
  | label {next next' : Bytes → Dialogue ρ} (h : ∀ name, Extends (next name) (next' name)) :
      Extends (.label next) (.label next')
  | releaseTemporaries {next next' : Dialogue ρ} (h : Extends next next') :
      Extends (.releaseTemporaries next) (.releaseTemporaries next')
  | emit (quad : Quad) {next next' : Dialogue ρ} (h : Extends next next') :
      Extends (.emit quad next) (.emit quad next')
  | reject (error : GrammarError) : Extends (.reject error) (.reject error)
  | outOfFuel (d : Dialogue ρ) : Extends .outOfFuel d

theorem Dialogue.Extends.course [TokenStream σ] {d d' : Dialogue ρ} (h : d.Extends d') {s : σ}
    {n : Names} (hfuel : (d.course s n).answer ≠ .error { cause := .outOfFuel }) :
    d'.course s n = d.course s n := by
  induction h generalizing s n with
  | done result | reject error => rfl
  | ask r h ih =>
    cases hp : (TokenStream.pull r s).answer with
    | ok token =>
      rw [course_ask_ok hp] at hfuel
      rw [course_ask_ok hp, course_ask_ok hp, ih token hfuel]
    | error f => rw [course_ask_error hp, course_ask_error hp]
  | temporary h ih | label h ih => exact congrArg (Course.push _) (ih _ hfuel)
  | releaseTemporaries h ih | emit quad h ih => exact congrArg (Course.push _) (ih hfuel)
  | outOfFuel d' => exact absurd rfl hfuel

namespace Production

def Extends (P P' : Production ρ α) : Prop :=
  ∀ next next' : α → Dialogue ρ, (∀ a, (next a).Extends (next' a)) → (P next).Extends (P' next')

namespace Extends

theorem pure (a : α) : Extends (Pure.pure a : Production ρ α) (Pure.pure a) := fun _ _ h => h a

theorem bind {P P' : Production ρ α} {Q Q' : α → Production ρ β} (hP : Extends P P')
    (hQ : ∀ a, Extends (Q a) (Q' a)) : Extends (P >>= Q) (P' >>= Q') :=
  fun _ _ h => hP _ _ fun a => hQ a _ _ h

theorem peek : Extends (Production.peek : Production ρ Token) Production.peek :=
  fun _ _ => .ask .peek

theorem pop : Extends (Production.pop : Production ρ Token) Production.pop :=
  fun _ _ => .ask .pop

theorem temporary : Extends (Production.temporary : Production ρ Bytes) Production.temporary :=
  fun _ _ => .temporary

theorem label : Extends (Production.label : Production ρ Bytes) Production.label :=
  fun _ _ => .label

theorem releaseTemporaries :
    Extends (Production.releaseTemporaries : Production ρ Unit) Production.releaseTemporaries :=
  fun _ _ h => .releaseTemporaries (h ())

theorem emit (q : Quad) : Extends (Production.emit q : Production ρ Unit) (Production.emit q) :=
  fun _ _ h => .emit q (h ())

theorem reject (found : Token) (message : Bytes) (expected : List TokenKind) :
    Extends (Production.reject found message expected : Production ρ α)
      (Production.reject found message expected) :=
  fun _ _ _ => .reject _

theorem outOfFuel (P : Production ρ α) : Extends Production.outOfFuel P :=
  fun _ _ _ => .outOfFuel _

theorem accept (kind : TokenKind) :
    Extends (Production.accept kind : Production ρ Bool) (Production.accept kind) := by
  refine .bind .peek fun token => ?_
  split
  · exact .bind .pop fun _ => .pure true
  · exact .pure false

theorem expect (kind : TokenKind) (message : Bytes) :
    Extends (Production.expect kind message : Production ρ Unit)
      (Production.expect kind message) := by
  refine .bind .peek fun token => ?_
  split
  · exact .bind .pop fun _ => .pure ()
  · exact .reject token message [kind]

end Extends

variable {fuel fuel' : Nat}

theorem extends_chain (operation? : TokenKind → Option Opcode)
    {operand operand' : Production ρ Bytes} (h : Extends operand operand') (hfuel : fuel ≤ fuel')
    (left : Bytes) :
    Extends (chain operation? operand fuel left) (chain operation? operand' fuel' left) := by
  induction fuel generalizing fuel' left with
  | zero => exact .outOfFuel _
  | succ fuel ih =>
    obtain ⟨fuel', rfl⟩ := Nat.exists_eq_add_of_lt hfuel
    refine .bind .peek fun token => ?_
    split
    · exact .pure left
    · exact .bind .pop fun _ => .bind h fun right => .bind .temporary fun result =>
        .bind (.emit _) fun _ => ih (by omega) result

theorem extends_base {value value' : Production ρ Bytes} (h : Extends value value') :
    Extends (base value) (base value') := by
  refine .bind .peek fun token => ?_
  split
  · exact h
  · exact .bind .pop fun _ => .bind h fun operand => .bind .temporary fun result =>
      .bind (.emit _) fun _ => .pure result

theorem extends_factor {value value' : Production ρ Bytes} (h : Extends value value')
    (hfuel : fuel ≤ fuel') : Extends (factor value fuel) (factor value' fuel') := by
  induction fuel generalizing fuel' with
  | zero => exact .outOfFuel _
  | succ fuel ih =>
    obtain ⟨fuel', rfl⟩ := Nat.exists_eq_add_of_lt hfuel
    refine .bind (extends_base h) fun left => .bind (.accept .power) fun more => ?_
    split
    · exact .bind (ih (by omega)) fun right => .bind .temporary fun result =>
        .bind (.emit _) fun _ => .pure result
    · exact .pure left

theorem extends_sum {value value' : Production ρ Bytes} (h : Extends value value')
    (hfuel : fuel ≤ fuel') : Extends (sum value fuel) (sum value' fuel') := by
  have hfactor := extends_factor h hfuel
  have hterm : Extends (term value fuel) (term value' fuel') :=
    .bind hfactor fun left => extends_chain _ hfactor hfuel left
  exact .bind hterm fun left => extends_chain _ hterm hfuel left

theorem extends_value (hfuel : fuel ≤ fuel') :
    Extends (value fuel : Production ρ Bytes) (value fuel') := by
  induction fuel generalizing fuel' with
  | zero => exact .outOfFuel _
  | succ fuel ih =>
    obtain ⟨fuel', rfl⟩ := Nat.exists_eq_add_of_lt hfuel
    refine .bind .peek fun token => ?_
    split
    · exact .bind .pop fun _ => .bind (extends_sum (ih (by omega)) (by omega)) fun operand =>
        .bind (.expect _ _) fun _ => .pure operand
    · exact .bind .pop fun _ => .pure token.lexeme
    · exact .bind .pop fun _ => .pure token.lexeme
    · exact .reject _ _ _

theorem extends_expression (hfuel : fuel ≤ fuel') :
    Extends (expression fuel : Production ρ Bytes) (expression fuel') :=
  extends_sum (extends_value hfuel) hfuel

theorem extends_comparator :
    Extends (comparator : Production ρ (Option Comparator)) comparator := by
  refine .bind .peek fun token => ?_
  split
  · exact .pure none
  · exact .bind .pop fun _ => .pure _

theorem extends_condition (place : Bytes) (hfuel : fuel ≤ fuel') :
    Extends (condition place fuel : Production ρ (Bytes × Bytes × Comparator))
      (condition place fuel') := by
  refine .bind (extends_expression hfuel) fun left => .bind extends_comparator fun c? => ?_
  split
  · exact .bind .peek fun token => .reject _ _ _
  · exact .bind (extends_expression hfuel) fun right => .pure _

theorem extends_guarded (left right : Bytes) (c : Comparator) {body body' : Production ρ Unit}
    (h : Extends body body') :
    Extends (guarded left right c body) (guarded left right c body') :=
  .bind .label fun _ => .bind .label fun behind => .bind (.emit _) fun _ => .bind (.emit _) fun _ =>
    .bind (.emit _) fun _ => .bind h fun _ => .pure behind

theorem extends_statementFrom (first : Token) {body body' : Production ρ Unit}
    (h : Extends body body') (hfuel : fuel ≤ fuel') :
    Extends (statementFrom first body fuel) (statementFrom first body' fuel') := by
  unfold statementFrom
  split
  · exact .bind .pop fun target => .bind (.expect _ _) fun _ =>
      .bind (extends_expression hfuel) fun operand => .emit _
  · exact .bind .pop fun _ => .bind (extends_condition _ hfuel) fun test =>
      .bind (.expect _ _) fun _ => .bind (extends_guarded _ _ _ h) fun _ => .emit _
  · exact .bind .pop fun _ => .bind .label fun again => .bind (.emit _) fun _ =>
      .bind (extends_condition _ hfuel) fun test => .bind (.expect _ _) fun _ =>
        .bind (extends_guarded _ _ _ h) fun _ => .bind (.emit _) fun _ => .emit _
  · exact .reject _ _ _

theorem extends_statement (hfuel : fuel ≤ fuel') :
    Extends (statement fuel : Production ρ Unit) (statement fuel') := by
  induction fuel generalizing fuel' with
  | zero => exact .outOfFuel _
  | succ fuel ih =>
    obtain ⟨fuel', rfl⟩ := Nat.exists_eq_add_of_lt hfuel
    exact .bind .releaseTemporaries fun _ => .bind .peek fun first =>
      .bind (extends_statementFrom first (ih (by omega)) (by omega)) fun _ => .releaseTemporaries

theorem extends_statements (hfuel : fuel ≤ fuel') :
    Extends (statements fuel : Production ρ Unit) (statements fuel') := by
  induction fuel generalizing fuel' with
  | zero => exact .outOfFuel _
  | succ fuel ih =>
    obtain ⟨fuel', rfl⟩ := Nat.exists_eq_add_of_lt hfuel
    refine .bind .peek fun token => ?_
    split
    · refine .bind (extends_statement (by omega)) fun _ => .bind (.accept .semicolon) fun more => ?_
      split
      · exact ih (by omega)
      · exact .pure ()
    · exact .pure ()

theorem extends_program (hfuel : fuel ≤ fuel') :
    Extends (program fuel : Production ρ Unit) (program fuel') :=
  .bind (.expect _ _) fun _ => .bind (extends_statements hfuel) fun _ =>
    .bind (.expect _ _) fun _ => .expect _ _

end Production

namespace CountedTokens

theorem answer_course (d : Dialogue ρ) {s : CountedTokens} (hpeek : s.peekFault = none)
    (hpop : s.popFault = none) (n : Names) :
    (d.course s n).answer =
      (d.course (⟨s.tokens, { cause := .unexpectedEnd }⟩ : TokenRow) n).answer := by
  have hs : s.Delivers s.tokens { cause := .unexpectedEnd } := ⟨rfl, hpeek, hpop, rfl⟩
  exact (delivery.course d hs n).1

/-- A bound that is at least the number of tokens is not reached. -/
theorem answer_course_program {s : CountedTokens} (hpeek : s.peekFault = none)
    (hpop : s.popFault = none) {fuel : Nat} (hfuel : s.tokens.length ≤ fuel) :
    ((Production.program fuel Dialogue.done).course s {}).answer ≠
      .error { cause := .outOfFuel } := by
  rw [answer_course _ hpeek hpop]
  change (Translator.reading fuel s.tokens { cause := .unexpectedEnd }).1 ≠ _
  obtain hread | hread | ⟨e, hread⟩ := Program.answer_reading hfuel { cause := .unexpectedEnd }
  · rw [hread]
    nofun
  · rw [hread]
    nofun
  · rw [hread]
    nofun

theorem course_program_eq {s : CountedTokens} (hpeek : s.peekFault = none)
    (hpop : s.popFault = none) {fuel fuel' : Nat} (hfuel : s.tokens.length ≤ fuel)
    (hle : fuel ≤ fuel') :
    (Production.program fuel' Dialogue.done).course s {} =
      (Production.program fuel Dialogue.done).course s {} :=
  (Production.extends_program hle _ _ .done).course (answer_course_program hpeek hpop hfuel)

end CountedTokens

end ThreeAddress
