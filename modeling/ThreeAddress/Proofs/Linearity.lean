import ThreeAddress.Proofs.Decision.Expression
import ThreeAddress.Proofs.Operands
import ThreeAddress.Proofs.Preservation
import ThreeAddress.Proofs.Stretches

namespace ThreeAddress

open Names

variable {ρ : Type}

namespace Production

variable {closed : Stretch → Prop} {final : ρ → Reading → Prop}

/-- The tokens `ts` start with an expression in the form, and `s` is the reading after it: its code
comes after `qs`, and its value is in `a`. -/
def Passed (form : Form) (ts : List Token) (f : Failure) (i j : Nat) (qs : List Quad) (a : Bytes)
    (s : Reading) : Prop :=
  ∃ e p r, ts = p ++ r ∧ Expression.Spelled form e p ∧ a = e.operand i ∧
    s = ⟨r, f, ⟨i + e.operations, j⟩, qs ++ e.code i⟩

def Reads (closed : Stretch → Prop) (final : ρ → Reading → Prop) (form : Form)
    (P : Production ρ Bytes) : Prop :=
  ∀ ts f i j qs, Leads closed final P ⟨ts, f, ⟨i, j⟩, qs⟩ (Passed form ts f i j qs)

theorem reads_base {value : Production ρ Bytes} (hvalue : Reads closed final .value value) :
    Reads closed final .base (base value) := by
  intro ts f i j qs
  refine .bind_peek fun token rest hs => ?_
  split
  · refine (hvalue ts f i j qs).mono fun a s h => ?_
    obtain ⟨e, p, r, hts, he, ha, hs⟩ := h
    exact ⟨e, p, r, hts, .plain he, ha, hs⟩
  · next op hop =>
    obtain ⟨u, hu⟩ := UnaryOperator.exists_kind_eq hop
    obtain rfl : u.opcode = op := Option.some.inj (u.ofSign?_kind.symm.trans (hu ▸ hop))
    refine .bind_pop hs (.bind (hvalue rest f i j qs) fun a s h => ?_)
    obtain ⟨e, p, r, rfl, he, rfl, rfl⟩ := h
    refine .bind_temporary (.bind_emit (.pure ?_))
    exact ⟨.unary u e, token :: p, r, hs, .signed hu he, rfl,
      by simp [Expression.code, Expression.operations, Names.temporary, Nat.add_assoc]⟩

theorem reads_factor {value : Production ρ Bytes} (hvalue : Reads closed final .value value)
    (fuel : Nat) : Reads closed final .factor (factor value fuel) := by
  induction fuel with
  | zero => exact fun _ _ _ _ _ => .outOfFuel
  | succ fuel ih =>
    intro ts f i j qs
    refine .bind (reads_base hvalue ts f i j qs) fun a s h => ?_
    obtain ⟨e, p, r, rfl, he, rfl, rfl⟩ := h
    refine .bind_accept (fun token rest hs hk => ?_) (.pure ⟨e, p, r, rfl, .single he, rfl, rfl⟩)
    obtain rfl : r = token :: rest := hs
    refine .bind (ih rest f _ j _) fun a s h => ?_
    obtain ⟨b, q, r, rfl, hb, rfl, rfl⟩ := h
    refine .bind_temporary (.bind_emit (.pure ?_))
    refine ⟨.binary .power e b, p ++ token :: q, r, by simp, .power he hk hb, rfl, ?_⟩
    simp [Expression.code, Expression.operations, Names.temporary, Nat.add_assoc,
      BinaryOperator.opcode]

theorem leads_chain (tier : Tier) {operand : Production ρ Bytes}
    (hoperand : Reads closed final tier.operand operand) (fuel : Nat) (left : Expression)
    (ts : List Token) (f : Failure) (i j : Nat) (qs : List Quad) :
    Leads closed final (chain tier.operation? operand fuel (left.operand i))
      ⟨ts, f, ⟨i + left.operations, j⟩, qs ++ left.code i⟩
      (Passed (.rest tier left) ts f i j qs) := by
  induction fuel generalizing left ts with
  | zero => exact .outOfFuel
  | succ fuel ih =>
    refine .bind_peek fun token rest hs => ?_
    split
    · exact .pure ⟨left, [], ts, rfl, .done, rfl, rfl⟩
    · next op hop =>
      obtain ⟨b, hb, hkind⟩ := Tier.exists_kind_eq hop
      obtain rfl : b.opcode = op :=
        Option.some.inj ((Tier.operation?_kind hb).symm.trans (hkind ▸ hop))
      refine .bind_pop hs (.bind (hoperand rest f _ j _) fun a s h => ?_)
      obtain ⟨e, p, r, rfl, he, rfl, rfl⟩ := h
      obtain rfl : ts = token :: (p ++ r) := hs
      refine .bind_temporary (.bind_emit ?_)
      -- the operator and its operands are the part of the chain to go on from
      have hnext := ih (.binary b left e) r
      simp only [Expression.code, Expression.operations, Expression.operand_binary,
        ← List.append_assoc, ← Nat.add_assoc] at hnext
      refine hnext.mono fun a s h => ?_
      obtain ⟨e', q, r, rfl, he', ha, hs⟩ := h
      exact ⟨e', token :: (p ++ q), r, by simp, .more hb hkind he he', ha, hs⟩

theorem reads_chain (tier : Tier) {operand : Production ρ Bytes}
    (hoperand : Reads closed final tier.operand operand) (fuel : Nat) :
    Reads closed final (.chain tier) (operand >>= chain tier.operation? operand fuel) := by
  intro ts f i j qs
  refine .bind (hoperand ts f i j qs) fun a s h => ?_
  obtain ⟨e, p, r, rfl, he, rfl, rfl⟩ := h
  refine (leads_chain tier hoperand fuel e r f i j qs).mono fun a s h => ?_
  obtain ⟨e', q, r, rfl, he', ha, hs⟩ := h
  exact ⟨e', p ++ q, r, (List.append_assoc ..).symm, .chain he he', ha, hs⟩

theorem reads_sum {value : Production ρ Bytes} (hvalue : Reads closed final .value value)
    (fuel : Nat) : Reads closed final (.chain .sum) (sum value fuel) :=
  reads_chain .sum (reads_chain .product (reads_factor hvalue fuel) fuel) fuel

theorem reads_value (fuel : Nat) : Reads closed final .value (value fuel) := by
  induction fuel with
  | zero => exact fun _ _ _ _ _ => .outOfFuel
  | succ fuel ih =>
    intro ts f i j qs
    refine .bind_peek fun token rest hs => ?_
    obtain rfl : ts = token :: rest := hs
    split
    · next hk =>
      refine .bind_pop rfl (.bind (reads_sum ih fuel rest f i j qs) fun a s h => ?_)
      obtain ⟨e, p, r, rfl, he, rfl, rfl⟩ := h
      refine .bind_expect fun last rest' hs' hlast => .pure ?_
      obtain rfl : r = last :: rest' := hs'
      exact ⟨e, token :: (p ++ [last]), rest', by simp, .paren hk he hlast, rfl, rfl⟩
    · next hk =>
      exact .bind_pop rfl (.pure ⟨.name token.lexeme, [token], rest, rfl, .name hk, rfl, by
        simp [Expression.code, Expression.operations]⟩)
    · next hk =>
      exact .bind_pop rfl (.pure ⟨.numeral token.lexeme, [token], rest, rfl, .numeral hk, rfl, by
        simp [Expression.code, Expression.operations]⟩)
    · exact .reject _ _ _

/-- Whatever tokens there are, an expression is passed only if they spell one, and then its code has
been emitted. -/
theorem reads_expression (fuel : Nat) : Reads closed final (.chain .sum) (expression fuel) :=
  reads_sum (reads_value fuel) fuel

end Production

def Stretch.Linear (s : Stretch) : Prop := ThreeAddress.Linear 0 s.drawn s.quads []

/-- What is set so far, and has not been used, is `pending`. No name and no numeral among the tokens
that are left is that of a temporary. -/
structure Reading.Holds (pending : List Bytes) (s : Reading) : Prop where
  words : ∀ t ∈ s.tokens, t.Over (¬IsTemporary ·) (¬IsTemporary ·)
  linear : Linear 0 s.names.temporaries s.quads pending

structure Reading.Fresh (s : Reading) : Prop extends Reading.Holds [] s where
  quads_eq : s.quads = []

namespace Reading.Holds

variable {s : Reading} {pending : List Bytes} {q : Quad}

theorem pop (h : s.Holds pending) {token : Token} {rest : List Token}
    (hs : s.tokens = token :: rest) : Holds pending { s with tokens := rest } :=
  ⟨fun t ht => h.words t (hs ▸ List.mem_cons_of_mem token ht), h.linear⟩

theorem label (h : s.Holds pending) : Holds pending { s with names := s.names.label.2 } :=
  ⟨h.words, h.linear⟩

theorem emit (h : s.Holds (pending ++ q.operands))
    (hr : ∀ k, q.result? ≠ some (temporaryName k)) :
    Holds pending { s with quads := s.quads ++ [q] } :=
  ⟨h.words, h.linear.emit rfl hr⟩

theorem emit_idle (h : s.Holds pending) (hq : q.operands = []) (hr : q.result? = none) :
    Holds pending { s with quads := s.quads ++ [q] } := by
  refine emit ?_ fun k => by simp [hr]
  rwa [hq, List.append_nil]

end Reading.Holds

theorem Reading.Fresh.pop {s : Reading} (h : s.Fresh) {token : Token} {rest : List Token}
    (hs : s.tokens = token :: rest) : Fresh { s with tokens := rest } :=
  ⟨h.toHolds.pop hs, h.quads_eq⟩

namespace Production

open Reading

variable {closed : Stretch → Prop} {final : ρ → Reading → Prop} {s : Reading}
  {pending : List Bytes}

theorem leads_operand (fuel : Nat) (h : s.Holds pending) :
    Leads closed final (expression fuel) s fun a => Holds (pending ++ [a]) := by
  obtain ⟨ts, f, ⟨i, j⟩, qs⟩ := s
  refine (reads_expression fuel ts f i j qs).mono fun a s hs => ?_
  obtain ⟨e, p, r, rfl, he, rfl, rfl⟩ := hs
  have hover : e.Over (¬IsTemporary ·) (¬IsTemporary ·) :=
    he.over (fun t ht => h.words t (List.mem_append_left r ht)) fun _ _ hform => by cases hform
  exact ⟨fun t ht => h.words t (List.mem_append_right p ht), h.linear.code hover⟩

theorem leads_comparator (h : s.Holds pending) :
    Leads closed final comparator s fun _ => Holds pending := by
  refine .bind_peek fun token rest hs => ?_
  split
  · exact .pure h
  · exact .bind_pop hs (.pure (h.pop hs))

theorem leads_condition (place : Bytes) (fuel : Nat) (h : s.Holds []) :
    Leads closed final (condition place fuel) s fun x => Holds [x.1, x.2.1] := by
  refine .bind (leads_operand fuel h) fun left s h => ?_
  refine .bind (leads_comparator h) fun c s h => ?_
  split
  · exact .bind_peek fun token _ _ => .reject _ _ _
  · exact .bind (leads_operand fuel h) fun right s h => .pure h

theorem leads_guarded {left right : Bytes} (c : Comparator) {body : Production ρ Unit}
    (hbody : ∀ s : Reading, s.Holds [] → Leads closed final body s fun _ => Holds [])
    (h : s.Holds [left, right]) :
    Leads closed final (guarded left right c body) s fun _ => Holds [] := by
  refine .bind_label (.bind_label (.bind_emit (.bind_emit (.bind_emit (.bind (hbody _ ?_) ?_)))))
  · refine Holds.emit_idle (Holds.emit_idle (Holds.emit ?_ fun k hk => ?_) rfl rfl) rfl rfl
    · exact h.label.label
    · cases hk
  · exact fun _ s h => .pure h

theorem leads_statementFrom {first : Token} {rest : List Token} {body : Production ρ Unit}
    (hbody : ∀ s : Reading, s.Holds [] → Leads closed final body s fun _ => Holds []) (fuel : Nat)
    (h : s.Holds []) (hs : s.tokens = first :: rest) :
    Leads closed final (statementFrom first body fuel) s fun _ => Holds [] := by
  unfold statementFrom
  split
  · next hk =>
    have htarget := (h.words first (hs ▸ List.mem_cons_self ..)).1 hk
    refine .bind_pop hs (.bind_expect fun x rest' hs' _ => ?_)
    refine .bind (leads_operand fuel ((h.pop hs).pop hs')) fun a s h => .emit ?_
    exact h.emit fun k hr => htarget ⟨k, Option.some.inj hr⟩
  · refine .bind_pop hs (.bind (leads_condition _ fuel (h.pop hs)) fun x s h => ?_)
    refine .bind_expect fun token rest' hs' _ => ?_
    exact .bind (leads_guarded x.2.2 hbody (h.pop hs')) fun behind s h =>
      .emit (h.emit_idle rfl rfl)
  · refine .bind_pop hs (.bind_label (.bind_emit ?_))
    refine .bind (leads_condition _ fuel ((h.pop hs).label.emit_idle rfl rfl)) fun x s h => ?_
    refine .bind_expect fun token rest' hs' _ => ?_
    exact .bind (leads_guarded x.2.2 hbody (h.pop hs')) fun behind s h =>
      .bind_emit (.emit ((h.emit_idle rfl rfl).emit_idle rfl rfl))
  · exact .reject _ _ _

theorem leads_release (h : s.Holds []) :
    Leads Stretch.Linear final releaseTemporaries s fun _ => Fresh :=
  .releaseTemporaries h.linear ⟨⟨h.words, .nil 0⟩, rfl⟩

theorem leads_statement (fuel : Nat) (h : s.Holds []) :
    Leads Stretch.Linear final (statement fuel) s fun _ => Fresh := by
  induction fuel generalizing s with
  | zero => exact .outOfFuel
  | succ fuel ih =>
    have hbody (s : Reading) (h : s.Holds []) :
        Leads Stretch.Linear final (statement fuel) s fun _ => Holds [] :=
      (ih h).mono fun _ _ h => h.toHolds
    refine .bind (leads_release h) fun _ s h => .bind_peek fun first rest hs => ?_
    exact .bind (leads_statementFrom hbody fuel h.toHolds hs) fun _ s h => leads_release h

theorem leads_statements (fuel : Nat) (h : s.Fresh) :
    Leads Stretch.Linear final (statements fuel) s fun _ => Fresh := by
  induction fuel generalizing s with
  | zero => exact .outOfFuel
  | succ fuel ih =>
    refine .bind_peek fun token rest hs => ?_
    split
    · refine .bind (leads_statement (fuel + 1) h.toHolds) fun _ s h => ?_
      exact .bind_accept (fun token rest hs _ => ih (h.pop hs)) (.pure h)
    · exact .pure h

theorem leads_program (fuel : Nat) (h : s.Fresh) :
    Leads Stretch.Linear final (program fuel) s fun _ => Fresh := by
  refine .bind_expect fun token rest hs _ => ?_
  refine .bind (leads_statements fuel (h.pop hs)) fun _ s h => ?_
  refine .bind_expect fun token rest hs _ => ?_
  rw [← bind_pure (expect _ _)]
  exact .bind_expect fun _ _ hs' _ => .pure ((h.pop hs).pop hs')

end Production

namespace Translator

/-- An expression that is recognised is spelled by the tokens that are taken, and what is emitted is
its code. -/
theorem exists_of_run_expression {t : Translator CountedTokens} {fuel : Nat} {a : Bytes}
    (h : (t.run (Production.expression fuel Dialogue.done)).1 = .ok a) :
    let u := (t.run (Production.expression fuel Dialogue.done)).2
    ∃ (e : Expression) (p : List Token), e.Spelled (.chain .sum) p ∧
      t.tokens.tokens = p ++ u.tokens.tokens ∧ a = e.operand t.names.temporaries ∧
      u.names = ⟨t.names.temporaries + e.operations, t.names.labels⟩ ∧
      t.emissions (Production.expression fuel Dialogue.done) = e.code t.names.temporaries := by
  intro u
  let d : Dialogue Bytes := Production.expression fuel Dialogue.done
  let s : Reading := ⟨t.tokens.tokens, { cause := .unexpectedEnd }, t.names, []⟩
  -- an expression gives no temporaries back, so there is nothing to cut
  have hupholds : d.Upholds (fun _ => False)
      (Production.Passed (.chain .sum) s.tokens s.ending s.names.temporaries s.names.labels []) s :=
    Production.reads_expression fuel s.tokens s.ending s.names.temporaries s.names.labels []
      Dialogue.done fun _ _ h => h
  obtain ⟨hcut, hfinal⟩ := hupholds.course (u := t.tokens) rfl
  rw [run_eq_course] at h
  obtain ⟨e, p, r, hts, he, ha, hs⟩ := hfinal a h
  have hquads := Act.quads_stretches (d.course t.tokens t.names).acts ⟨[], t.names.temporaries⟩
  rw [List.eq_nil_iff_forall_not_mem.mpr hcut] at hquads
  have hu : u = t.follow (d.course t.tokens t.names) := by
    simp only [u, run_eq_course]
    rfl
  obtain ⟨hr, hnames, hcode⟩ : u.tokens.tokens = r ∧
      u.names = ⟨t.names.temporaries + e.operations, t.names.labels⟩ ∧
      (t.stretches d []).2 = e.code t.names.temporaries := by
    rw [hu]
    simpa [s, follow, stretches] using hs
  subst hr
  exact ⟨e, p, he, hts, ha, hnames, hquads.symm.trans hcode⟩

/-- Temporaries are linear, if none of them has the name of a word of the source. The code of an
expression sets a temporary for each operator and uses each of them once, except for the last one,
which holds the value. Whenever an analysis gives its temporaries back, each of them has been set
once and used once since they were given back the time before; and all that is emitted for a program
that is accepted comes before such a time. What is emitted is what is written, as long as the sink
takes it. -/
theorem temporaries_are_linear (t : Translator CountedTokens)
    (hwords : ∀ x ∈ t.tokens.tokens, x.kind = .ident ∨ x.kind = .number →
      ¬IsTemporary x.lexeme) :
    (∀ fuel a, (t.run (Production.expression fuel Dialogue.done)).1 = .ok a →
      let u := (t.run (Production.expression fuel Dialogue.done)).2
      ∃ (e : Expression) (p : List Token), e.Spelled (.chain .sum) p ∧
        t.tokens.tokens = p ++ u.tokens.tokens ∧
        u.names.temporaries = t.names.temporaries + operators p ∧
        LinearCode t.names.temporaries (operators p)
          (t.emissions (Production.expression fuel Dialogue.done)) a ∧
        (operators p = 0 → words p = [a])) ∧
    (t.names.temporaries = 0 →
      let x := t.stretches t.dialogue []
      x.1.flatMap Stretch.quads ++ x.2 = t.emitted ∧ (∀ s ∈ x.1, s.Linear) ∧
        ((t.run t.dialogue).1 = .ok () → x.2 = [])) ∧
    (t.emitter.failure = none → t.emitter.sink.limit = none →
      (∀ fuel, (t.run (Production.expression fuel Dialogue.done)).2.emitter.sink.written =
        ((t.emissions (Production.expression fuel Dialogue.done)).map Quad.line).reverse ++
          t.emitter.sink.written) ∧
      t.analyze.2.emitter.sink.written =
        (t.emitted.map Quad.line).reverse ++ t.emitter.sink.written) := by
  have hover : ∀ x ∈ t.tokens.tokens, x.Over (¬IsTemporary ·) (¬IsTemporary ·) :=
    fun x hx => ⟨fun hk => hwords x hx (.inl hk), fun hk => hwords x hx (.inr hk)⟩
  refine ⟨?_, ?_, fun hfailure hlimit => ⟨fun fuel => ?_, ?_⟩⟩
  · intro fuel a h u
    obtain ⟨e, p, he, hts, rfl, hnames, hcode⟩ := exists_of_run_expression h
    have hoperators : operators p = e.operations := by
      simpa [Form.operations] using he.operators_eq
    have hlinear : e.Over (¬IsTemporary ·) (¬IsTemporary ·) :=
      he.over (fun x hx => hover x (hts ▸ List.mem_append_left _ hx)) fun _ _ h => by cases h
    refine ⟨e, p, he, hts, ?_, ?_, fun hzero => ?_⟩
    · rw [hoperators, show u.names = _ from hnames]
    · rw [hoperators, hcode]
      exact e.linearCode hlinear _
    · have hw := he.words_eq
      rw [Expression.operand_of_zero (hoperators ▸ hzero) t.names.temporaries] at hw
      exact hw
  · intro hzero x
    let s : Reading := ⟨t.tokens.tokens, { cause := .unexpectedEnd }, t.names, []⟩
    have hlinear : Linear 0 s.names.temporaries [] [] := by
      rw [show s.names.temporaries = 0 from hzero]
      exact .nil 0
    have hupholds : t.dialogue.Upholds Stretch.Linear (fun _ s => s.quads = []) s :=
      Production.leads_program _ ⟨⟨hover, hlinear⟩, rfl⟩ Dialogue.done fun _ _ h => h.quads_eq
    obtain ⟨hcut, hfinal⟩ := hupholds.course (u := t.tokens) rfl
    rw [run_eq_course]
    exact ⟨Act.quads_stretches _ _, hcut, hfinal ()⟩
  · rw [emitter_run]
    exact (Emitter.foldl_emit _ hfailure hlimit).2.2
  · rw [analyze_emitter]
    exact (Emitter.foldl_emit _ hfailure hlimit).2.2

/-- A product with a sum and a sign in it, from the third temporary on, and a program with a
condition: when the temporaries are given back, three of the product have been drawn and one of the
condition. -/
theorem temporaries_are_linear_of_product :
    let token (kind : TokenKind) (text : String) : Token := ⟨kind, utf8 text, {}⟩
    let product := [token .openParen "(", token .ident "a", token .plus "+", token .number "2",
      token .closeParen ")", token .times "*", token .unaryMinus "~", token .ident "b"]
    let t : Translator CountedTokens :=
      { tokens := { tokens := product ++ [token .semicolon ";"] }, names := ⟨2, 0⟩ }
    let program := [token .programWord "PROGRAM", token .ident "x", token .equal "="] ++ product ++
      [token .semicolon ";", token .ifWord "IF", token .ident "x", token .less "<",
        token .ident "y", token .power "^", token .number "2", token .thenWord "THEN",
        token .ident "y", token .equal "=", token .ident "x", token .endWord "END",
        token .period "."]
    let u : Translator CountedTokens := { tokens := { tokens := program } }
    (∀ x ∈ t.tokens.tokens ++ u.tokens.tokens, x.kind = .ident ∨ x.kind = .number →
      ¬IsTemporary x.lexeme) ∧
    (t.run (Production.expression 9 Dialogue.done)).1 = .ok (utf8 "T4") ∧
    LinearCode 2 3 (t.emissions (Production.expression 9 Dialogue.done)) (utf8 "T4") ∧
    (u.run u.dialogue).1 = .ok () ∧ (u.stretches u.dialogue []).2 = [] ∧
    (u.stretches u.dialogue []).1.map Stretch.drawn = [0, 3, 0, 1, 0, 0] ∧
    (∀ s ∈ (u.stretches u.dialogue []).1, s.Linear) ∧
    u.analyze.2.emitter.sink.written.reverse = u.emitted.map Quad.line := by
  intro token product t program u
  have hhead : ∀ x ∈ t.tokens.tokens ++ u.tokens.tokens, x.lexeme.head? ≠ some 84 ∨
      x.kind = .thenWord := by decide +kernel
  have hwords : ∀ x ∈ t.tokens.tokens ++ u.tokens.tokens, x.kind = .ident ∨ x.kind = .number →
      ¬IsTemporary x.lexeme := by
    intro x hx hk
    rcases hhead x hx with hne | hthen
    · exact not_isTemporary_of_head? hne
    · rw [hthen] at hk
      rcases hk with hk | hk <;> cases hk
  have ht : (t.run (Production.expression 9 Dialogue.done)).1 = .ok (utf8 "T4") := by
    decide +kernel
  have hu : (u.run u.dialogue).1 = .ok () := by decide +kernel
  obtain ⟨e, p, -, hts, -, hlinear, -⟩ := (temporaries_are_linear t fun x hx =>
    hwords x (List.mem_append_left _ hx)).1 9 _ ht
  obtain ⟨-, hstretches, hwritten⟩ := temporaries_are_linear u fun x hx =>
    hwords x (List.mem_append_right _ hx)
  obtain ⟨-, hcut, hrest⟩ := hstretches rfl
  have hend : (t.run (Production.expression 9 Dialogue.done)).2.tokens.tokens =
      [token .semicolon ";"] := by decide +kernel
  rw [hend] at hts
  obtain rfl : product = p := List.append_cancel_right hts
  have hempty : u.emitter.sink.written = [] := rfl
  have hlines := (hwritten rfl rfl).2
  rw [hempty, List.append_nil] at hlines
  exact ⟨hwords, ht, hlinear, hu, hrest hu, by decide +kernel, hcut,
    List.reverse_eq_iff.mpr hlines⟩

end Translator

end ThreeAddress
