import Mathlib.Computability.ContextFreeGrammar
import ThreeAddress.Proofs.Syntax

namespace ThreeAddress

inductive Nonterminal where
  | program
  | list
  | statement
  | comparator
  | expression
  | term
  | factor
  | base
  | value
  deriving DecidableEq

namespace Nonterminal

def all : List Nonterminal :=
  [program, list, statement, comparator, expression, term, factor, base, value]

theorem mem_all (a : Nonterminal) : a ∈ all := by cases a <;> decide

def rules : Nonterminal → List (List (Symbol TokenKind Nonterminal))
  | program =>
    [[.terminal .programWord, .nonterminal list, .terminal .endWord, .terminal .period]]
  | list =>
    [[], [.nonterminal statement],
      [.nonterminal statement, .terminal .semicolon, .nonterminal list]]
  | statement =>
    [[.terminal .ident, .terminal .equal, .nonterminal expression],
      [.terminal .ifWord, .nonterminal expression, .nonterminal comparator,
        .nonterminal expression, .terminal .thenWord, .nonterminal statement],
      [.terminal .whileWord, .nonterminal expression, .nonterminal comparator,
        .nonterminal expression, .terminal .doWord, .nonterminal statement]]
  | comparator =>
    [[.terminal .equal], [.terminal .less], [.terminal .lessEqual], [.terminal .greater],
      [.terminal .greaterEqual], [.terminal .notEqual]]
  | expression =>
    [[.nonterminal term],
      [.nonterminal expression, .terminal .plus, .nonterminal term],
      [.nonterminal expression, .terminal .minus, .nonterminal term]]
  | term =>
    [[.nonterminal factor],
      [.nonterminal term, .terminal .times, .nonterminal factor],
      [.nonterminal term, .terminal .divide, .nonterminal factor],
      [.nonterminal term, .terminal .intDivide, .nonterminal factor],
      [.nonterminal term, .terminal .modulo, .nonterminal factor]]
  | factor =>
    [[.nonterminal base], [.nonterminal base, .terminal .power, .nonterminal factor]]
  | base =>
    [[.nonterminal value], [.terminal .unaryPlus, .nonterminal value],
      [.terminal .unaryMinus, .nonterminal value]]
  | value =>
    [[.terminal .openParen, .nonterminal expression, .terminal .closeParen],
      [.terminal .ident], [.terminal .number]]

def allRules : List (ContextFreeRule TokenKind Nonterminal) :=
  all.flatMap fun a => a.rules.map fun output => ⟨a, output⟩

theorem mem_allRules {r : ContextFreeRule TokenKind Nonterminal} :
    r ∈ allRules ↔ r.output ∈ r.input.rules := by
  obtain ⟨a, output⟩ := r
  simp [allRules, mem_all]

end Nonterminal

def grammar : ContextFreeGrammar TokenKind where
  NT := Nonterminal
  initial := .program
  rules := Nonterminal.allRules.toFinset

theorem mem_rules_grammar {r : ContextFreeRule TokenKind Nonterminal} :
    r ∈ grammar.rules ↔ r.output ∈ r.input.rules :=
  (List.mem_toFinset (l := Nonterminal.allRules)).trans Nonterminal.mem_allRules

def Yields (xs : List (Symbol TokenKind Nonterminal)) (ts : List Token) : Prop :=
  grammar.Derives xs (ts.map fun t => .terminal t.kind)

namespace Yields

variable {xs ys : List (Symbol TokenKind Nonterminal)} {ts us : List Token}

theorem append (h : Yields xs ts) (h' : Yields ys us) : Yields (xs ++ ys) (ts ++ us) := by
  have hl : grammar.Derives (xs ++ ys) (ts.map (fun t => .terminal t.kind) ++ ys) :=
    h.append_right ys
  have hr := h'.append_left (ts.map fun t => .terminal t.kind)
  unfold Yields
  rw [List.map_append]
  exact hl.trans hr

theorem nil : Yields [] [] := Relation.ReflTransGen.refl

theorem token {t : Token} {kind : TokenKind} (ht : t.kind = kind) :
    Yields [.terminal kind] [t] := by
  subst ht
  exact Relation.ReflTransGen.refl

theorem rule {a : Nonterminal} (xs : List (Symbol TokenKind Nonterminal)) (hr : xs ∈ a.rules)
    (h : Yields xs ts) : Yields [.nonterminal a] ts := by
  refine .head ⟨⟨a, xs⟩, mem_rules_grammar.mpr hr, ?_⟩ h
  exact ContextFreeRule.Rewrites.input_output

end Yields

def Tier.nonterminal : Tier → Nonterminal
  | product => .term
  | sum => .expression

def Form.nonterminal : Form → Nonterminal
  | value => .value
  | base => .base
  | factor => .factor
  | chain tier | rest tier _ => tier.nonterminal

/-- What the grammar says about the tokens of a form. The rest of a chain makes a chain longer. -/
def Form.Yielded : Form → List Token → Prop
  | rest tier _, ts => ∀ us, Yields [.nonterminal tier.nonterminal] us →
      Yields [.nonterminal tier.nonterminal] (us ++ ts)
  | form, ts => Yields [.nonterminal form.nonterminal] ts

theorem Tier.yielded_operand {tier : Tier} {ts : List Token} (h : tier.operand.Yielded ts) :
    Yields [.nonterminal tier.operand.nonterminal] ts := by
  cases tier <;> exact h

theorem Tier.single_mem_rules (tier : Tier) :
    [.nonterminal tier.operand.nonterminal] ∈ tier.nonterminal.rules := by
  cases tier <;> decide

theorem Tier.chain_mem_rules {tier : Tier} {op : BinaryOperator} (h : op.tier = some tier) :
    [.nonterminal tier.nonterminal, .terminal op.kind,
      .nonterminal tier.operand.nonterminal] ∈ tier.nonterminal.rules := by
  cases op <;> simp [BinaryOperator.tier] at h <;> subst h <;> decide

theorem UnaryOperator.mem_rules (op : UnaryOperator) :
    [.terminal op.kind, .nonterminal .value] ∈ Nonterminal.base.rules := by
  cases op <;> decide

theorem Comparison.mem_rules (c : Comparison) :
    [.terminal c.kind] ∈ Nonterminal.comparator.rules := by
  cases c <;> decide

theorem Expression.Spelled.yielded {form : Form} {e : Expression} {ts : List Token}
    (h : e.Spelled form ts) : form.Yielded ts := by
  induction h with
  | name ht => exact .rule _ (by decide) (.token ht)
  | numeral ht => exact .rule _ (by decide) (.token ht)
  | paren ho he hc ih =>
    exact .rule [.terminal .openParen, .nonterminal .expression, .terminal .closeParen]
      (by decide) ((Yields.token ho).append (ih.append (.token hc)))
  | plain he ih => exact .rule _ (by decide) ih
  | signed ht he ih => exact .rule _ (UnaryOperator.mem_rules _) ((Yields.token ht).append ih)
  | single he ih => exact .rule _ (by decide) ih
  | power ha hx hb iha ihb =>
    exact .rule [.nonterminal .base, .terminal .power, .nonterminal .factor]
      (by decide) (iha.append ((Yields.token hx).append ihb))
  | @chain tier a e ts us ha hr iha ihr =>
    exact ihr ts (.rule _ tier.single_mem_rules (Tier.yielded_operand iha))
  | done =>
    intro us hus
    rwa [List.append_nil]
  | @more tier op x a b e ts us ho hx hb hr ihb ihr =>
    intro vs hvs
    have hlong : Yields [.nonterminal tier.nonterminal] (vs ++ x :: ts) :=
      .rule _ (Tier.chain_mem_rules ho)
        (hvs.append ((Yields.token hx).append (Tier.yielded_operand ihb)))
    simpa using ihr _ hlong

theorem Condition.Spelled.yields {c : Condition} {ts : List Token} (h : c.Spelled ts) :
    Yields [.nonterminal .expression, .nonterminal .comparator, .nonterminal .expression]
      ts := by
  cases h with
  | compare ha hx hb =>
    have hl : Yields [.nonterminal .expression] _ := ha.yielded
    have hc : Yields [.nonterminal .comparator] [_] := .rule _ (Comparison.mem_rules _) (.token hx)
    exact hl.append (hc.append hb.yielded)

theorem Statement.Spelled.yields {s : Statement} {ts : List Token} (h : s.Spelled ts) :
    Yields [.nonterminal .statement] ts := by
  induction h with
  | assign ht hx he =>
    exact .rule [.terminal .ident, .terminal .equal, .nonterminal .expression]
      (by decide) ((Yields.token ht).append ((Yields.token hx).append he.yielded))
  | conditional hi hc ht hs ih =>
    exact .rule (.terminal .ifWord :: ([.nonterminal .expression, .nonterminal .comparator,
        .nonterminal .expression] ++ [.terminal .thenWord, .nonterminal .statement]))
      (by decide) ((Yields.token hi).append (hc.yields.append ((Yields.token ht).append ih)))
  | loop hw hc hd hs ih =>
    exact .rule (.terminal .whileWord :: ([.nonterminal .expression,
        .nonterminal .comparator, .nonterminal .expression] ++
          [.terminal .doWord, .nonterminal .statement]))
      (by decide) ((Yields.token hw).append (hc.yields.append ((Yields.token hd).append ih)))

theorem Program.Listed.yields {p : Program} {ts : List Token} (h : p.Listed ts) :
    Yields [.nonterminal .list] ts := by
  induction h with
  | none => exact .rule [] (by decide) .nil
  | one hs => exact .rule _ (by decide) hs.yields
  | more hs hx hp ih =>
    exact .rule [.nonterminal .statement, .terminal .semicolon, .nonterminal .list]
      (by decide) (hs.yields.append ((Yields.token hx).append ih))

theorem Program.Spelled.yields {p : Program} {ts : List Token} (h : p.Spelled ts) :
    Yields [.nonterminal .program] ts := by
  cases h with
  | program hb hp he hd =>
    exact .rule (.terminal .programWord :: ([.nonterminal .list] ++
        [.terminal .endWord, .terminal .period]))
      (by decide) ((Yields.token hb).append
        (hp.yields.append ((Yields.token he).append (.token hd))))

def Nonterminal.Matches : Nonterminal → List Token → Prop
  | program, ts => ∃ p : Program, p.Spelled ts
  | list, ts => ∃ p : Program, p.Listed ts
  | statement, ts => ∃ s : Statement, s.Spelled ts
  | comparator, ts => ∃ t, ts = [t] ∧ ∃ c : Comparison, t.kind = c.kind
  | expression, ts => ∃ e : Expression, e.Spelled (.chain .sum) ts
  | term, ts => ∃ e : Expression, e.Spelled (.chain .product) ts
  | factor, ts => ∃ e : Expression, e.Spelled .factor ts
  | base, ts => ∃ e : Expression, e.Spelled .base ts
  | value, ts => ∃ e : Expression, e.Spelled .value ts

def Matches : List (Symbol TokenKind Nonterminal) → List Token → Prop
  | [], ts => ts = []
  | .terminal kind :: xs, ts => ∃ t us, ts = t :: us ∧ t.kind = kind ∧ Matches xs us
  | .nonterminal a :: xs, ts => ∃ us vs, ts = us ++ vs ∧ a.Matches us ∧ Matches xs vs

namespace Matches

variable {xs ys : List (Symbol TokenKind Nonterminal)} {ts us : List Token}

theorem append_iff :
    Matches (xs ++ ys) ts ↔ ∃ us vs, ts = us ++ vs ∧ Matches xs us ∧ Matches ys vs := by
  induction xs generalizing ts with
  | nil =>
    constructor
    · exact fun h => ⟨[], ts, rfl, rfl, h⟩
    · rintro ⟨us, vs, rfl, rfl, h⟩
      exact h
  | cons x xs ih =>
    cases x with
    | terminal kind =>
      constructor
      · rintro ⟨t, ts, rfl, ht, h⟩
        obtain ⟨us, vs, rfl, hx, hy⟩ := ih.mp h
        exact ⟨t :: us, vs, rfl, ⟨t, us, rfl, ht, hx⟩, hy⟩
      · rintro ⟨_, vs, rfl, ⟨t, us, rfl, ht, hx⟩, hy⟩
        exact ⟨t, us ++ vs, rfl, ht, ih.mpr ⟨us, vs, rfl, hx, hy⟩⟩
    | nonterminal a =>
      constructor
      · rintro ⟨ws, ts, rfl, ha, h⟩
        obtain ⟨us, vs, rfl, hx, hy⟩ := ih.mp h
        exact ⟨ws ++ us, vs, by simp, ⟨ws, us, rfl, ha, hx⟩, hy⟩
      · rintro ⟨_, vs, rfl, ⟨ws, us, rfl, ha, hx⟩, hy⟩
        exact ⟨ws, us ++ vs, by simp, ha, ih.mpr ⟨us, vs, rfl, hx, hy⟩⟩

theorem of_kinds (ts : List Token) : Matches (ts.map fun t => .terminal t.kind) ts := by
  induction ts with
  | nil => rfl
  | cons t ts ih => exact ⟨t, ts, rfl, rfl, ih⟩

theorem single {a : Nonterminal} (h : Matches [.nonterminal a] ts) : a.Matches ts := by
  obtain ⟨us, _, rfl, ha, rfl⟩ := h
  rwa [List.append_nil]

theorem snoc (tier : Tier) (op : BinaryOperator) (ho : op.tier = some tier)
    (hl : ∀ ts, tier.nonterminal.Matches ts → ∃ e : Expression, e.Spelled (.chain tier) ts)
    (hr : ∀ ts, tier.operand.nonterminal.Matches ts →
      ∃ e : Expression, e.Spelled tier.operand ts)
    (h : Matches [.nonterminal tier.nonterminal, .terminal op.kind,
      .nonterminal tier.operand.nonterminal] ts) :
    ∃ e : Expression, e.Spelled (.chain tier) ts := by
  obtain ⟨us, _, rfl, ha, x, vs, rfl, hx, hb⟩ := h
  obtain ⟨a, ha⟩ := hl us ha
  obtain ⟨b, hb⟩ := hr vs hb.single
  exact ⟨_, ha.snoc ho hx hb⟩

theorem condition {first last : TokenKind}
    (h : Matches [.terminal first, .nonterminal .expression, .nonterminal .comparator,
      .nonterminal .expression, .terminal last, .nonterminal .statement] ts) :
    ∃ (i t : Token) (c : Condition) (s : Statement) (us vs : List Token),
      ts = i :: (us ++ t :: vs) ∧ i.kind = first ∧ c.Spelled us ∧ t.kind = last ∧
        s.Spelled vs := by
  obtain ⟨i, _, rfl, hi, us, _, rfl, ⟨a, ha⟩, _, _, rfl, ⟨x, rfl, c, hx⟩, vs, _, rfl, ⟨b, hb⟩,
    t, ws, rfl, ht, hs⟩ := h
  obtain ⟨s, hs⟩ := hs.single
  exact ⟨i, t, ⟨a, c, b⟩, s, us ++ x :: vs, ws, by simp, hi, .compare ha hx hb, ht, hs⟩

theorem rule {a : Nonterminal} (hr : xs ∈ a.rules) (h : Matches xs ts) : a.Matches ts := by
  cases a with
  | program =>
    obtain rfl := List.mem_singleton.mp hr
    obtain ⟨b, _, rfl, hb, us, _, rfl, ⟨p, hp⟩, e, _, rfl, he, d, _, rfl, hd, rfl⟩ := h
    exact ⟨p, .program hb hp he hd⟩
  | list =>
    simp only [Nonterminal.rules, List.mem_cons, List.not_mem_nil, or_false] at hr
    rcases hr with rfl | rfl | rfl
    · obtain rfl := h
      exact ⟨[], .none⟩
    · obtain ⟨s, hs⟩ := h.single
      exact ⟨[s], .one hs⟩
    · obtain ⟨us, _, rfl, ⟨s, hs⟩, x, vs, rfl, hx, h⟩ := h
      obtain ⟨p, hp⟩ := h.single
      exact ⟨s :: p, .more hs hx hp⟩
  | statement =>
    simp only [Nonterminal.rules, List.mem_cons, List.not_mem_nil, or_false] at hr
    rcases hr with rfl | rfl | rfl
    · obtain ⟨t, _, rfl, ht, x, us, rfl, hx, h⟩ := h
      obtain ⟨e, he⟩ := h.single
      exact ⟨_, .assign ht hx he⟩
    · obtain ⟨i, t, c, s, us, vs, rfl, hi, hc, ht, hs⟩ := h.condition
      exact ⟨_, .conditional hi hc ht hs⟩
    · obtain ⟨w, d, c, s, us, vs, rfl, hw, hc, hd, hs⟩ := h.condition
      exact ⟨_, .loop hw hc hd hs⟩
  | comparator =>
    have hc : ∃ c : Comparison, xs = [.terminal c.kind] := by
      simp only [Nonterminal.rules, List.mem_cons, List.not_mem_nil, or_false] at hr
      rcases hr with rfl | rfl | rfl | rfl | rfl | rfl
      exacts [⟨.equal, rfl⟩, ⟨.less, rfl⟩, ⟨.lessEqual, rfl⟩, ⟨.greater, rfl⟩,
        ⟨.greaterEqual, rfl⟩, ⟨.notEqual, rfl⟩]
    obtain ⟨c, rfl⟩ := hc
    obtain ⟨t, _, rfl, ht, rfl⟩ := h
    exact ⟨t, rfl, c, ht⟩
  | expression =>
    simp only [Nonterminal.rules, List.mem_cons, List.not_mem_nil, or_false] at hr
    rcases hr with rfl | rfl | rfl
    · obtain ⟨e, he⟩ := h.single
      exact ⟨e, .whole he⟩
    · exact snoc .sum .add rfl (fun _ h => h) (fun _ h => h) h
    · exact snoc .sum .subtract rfl (fun _ h => h) (fun _ h => h) h
  | term =>
    simp only [Nonterminal.rules, List.mem_cons, List.not_mem_nil, or_false] at hr
    rcases hr with rfl | rfl | rfl | rfl | rfl
    · obtain ⟨e, he⟩ := h.single
      exact ⟨e, .whole he⟩
    · exact snoc .product .multiply rfl (fun _ h => h) (fun _ h => h) h
    · exact snoc .product .divide rfl (fun _ h => h) (fun _ h => h) h
    · exact snoc .product .intDivide rfl (fun _ h => h) (fun _ h => h) h
    · exact snoc .product .modulo rfl (fun _ h => h) (fun _ h => h) h
  | factor =>
    simp only [Nonterminal.rules, List.mem_cons, List.not_mem_nil, or_false] at hr
    rcases hr with rfl | rfl
    · obtain ⟨e, he⟩ := h.single
      exact ⟨e, .single he⟩
    · obtain ⟨us, _, rfl, ⟨a, ha⟩, x, vs, rfl, hx, h⟩ := h
      obtain ⟨b, hb⟩ := h.single
      exact ⟨_, .power ha hx hb⟩
  | base =>
    simp only [Nonterminal.rules, List.mem_cons, List.not_mem_nil, or_false] at hr
    rcases hr with rfl | rfl | rfl
    · obtain ⟨e, he⟩ := h.single
      exact ⟨e, .plain he⟩
    · obtain ⟨t, us, rfl, ht, h⟩ := h
      obtain ⟨e, he⟩ := h.single
      exact ⟨.unary .keep e, .signed ht he⟩
    · obtain ⟨t, us, rfl, ht, h⟩ := h
      obtain ⟨e, he⟩ := h.single
      exact ⟨.unary .negate e, .signed ht he⟩
  | value =>
    simp only [Nonterminal.rules, List.mem_cons, List.not_mem_nil, or_false] at hr
    rcases hr with rfl | rfl | rfl
    · obtain ⟨o, _, rfl, ho, us, _, rfl, ⟨e, he⟩, c, _, rfl, hc, rfl⟩ := h
      exact ⟨e, .paren ho he hc⟩
    · obtain ⟨t, _, rfl, ht, rfl⟩ := h
      exact ⟨_, .name ht⟩
    · obtain ⟨t, _, rfl, ht, rfl⟩ := h
      exact ⟨_, .numeral ht⟩

theorem of_yields (h : Yields xs ts) : Matches xs ts := by
  induction h using Relation.ReflTransGen.head_induction_on with
  | refl => exact of_kinds ts
  | head hstep _ ih =>
    obtain ⟨r, hr, hrw⟩ := hstep
    obtain ⟨p, q, rfl, rfl⟩ := hrw.exists_parts
    obtain ⟨_, vs, rfl, h, hq⟩ := append_iff.mp ih
    obtain ⟨us, ws, rfl, hp, ho⟩ := append_iff.mp h
    refine append_iff.mpr ⟨us ++ ws, vs, rfl, append_iff.mpr ⟨us, ws, rfl, hp, ?_⟩, hq⟩
    exact ⟨ws, [], by simp, rule (mem_rules_grammar.mp hr) ho, rfl⟩

end Matches

/-- The words of the grammar are the kinds of the tokens that spell programs. -/
theorem mem_language_iff (ts : List Token) :
    ts.map Token.kind ∈ grammar.language ↔ ∃ p : Program, p.Spelled ts := by
  have hy : ts.map Token.kind ∈ grammar.language ↔ Yields [.nonterminal .program] ts := by
    rw [ContextFreeGrammar.mem_language_iff, List.map_map]
    rfl
  rw [hy]
  constructor
  · exact fun h => (Matches.of_yields h).single
  · rintro ⟨p, hp⟩
    exact hp.yields

end ThreeAddress
