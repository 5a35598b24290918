import ThreeAddress.Proofs.Decision.Basic
import ThreeAddress.Proofs.Recognition

namespace ThreeAddress

variable {ρ : Type}

theorem UnaryOperator.exists_kind_eq {kind : TokenKind} {opcode : Opcode}
    (h : Opcode.ofSign? kind = some opcode) : ∃ op : UnaryOperator, kind = op.kind := by
  unfold Opcode.ofSign? at h
  split at h
  · exact ⟨.keep, rfl⟩
  · exact ⟨.negate, rfl⟩
  · cases h

theorem Tier.exists_kind_eq {tier : Tier} {kind : TokenKind} {opcode : Opcode}
    (h : tier.operation? kind = some opcode) :
    ∃ op : BinaryOperator, op.tier = some tier ∧ kind = op.kind := by
  cases tier with
  | product =>
    simp only [operation?, Opcode.ofFactorOperator?] at h
    split at h
    · exact ⟨.multiply, rfl, rfl⟩
    · exact ⟨.divide, rfl, rfl⟩
    · exact ⟨.intDivide, rfl, rfl⟩
    · exact ⟨.modulo, rfl, rfl⟩
    · cases h
  | sum =>
    simp only [operation?, Opcode.ofTermOperator?] at h
    split at h
    · exact ⟨.add, rfl, rfl⟩
    · exact ⟨.subtract, rfl, rfl⟩
    · cases h

theorem Form.Ends.chain {tier : Tier} {t : Token} {ts : List Token}
    (h : tier.operand.Ends (t :: ts)) (hk : tier.operation? t.kind = none) :
    (Form.chain tier).Ends (t :: ts) := by
  have ho : tier.operates t.kind = false := by rw [← Tier.isSome_operation?, hk]; rfl
  have hc : tier.operand.continues t.kind = false := by
    cases tier <;> cases h <;> assumption
  exact .token ts (by rw [Form.continues_chain, hc, ho]; rfl)

theorem Form.Ends.operand_cons {tier : Tier} {w : List Token} (h : tier.operand.Ends w) :
    ∃ t ts, w = t :: ts := by
  cases tier <;> cases h <;> exact ⟨_, _, rfl⟩

namespace Form

abbrev Begins (form : Form) : List Token → Prop := ThreeAddress.Begins (Expression.Spelled form)

theorem exists_spelled (form : Form) : ∃ e ts, Expression.Spelled form e ts := by
  let t := Token.ofKind .ident
  have hvalue : Expression.Spelled .value (.name t.lexeme) [t] := .name rfl
  have hfactor : Expression.Spelled (Tier.operand .product) (.name t.lexeme) [t] :=
    .single (.plain hvalue)
  have hproduct : Expression.Spelled (Tier.operand .sum) (.name t.lexeme) [t] :=
    hfactor.whole
  cases form with
  | value => exact ⟨_, _, hvalue⟩
  | base => exact ⟨_, _, .plain hvalue⟩
  | factor => exact ⟨_, _, hfactor⟩
  | chain tier =>
    cases tier with
    | product => exact ⟨_, _, hproduct⟩
    | sum => exact ⟨_, _, hproduct.whole⟩
  | rest tier a => exact ⟨a, [], .done⟩

theorem begins_nil (form : Form) : form.Begins [] := by
  obtain ⟨e, ts, h⟩ := form.exists_spelled
  exact ⟨ts, e, h⟩

theorem Begins.paren {p : List Token} {t : Token} (h : (chain .sum).Begins p)
    (ht : t.kind = .openParen) : value.Begins (t :: p) := by
  obtain ⟨z, e, he⟩ := h
  exact ⟨z ++ [Token.ofKind .closeParen], e, by simpa using Expression.Spelled.paren ht he rfl⟩

theorem Begins.plain {p : List Token} (h : value.Begins p) : base.Begins p := by
  obtain ⟨z, e, he⟩ := h
  exact ⟨z, e, .plain he⟩

theorem Begins.signed {p : List Token} {t : Token} {op : UnaryOperator} (h : value.Begins p)
    (ht : t.kind = op.kind) : base.Begins (t :: p) := by
  obtain ⟨z, e, he⟩ := h
  exact ⟨z, _, .signed ht he⟩

theorem Begins.single {p : List Token} (h : base.Begins p) : factor.Begins p := by
  obtain ⟨z, e, he⟩ := h
  exact ⟨z, e, .single he⟩

theorem Begins.power {ts p : List Token} {x : Token} {a : Expression} (h : factor.Begins p)
    (ha : a.Spelled .base ts) (hx : x.kind = .power) : factor.Begins (ts ++ x :: p) := by
  obtain ⟨z, e, he⟩ := h
  exact ⟨z, _, by simpa using Expression.Spelled.power ha hx he⟩

theorem Begins.first {tier : Tier} {p : List Token} (h : tier.operand.Begins p) :
    (chain tier).Begins p := by
  obtain ⟨z, e, he⟩ := h
  exact ⟨z, e, he.whole⟩

theorem Begins.chain {tier : Tier} {ts p : List Token} {a : Expression}
    (h : (rest tier a).Begins p) (ha : a.Spelled tier.operand ts) :
    (chain tier).Begins (ts ++ p) := by
  obtain ⟨z, e, he⟩ := h
  exact ⟨z, e, by simpa using Expression.Spelled.chain ha he⟩

theorem Begins.next {tier : Tier} {p : List Token} {x : Token} {op : BinaryOperator}
    {a : Expression} (h : tier.operand.Begins p) (ho : op.tier = some tier)
    (hx : x.kind = op.kind) : (rest tier a).Begins (x :: p) := by
  obtain ⟨z, e, he⟩ := h
  exact ⟨z, _, by simpa using Expression.Spelled.more ho hx he .done⟩

theorem Begins.more {tier : Tier} {ts p : List Token} {x : Token} {op : BinaryOperator}
    {a b : Expression} (h : (rest tier (.binary op a b)).Begins p) (ho : op.tier = some tier)
    (hx : x.kind = op.kind) (hb : b.Spelled tier.operand ts) :
    (rest tier a).Begins (x :: (ts ++ p)) := by
  obtain ⟨z, e, he⟩ := h
  exact ⟨z, e, by simpa using Expression.Spelled.more ho hx hb he⟩

/-- The tokens start with an expression in the form, or the production for the form comes to an
obstacle in them. -/
abbrev Decided (form : Form) : List Token → Prop :=
  ThreeAddress.Decided (Expression.Spelled form) form.Ends fun w r o =>
    ∀ (limit fuel : Nat) (left : Bytes) (next : Bytes → Dialogue Unit),
      w.length < limit → w.length < fuel → (form.production limit fuel left next).Fails w r o

end Form

theorem Expression.Spelled.passes {form : Form} {e : Expression} {p r : List Token}
    (h : e.Spelled form p) (hform : ∀ tier a, form ≠ .rest tier a) {limit fuel : Nat}
    (hl : (p ++ r).length < limit) (hf : (p ++ r).length < fuel) (hr : form.Ends r)
    (left : Bytes) : (form.production limit fuel left : Production ρ Bytes).Passes (p ++ r) r := by
  rintro next f ⟨i, j⟩ qs
  have hread := h.read hl hf hr i next f j qs
  cases form with
  | rest tier a => exact absurd rfl (hform tier a)
  | chain tier =>
    rw [Form.production_chain] at hread ⊢
    simp only [Form.code, List.append_nil] at hread
    exact ⟨_, _, _, hread⟩
  | value | base | factor =>
    simp only [Form.code, List.append_nil] at hread
    exact ⟨_, _, _, hread⟩

namespace Form

theorem decided_value {w : List Token}
    (ih : ∀ ts : List Token, ts.length < w.length → (chain .sum).Decided ts) :
    value.Decided w := by
  cases w with
  | nil =>
    refine .stuck [] [] .ending rfl (.ended value.begins_nil) ?_
    intro limit fuel left next hl hf f n qs
    obtain ⟨fuel, rfl⟩ := Nat.exists_eq_succ_of_ne_zero (Nat.ne_zero_of_lt hf)
    exact Production.fails_peek_nil _ f n qs
  | cons t ts =>
    by_cases ho : t.kind = .openParen
    · obtain ⟨e, p, r, rfl, he, hr⟩ | ⟨p, r, o, rfl, hs, hfail⟩ := ih ts (by simp)
      · cases hr with
        | @token _ c r hc =>
        by_cases hk : c.kind = .closeParen
        · exact .success e (t :: (p ++ [c])) r (by simp) (.paren ho he hk) (.value r)
        · refine .stuck (t :: p) (c :: r) _ rfl (.of_kind (utf8 "Expected Close Parenthesis")
            (begins_of_spelled (.paren ho he rfl))) ?_
          intro limit fuel left next hl hf f n qs
          obtain ⟨fuel, rfl⟩ := Nat.exists_eq_succ_of_ne_zero (Nat.ne_zero_of_lt hf)
          have hn : (p ++ c :: r).length < fuel := by simp at hf ⊢; omega
          simp only [production]
          rw [Production.read_value_paren ho]
          exact (he.passes (by simp) hn hn (.token r hc) []).fails
            (fun _ => Production.fails_expect_cons hk _ _) f n qs
      · refine .stuck (t :: p) r o rfl (hs.within (a := [t]) fun q hq => Begins.paren hq ho) ?_
        intro limit fuel left next hl hf f n qs
        obtain ⟨fuel, rfl⟩ := Nat.exists_eq_succ_of_ne_zero (Nat.ne_zero_of_lt hf)
        have hn : (p ++ r).length < fuel := by simp at hf ⊢; omega
        simp only [production]
        rw [Production.read_value_paren ho]
        exact hfail fuel fuel [] _ hn hn f n qs
    by_cases hi : t.kind = .ident
    · exact .success _ [t] ts rfl (.name hi) (.value ts)
    by_cases hn : t.kind = .number
    · exact .success _ [t] ts rfl (.numeral hn) (.value ts)
    · refine .stuck [] (t :: ts) _ rfl (.of_kinds
        (utf8 "Expected Open Parenthesis, Identifier, or Constant") [.openParen, .ident, .number]
        value.begins_nil ?_) ?_
      · intro kind hm
        simp only [List.mem_cons, List.not_mem_nil, or_false] at hm
        rcases hm with rfl | rfl | rfl
        · exact Begins.paren (chain .sum).begins_nil rfl
        · exact begins_of_spelled (.name rfl)
        · exact begins_of_spelled (.numeral rfl)
      · intro limit fuel left next hl hf f n qs
        obtain ⟨fuel, rfl⟩ := Nat.exists_eq_succ_of_ne_zero (Nat.ne_zero_of_lt hf)
        exact ⟨n, qs, Production.read_value_reject ho hi hn fuel next⟩

theorem decided_base {w : List Token}
    (ih : ∀ ts : List Token, ts.length ≤ w.length → value.Decided ts) : base.Decided w := by
  cases w with
  | nil =>
    refine .stuck [] [] .ending rfl (.ended base.begins_nil) ?_
    intro limit fuel left next hl hf f n qs
    exact Production.fails_peek_nil _ f n qs
  | cons t ts =>
    cases hsign : Opcode.ofSign? t.kind with
    | none =>
      obtain ⟨e, p, r, hw, he, hr⟩ | ⟨p, r, o, hw, hs, hfail⟩ := ih (t :: ts) (Nat.le_refl _)
      · exact .success e p r hw (.plain he) (.base r)
      · refine .stuck p r o hw (hs.within (a := []) fun q hq => Begins.plain hq) ?_
        intro limit fuel left next hl hf f n qs
        simp only [production]
        rw [Production.read_base_plain hsign]
        exact hfail limit limit [] next hl hl f n qs
    | some opcode =>
      obtain ⟨op, ht⟩ := UnaryOperator.exists_kind_eq hsign
      obtain ⟨e, p, r, rfl, he, hr⟩ | ⟨p, r, o, rfl, hs, hfail⟩ := ih ts (by simp)
      · exact .success _ (t :: p) r rfl (.signed ht he) (.base r)
      · refine .stuck (t :: p) r o rfl (hs.within (a := [t]) fun q hq => Begins.signed hq ht) ?_
        intro limit fuel left next hl hf f n qs
        have hn : (p ++ r).length < limit := by simp at hl ⊢; omega
        simp only [production]
        rw [Production.read_base_signed hsign]
        exact hfail limit limit [] _ hn hn f n qs

theorem decided_factor {w : List Token}
    (hbase : ∀ ts : List Token, ts.length ≤ w.length → base.Decided ts) : factor.Decided w := by
  induction hlen : w.length using Nat.strongRecOn generalizing w with
  | ind size ih =>
  subst hlen
  obtain ⟨a, p, r, rfl, ha, -⟩ | ⟨p, r, o, rfl, hs, hfail⟩ := hbase w (Nat.le_refl _)
  · cases r with
    | nil =>
      refine .stuck p [] .ending rfl (.ended (begins_of_spelled (.single ha))) ?_
      intro limit fuel left next hl hf f n qs
      obtain ⟨fuel, rfl⟩ := Nat.exists_eq_succ_of_ne_zero (Nat.ne_zero_of_lt hf)
      simp only [production]
      rw [Production.read_factor]
      exact (ha.passes (by simp) hl hf (.base []) []).fails
        (fun _ => Production.fails_peek_nil _) f n qs
    | cons t r =>
      by_cases hx : t.kind = .power
      · have hshort : r.length < (p ++ t :: r).length := by simp; omega
        obtain ⟨b, q, r, rfl, hb, hr⟩ | ⟨q, r, o, rfl, hs, hfail⟩ :=
          ih r.length hshort (fun ts hts => hbase ts (by omega)) rfl
        · exact .success _ (p ++ t :: q) r (by simp) (.power ha hx hb) hr
        · refine .stuck (p ++ t :: q) r o (by simp) ?_ ?_
          · simpa using hs.within (a := p ++ [t]) fun q hq => by simpa using Begins.power hq ha hx
          · intro limit fuel left next hl hf f n qs
            obtain ⟨fuel, rfl⟩ := Nat.exists_eq_succ_of_ne_zero (Nat.ne_zero_of_lt hf)
            have hn : (q ++ r).length < limit := by simp at hl ⊢; omega
            have hm : (q ++ r).length < fuel := by simp at hf ⊢; omega
            simp only [production]
            rw [Production.read_factor]
            refine (ha.passes (by simp) hl hf (.base _) []).fails (fun _ f n qs => ?_) f n qs
            simp only [Production.read_accept_cons, hx, ↓reduceIte]
            exact hfail limit fuel [] _ hn hm f n qs
      · exact .success a p (t :: r) rfl (.single ha) (.token r (by simp [continues, hx]))
  · refine .stuck p r o rfl (hs.within (a := []) fun q hq => Begins.single hq) ?_
    intro limit fuel left next hl hf f n qs
    obtain ⟨fuel, rfl⟩ := Nat.exists_eq_succ_of_ne_zero (Nat.ne_zero_of_lt hf)
    simp only [production]
    rw [Production.read_factor]
    exact hfail limit _ [] _ hl hf f n qs

theorem decided_rest (tier : Tier) {w : List Token}
    (hop : ∀ ts : List Token, ts.length < w.length → tier.operand.Decided ts)
    (hw : tier.operand.Ends w) (a : Expression) : (rest tier a).Decided w := by
  induction hlen : w.length using Nat.strongRecOn generalizing w a with
  | ind size ih =>
  subst hlen
  obtain ⟨t, ts, rfl⟩ : ∃ t ts, w = t :: ts := hw.operand_cons
  cases hk : tier.operation? t.kind with
  | none => exact .success a [] (t :: ts) rfl .done (Ends.rest_iff.mpr (hw.chain hk))
  | some opcode =>
    obtain ⟨op, ho, hx⟩ := Tier.exists_kind_eq hk
    obtain ⟨b, p, r, rfl, hb, hr⟩ | ⟨p, r, o, rfl, hs, hfail⟩ := hop ts (by simp)
    · have hshort : r.length < (t :: (p ++ r)).length := by
        simp only [List.length_cons, List.length_append]
        omega
      obtain ⟨e, q, r, rfl, he, hr'⟩ | ⟨q, r, o, rfl, hs, hfail⟩ :=
        ih r.length hshort (fun ts hts => hop ts (by omega)) hr (.binary op a b) rfl
      · exact .success e (t :: (p ++ q)) r (by simp) (.more ho hx hb he)
          (Ends.rest_iff.mpr (Ends.rest_iff.mp hr'))
      · refine .stuck (t :: (p ++ q)) r o (by simp)
          (hs.within (a := t :: p) fun q hq => Begins.more hq ho hx hb) ?_
        intro limit fuel left next hl hf f n qs
        obtain ⟨fuel, rfl⟩ := Nat.exists_eq_succ_of_ne_zero (Nat.ne_zero_of_lt hf)
        have hn : (p ++ (q ++ r)).length < limit := by simp at hl ⊢; omega
        have hm : (q ++ r).length < limit := by simp at hl ⊢; omega
        have hm' : (q ++ r).length < fuel := by simp at hf ⊢; omega
        simp only [production]
        rw [Production.read_chain_more hk, ← production_operand tier limit []]
        refine (hb.passes tier.operand_ne_rest hn hn hr []).fails
          (fun _ f n qs => ?_) f n qs
        obtain ⟨i, j⟩ := n
        simp only [Production.read_temporary, Production.read_emit]
        rw [production_operand]
        exact hfail limit fuel _ next hm hm' f _ _
    · refine .stuck (t :: p) r o rfl (hs.within (a := [t]) fun q hq => Begins.next hq ho hx) ?_
      intro limit fuel left next hl hf f n qs
      obtain ⟨fuel, rfl⟩ := Nat.exists_eq_succ_of_ne_zero (Nat.ne_zero_of_lt hf)
      have hn : (p ++ r).length < limit := by simp at hl ⊢; omega
      simp only [production]
      rw [Production.read_chain_more hk, ← production_operand tier limit []]
      exact hfail limit limit [] _ hn hn f n qs

theorem decided_chain (tier : Tier) {w : List Token}
    (hop : ∀ ts : List Token, ts.length ≤ w.length → tier.operand.Decided ts) :
    (chain tier).Decided w := by
  obtain ⟨a, p, r, rfl, ha, hr⟩ | ⟨p, r, o, rfl, hs, hfail⟩ := hop w (Nat.le_refl _)
  · obtain ⟨e, q, r, rfl, he, hr'⟩ | ⟨q, r, o, rfl, hs, hfail⟩ :=
      decided_rest tier (fun ts hts => hop ts (by simp; omega)) hr a
    · exact .success e (p ++ q) r (by simp) (.chain ha he) (Ends.rest_iff.mp hr')
    · refine .stuck (p ++ q) r o (by simp) (hs.within (a := p) fun q hq => Begins.chain hq ha) ?_
      intro limit fuel left next hl hf f n qs
      have hn : (q ++ r).length < limit := by simp at hl ⊢; omega
      rw [production_chain, ← production_operand tier limit []]
      refine (ha.passes tier.operand_ne_rest hl hl hr []).fails
        (fun a f n qs => ?_) f n qs
      rw [production_operand]
      exact hfail limit limit a next hn hn f n qs
  · refine .stuck p r o rfl (hs.within (a := []) fun q hq => Begins.first hq) ?_
    intro limit fuel left next hl hf f n qs
    rw [production_chain, ← production_operand tier limit []]
    exact hfail limit limit [] _ hl hl f n qs

/-- The knot of the recursion: an operand in parentheses is shorter than the operand. -/
theorem decided_expression (w : List Token) : (chain .sum).Decided w := by
  induction hlen : w.length using Nat.strongRecOn generalizing w with
  | ind size ih =>
  subst hlen
  have hvalue : ∀ ts : List Token, ts.length ≤ w.length → value.Decided ts :=
    fun ts hts => decided_value fun us hus => ih us.length (by omega) us rfl
  have hfactor : ∀ ts : List Token, ts.length ≤ w.length → factor.Decided ts :=
    fun ts hts => decided_factor fun us hus => decided_base fun vs hvs => hvalue vs (by omega)
  exact decided_chain .sum fun ts hts => decided_chain .product fun us hus => hfactor us (by omega)

end Form

end ThreeAddress
