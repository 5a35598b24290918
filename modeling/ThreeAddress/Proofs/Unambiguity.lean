import ThreeAddress.Proofs.Syntax

namespace ThreeAddress

namespace Tier

def operates : Tier → TokenKind → Bool
  | product, .times | product, .divide | product, .intDivide | product, .modulo => true
  | sum, .plus | sum, .minus => true
  | _, _ => false

def continues : Tier → TokenKind → Bool
  | product, kind => kind = .power || operates product kind
  | sum, kind => (kind = .power || operates product kind) || operates sum kind

end Tier

namespace Form

def continues : Form → TokenKind → Bool
  | value, _ | base, _ => false
  | factor, kind => kind = .power
  | chain tier, kind | rest tier _, kind => tier.continues kind

/-- What may follow an expression for its end to be found. The tightest forms show their end
without a look at the next token. -/
inductive Ends : Form → List Token → Prop
  | value (ts : List Token) : Ends .value ts
  | base (ts : List Token) : Ends .base ts
  | token {form : Form} {t : Token} (ts : List Token) (ht : form.continues t.kind = false) :
      Ends form (t :: ts)

theorem continues_chain (tier : Tier) (kind : TokenKind) :
    (chain tier).continues kind = (tier.operand.continues kind || tier.operates kind) := by
  cases tier <;> rfl

theorem Ends.operand {tier : Tier} {r : List Token} (h : (chain tier).Ends r) :
    tier.operand.Ends r := by
  cases h with
  | token ts ht =>
    rw [continues_chain, Bool.or_eq_false_iff] at ht
    exact .token ts ht.1

theorem Ends.rest_iff {tier : Tier} {a : Expression} {r : List Token} :
    (rest tier a).Ends r ↔ (chain tier).Ends r := by
  constructor <;> rintro ⟨ts, ht⟩ <;> exact .token _ (by assumption)

end Form

namespace BinaryOperator

theorem operates_kind {op : BinaryOperator} {tier : Tier} (h : op.tier = some tier) :
    tier.operates op.kind = true := by
  cases op <;> simp [BinaryOperator.tier] at h <;> subst h <;> rfl

theorem ends_operand {op : BinaryOperator} {tier : Tier} {x : Token} (ho : op.tier = some tier)
    (hx : x.kind = op.kind) (ts : List Token) : tier.operand.Ends (x :: ts) := by
  refine .token ts ?_
  rw [hx]
  cases op <;> simp [BinaryOperator.tier] at ho <;> subst ho <;> rfl

theorem not_ends_rest {op : BinaryOperator} {tier : Tier} {a : Expression} {x : Token}
    (ho : op.tier = some tier) (hx : x.kind = op.kind) (ts : List Token) :
    ¬ (Form.rest tier a).Ends (x :: ts) := by
  intro h
  cases Form.Ends.rest_iff.mp h with
  | token _ ht =>
    rw [Form.continues_chain, hx, operates_kind ho, Bool.or_true] at ht
    cases ht

end BinaryOperator

namespace Expression.Spelled

/-- The operators of a chain end the operands before them. -/
theorem ends_operand {tier : Tier} {a e : Expression} {us r : List Token}
    (h : e.Spelled (.rest tier a) us) (hr : (Form.chain tier).Ends r) :
    tier.operand.Ends (us ++ r) := by
  cases h with
  | done => exact hr.operand
  | more ho hx => exact BinaryOperator.ends_operand ho hx _

theorem value_cons {e : Expression} {p : List Token} (h : e.Spelled .value p) :
    ∃ t ts, p = t :: ts ∧ (t.kind = .ident ∨ t.kind = .number ∨ t.kind = .openParen) := by
  cases h with
  | name ht => exact ⟨_, [], rfl, .inl ht⟩
  | numeral ht => exact ⟨_, [], rfl, .inr (.inl ht)⟩
  | paren ho => exact ⟨_, _, rfl, .inr (.inr ho)⟩

theorem value_ne_signed {e : Expression} {p r us : List Token} {t : Token} {op : UnaryOperator}
    (h : e.Spelled .value p) (ht : t.kind = op.kind) : p ++ r ≠ t :: us := by
  obtain ⟨u, ts, rfl, hu⟩ := h.value_cons
  intro hp
  obtain ⟨rfl, -⟩ := List.cons.inj hp
  rw [ht] at hu
  cases op <;> simp [UnaryOperator.kind] at hu

theorem unique {form : Form} {e e' : Expression} {p p' r r' : List Token}
    (h : e.Spelled form p) (h' : e'.Spelled form p') (hp : p ++ r = p' ++ r')
    (hr : form.Ends r) (hr' : form.Ends r') : e = e' ∧ r = r' := by
  induction h generalizing e' p' r r' with
  | name ht => cases h' <;> simp_all
  | numeral ht => cases h' <;> simp_all
  | paren ho he hc ih =>
    cases h' with
    | name ht => simp_all
    | numeral ht => simp_all
    | paren ho' he' hc' =>
      simp only [List.cons_append, List.append_assoc, List.nil_append, List.cons.injEq] at hp
      obtain ⟨rfl, h⟩ := ih he' hp.2 (.token _ (by rw [hc]; rfl)) (.token _ (by rw [hc']; rfl))
      exact ⟨rfl, (List.cons.inj h).2⟩
  | plain he ih =>
    cases h' with
    | plain he' => exact ih he' hp (.value _) (.value _)
    | signed ht' he' => exact absurd hp (he.value_ne_signed ht')
  | signed ht he ih =>
    cases h' with
    | plain he' => exact absurd hp.symm (he'.value_ne_signed ht)
    | signed ht' he' =>
      obtain ⟨rfl, hq⟩ := List.cons.inj hp
      obtain rfl := UnaryOperator.kind_injective (ht.symm.trans ht')
      obtain ⟨rfl, h⟩ := ih he' hq (.value _) (.value _)
      exact ⟨rfl, h⟩
  | single he ih =>
    cases h' with
    | single he' => exact ih he' hp (.base _) (.base _)
    | power ha' hx' hb' =>
      rw [List.append_assoc] at hp
      obtain ⟨-, rfl⟩ := ih ha' hp (.base _) (.base _)
      cases hr with
      | token _ ht => simp [Form.continues, hx'] at ht
  | power ha hx hb iha ihb =>
    rw [List.append_assoc] at hp
    cases h' with
    | single he' =>
      obtain ⟨-, rfl⟩ := iha he' hp (.base _) (.base _)
      cases hr' with
      | token _ ht => simp [Form.continues, hx] at ht
    | power ha' hx' hb' =>
      rw [List.append_assoc] at hp
      obtain ⟨rfl, h⟩ := iha ha' hp (.base _) (.base _)
      obtain ⟨rfl, h⟩ := ihb hb' (List.cons.inj h).2 hr hr'
      exact ⟨rfl, h⟩
  | chain ha hs iha ihs =>
    cases h' with
    | chain ha' hs' =>
      rw [List.append_assoc, List.append_assoc] at hp
      obtain ⟨rfl, h⟩ := iha ha' hp (hs.ends_operand hr) (hs'.ends_operand hr')
      exact ihs hs' h (Form.Ends.rest_iff.mpr hr) (Form.Ends.rest_iff.mpr hr')
  | @done tier a =>
    cases h' with
    | done => exact ⟨rfl, hp⟩
    | more ho hx =>
      rw [List.nil_append] at hp
      rw [hp] at hr
      exact absurd hr (BinaryOperator.not_ends_rest ho hx _)
  | more ho hx hb hs ihb ihs =>
    cases h' with
    | done =>
      rw [List.nil_append] at hp
      rw [← hp] at hr'
      exact absurd hr' (BinaryOperator.not_ends_rest ho hx _)
    | more ho' hx' hb' hs' =>
      simp only [List.cons_append, List.append_assoc, List.cons.injEq] at hp
      obtain ⟨rfl, hp⟩ := hp
      obtain rfl := BinaryOperator.kind_injective (hx.symm.trans hx')
      obtain ⟨rfl, h⟩ := ihb hb' hp (hs.ends_operand (Form.Ends.rest_iff.mp hr))
        (hs'.ends_operand (Form.Ends.rest_iff.mp hr'))
      exact ihs hs' h (Form.Ends.rest_iff.mpr (Form.Ends.rest_iff.mp hr))
        (Form.Ends.rest_iff.mpr (Form.Ends.rest_iff.mp hr'))

end Expression.Spelled

theorem Comparison.ends_chain {c : Comparison} {x : Token} (hx : x.kind = c.kind)
    (tier : Tier) (ts : List Token) : (Form.chain tier).Ends (x :: ts) := by
  refine .token ts ?_
  rw [hx]
  cases c <;> cases tier <;> rfl

theorem Condition.Spelled.unique {c c' : Condition} {p p' r r' : List Token}
    (h : c.Spelled p) (h' : c'.Spelled p') (hp : p ++ r = p' ++ r')
    (hr : (Form.chain .sum).Ends r) (hr' : (Form.chain .sum).Ends r') : c = c' ∧ r = r' := by
  cases h with
  | compare ha hx hb =>
    cases h' with
    | compare ha' hx' hb' =>
      rw [List.append_assoc, List.append_assoc] at hp
      obtain ⟨rfl, h⟩ := ha.unique ha' hp (Comparison.ends_chain hx _ _)
        (Comparison.ends_chain hx' _ _)
      obtain ⟨rfl, hq⟩ := List.cons.inj h
      obtain rfl := Comparison.kind_injective (hx.symm.trans hx')
      obtain ⟨rfl, h⟩ := hb.unique hb' hq hr hr'
      exact ⟨rfl, h⟩

namespace Statement.Spelled

theorem cons {s : Statement} {p : List Token} (h : s.Spelled p) :
    ∃ t ts, p = t :: ts ∧ (t.kind = .ident ∨ t.kind = .ifWord ∨ t.kind = .whileWord) := by
  cases h with
  | assign ht => exact ⟨_, _, rfl, .inl ht⟩
  | conditional hi => exact ⟨_, _, rfl, .inr (.inl hi)⟩
  | loop hw => exact ⟨_, _, rfl, .inr (.inr hw)⟩

theorem unique {s s' : Statement} {p p' r r' : List Token} (h : s.Spelled p)
    (h' : s'.Spelled p') (hp : p ++ r = p' ++ r') (hr : (Form.chain .sum).Ends r)
    (hr' : (Form.chain .sum).Ends r') : s = s' ∧ r = r' := by
  induction h generalizing s' p' r r' with
  | assign ht hx he =>
    cases h' with
    | assign ht' hx' he' =>
      simp only [List.cons_append, List.cons.injEq] at hp
      obtain ⟨rfl, -, hp⟩ := hp
      obtain ⟨rfl, h⟩ := he.unique he' hp hr hr'
      exact ⟨rfl, h⟩
    | conditional hi' => simp_all
    | loop hw' => simp_all
  | conditional hi hc ht hs ih =>
    cases h' with
    | assign ht' => simp_all
    | conditional hi' hc' ht' hs' =>
      simp only [List.cons_append, List.append_assoc, List.cons.injEq] at hp
      obtain ⟨rfl, h⟩ := hc.unique hc' hp.2 (.token _ (by rw [ht]; rfl))
        (.token _ (by rw [ht']; rfl))
      obtain ⟨rfl, h⟩ := ih hs' (List.cons.inj h).2 hr hr'
      exact ⟨rfl, h⟩
    | loop hw' => simp_all
  | loop hw hc hd hs ih =>
    cases h' with
    | assign ht' => simp_all
    | conditional hi' => simp_all
    | loop hw' hc' hd' hs' =>
      simp only [List.cons_append, List.append_assoc, List.cons.injEq] at hp
      obtain ⟨rfl, h⟩ := hc.unique hc' hp.2 (.token _ (by rw [hd]; rfl))
        (.token _ (by rw [hd']; rfl))
      obtain ⟨rfl, h⟩ := ih hs' (List.cons.inj h).2 hr hr'
      exact ⟨rfl, h⟩

end Statement.Spelled

namespace Program

theorem Listed.unique {q q' : Program} {p p' r r' : List Token} {e e' : Token}
    (h : q.Listed p) (h' : q'.Listed p') (hp : p ++ e :: r = p' ++ e' :: r')
    (he : e.kind = .endWord) (he' : e'.kind = .endWord) : q = q' ∧ p = p' := by
  have hend : ∀ {t : Token} (ts : List Token), t.kind = .endWord ∨ t.kind = .semicolon →
      (Form.chain .sum).Ends (t :: ts) := by
    rintro t ts (ht | ht) <;> exact .token ts (by rw [ht]; rfl)
  induction h generalizing q' p' with
  | none =>
    cases h' with
    | none => exact ⟨rfl, rfl⟩
    | one hs' => obtain ⟨t, ts, rfl, ht⟩ := hs'.cons; simp_all
    | more hs' hx' hq' => obtain ⟨t, ts, rfl, ht⟩ := hs'.cons; simp_all
  | one hs =>
    cases h' with
    | none => obtain ⟨t, ts, rfl, ht⟩ := hs.cons; simp_all
    | one hs' =>
      obtain ⟨rfl, h⟩ := hs.unique hs' hp (hend _ (.inl he)) (hend _ (.inl he'))
      rw [h] at hp
      exact ⟨rfl, List.append_cancel_right hp⟩
    | more hs' hx' hq' =>
      rw [List.append_assoc] at hp
      obtain ⟨-, h⟩ := hs.unique hs' hp (hend _ (.inl he)) (hend _ (.inr hx'))
      simp_all
  | more hs hx hq ih =>
    rw [List.append_assoc] at hp
    cases h' with
    | none => obtain ⟨t, ts, rfl, ht⟩ := hs.cons; simp_all
    | one hs' =>
      obtain ⟨-, h⟩ := hs.unique hs' hp (hend _ (.inr hx)) (hend _ (.inl he'))
      simp_all
    | more hs' hx' hq' =>
      rw [List.append_assoc] at hp
      obtain ⟨rfl, h⟩ := hs.unique hs' hp (hend _ (.inr hx)) (hend _ (.inr hx'))
      rw [h] at hp
      obtain ⟨rfl, hu⟩ := List.cons.inj h
      obtain ⟨rfl, rfl⟩ := ih hq' hu
      exact ⟨rfl, by rw [List.append_cancel_right hp]⟩

theorem Spelled.unique {q q' : Program} {p p' r r' : List Token} (h : q.Spelled p)
    (h' : q'.Spelled p') (hp : p ++ r = p' ++ r') : q = q' ∧ r = r' := by
  cases h with
  | program hb hq he hd =>
    cases h' with
    | program hb' hq' he' hd' =>
      simp only [List.cons_append, List.append_assoc, List.cons.injEq, List.nil_append] at hp
      obtain ⟨rfl, rfl⟩ := hq.unique hq' hp.2 he he'
      simp only [List.append_cancel_left_eq, List.cons.injEq] at hp
      exact ⟨rfl, hp.2.2.2⟩

end Program

end ThreeAddress
