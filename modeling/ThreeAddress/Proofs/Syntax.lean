import ThreeAddress.Quad.Basic
import ThreeAddress.Token.Basic

namespace ThreeAddress

inductive BinaryOperator where
  | add
  | subtract
  | multiply
  | divide
  | intDivide
  | modulo
  | power
  deriving DecidableEq

inductive UnaryOperator where
  | keep
  | negate
  deriving DecidableEq

inductive Comparison where
  | equal
  | less
  | lessEqual
  | greater
  | greaterEqual
  | notEqual
  deriving DecidableEq

inductive Tier where
  | product
  | sum
  deriving DecidableEq

namespace BinaryOperator

def kind : BinaryOperator → TokenKind
  | add => .plus
  | subtract => .minus
  | multiply => .times
  | divide => .divide
  | intDivide => .intDivide
  | modulo => .modulo
  | power => .power

/-- The chains that the operator stands in. Powers stand in none: they group to the right. -/
def tier : BinaryOperator → Option Tier
  | add | subtract => some .sum
  | multiply | divide | intDivide | modulo => some .product
  | power => none

theorem kind_injective : Function.Injective kind := by
  intro a b h
  cases a <;> cases b <;> simp [kind] at h ⊢

end BinaryOperator

namespace UnaryOperator

def kind : UnaryOperator → TokenKind
  | keep => .unaryPlus
  | negate => .unaryMinus

theorem kind_injective : Function.Injective kind := by
  intro a b h
  cases a <;> cases b <;> simp [kind] at h ⊢

end UnaryOperator

namespace Comparison

def kind : Comparison → TokenKind
  | equal => .equal
  | less => .less
  | lessEqual => .lessEqual
  | greater => .greater
  | greaterEqual => .greaterEqual
  | notEqual => .notEqual

theorem kind_injective : Function.Injective kind := by
  intro a b h
  cases a <;> cases b <;> simp [kind] at h ⊢

end Comparison

inductive Expression where
  | name (text : Bytes)
  | numeral (text : Bytes)
  | unary (op : UnaryOperator) (operand : Expression)
  | binary (op : BinaryOperator) (left right : Expression)

structure Condition where
  left : Expression
  comparison : Comparison
  right : Expression

inductive Statement where
  | assign (target : Bytes) (value : Expression)
  | conditional (test : Condition) (body : Statement)
  | loop (test : Condition) (body : Statement)

abbrev Program := List Statement

/-- The forms in which an expression can stand, those that bind tightest first. -/
inductive Form where
  | value
  | base
  | factor
  | chain (tier : Tier)
  /-- What comes in a chain after its part `left`. -/
  | rest (tier : Tier) (left : Expression)

def Tier.operand : Tier → Form
  | product => .factor
  | sum => .chain .product

theorem Tier.operand_ne_rest (tier tier' : Tier) (a : Expression) :
    tier.operand ≠ .rest tier' a := by
  cases tier <;> simp [operand]

inductive Expression.Spelled : Form → Expression → List Token → Prop
  | name {t : Token} (ht : t.kind = .ident) : Spelled .value (.name t.lexeme) [t]
  | numeral {t : Token} (ht : t.kind = .number) : Spelled .value (.numeral t.lexeme) [t]
  | paren {o c : Token} {e : Expression} {ts : List Token} (ho : o.kind = .openParen)
      (he : Spelled (.chain .sum) e ts) (hc : c.kind = .closeParen) :
      Spelled .value e (o :: (ts ++ [c]))
  | plain {e : Expression} {ts : List Token} (he : Spelled .value e ts) : Spelled .base e ts
  | signed {t : Token} {op : UnaryOperator} {e : Expression} {ts : List Token}
      (ht : t.kind = op.kind) (he : Spelled .value e ts) : Spelled .base (.unary op e) (t :: ts)
  | single {e : Expression} {ts : List Token} (he : Spelled .base e ts) : Spelled .factor e ts
  | power {x : Token} {a b : Expression} {ts us : List Token} (ha : Spelled .base a ts)
      (hx : x.kind = .power) (hb : Spelled .factor b us) :
      Spelled .factor (.binary .power a b) (ts ++ x :: us)
  | chain {tier : Tier} {a e : Expression} {ts us : List Token} (ha : Spelled tier.operand a ts)
      (hr : Spelled (.rest tier a) e us) : Spelled (.chain tier) e (ts ++ us)
  | done {tier : Tier} {a : Expression} : Spelled (.rest tier a) a []
  | more {tier : Tier} {op : BinaryOperator} {x : Token} {a b e : Expression}
      {ts us : List Token} (ho : op.tier = some tier) (hx : x.kind = op.kind)
      (hb : Spelled tier.operand b ts) (hr : Spelled (.rest tier (.binary op a b)) e us) :
      Spelled (.rest tier a) e (x :: (ts ++ us))

theorem Expression.Spelled.rest_snoc {tier : Tier} {op : BinaryOperator} {x : Token}
    {a b e : Expression} {ts us : List Token} (h : e.Spelled (.rest tier a) ts)
    (ho : op.tier = some tier) (hx : x.kind = op.kind) (hb : b.Spelled tier.operand us) :
    Spelled (.rest tier a) (.binary op e b) (ts ++ x :: us) := by
  generalize hform : Form.rest tier a = form at h
  induction h generalizing a with
  | done =>
    cases hform
    simpa using Spelled.more ho hx hb .done
  | more ho' hx' hb' hs ihb ihs =>
    cases hform
    simpa using Spelled.more ho' hx' hb' (ihs rfl)
  | name | numeral | paren | plain | signed | single | power | chain => cases hform

/-- A chain groups to the left: its last operand is the right side of its last operator. -/
theorem Expression.Spelled.snoc {tier : Tier} {op : BinaryOperator} {x : Token}
    {a b : Expression} {ts us : List Token} (h : a.Spelled (.chain tier) ts)
    (ho : op.tier = some tier) (hx : x.kind = op.kind) (hb : b.Spelled tier.operand us) :
    Spelled (.chain tier) (.binary op a b) (ts ++ x :: us) := by
  cases h with
  | chain ha hr => simpa using Spelled.chain ha (hr.rest_snoc ho hx hb)

theorem Expression.Spelled.whole {tier : Tier} {e : Expression} {ts : List Token}
    (h : e.Spelled tier.operand ts) : e.Spelled (.chain tier) ts := by
  have hc := Spelled.chain h .done
  rwa [List.append_nil] at hc

inductive Condition.Spelled : Condition → List Token → Prop
  | compare {x : Token} {c : Comparison} {a b : Expression} {ts us : List Token}
      (ha : a.Spelled (.chain .sum) ts) (hx : x.kind = c.kind)
      (hb : b.Spelled (.chain .sum) us) : Spelled ⟨a, c, b⟩ (ts ++ x :: us)

inductive Statement.Spelled : Statement → List Token → Prop
  | assign {t x : Token} {e : Expression} {ts : List Token} (ht : t.kind = .ident)
      (hx : x.kind = .equal) (he : e.Spelled (.chain .sum) ts) :
      Spelled (.assign t.lexeme e) (t :: x :: ts)
  | conditional {i t : Token} {c : Condition} {s : Statement} {ts us : List Token}
      (hi : i.kind = .ifWord) (hc : c.Spelled ts) (ht : t.kind = .thenWord)
      (hs : Spelled s us) : Spelled (.conditional c s) (i :: (ts ++ t :: us))
  | loop {w d : Token} {c : Condition} {s : Statement} {ts us : List Token}
      (hw : w.kind = .whileWord) (hc : c.Spelled ts) (hd : d.kind = .doWord)
      (hs : Spelled s us) : Spelled (.loop c s) (w :: (ts ++ d :: us))

/-- The tokens between the first word of a program and the last. The semicolon after the last
statement may be left out. -/
inductive Program.Listed : Program → List Token → Prop
  | none : Listed [] []
  | one {s : Statement} {ts : List Token} (hs : s.Spelled ts) : Listed [s] ts
  | more {x : Token} {s : Statement} {p : Program} {ts us : List Token} (hs : s.Spelled ts)
      (hx : x.kind = .semicolon) (hp : Listed p us) : Listed (s :: p) (ts ++ x :: us)

inductive Program.Spelled : Program → List Token → Prop
  | program {b e d : Token} {p : Program} {ts : List Token} (hb : b.kind = .programWord)
      (hp : p.Listed ts) (he : e.kind = .endWord) (hd : d.kind = .period) :
      Spelled p (b :: (ts ++ [e, d]))

section

variable (names numerals : Bytes → Prop)

def Expression.Over : Expression → Prop
  | name x => names x
  | numeral x => numerals x
  | unary _ e => e.Over
  | binary _ a b => a.Over ∧ b.Over

def Condition.Over (c : Condition) : Prop :=
  c.left.Over names numerals ∧ c.right.Over names numerals

def Statement.Over : Statement → Prop
  | assign x e => names x ∧ e.Over names numerals
  | conditional c s | loop c s => c.Over names numerals ∧ s.Over

def Program.Over (p : Program) : Prop := ∀ s ∈ p, Statement.Over names numerals s

def Token.Over (t : Token) : Prop :=
  (t.kind = .ident → names t.lexeme) ∧ (t.kind = .number → numerals t.lexeme)

variable {names numerals}

theorem Expression.Spelled.over {form : Form} {e : Expression} {ts : List Token}
    (h : e.Spelled form ts) (hts : ∀ t ∈ ts, t.Over names numerals)
    (hform : ∀ tier a, form = .rest tier a → a.Over names numerals) :
    e.Over names numerals := by
  induction h with
  | name ht => exact (hts _ (List.mem_singleton_self _)).1 ht
  | numeral ht => exact (hts _ (List.mem_singleton_self _)).2 ht
  | paren _ _ _ ih => exact ih (fun t ht => hts t (by simp [ht])) nofun
  | plain _ ih => exact ih hts nofun
  | signed _ _ ih => exact ih (fun t ht => hts t (by simp [ht])) nofun
  | single _ ih => exact ih hts nofun
  | power _ _ _ iha ihb =>
    exact ⟨iha (fun t ht => hts t (by simp [ht])) nofun,
      ihb (fun t ht => hts t (by simp [ht])) nofun⟩
  | chain _ _ iha ihr =>
    refine ihr (fun t ht => hts t (by simp [ht])) ?_
    rintro _ _ ⟨⟩
    exact iha (fun t ht => hts t (by simp [ht])) fun _ _ h => absurd h (Tier.operand_ne_rest _ _ _)
  | done => exact hform _ _ rfl
  | more _ _ _ _ ihb ihr =>
    refine ihr (fun t ht => hts t (by simp [ht])) ?_
    rintro _ _ ⟨⟩
    exact ⟨hform _ _ rfl, ihb (fun t ht => hts t (by simp [ht])) fun _ _ h =>
      absurd h (Tier.operand_ne_rest _ _ _)⟩

theorem Condition.Spelled.over {c : Condition} {ts : List Token} (h : c.Spelled ts)
    (hts : ∀ t ∈ ts, t.Over names numerals) : c.Over names numerals := by
  cases h with
  | compare ha _ hb =>
    exact ⟨ha.over (fun t ht => hts t (by simp [ht])) nofun,
      hb.over (fun t ht => hts t (by simp [ht])) nofun⟩

theorem Statement.Spelled.over {s : Statement} {ts : List Token} (h : s.Spelled ts)
    (hts : ∀ t ∈ ts, t.Over names numerals) : s.Over names numerals := by
  induction h with
  | assign ht _ he =>
    exact ⟨(hts _ (by simp)).1 ht, he.over (fun t ht => hts t (by simp [ht])) nofun⟩
  | conditional _ hc _ _ ih | loop _ hc _ _ ih =>
    exact ⟨hc.over fun t ht => hts t (by simp [ht]), ih fun t ht => hts t (by simp [ht])⟩

theorem Program.Listed.over {q : Program} {ts : List Token} (h : q.Listed ts)
    (hts : ∀ t ∈ ts, t.Over names numerals) : q.Over names numerals := by
  induction h with
  | none => exact nofun
  | one hs => exact List.forall_mem_singleton.mpr (hs.over hts)
  | more hs _ _ ih =>
    exact List.forall_mem_cons.mpr ⟨hs.over fun t ht => hts t (by simp [ht]),
      ih fun t ht => hts t (by simp [ht])⟩

theorem Program.Spelled.over {q : Program} {ts : List Token} (h : q.Spelled ts)
    (hts : ∀ t ∈ ts, t.Over names numerals) : q.Over names numerals := by
  cases h with
  | program _ hp _ _ => exact hp.over fun t ht => hts t (by simp [ht])

end

def Token.ofKind (kind : TokenKind) : Token := ⟨kind, kind.text, {}⟩

end ThreeAddress
