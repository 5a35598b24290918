import ThreeAddress.Proofs.Decision.Expression

namespace ThreeAddress

theorem Comparison.exists_kind_eq {kind : TokenKind} {comparator : Comparator}
    (h : Comparator.ofKind? kind = some comparator) : ∃ c : Comparison, kind = c.kind := by
  unfold Comparator.ofKind? at h
  split at h
  · exact ⟨.equal, rfl⟩
  · exact ⟨.less, rfl⟩
  · exact ⟨.lessEqual, rfl⟩
  · exact ⟨.greater, rfl⟩
  · exact ⟨.greaterEqual, rfl⟩
  · exact ⟨.notEqual, rfl⟩
  · cases h

namespace Condition

theorem begins_right {x : Token} {c : Comparison} {a : Expression} {ts p : List Token}
    (ha : a.Spelled (.chain .sum) ts) (hx : x.kind = c.kind) (h : (Form.chain .sum).Begins p) :
    Begins Spelled (ts ++ x :: p) := by
  obtain ⟨z, b, hb⟩ := h
  exact ⟨z, _, by simpa using Spelled.compare ha hx hb⟩

theorem begins_left {p : List Token} (h : (Form.chain .sum).Begins p) : Begins Spelled p := by
  obtain ⟨z, a, ha⟩ := h
  have hb : Begins Spelled (p ++ z ++ [Token.ofKind .equal]) :=
    begins_right (c := .equal) ha rfl (Form.begins_nil _)
  exact hb.of_append.of_append

abbrev Decided (place : Bytes) : List Token → Prop :=
  ThreeAddress.Decided Spelled (Form.chain .sum).Ends fun w r o =>
    ∀ (fuel : Nat) (next : Bytes × Bytes × Comparator → Dialogue Unit), w.length < fuel →
      (Production.condition place fuel next).Fails w r o

theorem decided (place : Bytes) (w : List Token) : Decided place w := by
  obtain ⟨a, p, r, rfl, ha, hr⟩ | ⟨p, r, o, rfl, hs, hfail⟩ := Form.decided_expression w
  · cases hr with
    | @token _ t r ht =>
    cases hc : Comparator.ofKind? t.kind with
    | none =>
      refine .stuck p (t :: r) _ rfl (.of_kinds
        (utf8 "Error in " ++ place ++ utf8 ": comparison operator expected")
        [.equal, .less, .lessEqual, .greater, .greaterEqual, .notEqual]
        (begins_left (begins_of_spelled ha)) ?_) ?_
      · intro kind hm
        obtain ⟨c, rfl⟩ : ∃ c : Comparison, kind = c.kind := by
          simp only [List.mem_cons, List.not_mem_nil, or_false] at hm
          rcases hm with rfl | rfl | rfl | rfl | rfl | rfl <;> exact Comparison.exists_kind_eq rfl
        exact begins_right ha rfl (Form.begins_nil _)
      · intro fuel next hf f n qs
        rw [Production.read_condition]
        refine (ha.passes (by simp) hf hf (.token r ht) []).fails (fun _ f n qs => ?_) f n qs
        simp [Production.read_comparator_none hc, Obstacle.failure]
    | some comparator =>
      obtain ⟨c, hx⟩ := Comparison.exists_kind_eq hc
      obtain ⟨b, q, r, rfl, hb, hr⟩ | ⟨q, r, o, rfl, hs, hfail⟩ := Form.decided_expression r
      · exact .success _ (p ++ t :: q) r (by simp) (.compare ha hx hb) hr
      · refine .stuck (p ++ t :: q) r o (by simp) ?_ ?_
        · simpa using hs.within (a := p ++ [t]) fun q hq => by simpa using begins_right ha hx hq
        · intro fuel next hf f n qs
          have hn : (q ++ r).length < fuel := by simp at hf ⊢; omega
          rw [Production.read_condition]
          refine (ha.passes (by simp) hf hf (.token _ ht) []).fails (fun _ f n qs => ?_) f n qs
          rw [Production.read_comparator_some hc]
          exact hfail fuel fuel [] _ hn hn f n qs
  · refine .stuck p r o rfl (hs.within (a := []) fun q hq => begins_left hq) ?_
    intro fuel next hf f n qs
    rw [Production.read_condition]
    exact hfail fuel fuel [] _ hf hf f n qs

theorem Spelled.passes {ρ : Type} {c : Condition} {p r : List Token} (h : c.Spelled p)
    {fuel : Nat} (hf : (p ++ r).length < fuel) (hr : (Form.chain .sum).Ends r) (place : Bytes) :
    (Production.condition place fuel : Production ρ _).Passes (p ++ r) r := by
  intro next f n qs
  cases h with
  | @compare x c a b ts us ha hx hb =>
    have hn : (us ++ r).length < fuel := by simp at hf ⊢; omega
    rw [List.append_assoc] at hf ⊢
    rw [Production.read_condition]
    obtain ⟨left, n, qs, hread⟩ :=
      ha.passes (by simp) hf hf (Comparison.ends_chain hx _ _) [] _ f n qs
    rw [show Production.expression fuel = (Form.chain .sum).production fuel fuel [] from rfl,
      hread, List.cons_append, Production.read_comparator_some (by rw [hx, c.ofKind?_kind])]
    obtain ⟨right, n, qs, hread⟩ := hb.passes (by simp) hn hn hr [] _ f n qs
    exact ⟨_, n, qs, hread⟩

end Condition

inductive Guard where
  | conditional
  | loop

namespace Guard

def opening : Guard → TokenKind
  | conditional => .ifWord
  | loop => .whileWord

def connective : Guard → TokenKind
  | conditional => .thenWord
  | loop => .doWord

def statement : Guard → Condition → Statement → Statement
  | conditional => .conditional
  | loop => .loop

def place : Guard → Bytes
  | conditional => utf8 "If statement"
  | loop => utf8 "While loop"

def complaint : Guard → Bytes
  | conditional => utf8 "Error in If statement: Then expected"
  | loop => utf8 "Error in While loop: Do expected"

theorem spelled (g : Guard) {i t : Token} {c : Condition} {s : Statement} {ts us : List Token}
    (hi : i.kind = g.opening) (hc : c.Spelled ts) (ht : t.kind = g.connective)
    (hs : s.Spelled us) : (g.statement c s).Spelled (i :: (ts ++ t :: us)) := by
  cases g with
  | conditional => exact .conditional hi hc ht hs
  | loop => exact .loop hi hc ht hs

theorem fails (g : Guard) {i : Token} {w r : List Token} {o : Obstacle} {fuel : Nat}
    {next : Unit → Dialogue Unit} (hi : i.kind = g.opening)
    (h : ∀ after : Bytes → Dialogue Unit, (Production.condition g.place fuel fun c =>
      Production.expect g.connective g.complaint fun _ =>
        Production.guarded c.1 c.2.1 c.2.2 (Production.statement fuel) after).Fails w r o) :
    (Production.statement (fuel + 1) next).Fails (i :: w) r o := by
  rintro f ⟨k, j⟩ qs
  cases g with
  | conditional =>
    rw [Production.read_statement_conditional hi]
    exact h _ f ⟨0, j⟩ qs
  | loop =>
    rw [Production.read_statement_loop hi]
    exact h _ f ⟨0, j + 1⟩ _

end Guard

theorem Production.fails_guarded {w r : List Token} {o : Obstacle} {body : Production Unit Unit}
    (h : ∀ next, (body next).Fails w r o) (left right : Bytes) (c : Comparator)
    (next : Bytes → Dialogue Unit) : (guarded left right c body next).Fails w r o := by
  rintro f ⟨i, j⟩ qs
  rw [read_guarded]
  exact h _ f _ _

namespace Statement

theorem begins_assign {t x : Token} {p : List Token} (ht : t.kind = .ident) (hx : x.kind = .equal)
    (h : (Form.chain .sum).Begins p) : Begins Spelled (t :: x :: p) := by
  obtain ⟨z, e, he⟩ := h
  exact ⟨z, _, .assign ht hx he⟩

theorem begins_body (g : Guard) {i t : Token} {c : Condition} {ts p : List Token}
    (hi : i.kind = g.opening) (hc : c.Spelled ts) (ht : t.kind = g.connective)
    (h : Begins Spelled p) : Begins Spelled (i :: (ts ++ t :: p)) := by
  obtain ⟨z, s, hs⟩ := h
  exact ⟨z, _, by simpa using g.spelled hi hc ht hs⟩

theorem begins_nil : Begins Spelled [] :=
  (begins_assign (t := Token.ofKind .ident) (x := Token.ofKind .equal) rfl rfl
    (Form.begins_nil _)).of_append (p := [])

theorem begins_connective (g : Guard) {i t : Token} {c : Condition} {ts : List Token}
    (hi : i.kind = g.opening) (hc : c.Spelled ts) (ht : t.kind = g.connective) :
    Begins Spelled (i :: ts ++ [t]) := by
  simpa using begins_body g hi hc ht begins_nil

theorem begins_test (g : Guard) {i : Token} {p : List Token} (hi : i.kind = g.opening)
    (h : Begins Condition.Spelled p) : Begins Spelled (i :: p) := by
  obtain ⟨z, c, hc⟩ := h
  have hb := begins_connective g (t := Token.ofKind g.connective) hi hc rfl
  exact Begins.of_append (q := z) hb.of_append

theorem begins_opening {i : Token} (h : Production.startsStatement i.kind = true) :
    Begins Spelled [i] := by
  unfold Production.startsStatement at h
  split at h
  · rename_i hk
    exact (begins_assign (x := Token.ofKind .equal) hk rfl (Form.begins_nil _)).of_append (p := [i])
  · rename_i hk
    exact begins_test .conditional hk (Condition.begins_left (Form.begins_nil _))
  · rename_i hk
    exact begins_test .loop hk (Condition.begins_left (Form.begins_nil _))
  · cases h

abbrev Decided : List Token → Prop :=
  ThreeAddress.Decided Spelled (Form.chain .sum).Ends fun w r o =>
    ∀ (fuel : Nat) (next : Unit → Dialogue Unit), w.length < fuel →
      (Production.statement fuel next).Fails w r o

theorem decided_assign {t : Token} (ht : t.kind = .ident) (ts : List Token) :
    Decided (t :: ts) := by
  cases ts with
  | nil =>
    refine .stuck [t] [] .ending rfl (.ended (begins_opening (by rw [ht]; rfl))) ?_
    rintro fuel next hf f ⟨i, j⟩ qs
    obtain ⟨fuel, rfl⟩ := Nat.exists_eq_succ_of_ne_zero (Nat.ne_zero_of_lt hf)
    rw [Production.read_statement_assign ht]
    exact Production.fails_expect_nil _ _ _ f _ qs
  | cons x ts =>
    by_cases hx : x.kind = .equal
    · obtain ⟨e, p, r, rfl, he, hr⟩ | ⟨p, r, o, rfl, hs, hfail⟩ := Form.decided_expression ts
      · exact .success _ (t :: x :: p) r rfl (.assign ht hx he) hr
      · refine .stuck (t :: x :: p) r o rfl
          (hs.within (a := [t, x]) fun q hq => begins_assign ht hx hq) ?_
        rintro fuel next hf f ⟨i, j⟩ qs
        obtain ⟨fuel, rfl⟩ := Nat.exists_eq_succ_of_ne_zero (Nat.ne_zero_of_lt hf)
        have hn : (p ++ r).length < fuel := by simp at hf ⊢; omega
        rw [Production.read_statement_assign ht]
        simp only [Production.read_expect_cons, hx, ↓reduceIte]
        exact hfail fuel fuel [] _ hn hn f _ qs
    · refine .stuck [t] (x :: ts) _ rfl (.of_kind (utf8 "Expected '='")
        (begins_assign (p := []) ht rfl (Form.begins_nil _))) ?_
      rintro fuel next hf f ⟨i, j⟩ qs
      obtain ⟨fuel, rfl⟩ := Nat.exists_eq_succ_of_ne_zero (Nat.ne_zero_of_lt hf)
      rw [Production.read_statement_assign ht]
      exact Production.fails_expect_cons hx _ _ f _ qs

theorem decided_guard (g : Guard) {i : Token} (hi : i.kind = g.opening) {w : List Token}
    (ih : ∀ ts : List Token, ts.length ≤ w.length → Decided ts) : Decided (i :: w) := by
  obtain ⟨c, p, r, rfl, hc, hr⟩ | ⟨p, r, o, rfl, hs, hfail⟩ := Condition.decided g.place w
  · cases hr with
    | @token _ t r hk =>
    by_cases ht : t.kind = g.connective
    · obtain ⟨s, q, r, rfl, hs, hr⟩ | ⟨q, r, o, rfl, hs, hfail⟩ := ih r (by simp; omega)
      · exact .success _ (i :: (p ++ t :: q)) r (by simp) (g.spelled hi hc ht hs) hr
      · refine .stuck (i :: (p ++ t :: q)) r o (by simp) ?_ ?_
        · simpa using hs.within (a := i :: (p ++ [t])) fun q hq => by
            simpa using begins_body g hi hc ht hq
        · intro fuel next hf
          obtain ⟨fuel, rfl⟩ := Nat.exists_eq_succ_of_ne_zero (Nat.ne_zero_of_lt hf)
          have hn : (p ++ t :: (q ++ r)).length < fuel := by simp at hf ⊢; omega
          have hm : (q ++ r).length < fuel := by simp at hf ⊢; omega
          refine g.fails hi fun after =>
            (hc.passes hn (.token _ hk) g.place).fails fun _ f n qs => ?_
          simp only [Production.read_expect_cons, ht, ↓reduceIte]
          exact Production.fails_guarded (fun next => hfail fuel next hm) _ _ _ _ f n qs
    · refine .stuck (i :: p) (t :: r) _ rfl (.of_kind g.complaint
        (begins_connective g hi hc rfl)) ?_
      intro fuel next hf
      obtain ⟨fuel, rfl⟩ := Nat.exists_eq_succ_of_ne_zero (Nat.ne_zero_of_lt hf)
      have hn : (p ++ t :: r).length < fuel := by simp at hf ⊢; omega
      exact g.fails hi fun after => (hc.passes hn (.token _ hk) g.place).fails fun _ =>
        Production.fails_expect_cons ht _ _
  · refine .stuck (i :: p) r o rfl (hs.within (a := [i]) fun q hq => begins_test g hi hq) ?_
    intro fuel next hf
    obtain ⟨fuel, rfl⟩ := Nat.exists_eq_succ_of_ne_zero (Nat.ne_zero_of_lt hf)
    exact g.fails hi fun after => hfail fuel _ (by simp at hf ⊢; omega)

theorem decided (w : List Token) : Decided w := by
  induction hlen : w.length using Nat.strongRecOn generalizing w with
  | ind size ih =>
  subst hlen
  cases w with
  | nil =>
    refine .stuck [] [] .ending rfl (.ended begins_nil) ?_
    rintro fuel next hf f ⟨i, j⟩ qs
    obtain ⟨fuel, rfl⟩ := Nat.exists_eq_succ_of_ne_zero (Nat.ne_zero_of_lt hf)
    exact ⟨_, _, Production.read_statement_nil fuel next i j⟩
  | cons t ts =>
    have hshort : ∀ us : List Token, us.length ≤ ts.length → Decided us :=
      fun us hus => ih us.length (by simp; omega) us rfl
    cases hk : Production.startsStatement t.kind with
    | true =>
      unfold Production.startsStatement at hk
      split at hk
      · exact decided_assign ‹_› ts
      · exact decided_guard .conditional ‹_› hshort
      · exact decided_guard .loop ‹_› hshort
      · cases hk
    | false =>
      refine .stuck [] (t :: ts) _ rfl (.of_kinds (utf8 "Expected statement")
        [.ident, .ifWord, .whileWord] begins_nil ?_) ?_
      · intro kind hm
        simp only [List.mem_cons, List.not_mem_nil, or_false] at hm
        rcases hm with rfl | rfl | rfl <;> exact begins_opening rfl
      · rintro fuel next hf f ⟨i, j⟩ qs
        obtain ⟨fuel, rfl⟩ := Nat.exists_eq_succ_of_ne_zero (Nat.ne_zero_of_lt hf)
        exact ⟨_, _, Production.read_statement_reject hk fuel next i j⟩

end Statement

theorem Statement.Spelled.passes {ρ : Type} {s : Statement} {p r : List Token} (h : s.Spelled p)
    {fuel : Nat} (hf : (p ++ r).length < fuel) (hr : (Form.chain .sum).Ends r) :
    (Production.statement fuel : Production ρ Unit).Passes (p ++ r) r := by
  rintro next f ⟨i, j⟩ qs
  exact ⟨(), _, _, h.read hf hr next f i j qs⟩

namespace Program

inductive Closed : Program → List Token → Prop
  | closed {q : Program} {e : Token} {ts : List Token} (hq : q.Listed ts)
      (he : e.kind = .endWord) : Closed q (ts ++ [e])

theorem Closed.more {x : Token} {s : Statement} {q : Program} {ts us : List Token}
    (h : q.Closed us) (hs : s.Spelled ts) (hx : x.kind = .semicolon) :
    Closed (s :: q) (ts ++ x :: us) := by
  cases h with
  | closed hq he => simpa using Closed.closed (.more hs hx hq) he

theorem Closed.passes {ρ : Type} {q : Program} {p r : List Token} (h : q.Closed p) {fuel : Nat}
    (hf : (p ++ r).length < fuel) (message : Bytes) :
    Production.Passes (fun next : Unit → Dialogue ρ =>
      Production.statements fuel fun _ => Production.expect .endWord message next)
      (p ++ r) r := by
  rintro next f ⟨i, j⟩ qs
  cases h with
  | @closed e ts hq he =>
    rw [List.append_assoc, List.singleton_append] at hf ⊢
    rw [hq.read he hf]
    simp only [Production.read_expect_cons, he, ↓reduceIte]
    exact ⟨(), _, _, rfl⟩

theorem begins_closed_first {p : List Token} (h : Begins Statement.Spelled p) :
    Begins Closed p := by
  obtain ⟨z, s, hs⟩ := h
  exact ⟨z ++ [Token.ofKind .endWord], _, by simpa using Closed.closed (.one hs) rfl⟩

theorem begins_closed_more {x : Token} {s : Statement} {ts p : List Token} (hs : s.Spelled ts)
    (hx : x.kind = .semicolon) (h : Begins Closed p) : Begins Closed (ts ++ x :: p) := by
  obtain ⟨z, q, hq⟩ := h
  exact ⟨z, _, by simpa using hq.more hs hx⟩

theorem decided_closed (w : List Token) :
    Decided Closed (fun _ => True) (fun w r o =>
      ∀ (fuel : Nat) (next : Unit → Dialogue Unit), w.length < fuel →
        (Production.statements fuel fun _ =>
          Production.expect .endWord (utf8 "Expected END") next).Fails w r o) w := by
  induction hlen : w.length using Nat.strongRecOn generalizing w with
  | ind size ih =>
  subst hlen
  cases w with
  | nil =>
    refine .stuck [] [] .ending rfl (.ended (begins_closed_first Statement.begins_nil)) ?_
    intro fuel next hf f n qs
    obtain ⟨fuel, rfl⟩ := Nat.exists_eq_succ_of_ne_zero (Nat.ne_zero_of_lt hf)
    exact ⟨_, _, Production.read_statements_nil fuel _⟩
  | cons t ts =>
    cases hk : Production.startsStatement t.kind with
    | false =>
      by_cases he : t.kind = .endWord
      · exact .success [] [t] ts rfl (.closed .none he) trivial
      · refine .stuck [] (t :: ts) _ rfl (.of_kind (utf8 "Expected END")
          (begins_of_spelled (.closed .none rfl))) ?_
        intro fuel next hf f n qs
        obtain ⟨fuel, rfl⟩ := Nat.exists_eq_succ_of_ne_zero (Nat.ne_zero_of_lt hf)
        rw [Production.read_statements_none hk]
        exact Production.fails_expect_cons he _ _ f n qs
    | true =>
      obtain ⟨s, p, r, hw, hs, hr⟩ | ⟨p, r, o, hw, hs, hfail⟩ := Statement.decided (t :: ts)
      · cases hr with
        | @token _ x r hx =>
        by_cases hsemi : x.kind = .semicolon
        · have hshort : r.length < (t :: ts).length := by rw [hw]; simp; omega
          obtain ⟨q, u, r, rfl, hq, -⟩ | ⟨u, r, o, rfl, hu, hfail⟩ := ih r.length hshort r rfl
          · exact .success _ (p ++ x :: u) r (by simp [hw]) (hq.more hs hsemi) trivial
          · refine .stuck (p ++ x :: u) r o (by simp [hw]) ?_ ?_
            · simpa using hu.within (a := p ++ [x]) fun q hq => by
                simpa using begins_closed_more hs hsemi hq
            · intro fuel next hf f n qs
              obtain ⟨fuel, rfl⟩ := Nat.exists_eq_succ_of_ne_zero (Nat.ne_zero_of_lt hf)
              have hn : (u ++ r).length < fuel := by rw [hw] at hf; simp at hf ⊢; omega
              rw [Production.read_statements_some hk]
              rw [hw] at hf ⊢
              refine (hs.passes hf (.token _ hx)).fails (fun _ f n qs => ?_) f n qs
              simp only [Production.read_accept_cons, hsemi, ↓reduceIte]
              exact hfail fuel next hn f n qs
        · by_cases he : x.kind = .endWord
          · exact .success [s] (p ++ [x]) r (by simp [hw]) (.closed (.one hs) he) trivial
          · refine .stuck p (x :: r) _ hw (.of_kind (utf8 "Expected END")
              (begins_of_spelled (.closed (.one hs) rfl))) ?_
            intro fuel next hf f n qs
            obtain ⟨fuel, rfl⟩ := Nat.exists_eq_succ_of_ne_zero (Nat.ne_zero_of_lt hf)
            rw [Production.read_statements_some hk]
            rw [hw] at hf ⊢
            refine (hs.passes hf (.token _ hx)).fails (fun _ f n qs => ?_) f n qs
            simp only [Production.read_accept_cons, hsemi, ↓reduceIte, Bool.false_eq_true]
            exact Production.fails_expect_cons he _ _ f n qs
      · refine .stuck p r o hw (hs.within (a := []) fun q hq => begins_closed_first hq) ?_
        intro fuel next hf f n qs
        obtain ⟨fuel, rfl⟩ := Nat.exists_eq_succ_of_ne_zero (Nat.ne_zero_of_lt hf)
        rw [Production.read_statements_some hk]
        exact hfail _ _ hf f n qs

theorem Closed.spelled {b d : Token} {q : Program} {ts : List Token} (h : q.Closed ts)
    (hb : b.kind = .programWord) (hd : d.kind = .period) : q.Spelled (b :: (ts ++ [d])) := by
  cases h with
  | closed hq he => simpa using Spelled.program hb hq he hd

theorem begins_body {b : Token} {p : List Token} (hb : b.kind = .programWord)
    (h : Begins Closed p) : Begins Spelled (b :: p) := by
  obtain ⟨z, q, hq⟩ := h
  exact ⟨z ++ [Token.ofKind .period], q, by simpa using hq.spelled hb rfl⟩

theorem begins_word {b : Token} (hb : b.kind = .programWord) : Begins Spelled [b] :=
  begins_body hb (begins_closed_first Statement.begins_nil)

/-- The tokens start with a program, or its production comes to an obstacle in them. -/
theorem decided (w : List Token) :
    Decided Spelled (fun _ => True) (fun w r o =>
      ∀ (fuel : Nat) (next : Unit → Dialogue Unit), w.length ≤ fuel →
        (Production.program fuel next).Fails w r o) w := by
  cases w with
  | nil =>
    have hb : Begins Spelled [Token.ofKind .programWord] := begins_word rfl
    refine .stuck [] [] .ending rfl (.ended (hb.of_append (p := []))) ?_
    intro fuel next hf f n qs
    exact Production.fails_expect_nil _ _ _ f n qs
  | cons b ts =>
    by_cases hb : b.kind = .programWord
    · obtain ⟨q, p, r, rfl, hq, -⟩ | ⟨p, r, o, rfl, hs, hfail⟩ := decided_closed ts
      · cases r with
        | nil =>
          have hd : Begins Spelled (b :: p ++ [Token.ofKind .period]) :=
            begins_of_spelled (hq.spelled hb rfl)
          refine .stuck (b :: p) [] .ending rfl (.ended hd.of_append) ?_
          intro fuel next hf f n qs
          have hn : (p ++ []).length < fuel := by simp at hf ⊢; omega
          simp only [Production.read_program, Production.read_expect_cons, hb, ↓reduceIte]
          exact (hq.passes hn _).fails (fun _ => Production.fails_expect_nil _ _ _) f n qs
        | cons d r =>
          by_cases hd : d.kind = .period
          · exact .success q (b :: (p ++ [d])) r (by simp) (hq.spelled hb hd) trivial
          · refine .stuck (b :: p) (d :: r) _ rfl (.of_kind (utf8 "Expected Period")
              (begins_of_spelled (hq.spelled hb rfl))) ?_
            intro fuel next hf f n qs
            have hn : (p ++ d :: r).length < fuel := by simp at hf ⊢; omega
            simp only [Production.read_program, Production.read_expect_cons, hb, ↓reduceIte]
            exact (hq.passes hn _).fails (fun _ => Production.fails_expect_cons hd _ _) f n qs
      · refine .stuck (b :: p) r o rfl (hs.within (a := [b]) fun q hq => begins_body hb hq) ?_
        intro fuel next hf f n qs
        simp only [Production.read_program, Production.read_expect_cons, hb, ↓reduceIte]
        exact hfail fuel _ (by simp at hf ⊢; omega) f n qs
    · refine .stuck [] (b :: ts) _ rfl (.of_kind (utf8 "Expected PROGRAM") (begins_word rfl)) ?_
      intro fuel next hf f n qs
      exact Production.fails_expect_cons hb _ _ f n qs

end Program

end ThreeAddress
