import ThreeAddress.Proofs.Decision.Program
import ThreeAddress.Proofs.Delivery
import ThreeAddress.Proofs.Grammar

namespace ThreeAddress

/-- A dialogue that stops before the token `t` has seen nothing behind it. -/
theorem TokenRow.answer_course_local {ρ : Type} (d : Dialogue ρ) {w r : List Token} {t : Token}
    {f : Failure} {n : Names} (h : (d.course (⟨w, f⟩ : TokenRow) n).stream.tokens = t :: r) :
    ∃ p, w = p ++ t :: r ∧ ∀ r', (d.course (⟨p ++ t :: r', f⟩ : TokenRow) n).answer =
      (d.course (⟨w, f⟩ : TokenRow) n).answer := by
  induction d using Dialogue.inductionOnRequests generalizing w n with
  | done result | reject error | outOfFuel => exact ⟨[], h, fun _ => rfl⟩
  | ask q next ih =>
    cases w with
    | nil =>
      rw [course_ask_nil] at h
      cases h
    | cons u us =>
      rw [course_ask_cons] at h
      obtain ⟨p, hw, hanswer⟩ := ih u h
      cases q with
      | pop =>
        obtain rfl : us = p ++ t :: r := hw
        exact ⟨u :: p, rfl, hanswer⟩
      | peek =>
        have hw : u :: us = p ++ t :: r := hw
        refine ⟨p, hw, fun r' => ?_⟩
        cases p with
        | nil | cons =>
          obtain ⟨rfl, -⟩ := List.cons.inj hw
          exact hanswer r'
  | temporary next ih | label next ih => exact ih _ h
  | releaseTemporaries next ih | emit quad next ih => exact ih h

namespace Program

theorem Spelled.reading {q : Program} {p r : List Token} (h : q.Spelled p) {fuel : Nat}
    (hf : (p ++ r).length ≤ fuel) (f : Failure) :
    Translator.reading fuel (p ++ r) f = (.ok (), ⟨r, f, ⟨0, q.labels⟩, q.code 0⟩) :=
  (h.read hf Dialogue.done f []).trans (Dialogue.read_done () _)

/-- Where the reading of a list stops before a token, no program goes on with that token. -/
theorem not_begins_of_fails {p r : List Token} {t : Token} {e : GrammarError}
    (h : ∀ (fuel : Nat) (next : Unit → Dialogue Unit), (p ++ t :: r).length ≤ fuel →
      (Production.program fuel next).Fails (p ++ t :: r) (t :: r) (.rejection e)) :
    ¬Begins Spelled (p ++ [t]) := by
  rintro ⟨z, q, hq⟩
  have hw : p ++ [t] ++ z = p ++ t :: z := by simp
  rw [hw] at hq
  let fuel := (p ++ t :: r).length + (p ++ t :: z).length
  let f : Failure := { cause := .unexpectedEnd }
  obtain ⟨n, qs, hfail⟩ := h fuel Dialogue.done (Nat.le_add_right _ _) f {} []
  obtain ⟨p', hp, hanswer⟩ :=
    TokenRow.answer_course_local _ (congrArg (fun x => x.2.tokens) hfail)
  obtain rfl := List.append_cancel_right hp
  have hlength : (p ++ t :: z ++ []).length ≤ fuel := by simp [fuel]
  have hok := hq.reading hlength f
  rw [List.append_nil] at hok
  have hne := (congrArg Prod.fst hok).symm.trans ((hanswer z).trans (congrArg Prod.fst hfail))
  cases hne

inductive Answered (fuel : Nat) (ts : List Token) : Prop
  | accepted (q : Program) (p r : List Token) (hts : ts = p ++ r) (hq : q.Spelled p)
      (h : ∀ f, Translator.reading fuel ts f = (.ok (), ⟨r, f, ⟨0, q.labels⟩, q.code 0⟩))
  | ended (hts : Begins Spelled ts) (hno : ∀ (q : Program) (p r : List Token), ts = p ++ r →
      ¬q.Spelled p) (h : ∀ f, (Translator.reading fuel ts f).1 = .error f)
  | rejected (p r : List Token) (t : Token) (e : GrammarError) (hts : ts = p ++ t :: r)
      (hp : Begins Spelled p) (hn : ¬Begins Spelled (p ++ [t])) (hf : e.found = t.lexeme)
      (hq : e.position = t.position) (he : ∀ x ∈ e.expected, ∃ kind : TokenKind,
        kind.text = x ∧ Begins Spelled (p ++ [{ t with kind }]))
      (h : ∀ f, ∃ n qs, Translator.reading fuel ts f =
        (.error { cause := .grammar e }, ⟨t :: r, f, n, qs⟩))

theorem answered {fuel : Nat} {ts : List Token} (hfuel : ts.length ≤ fuel) :
    Answered fuel ts := by
  obtain ⟨q, p, r, rfl, hq, -⟩ | ⟨p, r, o, rfl, hs, hfail⟩ := decided ts
  · exact .accepted q p r rfl hq (hq.reading hfuel)
  · cases hs with
    | ended hp =>
      rw [List.append_nil] at hfuel hfail ⊢
      have hend : ∀ f, (Translator.reading fuel p f).1 = .error f := by
        intro f
        obtain ⟨n, qs, hread⟩ := hfail fuel Dialogue.done hfuel f {} []
        exact congrArg Prod.fst hread
      refine .ended hp ?_ hend
      rintro q p r rfl hq
      have hok := hq.reading hfuel { cause := .unexpectedEnd }
      have hne := hend { cause := .unexpectedEnd }
      rw [hok] at hne
      cases hne
    | @rejected r t e hp hf hq he =>
      exact .rejected p r t e rfl hp (not_begins_of_fails hfail) hf hq he fun f =>
        hfail fuel Dialogue.done hfuel f {} []

section

variable {fuel : Nat} {ts : List Token} (hfuel : ts.length ≤ fuel)

include hfuel

theorem answer_reading (f : Failure) :
    (Translator.reading fuel ts f).1 = .ok () ∨ (Translator.reading fuel ts f).1 = .error f ∨
      ∃ e, (Translator.reading fuel ts f).1 = .error { cause := .grammar e } := by
  obtain ⟨q, p, r, -, -, hread⟩ | ⟨-, -, hread⟩ | ⟨p, r, t, e, -, -, -, -, -, -, hread⟩ :=
    answered hfuel
  · exact .inl (congrArg Prod.fst (hread f))
  · exact .inr (.inl (hread f))
  · obtain ⟨n, qs, hread⟩ := hread f
    exact .inr (.inr ⟨e, congrArg Prod.fst hread⟩)

theorem exists_rejected {e : GrammarError}
    (h : (Translator.reading fuel ts { cause := .unexpectedEnd }).1 =
      .error { cause := .grammar e }) :
    ∃ p t r, ts = p ++ t :: r ∧ Begins Spelled p ∧ ¬Begins Spelled (p ++ [t]) ∧
      e.found = t.lexeme ∧ e.position = t.position ∧
      (Translator.reading fuel ts { cause := .unexpectedEnd }).2.tokens = t :: r := by
  obtain ⟨q, p, r, -, -, hread⟩ | ⟨-, -, hread⟩ | ⟨p, r, t, e', hts, hp, hn, hf, hq, -, hread⟩ :=
    answered hfuel
  · rw [hread] at h
    cases h
  · rw [hread] at h
    cases h
  · obtain ⟨n, qs, hread⟩ := hread { cause := .unexpectedEnd }
    rw [hread] at h ⊢
    cases h
    exact ⟨p, t, r, hts, hp, hn, hf, hq, rfl⟩

/-- A program that has been begun and not ended is read to the last token and beyond. -/
theorem reading_of_begins (hts : Begins Spelled ts)
    (hno : ∀ (q : Program) (p r : List Token), ts = p ++ r → ¬q.Spelled p) (f : Failure) :
    (Translator.reading fuel ts f).1 = .error f := by
  obtain ⟨q, p, r, h, hq, -⟩ | ⟨-, -, h⟩ | ⟨p, r, t, e, h, -, hn, -⟩ := answered hfuel
  · exact absurd hq (hno q p r h)
  · exact h f
  · rw [h, ← List.singleton_append, ← List.append_assoc] at hts
    exact absurd hts.of_append hn

end

end Program

def Viable (kinds : List TokenKind) : Prop := ∃ more, kinds ++ more ∈ grammar.language

theorem viable_iff (ts : List Token) : Viable (ts.map Token.kind) ↔ Begins Program.Spelled ts := by
  constructor
  · rintro ⟨more, h⟩
    have hmore : (more.map Token.ofKind).map Token.kind = more := by
      simp [Function.comp_def, Token.ofKind]
    rw [← hmore, ← List.map_append] at h
    obtain ⟨q, hq⟩ := (mem_language_iff _).mp h
    exact ⟨_, q, hq⟩
  · rintro ⟨z, q, hq⟩
    have h := (mem_language_iff _).mpr ⟨q, hq⟩
    rw [List.map_append] at h
    exact ⟨_, h⟩

namespace Translator

theorem analyze_of_spelled {q : Program} {p : List Token} (h : q.Spelled p) (r : List Token) :
    let t := (ofTokens (p ++ r)).analyze
    t.1 = .ok () ∧ t.2.tokens.tokens = r ∧ t.2.emitter = (q.code 0).foldl Emitter.emit {} := by
  intro t
  obtain ⟨ha, he, ht⟩ := analyze_ofTokens (p ++ r) {}
  have hanswer := outcome_eq rfl he
  rw [h.reading (Nat.le_succ _)] at ha he ht
  exact ⟨ha.trans (hanswer _), ht nofun, he⟩

theorem analyze_of_mem_language {p : List Token} (hp : p.map Token.kind ∈ grammar.language)
    (r : List Token) :
    let t := (ofTokens (p ++ r)).analyze
    t.1 = .ok () ∧ t.2.tokens.tokens = r := by
  intro t
  obtain ⟨q, hq⟩ := (mem_language_iff p).mp hp
  obtain ⟨ha, ht, -⟩ := analyze_of_spelled hq r
  exact ⟨ha, ht⟩

/-- No program is a proper prefix of another: the translator would leave two different rests. -/
theorem eq_of_append_eq {p p' r r' : List Token} (h : p' ++ r' = p ++ r)
    (hp : p.map Token.kind ∈ grammar.language) (hp' : p'.map Token.kind ∈ grammar.language) :
    p' = p := by
  have hr := (analyze_of_mem_language hp r).2
  have hr' := (analyze_of_mem_language hp' r').2
  rw [h, hr] at hr'
  rw [hr'] at h
  exact List.append_cancel_right h

/-- A translator accepts exactly the token lists that start with a program, and takes exactly that
program off the list. It complains of an early end exactly where a program is begun and not ended,
and of a token in every other case. -/
theorem analyze_accepts_iff (ts : List Token) :
    let t := (ofTokens ts).analyze
    (t.1 = .ok () ↔ ∃ p r, ts = p ++ r ∧ p.map Token.kind ∈ grammar.language) ∧
      (∀ p r, ts = p ++ r → p.map Token.kind ∈ grammar.language → t.2.tokens.tokens = r ∧
        ∀ p' r', ts = p' ++ r' → p'.map Token.kind ∈ grammar.language → p' = p) ∧
      (t.1 = .error { cause := .unexpectedEnd } ↔
        (∀ p r, ts = p ++ r → p.map Token.kind ∉ grammar.language) ∧
          Viable (ts.map Token.kind)) ∧
      (t.1 ≠ .ok () → t.1 ≠ .error { cause := .unexpectedEnd } →
        ∃ e, t.1 = .error { cause := .grammar e }) := by
  intro t
  have hprogram : ∀ p r, ts = p ++ r → p.map Token.kind ∈ grammar.language →
      t.1 = .ok () ∧ t.2.tokens.tokens = r := by
    rintro p r rfl hp
    exact analyze_of_mem_language hp r
  have hunique : ∀ p r, ts = p ++ r → p.map Token.kind ∈ grammar.language →
      t.2.tokens.tokens = r ∧
        ∀ p' r', ts = p' ++ r' → p'.map Token.kind ∈ grammar.language → p' = p := by
    intro p r hts hp
    refine ⟨(hprogram p r hts hp).2, fun p' r' hts' hp' => ?_⟩
    exact eq_of_append_eq (hts'.symm.trans hts) hp hp'
  obtain ⟨ha, he, -⟩ := analyze_ofTokens ts {}
  have hanswer : t.1 = _ := ha.trans (outcome_eq rfl he _)
  obtain ⟨q, p, r, hts, hq, h⟩ | ⟨hts, hno, h⟩ | ⟨p, r, x, e, hts, hp, hn, -, -, -, h⟩ :=
    Program.answered (Nat.le_succ ts.length)
  · have hp := (mem_language_iff p).mpr ⟨q, hq⟩
    have hok := (hprogram p r hts hp).1
    refine ⟨iff_of_true hok ⟨p, r, hts, hp⟩, hunique, ?_, fun hne => absurd hok hne⟩
    exact iff_of_false (by simp [hok]) fun hend => hend.1 p r hts hp
  · have hend : t.1 = .error { cause := .unexpectedEnd } := hanswer.trans (h _)
    have hnone : ∀ p r, ts = p ++ r → p.map Token.kind ∉ grammar.language := by
      intro p r hp hm
      obtain ⟨q, hq⟩ := (mem_language_iff p).mp hm
      exact hno q p r hp hq
    refine ⟨iff_of_false (by simp [hend]) ?_, hunique, ?_, fun _ hne => absurd hend hne⟩
    · rintro ⟨p, r, hp, hm⟩
      exact hnone p r hp hm
    · exact iff_of_true hend ⟨hnone, (viable_iff ts).mpr hts⟩
  · obtain ⟨n, qs, hread⟩ := h { cause := .unexpectedEnd }
    have herror : t.1 = .error { cause := .grammar e } := hanswer.trans (congrArg Prod.fst hread)
    refine ⟨iff_of_false (by simp [herror]) ?_, hunique, ?_, fun _ _ => ⟨e, herror⟩⟩
    · rintro ⟨p, r, hp, hm⟩
      have hok := (hprogram p r hp hm).1
      rw [herror] at hok
      cases hok
    · refine iff_of_false (by simp [herror]) fun hend => hn ?_
      have hb := (viable_iff ts).mp hend.2
      rw [hts, ← List.singleton_append, ← List.append_assoc] at hb
      exact hb.of_append

theorem outcome_eq_grammar {σ : Type} {t : Translator σ} {sink : Sink} {qs : List Quad}
    (ht : t.emitter = qs.foldl Emitter.emit { sink }) {x : Except Failure Unit} {f : Failure}
    (h : t.outcome x = .error f) (hf : f.isGrammar = true) : x = .error f := by
  refine (outcome_eq_error h).resolve_right fun hkept => ?_
  rw [ht] at hkept
  have hfresh : ∀ g, ({ sink } : Emitter).failure = some g → g.isGrammar = false := by simp
  rw [Emitter.isGrammar_foldl_emit qs hfresh hkept] at hf
  cases hf

/-- A complaint about a token comes at the first token with which the tokens start no program, the
token is not taken, and what the complaint names as expected can stand in its place. This holds
for every sink, whether or not it runs full. -/
theorem analyze_complains_at_first_wrong_token (ts : List Token) (sink : Sink) {f : Failure}
    {e : GrammarError} (h : (ofTokens ts sink).analyze.1 = .error f) (hf : f.cause = .grammar e) :
    ∃ p t r, ts = p ++ t :: r ∧ (ofTokens ts sink).analyze.2.tokens.tokens = t :: r ∧
      Viable (p.map Token.kind) ∧ ¬Viable ((p ++ [t]).map Token.kind) ∧
      e.found = t.lexeme ∧ e.position = t.position ∧
      ∀ x ∈ e.expected, ∃ kind : TokenKind, kind.text = x ∧
        Viable (p.map Token.kind ++ [kind]) := by
  obtain ⟨ha, he, ht⟩ := analyze_ofTokens ts sink
  have hgrammar : f.isGrammar = true := by simp [Failure.isGrammar, hf]
  have hread := outcome_eq_grammar he (ha.symm.trans h) hgrammar
  obtain ⟨q, p, r, hts, hq, hok⟩ | ⟨hts, hno, hend⟩ |
    ⟨p, r, t, e', hts, hp, hn, hfound, hpos, hexp, hrej⟩ :=
    Program.answered (Nat.le_succ ts.length)
  · rw [hok] at hread
    cases hread
  · rw [hend] at hread
    cases hread
    cases hf
  · obtain ⟨n, qs, hrej⟩ := hrej { cause := .unexpectedEnd }
    rw [hrej] at hread ht
    cases hread
    cases hf
    refine ⟨p, t, r, hts, ht (by simp), (viable_iff p).mpr hp, fun hv => hn ((viable_iff _).mp hv),
      hfound, hpos, fun x hx => ?_⟩
    obtain ⟨kind, hkind, hb⟩ := hexp x hx
    exact ⟨kind, hkind, by simpa using (viable_iff _).mpr hb⟩

theorem analyze_complains_at_semicolon :
    let semicolon : Token := ⟨.semicolon, utf8 ";", ⟨0, 14⟩⟩
    let ts := [Token.ofKind .programWord, Token.ofKind .ident, Token.ofKind .equal,
      Token.ofKind .openParen, Token.ofKind .ident, semicolon]
    let e : GrammarError :=
      ⟨utf8 "Expected Close Parenthesis", utf8 ";", [utf8 ")"], ⟨0, 14⟩⟩
    (ofTokens ts).analyze.1 = .error { cause := .grammar e } ∧
      Viable [.programWord, .ident, .equal, .openParen, .ident] ∧
      ¬Viable [.programWord, .ident, .equal, .openParen, .ident, .semicolon] := by
  intro semicolon ts e
  have h : (ofTokens ts).analyze.1 = .error { cause := .grammar e } := by decide +kernel
  have hleft : (ofTokens ts).analyze.2.tokens.tokens = [semicolon] := by decide +kernel
  obtain ⟨p, t, r, hts, hr, hp, hn, -⟩ := analyze_complains_at_first_wrong_token ts {} h rfl
  obtain ⟨rfl, rfl⟩ := List.cons.inj (hleft.symm.trans hr)
  have hp' : ts.take 5 ++ [semicolon] = p ++ [semicolon] := hts
  obtain rfl := List.append_cancel_right hp'
  exact ⟨h, hp, hn⟩

end Translator

end ThreeAddress
