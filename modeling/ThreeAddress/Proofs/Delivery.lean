import ThreeAddress.Proofs.Reading

namespace ThreeAddress

variable {σ ρ : Type}

/-- `R s ts f` tells that `s` will give the tokens `ts` one after the other and then fail with
`f`. Nothing is said about requests after that failure. -/
structure Delivery [TokenStream σ] (R : σ → List Token → Failure → Prop) : Prop where
  peek_nil {s : σ} {f : Failure} (h : R s [] f) : (TokenStream.peek s).answer = .error f
  peek_cons {s : σ} {t : Token} {ts : List Token} {f : Failure} (h : R s (t :: ts) f) :
    (TokenStream.peek s).answer = .ok t ∧ R (TokenStream.peek s).stream (t :: ts) f
  pop_nil {s : σ} {f : Failure} (h : R s [] f) : (TokenStream.pop s).answer = .error f
  pop_cons {s : σ} {t : Token} {ts : List Token} {f : Failure} (h : R s (t :: ts) f) :
    (TokenStream.pop s).answer = .ok t ∧ R (TokenStream.pop s).stream ts f

namespace Delivery

variable [TokenStream σ] {R : σ → List Token → Failure → Prop} {s : σ} {f : Failure}

theorem pull_nil (hR : Delivery R) (h : R s [] f) (r : Request) :
    (TokenStream.pull r s).answer = .error f := by
  cases r with
  | peek => exact hR.peek_nil h
  | pop => exact hR.pop_nil h

theorem pull_cons (hR : Delivery R) {t : Token} {ts : List Token} (h : R s (t :: ts) f)
    (r : Request) :
    (TokenStream.pull r s).answer = .ok t ∧
      R (TokenStream.pull r s).stream (r.rest (t :: ts)) f := by
  cases r with
  | peek => exact hR.peek_cons h
  | pop => exact hR.pop_cons h

/-- A stream that delivers a list of tokens is as good as the list. -/
theorem course (hR : Delivery R) (d : Dialogue ρ) {ts : List Token} (h : R s ts f) (n : Names) :
    let c := d.course s n
    let x := d.course (⟨ts, f⟩ : TokenRow) n
    c.answer = x.answer ∧ Act.quads c.acts = Act.quads x.acts ∧
      (x.answer ≠ .error f → R c.stream x.stream.tokens f) := by
  induction d using Dialogue.inductionOnRequests generalizing s ts n with
  | done result | reject error | outOfFuel => exact ⟨rfl, rfl, fun _ => h⟩
  | ask r next ih =>
    cases ts with
    | nil =>
      rw [Dialogue.course_ask_error (hR.pull_nil h r), TokenRow.course_ask_nil]
      exact ⟨rfl, rfl, fun hne => absurd rfl hne⟩
    | cons t ts =>
      obtain ⟨hanswer, hs⟩ := hR.pull_cons h r
      rw [Dialogue.course_ask_ok hanswer, TokenRow.course_ask_cons]
      exact ih t hs n
  | temporary next ih | label next ih => exact ih _ h _
  | releaseTemporaries next ih => exact ih h _
  | emit quad next ih =>
    obtain ⟨hanswer, hquads, hstream⟩ := ih h n
    exact ⟨hanswer, congrArg (List.cons quad) hquads, hstream⟩

end Delivery

namespace Translator

variable [TokenStream σ]

def reading (fuel : Nat) (ts : List Token) (f : Failure) : Except Failure Unit × Reading :=
  (Production.program fuel Dialogue.done).read ⟨ts, f, {}, []⟩

theorem course_eq_reading {R : σ → List Token → Failure → Prop} (hR : Delivery R)
    {t : Translator σ} {ts : List Token} {f : Failure} (h : R t.tokens ts f) (hn : t.names = {}) :
    let x := reading (TokenStream.supply t.tokens + 1) ts f
    t.course.answer = x.1 ∧ t.emitted = x.2.quads ∧
      (x.1 ≠ .error f → R t.course.stream x.2.tokens f) := by
  rw [emitted, course, hn]
  exact hR.course t.dialogue h {}

/-- The answer of a translator is that of the reading, unless the sink ran full. -/
theorem analyze_eq_reading {R : σ → List Token → Failure → Prop} (hR : Delivery R)
    {t : Translator σ} {ts : List Token} {f : Failure} (hs : R t.tokens ts f)
    (hn : t.names = {}) :
    let u := reading (TokenStream.supply t.tokens + 1) ts f
    t.analyze.1 = t.analyze.2.outcome u.1 ∧
      t.analyze.2.emitter = u.2.quads.foldl Emitter.emit t.emitter ∧
      (u.1 ≠ .error f → R t.analyze.2.tokens u.2.tokens f) := by
  intro u
  obtain ⟨hanswer, hquads, hstream⟩ := course_eq_reading hR hs hn
  rw [analyze_outcome, analyze_emitter, analyze_tokens, hanswer, hquads]
  exact ⟨rfl, rfl, hstream⟩

end Translator

namespace CountedTokens

def Delivers (s : CountedTokens) (ts : List Token) (f : Failure) : Prop :=
  s.tokens = ts ∧ s.peekFault = none ∧ s.popFault = none ∧ f = { cause := .unexpectedEnd }

theorem delivery : Delivery Delivers where
  peek_nil := by
    rintro s f ⟨ht, hp, -, rfl⟩
    simp [TokenStream.peek, peek, head, due, ht, hp]
  peek_cons := by
    rintro s t ts f ⟨ht, hp, hq, rfl⟩
    exact ⟨by simp [TokenStream.peek, peek, head, due, ht, hp], ht, hp, hq, rfl⟩
  pop_nil := by
    rintro s f ⟨ht, -, hq, rfl⟩
    simp [TokenStream.pop, pop, head, due, ht, hq]
  pop_cons := by
    rintro s t ts f ⟨ht, hp, hq, rfl⟩
    have ha : s.head (due s.popFault s.pops) = .ok t := by simp [head, due, ht, hq]
    exact ⟨ha, by simp [TokenStream.pop, pop, ha, ht], hp, hq, rfl⟩

end CountedTokens

def Translator.ofTokens (ts : List Token) (sink : Sink := {}) : Translator CountedTokens :=
  { tokens := { tokens := ts }, emitter := { sink } }

theorem Translator.analyze_ofTokens (ts : List Token) (sink : Sink) :
    let t := (ofTokens ts sink).analyze
    let u := reading (ts.length + 1) ts { cause := .unexpectedEnd }
    t.1 = t.2.outcome u.1 ∧ t.2.emitter = u.2.quads.foldl Emitter.emit { sink } ∧
      (u.1 ≠ .error { cause := .unexpectedEnd } → t.2.tokens.tokens = u.2.tokens) := by
  intro t u
  have hs : (ofTokens ts sink).tokens.Delivers ts { cause := .unexpectedEnd } :=
    ⟨rfl, rfl, rfl, rfl⟩
  obtain ⟨ha, he, ht⟩ := analyze_eq_reading CountedTokens.delivery hs rfl
  exact ⟨ha, he, fun h => (ht h).1⟩

end ThreeAddress
