import Mathlib.Logic.Function.Iterate
import ThreeAddress.Translator.Basic

namespace ThreeAddress

variable {σ ρ : Type}

inductive Request where
  | peek
  | pop
  deriving DecidableEq

def Request.rest {α : Type} : Request → List α → List α
  | .peek, xs => xs
  | .pop, xs => xs.tail

theorem Request.rest_append {α : Type} (r : Request) (x : α) (xs ys : List α) :
    r.rest (x :: xs ++ ys) = r.rest (x :: xs) ++ ys := by
  cases r <;> rfl

theorem Request.rest_map {α β : Type} (r : Request) (f : α → β) (xs : List α) :
    r.rest (xs.map f) = (r.rest xs).map f := by
  cases r with
  | peek => rfl
  | pop => exact List.map_tail.symm

def TokenStream.pull [TokenStream σ] : Request → σ → Pull σ
  | .peek => TokenStream.peek
  | .pop => TokenStream.pop

/-- One thing that is done in the course of a dialogue. The warnings of a request are those that
come along with its answer. -/
inductive Act where
  | ask (request : Request) (answer : Except Failure Token) (warnings : List Diagnostic)
  | temporary (name : Bytes)
  | label (name : Bytes)
  | releaseTemporaries
  | emit (quad : Quad)
  | complain (error : GrammarError)

namespace Act

def quad? : Act → Option Quad
  | emit quad => some quad
  | _ => none

def taken? : Act → Option Token
  | ask .pop (.ok token) _ => some token
  | _ => none

def isRequest (r : Request) : Act → Bool
  | ask request _ _ => request = r
  | _ => false

def remarks (reporting : Bool) : Act → List Diagnostic
  | ask _ _ warnings => warnings
  | complain error => if reporting then [.error error] else []
  | temporary _ | label _ | releaseTemporaries | emit _ => []

def quads (acts : List Act) : List Quad := acts.filterMap quad?

def taken (acts : List Act) : List Token := acts.filterMap taken?

def requests (r : Request) (acts : List Act) : Nat := acts.countP (isRequest r)

variable {acts acts' : List Act}

@[simp] theorem quads_nil : quads [] = [] := rfl

@[simp] theorem quads_ask (r : Request) (x : Except Failure Token) (w : List Diagnostic) :
    quads (ask r x w :: acts) = quads acts := rfl

@[simp] theorem quads_append : quads (acts ++ acts') = quads acts ++ quads acts' :=
  List.filterMap_append

end Act

/-- All the acts of a dialogue, its answer, and how it leaves the stream and the names. -/
structure Course (σ ρ : Type) where
  acts : List Act
  answer : Except Failure ρ
  stream : σ
  names : Names

namespace Course

def push (a : Act) (c : Course σ ρ) : Course σ ρ := { c with acts := a :: c.acts }

def request (r : Request) (p : Pull σ) (names : Names) (next : Token → Course σ ρ) :
    Course σ ρ :=
  match p.answer with
  | .ok token => (next token).push (.ask r (.ok token) p.warnings)
  | .error f => ⟨[.ask r (.error f) p.warnings], .error f, p.stream, names⟩

end Course

namespace Dialogue

def ask : Request → (Token → Dialogue ρ) → Dialogue ρ
  | .peek => .peek
  | .pop => .pop

/-- Induction with one case for both sorts of requests. -/
@[elab_as_elim]
theorem inductionOnRequests {motive : Dialogue ρ → Prop} (d : Dialogue ρ)
    (done : ∀ result, motive (.done result))
    (ask : ∀ r next, (∀ token, motive (next token)) → motive (ask r next))
    (temporary : ∀ next, (∀ name, motive (next name)) → motive (.temporary next))
    (label : ∀ next, (∀ name, motive (next name)) → motive (.label next))
    (releaseTemporaries : ∀ next, motive next → motive (.releaseTemporaries next))
    (emit : ∀ quad next, motive next → motive (.emit quad next))
    (reject : ∀ error, motive (.reject error)) (outOfFuel : motive .outOfFuel) : motive d := by
  induction d with
  | done result => exact done result
  | peek next ih => exact ask .peek next ih
  | pop next ih => exact ask .pop next ih
  | temporary next ih => exact temporary next ih
  | label next ih => exact label next ih
  | releaseTemporaries next ih => exact releaseTemporaries next ih
  | emit quad next ih => exact emit quad next ih
  | reject error => exact reject error
  | outOfFuel => exact outOfFuel

variable [TokenStream σ]

def course : Dialogue ρ → σ → Names → Course σ ρ
  | .done result, s, n => ⟨[], .ok result, s, n⟩
  | .peek next, s, n =>
    let p := TokenStream.peek s
    .request .peek p n fun token => (next token).course p.stream n
  | .pop next, s, n =>
    let p := TokenStream.pop s
    .request .pop p n fun token => (next token).course p.stream n
  | .temporary next, s, n =>
    ((next n.temporary.1).course s n.temporary.2).push (.temporary n.temporary.1)
  | .label next, s, n => ((next n.label.1).course s n.label.2).push (.label n.label.1)
  | .releaseTemporaries next, s, n =>
    (next.course s n.releaseTemporaries).push .releaseTemporaries
  | .emit quad next, s, n => (next.course s n).push (.emit quad)
  | .reject error, s, n => ⟨[.complain error], .error { cause := .grammar error }, s, n⟩
  | .outOfFuel, s, n => ⟨[], .error { cause := .outOfFuel }, s, n⟩

theorem course_ask_ok {r : Request} {s : σ} {token : Token}
    (h : (TokenStream.pull r s).answer = .ok token) (next : Token → Dialogue ρ) (n : Names) :
    (ask r next).course s n = ((next token).course (TokenStream.pull r s).stream n).push
      (.ask r (.ok token) (TokenStream.pull r s).warnings) := by
  cases r <;> simp only [TokenStream.pull] at h <;> simp only [ask, course, Course.request, h] <;>
    rfl

theorem course_ask_error {r : Request} {s : σ} {f : Failure}
    (h : (TokenStream.pull r s).answer = .error f) (next : Token → Dialogue ρ) (n : Names) :
    (ask r next).course s n = ⟨[.ask r (.error f) (TokenStream.pull r s).warnings], .error f,
      (TokenStream.pull r s).stream, n⟩ := by
  cases r <;> simp only [TokenStream.pull] at h <;> simp only [ask, course, Course.request, h] <;>
    rfl

end Dialogue

namespace Emitter

theorem foldl_emit (qs : List Quad) {e : Emitter} (hf : e.failure = none)
    (hl : e.sink.limit = none) :
    (qs.foldl emit e).failure = none ∧ (qs.foldl emit e).sink.limit = none ∧
      (qs.foldl emit e).sink.written = (qs.map Quad.line).reverse ++ e.sink.written := by
  induction qs generalizing e with
  | nil => exact ⟨hf, hl, rfl⟩
  | cons q qs ih =>
    have hfull : e.sink.full = false := by simp [Sink.full, hl]
    have he : e.emit q =
        { sink := { e.sink with
            written := q.line :: e.sink.written, attempts := e.sink.attempts + 1 } } := by
      simp [emit, hf, Sink.write, hfull]
    obtain ⟨hf', hl', hw⟩ := ih (e := e.emit q) (by rw [he]) (by rw [he]; exact hl)
    refine ⟨hf', hl', hw.trans ?_⟩
    rw [he]
    simp

theorem written_foldl_emit (qs : List Quad) :
    (qs.foldl emit {}).sink.written.reverse = qs.map Quad.line := by
  rw [(foldl_emit qs rfl rfl).2.2]
  simp

/-- The only failure of an emitter is the refusal of its sink. -/
theorem failure_foldl_emit {P : Failure → Prop} (hP : P (.explain .outputWrite Sink.refusal))
    (qs : List Quad) {e : Emitter} {f : Failure} (he : ∀ g, e.failure = some g → P g)
    (h : (qs.foldl emit e).failure = some f) : P f := by
  induction qs generalizing e with
  | nil => exact he f h
  | cons q qs ih =>
    refine ih (e := e.emit q) (fun g hg => ?_) h
    cases hfail : e.failure with
    | some f' =>
      simp only [emit, hfail] at hg
      exact he g (hfail ▸ hg)
    | none =>
      simp only [emit, hfail] at hg
      split at hg <;> cases hg
      exact hP

theorem isGrammar_foldl_emit (qs : List Quad) {e : Emitter} {f : Failure}
    (he : ∀ g, e.failure = some g → g.isGrammar = false)
    (h : (qs.foldl emit e).failure = some f) : f.isGrammar = false :=
  failure_foldl_emit (P := fun g => g.isGrammar = false) rfl qs he h

end Emitter

namespace Translator

theorem outcome_of_none {t : Translator σ} (h : t.emitter.failure = none)
    (x : Except Failure Unit) : t.outcome x = x := by
  cases x with
  | error f => rfl
  | ok => simp only [outcome, h]

theorem outcome_eq_error {t : Translator σ} {x : Except Failure Unit} {f : Failure}
    (h : t.outcome x = .error f) : x = .error f ∨ t.emitter.failure = some f := by
  cases x with
  | error g => exact .inl h
  | ok =>
    cases hg : t.emitter.failure with
    | none =>
      rw [outcome_of_none hg] at h
      cases h
    | some g =>
      simp only [outcome, hg] at h
      cases h
      exact .inr rfl

/-- A sink that never runs full does not change the answer. -/
theorem outcome_eq {t : Translator σ} {sink : Sink} {qs : List Quad} (hl : sink.limit = none)
    (ht : t.emitter = qs.foldl Emitter.emit { sink }) (x : Except Failure Unit) :
    t.outcome x = x := by
  refine outcome_of_none ?_ x
  rw [ht]
  exact (Emitter.foldl_emit qs rfl hl).1

def follow (t : Translator σ) (c : Course σ ρ) : Translator σ :=
  { tokens := c.stream
    names := c.names
    emitter := (Act.quads c.acts).foldl Emitter.emit t.emitter
    log := (c.acts.flatMap (Act.remarks t.reporting)).reverse ++ t.log
    reporting := t.reporting }

theorem follow_push_ask (t : Translator σ) (r : Request) (x : Except Failure Token) (p : Pull σ)
    (c : Course σ ρ) :
    t.follow (c.push (.ask r x p.warnings)) = (t.afterPull p).follow c := by
  simp [follow, Course.push, afterPull, Act.remarks]

variable [TokenStream σ]

theorem run_ask_ok {r : Request} {t : Translator σ} {token : Token}
    (h : (TokenStream.pull r t.tokens).answer = .ok token) (next : Token → Dialogue ρ) :
    t.run (.ask r next) = (t.afterPull (TokenStream.pull r t.tokens)).run (next token) := by
  cases r <;> simp only [TokenStream.pull] at h <;> simp only [Dialogue.ask, run, h] <;> rfl

theorem run_ask_error {r : Request} {t : Translator σ} {f : Failure}
    (h : (TokenStream.pull r t.tokens).answer = .error f) (next : Token → Dialogue ρ) :
    t.run (.ask r next) = (.error f, t.afterPull (TokenStream.pull r t.tokens)) := by
  cases r <;> simp only [TokenStream.pull] at h <;> simp only [Dialogue.ask, run, h] <;> rfl

theorem run_eq_course (d : Dialogue ρ) (t : Translator σ) :
    t.run d = ((d.course t.tokens t.names).answer, t.follow (d.course t.tokens t.names)) := by
  induction d using Dialogue.inductionOnRequests generalizing t with
  | done result | outOfFuel => rfl
  | ask r next ih =>
    cases h : (TokenStream.pull r t.tokens).answer with
    | ok token =>
      rw [run_ask_ok h, Dialogue.course_ask_ok h, follow_push_ask]
      exact ih token (t.afterPull _)
    | error f =>
      rw [run_ask_error h, Dialogue.course_ask_error h]
      simp [follow, afterPull, Act.remarks]
  | temporary next ih | label next ih => exact ih _ { t with names := _ }
  | releaseTemporaries next ih => exact ih { t with names := _ }
  | emit quad next ih => exact ih { t with emitter := t.emitter.emit quad }
  | reject error =>
    obtain ⟨tokens, names, emitter, log, reporting⟩ := t
    cases reporting <;> rfl

def emissions (d : Dialogue ρ) (t : Translator σ) : List Quad :=
  Act.quads (d.course t.tokens t.names).acts

theorem emitter_run (d : Dialogue ρ) (t : Translator σ) :
    (t.run d).2.emitter = (t.emissions d).foldl Emitter.emit t.emitter := by
  rw [run_eq_course]
  rfl

abbrev dialogue (t : Translator σ) : Dialogue Unit :=
  Production.program (TokenStream.supply t.tokens + 1) Dialogue.done

def course (t : Translator σ) : Course σ Unit := t.dialogue.course t.tokens t.names

def emitted (t : Translator σ) : List Quad := Act.quads t.course.acts

def lastWords (reporting : Bool) : Except Failure Unit → List Diagnostic
  | .ok () => []
  | .error f => if reporting && !f.isGrammar then [.fatal f] else []

def finish (t : Translator σ) (c : Course σ Unit) : Except Failure Unit × Translator σ :=
  let u : Translator σ := { t.follow c with names := {} }
  (u.outcome c.answer, { u with log := lastWords t.reporting (u.outcome c.answer) ++ u.log })

theorem analyze_eq_finish (t : Translator σ) : t.analyze = t.finish t.course := by
  have hrun : t.run t.dialogue = (t.course.answer, t.follow t.course) := run_eq_course _ t
  simp only [analyze, hrun, finish, Names.releaseTemporaries, Names.releaseLabels]
  cases outcome { t.follow t.course with names := {} } t.course.answer with
  | ok => rfl
  | error f =>
    simp only [lastWords, report]
    have hreporting : (t.follow t.course).reporting = t.reporting := rfl
    rw [hreporting]
    cases f.isGrammar <;> cases t.reporting <;> rfl

theorem analyze_tokens (t : Translator σ) : t.analyze.2.tokens = t.course.stream := by
  rw [analyze_eq_finish]
  rfl

theorem analyze_names (t : Translator σ) : t.analyze.2.names = {} := by
  rw [analyze_eq_finish]
  rfl

theorem analyze_emitter (t : Translator σ) :
    t.analyze.2.emitter = t.emitted.foldl Emitter.emit t.emitter := by
  rw [analyze_eq_finish]
  rfl

theorem analyze_reporting (t : Translator σ) : t.analyze.2.reporting = t.reporting := by
  rw [analyze_eq_finish]
  rfl

theorem analyze_outcome (t : Translator σ) : t.analyze.1 = t.analyze.2.outcome t.course.answer := by
  rw [analyze_eq_finish]
  rfl

theorem answer_of_analyze_ok {t : Translator σ} (h : t.analyze.1 = .ok ()) :
    t.course.answer = .ok () := by
  rw [analyze_outcome] at h
  cases hanswer : t.course.answer with
  | ok => rfl
  | error f =>
    rw [hanswer] at h
    cases h

theorem analyze_log (t : Translator σ) :
    t.analyze.2.log = lastWords t.reporting t.analyze.1 ++
      ((t.course.acts.flatMap (Act.remarks t.reporting)).reverse ++ t.log) := by
  rw [analyze_eq_finish]
  rfl

def ofStream (s : σ) (sink : Sink := {}) (reporting : Bool := true) : Translator σ :=
  { tokens := s, emitter := { sink }, reporting }

def after (t : Translator σ) (n : Nat) : Translator σ := (fun t => t.analyze.2)^[n] t

theorem after_succ (t : Translator σ) (n : Nat) : t.after (n + 1) = (t.after n).analyze.2 :=
  Function.iterate_succ_apply' _ n t

theorem after_of_analyze {P : Translator σ → Prop} (hP : ∀ u, P u → P u.analyze.2)
    {t : Translator σ} (ht : P t) (n : Nat) : P (t.after n) :=
  Function.Iterate.rec P ht hP n

theorem reporting_after (t : Translator σ) (n : Nat) : (t.after n).reporting = t.reporting :=
  after_of_analyze (P := fun u => u.reporting = t.reporting)
    (fun u hu => (analyze_reporting u).trans hu) rfl n

def emittedIn (t : Translator σ) (n : Nat) : List Quad :=
  (List.range n).flatMap fun k => (t.after k).emitted

theorem after_emitter (t : Translator σ) (n : Nat) :
    (t.after n).emitter = (t.emittedIn n).foldl Emitter.emit t.emitter := by
  induction n with
  | zero => rfl
  | succ n ih =>
    rw [after_succ, analyze_emitter, ih, ← List.foldl_append]
    simp [emittedIn, List.range_succ]

/-- Two translators that ask the same stream for tokens and draw the same names. They may write to
different sinks, and one may report and the other not. -/
structure Agree (t u : Translator σ) : Prop where
  tokens : t.tokens = u.tokens
  names : t.names = u.names

namespace Agree

variable {t u : Translator σ}

theorem course (h : Agree t u) : t.course = u.course := by
  simp only [Translator.course, dialogue, h.tokens, h.names]

theorem emitted (h : Agree t u) : t.emitted = u.emitted := by
  rw [Translator.emitted, Translator.emitted, h.course]

theorem analyze (h : Agree t u) : Agree t.analyze.2 u.analyze.2 := by
  constructor
  · rw [analyze_tokens, analyze_tokens, h.course]
  · rw [analyze_names, analyze_names]

theorem after (h : Agree t u) (n : Nat) : Agree (t.after n) (u.after n) := by
  induction n with
  | zero => exact h
  | succ n ih =>
    rw [after_succ, after_succ]
    exact ih.analyze

theorem emittedIn (h : Agree t u) (n : Nat) :
    t.emittedIn n = u.emittedIn n := by
  have hemitted : ∀ k, (t.after k).emitted = (u.after k).emitted := fun k => (h.after k).emitted
  simp only [Translator.emittedIn, hemitted]

end Agree

/-- Where a translator stands between two analyses if its sink never runs full. -/
structure Ready (t : Translator σ) : Prop where
  labels : t.names.labels = 0
  failure : t.emitter.failure = none
  limit : t.emitter.sink.limit = none

namespace Ready

variable {t : Translator σ}

theorem analyze (h : t.Ready) : t.analyze.2.Ready := by
  obtain ⟨hfailure, hlimit, -⟩ :=
    Emitter.foldl_emit t.emitted h.failure h.limit
  rw [← analyze_emitter] at hfailure hlimit
  exact ⟨by rw [analyze_names], hfailure, hlimit⟩

theorem after (h : t.Ready) (n : Nat) : (t.after n).Ready :=
  after_of_analyze (fun _ => Ready.analyze) h n

theorem analyze_answer (h : t.Ready) : t.analyze.1 = t.course.answer := by
  rw [analyze_outcome, outcome_of_none h.analyze.failure]

theorem analyze_written (h : t.Ready) :
    t.analyze.2.emitter.sink.written =
      (t.emitted.map Quad.line).reverse ++ t.emitter.sink.written := by
  rw [analyze_emitter]
  exact (Emitter.foldl_emit _ h.failure h.limit).2.2

end Ready

end Translator

namespace CountedTokens

def count (s : CountedTokens) : Request → Nat
  | .peek => s.peeks
  | .pop => s.pops

def fault (s : CountedTokens) : Request → Option (Nat × Failure)
  | .peek => s.peekFault
  | .pop => s.popFault

variable (s : CountedTokens) (r : Request)

theorem pull_answer :
    (TokenStream.pull r s).answer = s.head (due (s.fault r) (s.count r)) := by
  cases r <;> rfl

theorem pull_warnings : (TokenStream.pull r s).warnings = [] := by
  cases r <;> rfl

theorem pull_fault (r' : Request) : (TokenStream.pull r s).stream.fault r' = s.fault r' := by
  cases r <;> cases r' <;> rfl

variable {s r}

theorem course_ask_ok {token : Token} (h : (TokenStream.pull r s).answer = .ok token)
    (next : Token → Dialogue ρ) (n : Names) :
    (Dialogue.ask r next).course s n =
      ((next token).course (TokenStream.pull r s).stream n).push (.ask r (.ok token) []) := by
  rw [Dialogue.course_ask_ok h, pull_warnings]

theorem course_ask_error {f : Failure} (h : (TokenStream.pull r s).answer = .error f)
    (next : Token → Dialogue ρ) (n : Names) :
    (Dialogue.ask r next).course s n =
      ⟨[.ask r (.error f) []], .error f, (TokenStream.pull r s).stream, n⟩ := by
  rw [Dialogue.course_ask_error h, pull_warnings]

end CountedTokens

end ThreeAddress
