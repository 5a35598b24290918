import ThreeAddress.Proofs.Course

namespace ThreeAddress

variable {σ ρ : Type}

def Diagnostic.isReport : Diagnostic → Bool
  | unknownInput _ _ => false
  | error _ | fatal _ => true

def reports (log : List Diagnostic) : List Diagnostic := log.filter Diagnostic.isReport

@[simp] theorem reports_append (log log' : List Diagnostic) :
    reports (log ++ log') = reports log ++ reports log' := List.filter_append ..

theorem reports_of_warnings {log : List Diagnostic} (h : ∀ d ∈ log, d.isReport = false) :
    reports log = [] := by
  simpa [reports] using h

/-- Requests to a stream with the property `I` fail for no violation of the grammar, and what comes
along with their answers is not said by the translator. -/
structure Calm [TokenStream σ] (I : σ → Prop) : Prop where
  stream {s : σ} (h : I s) (r : Request) : I (TokenStream.pull r s).stream
  failure {s : σ} (h : I s) (r : Request) {f : Failure}
    (hf : (TokenStream.pull r s).answer = .error f) : f.isGrammar = false
  warnings {s : σ} (h : I s) (r : Request) :
    ∀ d ∈ (TokenStream.pull r s).warnings, d.isReport = false

def Act.complaints (reporting : Bool) (acts : List Act) : List Diagnostic :=
  reports (acts.flatMap (Act.remarks reporting))

theorem Act.complaints_ask {r : Request} {x : Except Failure Token} {w : List Diagnostic}
    (h : ∀ d ∈ w, d.isReport = false) (reporting : Bool) (acts : List Act) :
    complaints reporting (.ask r x w :: acts) = complaints reporting acts := by
  simp [complaints, remarks, reports_of_warnings h]

namespace Calm

variable [TokenStream σ] {I : σ → Prop} {s : σ}

theorem course_stream (hI : Calm I) (hs : I s) (d : Dialogue ρ) (n : Names) :
    I (d.course s n).stream := by
  induction d using Dialogue.inductionOnRequests generalizing s n with
  | done result | reject error | outOfFuel => exact hs
  | ask r next ih =>
    cases hp : (TokenStream.pull r s).answer with
    | ok token =>
      rw [Dialogue.course_ask_ok hp]
      exact ih token (hI.stream hs r) n
    | error f =>
      rw [Dialogue.course_ask_error hp]
      exact hI.stream hs r
  | temporary next ih | label next ih => exact ih _ hs _
  | releaseTemporaries next ih | emit quad next ih => exact ih hs _

/-- A dialogue ends with one complaint or with none, and it is the complaint that tells. -/
theorem course_complaints (hI : Calm I) (hs : I s) (d : Dialogue ρ) (n : Names) :
    let c := d.course s n
    (∃ e, c.answer = .error { cause := .grammar e } ∧
        ∀ reporting, Act.complaints reporting c.acts = if reporting then [.error e] else []) ∨
      (∀ f, c.answer = .error f → f.isGrammar = false) ∧
        ∀ reporting, Act.complaints reporting c.acts = [] := by
  induction d using Dialogue.inductionOnRequests generalizing s n with
  | done result => exact .inr ⟨nofun, fun _ => rfl⟩
  | ask r next ih =>
    have hw := hI.warnings hs r
    cases hp : (TokenStream.pull r s).answer with
    | ok token =>
      rw [Dialogue.course_ask_ok hp]
      simp only [Course.push, Act.complaints_ask hw]
      exact ih token (hI.stream hs r) n
    | error f =>
      rw [Dialogue.course_ask_error hp]
      refine .inr ⟨?_, fun reporting => Act.complaints_ask hw reporting []⟩
      intro g hg
      cases hg
      exact hI.failure hs r hp
  | temporary next ih | label next ih => exact ih _ hs _
  | releaseTemporaries next ih => exact ih hs _
  | emit quad next ih => exact ih hs n
  | reject error =>
    refine .inl ⟨error, rfl, fun reporting => ?_⟩
    cases reporting <;> rfl
  | outOfFuel =>
    refine .inr ⟨?_, fun _ => rfl⟩
    intro f hf
    cases hf
    rfl

end Calm

namespace Translator

variable [TokenStream σ]

theorem reports_analyze (t : Translator σ) :
    reports t.analyze.2.log = lastWords t.reporting t.analyze.1 ++
      ((Act.complaints t.reporting t.course.acts).reverse ++ reports t.log) := by
  have hwords : reports (lastWords t.reporting t.analyze.1) =
      lastWords t.reporting t.analyze.1 := by
    cases t.analyze.1 with
    | ok => rfl
    | error f =>
      simp only [lastWords]
      split <;> rfl
  rw [analyze_log, reports_append, reports_append, hwords]
  simp [Act.complaints, reports, List.filter_reverse]

/-- The failures that an emitter keeps are those of its sink. -/
theorem isGrammar_after {s : σ} {sink : Sink} {reporting : Bool} {n : Nat} {f : Failure}
    (h : ((ofStream s sink reporting).after n).emitter.failure = some f) :
    f.isGrammar = false := by
  rw [after_emitter] at h
  have hfresh : ∀ g, (ofStream s sink reporting).emitter.failure = some g → g.isGrammar = false :=
    fun g hg => by cases hg
  exact Emitter.isGrammar_foldl_emit _ hfresh h

def reportLine (f : Failure) : Bytes :=
  utf8 (if f.isGrammar then "[ERROR] " else "[FATAL] ") ++ f.message ++ [Bytes.newline]

end Translator

namespace Calm

open Translator

variable [TokenStream σ] {I : σ → Prop}

theorem after_tokens (hI : Calm I) {t : Translator σ} (ht : I t.tokens) (n : Nat) :
    I (t.after n).tokens := by
  refine after_of_analyze (P := fun u => I u.tokens) (fun u hu => ?_) ht n
  rw [analyze_tokens]
  exact hI.course_stream hu _ _

theorem reports_analyze (hI : Calm I) {t : Translator σ} (ht : I t.tokens)
    (hr : t.reporting = true)
    (hf : ∀ f, t.analyze.2.emitter.failure = some f → f.isGrammar = false) :
    (reports t.analyze.2.log).map Diagnostic.line =
      (match t.analyze.1 with
        | .ok () => []
        | .error f => [reportLine f]) ++ (reports t.log).map Diagnostic.line := by
  rw [Translator.reports_analyze, hr]
  obtain ⟨e, hanswer, hcomplaints⟩ | ⟨hanswer, hcomplaints⟩ :=
    hI.course_complaints ht t.dialogue t.names
  · have herror : t.analyze.1 = .error { cause := .grammar e } := by
      rw [analyze_outcome]
      exact congrArg t.analyze.2.outcome hanswer
    have hcomplaint : Act.complaints true t.course.acts = [.error e] := hcomplaints true
    rw [herror, hcomplaint]
    simp [lastWords, reportLine, Failure.isGrammar, Failure.message, Cause.text, Diagnostic.line,
      Diagnostic.text]
  · have hnone : Act.complaints true t.course.acts = [] := hcomplaints true
    rw [hnone]
    cases hout : t.analyze.1 with
    | ok => rfl
    | error f =>
      have hgrammar : f.isGrammar = false := by
        rw [analyze_outcome] at hout
        obtain hcourse | hfailure := outcome_eq_error hout
        · exact hanswer f hcourse
        · exact hf f hfailure
      simp [lastWords, reportLine, hgrammar, Diagnostic.line, Diagnostic.text]

theorem reports_quiet (hI : Calm I) {t : Translator σ} (ht : I t.tokens)
    (hr : t.reporting = false) (n : Nat) : reports (t.after n).log = reports t.log := by
  induction n with
  | zero => rfl
  | succ n ih =>
    have hquiet : (t.after n).reporting = false := by rw [reporting_after, hr]
    have hnone : Act.complaints false (t.after n).course.acts = [] := by
      obtain ⟨e, -, hcomplaints⟩ | ⟨-, hcomplaints⟩ :=
        hI.course_complaints (hI.after_tokens ht n) (t.after n).dialogue (t.after n).names
      · exact hcomplaints false
      · exact hcomplaints false
    rw [after_succ, Translator.reports_analyze, hquiet, hnone, ih]
    cases (t.after n).analyze.1 <;> rfl

end Calm

namespace Translator

variable [TokenStream σ]

/-- Every failed analysis is reported once and with the right severity, and nothing is reported of
one that succeeds, however many came before and whatever the stream and the sink do. A translator
that does not report gives the same answers, takes the same tokens and writes the same lines. -/
theorem analyze_reports_once {I : σ → Prop} (hI : Calm I) {s : σ} (hs : I s)
    (limit : Option Nat) (n : Nat) :
    let t := (ofStream s { limit }).after n
    let quiet := (ofStream s { limit } false).after n
    (reports t.analyze.2.log).map Diagnostic.line =
        (match t.analyze.1 with
          | .ok () => []
          | .error f => [reportLine f]) ++ (reports t.log).map Diagnostic.line ∧
      quiet.analyze.1 = t.analyze.1 ∧ quiet.analyze.2.tokens = t.analyze.2.tokens ∧
      quiet.analyze.2.emitter = t.analyze.2.emitter ∧ reports quiet.analyze.2.log = [] := by
  intro t quiet
  have hstart : Agree (ofStream s { limit } false) (ofStream s { limit }) := ⟨rfl, rfl⟩
  have hagree : Agree quiet t := hstart.after n
  have hemitter : ∀ k, ((ofStream s { limit } false).after k).emitter =
      ((ofStream s { limit }).after k).emitter := by
    intro k
    rw [after_emitter, after_emitter, hstart.emittedIn]
    rfl
  have hnext : quiet.analyze.2.emitter = t.analyze.2.emitter := by
    have h := hemitter (n + 1)
    rwa [after_succ, after_succ] at h
  refine ⟨?_, ?_, hagree.analyze.tokens, hnext, ?_⟩
  · refine hI.reports_analyze (hI.after_tokens hs n) (reporting_after _ n) fun f hf => ?_
    rw [← after_succ] at hf
    exact isGrammar_after hf
  · rw [analyze_outcome, analyze_outcome, hagree.course]
    simp only [outcome, hnext]
  · have h := hI.reports_quiet (t := ofStream s { limit } false) hs rfl (n + 1)
    rwa [after_succ] at h

end Translator

namespace CountedTokens

theorem due_eq_some {fault : Option (Nat × Failure)} {count : Nat} {f : Failure}
    (h : due fault count = some f) : fault = some (count, f) := by
  unfold due at h
  split at h
  · split at h
    · next hk =>
      cases h
      rw [hk]
    · cases h
  · cases h

theorem fault_of_pull {s : CountedTokens} {r : Request} {f : Failure}
    (h : (TokenStream.pull r s).answer = .error f) :
    (∃ k, s.fault r = some (k, f)) ∨ f = { cause := .unexpectedEnd } := by
  rw [pull_answer] at h
  unfold head at h
  split at h
  · next hdue =>
    cases h
    exact .inl ⟨_, due_eq_some hdue⟩
  · cases h
    exact .inr rfl
  · cases h

theorem calm :
    Calm fun s : CountedTokens => ∀ r k f, s.fault r = some (k, f) → f.isGrammar = false where
  stream h r r' k f hf := h r' k f (by rwa [pull_fault] at hf)
  failure {s} h r f hf := by
    obtain ⟨k, hk⟩ | rfl := fault_of_pull hf
    · exact h r k f hk
    · rfl
  warnings {s} _ r := by simp [pull_warnings]

end CountedTokens

/-- A listing of which no line could be written, and then a program with a wrong token: the refusal
is reported of the first analysis only. -/
theorem Translator.analyze_reports_once_of_full_sink :
    let name (x : String) (column : Int) : Token := ⟨.ident, utf8 x, ⟨0, column⟩⟩
    let word (kind : TokenKind) : Token := ⟨kind, [], {}⟩
    let s : CountedTokens :=
      { tokens := [word .programWord, name "x" 8, word .equal, name "y" 12, word .endWord,
          word .period, word .programWord, name "x" 31, name "y" 33]
        popFault := some (9, .ofText (utf8 "pop failed")) }
    let t := (ofStream s { limit := some 0 }).after 1
    (∀ r k f, s.fault r = some (k, f) → f.isGrammar = false) ∧
      (reports t.analyze.2.log).map Diagnostic.line =
        [utf8 "[ERROR] Expected '=' at line 1, char 34\n",
          utf8 "[FATAL] cannot write quadruples: no space left on device\n"] := by
  intro name word s t
  have hs : ∀ r k f, s.fault r = some (k, f) → f.isGrammar = false := by
    intro r k f hf
    cases r <;> cases hf
    rfl
  obtain ⟨hlines, -⟩ := analyze_reports_once CountedTokens.calm hs (some 0) 1
  exact ⟨hs, hlines.trans (by decide +kernel)⟩

end ThreeAddress
