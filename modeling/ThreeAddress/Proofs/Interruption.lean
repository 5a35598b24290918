import ThreeAddress.Proofs.AnyStream
import ThreeAddress.Proofs.Fuel

namespace ThreeAddress

variable {ρ : Type}

namespace Act

variable {acts acts' : List Act}

@[simp] theorem taken_append : taken (acts ++ acts') = taken acts ++ taken acts' :=
  List.filterMap_append

@[simp] theorem requests_append (r : Request) :
    requests r (acts ++ acts') = requests r acts + requests r acts' :=
  List.countP_append

@[simp] theorem requests_ask (r r' : Request) (x : Except Failure Token) (w : List Diagnostic) :
    requests r' [ask r x w] = if r = r' then 1 else 0 := by
  simp [requests, List.countP_cons, isRequest]

end Act

namespace CountedTokens

/-- The list in which request number `k` of the sort `r` fails with `f`. -/
def failAt (s : CountedTokens) (r : Request) (k : Nat) (f : Failure) : CountedTokens :=
  match r with
  | .peek => { s with peekFault := some (k, f) }
  | .pop => { s with popFault := some (k, f) }

def extend (s : CountedTokens) (q : List Token) : CountedTokens :=
  { s with tokens := s.tokens ++ q }

theorem pull_tokens (s : CountedTokens) (r : Request) :
    s.tokens = Act.taken [.ask r (TokenStream.pull r s).answer []] ++
      (TokenStream.pull r s).stream.tokens := by
  cases r with
  | peek => rfl
  | pop =>
    simp only [TokenStream.pull, TokenStream.pop, pop]
    cases h : s.head (due s.popFault s.pops) with
    | error f => rfl
    | ok token =>
      obtain ⟨r, hr⟩ := tokens_of_head_ok h
      simp [Act.taken, Act.taken?, hr]

theorem pull_count (s : CountedTokens) (r r' : Request) :
    (TokenStream.pull r s).stream.count r' = s.count r' + if r = r' then 1 else 0 := by
  cases r <;> cases r' <;> rfl

theorem course_tally (d : Dialogue ρ) (s : CountedTokens) (n : Names) :
    let c := d.course s n
    s.tokens = Act.taken c.acts ++ c.stream.tokens ∧
      ∀ r, c.stream.count r = s.count r + Act.requests r c.acts := by
  induction d using Dialogue.inductionOnRequests generalizing s n with
  | done result | reject error | outOfFuel => exact ⟨rfl, fun r => rfl⟩
  | ask r next ih =>
    have htokens := s.pull_tokens r
    have hcount := s.pull_count r
    cases hp : (TokenStream.pull r s).answer with
    | error f =>
      rw [hp] at htokens
      rw [course_ask_error hp]
      exact ⟨htokens, fun r' => by rw [hcount, Act.requests_ask]⟩
    | ok token =>
      rw [hp] at htokens
      rw [course_ask_ok hp, Course.push, ← List.singleton_append]
      obtain ⟨ht, hc⟩ := ih token (TokenStream.pull r s).stream n
      refine ⟨?_, fun r' => ?_⟩
      · rw [Act.taken_append, List.append_assoc, ← ht]
        exact htokens
      · rw [Act.requests_append, Act.requests_ask, hc, hcount, Nat.add_assoc]
  | temporary next ih | label next ih => exact ih _ s _
  | releaseTemporaries next ih | emit quad next ih => exact ih s _

end CountedTokens

/-- Lists in the relation `R` answer alike, until the second one stops with a failure. Of the
request, the second list behind it and the failure, `stop` holds then. -/
structure Interrupts (R : CountedTokens → CountedTokens → Prop)
    (stop : Request → CountedTokens → Failure → Prop) : Prop where
  pull {s u : CountedTokens} (h : R s u) (r : Request) :
    (TokenStream.pull r u).answer = (TokenStream.pull r s).answer ∧
        R (TokenStream.pull r s).stream (TokenStream.pull r u).stream ∨
      ∃ f, (TokenStream.pull r u).answer = .error f ∧ stop r (TokenStream.pull r u).stream f

/-- How a course `c'` can differ from a course `c`: it is the same, or it ends with the failure of a
request at which `c` may have gone on. Nothing has been said before that request. -/
inductive Course.Cut (R : CountedTokens → CountedTokens → Prop)
    (stop : Request → CountedTokens → Failure → Prop) (c c' : Course CountedTokens ρ) : Prop
  | same (hacts : c'.acts = c.acts) (hanswer : c'.answer = c.answer) (hR : R c.stream c'.stream)
  | stopped (before : List Act) {after : List Act} {r : Request} {a : Except Failure Token}
      {f : Failure} (hsilent : before.flatMap (Act.remarks true) = [])
      (hwhole : c.acts = before ++ .ask r a [] :: after)
      (hacts : c'.acts = before ++ [.ask r (.error f) []]) (hanswer : c'.answer = .error f)
      (hstop : stop r c'.stream f)

namespace Interrupts

variable {R : CountedTokens → CountedTokens → Prop}
  {stop : Request → CountedTokens → Failure → Prop}

theorem cut_push {c c' : Course CountedTokens ρ} (h : c.Cut R stop c') {a : Act}
    (ha : a.remarks true = []) : (c.push a).Cut R stop (c'.push a) := by
  cases h with
  | same hacts hanswer hR => exact .same (congrArg (List.cons a) hacts) hanswer hR
  | @stopped before after r x f hsilent hwhole hacts hanswer hstop =>
    refine .stopped (a :: before) ?_ (congrArg (List.cons a) hwhole)
      (congrArg (List.cons a) hacts) hanswer hstop
    rw [List.flatMap_cons, ha, hsilent, List.append_nil]

theorem course (hI : Interrupts R stop) (d : Dialogue ρ) {s u : CountedTokens} (h : R s u)
    (n : Names) : (d.course s n).Cut R stop (d.course u n) := by
  induction d using Dialogue.inductionOnRequests generalizing s u n with
  | done result | reject error | outOfFuel => exact .same rfl rfl h
  | ask r next ih =>
    obtain ⟨hsame, hR⟩ | ⟨f, hf, hstop⟩ := hI.pull h r
    · cases hp : (TokenStream.pull r s).answer with
      | ok token =>
        rw [hp] at hsame
        rw [CountedTokens.course_ask_ok hp, CountedTokens.course_ask_ok hsame]
        exact cut_push (ih token hR n) rfl
      | error f =>
        rw [hp] at hsame
        rw [CountedTokens.course_ask_error hp, CountedTokens.course_ask_error hsame]
        exact .same rfl rfl hR
    · rw [CountedTokens.course_ask_error hf]
      cases hp : (TokenStream.pull r s).answer with
      | ok token =>
        rw [CountedTokens.course_ask_ok hp]
        exact .stopped [] rfl rfl rfl rfl hstop
      | error g =>
        rw [CountedTokens.course_ask_error hp]
        exact .stopped [] rfl rfl rfl rfl hstop
  | temporary next ih | label next ih => exact cut_push (ih _ h _) rfl
  | releaseTemporaries next ih | emit quad next ih => exact cut_push (ih h _) rfl

end Interrupts

namespace CountedTokens

variable {r : Request} {k : Nat} {f : Failure}

theorem failAt_count (s : CountedTokens) (r' : Request) :
    (s.failAt r k f).count r' = s.count r' := by
  cases r <;> rfl

theorem failAt_fault (s : CountedTokens) (r' : Request) :
    (s.failAt r k f).fault r' = if r = r' then some (k, f) else s.fault r' := by
  cases r <;> cases r' <;> rfl

theorem failAt_head (s : CountedTokens) (x : Option Failure) :
    (s.failAt r k f).head x = s.head x := by
  cases r <;> rfl

theorem failAt_pull {s : CountedTokens} {r' : Request}
    (h : (TokenStream.pull r' (s.failAt r k f)).answer = (TokenStream.pull r' s).answer) :
    (TokenStream.pull r' (s.failAt r k f)).stream =
      (TokenStream.pull r' s).stream.failAt r k f := by
  cases r <;> cases r'
  · rfl
  · rfl
  · rfl
  · simp only [TokenStream.pull, TokenStream.pop, pop, failAt] at h ⊢
    rw [h]

theorem interrupts_failAt (r : Request) (k : Nat) (f : Failure) :
    Interrupts (fun s u => u = s.failAt r k f ∧ (∀ r', s.fault r' = none) ∧ s.count r ≤ k)
      fun r' u f' => r' = r ∧ f' = f ∧ u.count r = k + 1 where
  pull := by
    rintro s _ ⟨rfl, hclear, hcount⟩ r'
    have hanswer := (s.failAt r k f).pull_answer r'
    rw [failAt_head, failAt_fault, failAt_count] at hanswer
    by_cases hdue : r = r' ∧ s.count r = k
    · obtain ⟨rfl, rfl⟩ := hdue
      refine .inr ⟨f, ?_, rfl, rfl, ?_⟩
      · rw [hanswer]
        simp [due, head]
      · rw [pull_count, failAt_count]
        simp
    · have hnone : due (if r = r' then some (k, f) else s.fault r') (s.count r') =
          due (s.fault r') (s.count r') := by
        split
        · next hr =>
          have hk : k ≠ s.count r' := fun hk => hdue ⟨hr, hr ▸ hk.symm⟩
          simp [due, hk, hclear]
        · rfl
      rw [hnone, ← pull_answer] at hanswer
      refine .inl ⟨hanswer, failAt_pull hanswer, fun r'' => ?_, ?_⟩
      · rw [pull_fault, hclear]
      · rw [pull_count]
        split
        · next hr =>
          have hk : s.count r ≠ k := fun hk => hdue ⟨hr.symm, hk⟩
          omega
        · exact hcount

theorem extend_fault (s : CountedTokens) (q : List Token) : (s.extend q).fault = s.fault := by
  funext r
  cases r <;> rfl

theorem answer_of_clear {s : CountedTokens} (h : ∀ r, s.fault r = none) (r : Request) :
    (TokenStream.pull r s).answer = s.head none := by
  rw [pull_answer, h]
  rfl

theorem extend_pull {s : CountedTokens} {q : List Token} {r : Request} {t : Token}
    (h : (TokenStream.pull r s).answer = .ok t)
    (h' : (TokenStream.pull r (s.extend q)).answer = .ok t) :
    (TokenStream.pull r (s.extend q)).stream = (TokenStream.pull r s).stream.extend q := by
  cases r with
  | peek => rfl
  | pop =>
    obtain ⟨ts, hts⟩ := tokens_of_head_ok h
    simp only [TokenStream.pull, TokenStream.pop, pop] at h h' ⊢
    rw [h, h']
    simp only [extend, hts, List.cons_append, List.tail_cons]

theorem interrupts_extend (q : List Token) :
    Interrupts (fun s u => s = u.extend q ∧ ∀ r, u.fault r = none)
      fun _ u f => u.tokens = [] ∧ f = { cause := .unexpectedEnd } where
  pull := by
    rintro _ u ⟨rfl, hclear⟩ r
    have hu := answer_of_clear hclear r
    have hs : (TokenStream.pull r (u.extend q)).answer = (u.extend q).head none :=
      answer_of_clear (fun r' => by rw [extend_fault, hclear]) r
    cases htokens : u.tokens with
    | nil =>
      have hleft := u.pull_tokens r
      rw [htokens] at hleft
      refine .inr ⟨{ cause := .unexpectedEnd }, ?_, (List.append_eq_nil_iff.mp hleft.symm).2, rfl⟩
      simp [hu, head, htokens]
    | cons t ts =>
      have hut : u.head none = .ok t := by simp [head, htokens]
      have hst : (u.extend q).head none = .ok t := by simp [head, extend, htokens]
      rw [hut] at hu
      rw [hst] at hs
      exact .inl ⟨by rw [hu, hs], extend_pull hu hs, fun r' => by rw [pull_fault, hclear]⟩

end CountedTokens

namespace Translator

/-- The analysis of `u` goes as that of `t` until a request of the sort `r`, which fails with `f`,
and stops there: `before` are the acts before that request, and what has been taken, asked for and
written is what they take, ask for and emit. -/
structure StopsAt (t u : Translator CountedTokens) (before : List Act) (r : Request) (f : Failure) :
    Prop where
  whole : ∃ a after, t.course.acts = before ++ .ask r a [] :: after
  acts : u.course.acts = before ++ [.ask r (.error f) []]
  answer : u.analyze.1 = .error f
  tokens : u.tokens.tokens = Act.taken before ++ u.analyze.2.tokens.tokens
  counts : ∀ r', u.analyze.2.tokens.count r' =
    u.tokens.count r' + Act.requests r' before + if r = r' then 1 else 0
  written : u.analyze.2.emitter.sink.written.reverse = (Act.quads before).map Quad.line
  listing : u.analyze.2.emitter.sink.written.reverse <+: t.analyze.2.emitter.sink.written.reverse
  log : u.analyze.2.log = [.fatal f]

theorem written_ofStream {σ : Type} [TokenStream σ] (s : σ) :
    (ofStream s).analyze.2.emitter.sink.written.reverse =
      (Act.quads (ofStream s).course.acts).map Quad.line := by
  rw [analyze_emitter]
  exact Emitter.written_foldl_emit _

theorem analyze_tally (t : Translator CountedTokens) :
    t.tokens.tokens = Act.taken t.course.acts ++ t.analyze.2.tokens.tokens ∧
      ∀ r, t.analyze.2.tokens.count r = t.tokens.count r + Act.requests r t.course.acts := by
  rw [analyze_tokens]
  exact CountedTokens.course_tally t.dialogue t.tokens t.names

theorem stopsAt_of_acts {s u : CountedTokens} {before after : List Act} {r : Request}
    {a : Except Failure Token} {f : Failure} (hf : f.isGrammar = false)
    (hsilent : before.flatMap (Act.remarks true) = [])
    (hwhole : (ofStream s).course.acts = before ++ .ask r a [] :: after)
    (hacts : (ofStream u).course.acts = before ++ [.ask r (.error f) []])
    (hanswer : (ofStream u).course.answer = .error f) :
    StopsAt (ofStream s) (ofStream u) before r f := by
  have houtcome : (ofStream u).analyze.1 = .error f := by
    rw [analyze_outcome, hanswer]
    rfl
  have hquads : Act.quads (ofStream u).course.acts = Act.quads before := by simp [hacts]
  obtain ⟨htokens, hcounts⟩ := analyze_tally (ofStream u)
  rw [hacts] at htokens hcounts
  refine ⟨⟨a, after, hwhole⟩, hacts, houtcome, ?_, fun r' => ?_, ?_, ?_, ?_⟩
  · have htaken : Act.taken [.ask r (.error f) []] = [] := by cases r <;> rfl
    rwa [Act.taken_append, htaken, List.append_nil] at htokens
  · rw [hcounts, Act.requests_append, Act.requests_ask, Nat.add_assoc]
  · rw [written_ofStream, hquads]
  · rw [written_ofStream, written_ofStream, hquads, hwhole, Act.quads_append, List.map_append]
    exact List.prefix_append _ _
  · have hremarks : (ofStream u).course.acts.flatMap (Act.remarks true) = [] := by
      rw [hacts, List.flatMap_append, hsilent]
      rfl
    have hreporting : (ofStream u).reporting = true := rfl
    rw [analyze_log, houtcome, hreporting, hremarks]
    simp [lastWords, hf, ofStream]

theorem finish_eq_of_acts {σ : Type} (s u : σ) {c c' : Course σ Unit} (hacts : c'.acts = c.acts)
    (hanswer : c'.answer = c.answer) :
    (ofStream u).finish c' =
      (((ofStream s).finish c).1, { ((ofStream s).finish c).2 with tokens := c'.stream }) := by
  obtain ⟨acts, answer, stream, names⟩ := c
  obtain ⟨acts', answer', stream', names'⟩ := c'
  cases hacts
  cases hanswer
  rfl

theorem analyze_eq_of_acts {σ : Type} [TokenStream σ] {s u : σ}
    (hacts : (ofStream u).course.acts = (ofStream s).course.acts)
    (hanswer : (ofStream u).course.answer = (ofStream s).course.answer) :
    (ofStream u).analyze = ((ofStream s).analyze.1,
      { (ofStream s).analyze.2 with tokens := (ofStream u).course.stream }) := by
  rw [analyze_eq_finish, analyze_eq_finish]
  exact finish_eq_of_acts s u hacts hanswer

theorem analyze_failAt (ts : List Token) (r : Request) (k : Nat) {f : Failure}
    (hf : f.isGrammar = false) :
    let whole := ofTokens ts
    let faulty := ofStream (whole.tokens.failAt r k f)
    whole.analyze.2.tokens.count r ≤ k ∧
        faulty.analyze = (whole.analyze.1,
          { whole.analyze.2 with tokens := whole.analyze.2.tokens.failAt r k f }) ∨
      ∃ before, StopsAt whole faulty before r f ∧ Act.requests r before = k := by
  intro whole faulty
  have hcourse : faulty.course = whole.dialogue.course (whole.tokens.failAt r k f) {} := by
    cases r <;> rfl
  have hclear : ∀ r', whole.tokens.fault r' = none := fun r' => by cases r' <;> rfl
  have hfresh : ∀ r', whole.tokens.count r' = 0 := fun r' => by cases r' <;> rfl
  have hcut := (CountedTokens.interrupts_failAt r k f).course whole.dialogue
    ⟨rfl, hclear, by rw [hfresh]; exact Nat.zero_le k⟩ {}
  rw [← hcourse] at hcut
  cases hcut with
  | same hacts hanswer hR =>
    obtain ⟨hstream, -, hcount⟩ := hR
    have hleft : faulty.course.stream = whole.analyze.2.tokens.failAt r k f := by
      rw [analyze_tokens]
      exact hstream
    refine .inl ⟨?_, ?_⟩
    · rw [analyze_tokens]
      exact hcount
    · rw [← hleft]
      exact analyze_eq_of_acts hacts hanswer
  | @stopped before after r' a f' hsilent hwhole hacts hanswer hstop =>
    obtain ⟨rfl, rfl, hcount⟩ := hstop
    have hstops : StopsAt whole faulty before r' f' :=
      stopsAt_of_acts hf hsilent hwhole hacts hanswer
    have hcounts := hstops.counts r'
    have hzero : faulty.tokens.count r' = 0 := (CountedTokens.failAt_count _ r').trans (hfresh r')
    rw [analyze_tokens, hcount, hzero, if_pos rfl, Nat.zero_add] at hcounts
    exact .inr ⟨before, hstops, (Nat.succ.inj hcounts).symm⟩

theorem analyze_extend (p q : List Token) :
    let whole := ofTokens (p ++ q)
    let cut := ofTokens p
    (∃ left, whole.analyze.2.tokens = left.extend q ∧
        cut.analyze = (whole.analyze.1, { whole.analyze.2 with tokens := left })) ∨
      ∃ before r, StopsAt whole cut before r { cause := .unexpectedEnd } ∧
        cut.analyze.2.tokens.tokens = [] := by
  intro whole cut
  -- The bound of the longer list serves for the shorter one as well.
  have hcourse : cut.course = whole.dialogue.course cut.tokens {} := by
    have hle : p.length + 1 ≤ (p ++ q).length + 1 := by simp
    exact (CountedTokens.course_program_eq rfl rfl (Nat.le_succ _) hle).symm
  have hclear : ∀ r, cut.tokens.fault r = none := fun r => by cases r <;> rfl
  have hcut := (CountedTokens.interrupts_extend q).course whole.dialogue ⟨rfl, hclear⟩ {}
  rw [← hcourse] at hcut
  cases hcut with
  | same hacts hanswer hR =>
    refine .inl ⟨cut.course.stream, ?_, analyze_eq_of_acts hacts hanswer⟩
    rw [analyze_tokens]
    exact hR.1
  | @stopped before after r a f hsilent hwhole hacts hanswer hstop =>
    obtain ⟨htokens, rfl⟩ := hstop
    rw [← analyze_tokens] at htokens
    exact .inr ⟨before, r, stopsAt_of_acts rfl hsilent hwhole hacts hanswer, htokens⟩

/-- A stream that breaks off stops an analysis in place. The acts of an analysis over a list tell
what it takes, asks for and writes. Made to fail, a request that the analysis would not have come to
changes nothing, and any other ends it there with the failure as its answer. If the tokens end
early, the analysis is the same or ends for that reason with all of them taken. -/
theorem interrupted_analysis_stops_in_place (ts : List Token) :
    let whole := ofTokens ts
    (ts = Act.taken whole.course.acts ++ whole.analyze.2.tokens.tokens ∧
      (∀ r, whole.analyze.2.tokens.count r = Act.requests r whole.course.acts) ∧
      whole.analyze.2.emitter.sink.written.reverse =
        (Act.quads whole.course.acts).map Quad.line) ∧
    (∀ (r : Request) (k : Nat) (f : Failure), f.isGrammar = false →
      let faulty := ofStream (whole.tokens.failAt r k f)
      whole.analyze.2.tokens.count r ≤ k ∧
          faulty.analyze = (whole.analyze.1,
            { whole.analyze.2 with tokens := whole.analyze.2.tokens.failAt r k f }) ∨
        ∃ before, StopsAt whole faulty before r f ∧ Act.requests r before = k) ∧
    ∀ p q : List Token, ts = p ++ q →
      let cut := ofTokens p
      (∃ left, whole.analyze.2.tokens = left.extend q ∧
          cut.analyze = (whole.analyze.1, { whole.analyze.2 with tokens := left })) ∨
        ∃ before r, StopsAt whole cut before r { cause := .unexpectedEnd } ∧
          cut.analyze.2.tokens.tokens = [] := by
  intro whole
  obtain ⟨htaken, hcounts⟩ := analyze_tally whole
  refine ⟨⟨htaken, fun r => ?_, written_ofStream _⟩, fun r k f hf => analyze_failAt ts r k hf, ?_⟩
  · rw [hcounts]
    cases r <;> exact Nat.zero_add _
  · rintro p q rfl
    exact analyze_extend p q

/-- In `PROGRAM x = 1 + 2 ; y = 3 END .` the second statement is lost to a request that fails at its
first token, and to an end of the tokens behind it. -/
theorem interrupted_analysis_stops_at_second_statement :
    let name (x : String) : Token := ⟨.ident, utf8 x, {}⟩
    let number (x : String) : Token := ⟨.number, utf8 x, {}⟩
    let p := [Token.ofKind .programWord, name "x", Token.ofKind .equal, number "1",
      Token.ofKind .plus, number "2", Token.ofKind .semicolon, name "y"]
    let q := [Token.ofKind .equal, number "3", Token.ofKind .endWord, Token.ofKind .period]
    let f := Failure.ofText (utf8 "pop failed")
    let faulty := ofStream ((ofTokens (p ++ q)).tokens.failAt .pop 7 f)
    f.isGrammar = false ∧
      (∃ before, StopsAt (ofTokens (p ++ q)) faulty before .pop f ∧
        Act.requests .pop before = 7) ∧
      faulty.analyze.2.emitter.sink.text = utf8 "ADD, 1, 2, T0\nMOV, T0, x\n" ∧
      ∃ before r, StopsAt (ofTokens (p ++ q)) (ofTokens p) before r { cause := .unexpectedEnd } ∧
        (ofTokens p).analyze.2.tokens.tokens = [] := by
  intro name number p q f faulty
  obtain ⟨-, hfaulty, hcut⟩ := interrupted_analysis_stops_in_place (p ++ q)
  have hlate : ¬(ofTokens (p ++ q)).analyze.2.tokens.count .pop ≤ 7 := by decide +kernel
  have hshort : (ofTokens p).analyze.1 ≠ (ofTokens (p ++ q)).analyze.1 := by decide +kernel
  refine ⟨rfl, (hfaulty .pop 7 f rfl).resolve_left fun h => hlate h.1, by decide +kernel,
    (hcut p q rfl).resolve_left ?_⟩
  rintro ⟨left, -, hsame⟩
  exact hshort (by rw [hsame])

end Translator

end ThreeAddress
