import ThreeAddress.Proofs.Acceptance
import ThreeAddress.Proofs.Course
import ThreeAddress.Proofs.Printing

namespace ThreeAddress

variable {σ ρ : Type}

namespace Dialogue

/-- No temporary is drawn before all of them have been given back. -/
def StartsClear : Dialogue ρ → Prop
  | .done _ | .releaseTemporaries _ | .reject _ | .outOfFuel => True
  | .peek next | .pop next => ∀ token, (next token).StartsClear
  | .label next => ∀ name, (next name).StartsClear
  | .temporary _ => False
  | .emit _ next => next.StartsClear

theorem startsClear_ask {r : Request} {next : Token → Dialogue ρ} :
    (ask r next).StartsClear ↔ ∀ token, (next token).StartsClear := by
  cases r <;> rfl

theorem StartsClear.course [TokenStream σ] {d : Dialogue ρ} (h : d.StartsClear) (s : σ)
    (i i' j : Nat) :
    (d.course s ⟨i, j⟩).acts = (d.course s ⟨i', j⟩).acts ∧
      (d.course s ⟨i, j⟩).answer = (d.course s ⟨i', j⟩).answer ∧
      (d.course s ⟨i, j⟩).stream = (d.course s ⟨i', j⟩).stream := by
  induction d using inductionOnRequests generalizing s j with
  | done result | releaseTemporaries next | reject error | outOfFuel => exact ⟨rfl, rfl, rfl⟩
  | ask r next ih =>
    cases hp : (TokenStream.pull r s).answer with
    | error f =>
      rw [course_ask_error hp, course_ask_error hp]
      exact ⟨rfl, rfl, rfl⟩
    | ok token =>
      obtain ⟨hacts, hanswer, hstream⟩ := ih token (startsClear_ask.mp h token) _ j
      rw [course_ask_ok hp, course_ask_ok hp]
      exact ⟨congrArg (List.cons _) hacts, hanswer, hstream⟩
  | temporary next => cases h
  | label next ih =>
    obtain ⟨hacts, hanswer, hstream⟩ := ih _ (h _) s (j + 1)
    exact ⟨congrArg (List.cons _) hacts, hanswer, hstream⟩
  | emit quad next ih =>
    obtain ⟨hacts, hanswer, hstream⟩ := ih h s j
    exact ⟨congrArg (List.cons _) hacts, hanswer, hstream⟩

end Dialogue

namespace Production

theorem startsClear_expect (kind : TokenKind) (message : Bytes) {next : Unit → Dialogue ρ}
    (h : (next ()).StartsClear) : (expect kind message next).StartsClear := by
  intro token
  dsimp only
  split
  · exact fun _ => h
  · trivial

theorem startsClear_statements (fuel : Nat) {next : Unit → Dialogue ρ}
    (h : (next ()).StartsClear) : (statements fuel next).StartsClear := by
  cases fuel with
  | zero => trivial
  | succ fuel =>
    intro token
    -- A statement begins by giving the temporaries back.
    cases hstart : startsStatement token.kind with
    | true =>
      simp only [hstart, ↓reduceIte]
      trivial
    | false => simpa [hstart] using h

theorem startsClear_program (fuel : Nat) :
    (program fuel Dialogue.done : Dialogue Unit).StartsClear :=
  startsClear_expect _ _ <| startsClear_statements fuel <| startsClear_expect _ _ <|
    startsClear_expect _ _ trivial

end Production

namespace Translator

variable [TokenStream σ]

theorem emitted_of_acts {t u : Translator σ} (h : t.course.acts = u.course.acts) :
    t.emitted = u.emitted :=
  congrArg Act.quads h

theorem Ready.course {t : Translator σ} (h : t.Ready) (i : Nat) :
    let u : Translator σ := { t with names := ⟨i, 0⟩ }
    t.course.acts = u.course.acts ∧ t.course.answer = u.course.answer ∧
      t.course.stream = u.course.stream := by
  intro u
  have hnames : t.names = ⟨t.names.temporaries, 0⟩ := by rw [← h.labels]
  have hclear := Production.startsClear_program (TokenStream.supply t.tokens + 1)
  have hcourse := hclear.course t.tokens t.names.temporaries i 0
  rw [← hnames] at hcourse
  exact hcourse

/-- A translator that is ready does what a new one does at the same place of the stream, even if
temporaries of the new one are in use. -/
theorem Ready.analyze_eq_new {t : Translator σ} (h : t.Ready) (i : Nat) :
    let new : Translator σ :=
      { tokens := t.tokens, names := ⟨i, 0⟩, reporting := t.reporting }
    t.analyze.1 = new.analyze.1 ∧ t.analyze.2.tokens = new.analyze.2.tokens ∧
      t.analyze.2.emitter.sink.written =
        new.analyze.2.emitter.sink.written ++ t.emitter.sink.written ∧
      t.analyze.2.log = new.analyze.2.log ++ t.log := by
  intro new
  have hnew : new.Ready := ⟨rfl, rfl, rfl⟩
  obtain ⟨hacts, hanswer, hstream⟩ :
      t.course.acts = new.course.acts ∧ t.course.answer = new.course.answer ∧
        t.course.stream = new.course.stream := h.course i
  have hsame : t.analyze.1 = new.analyze.1 := by
    rw [h.analyze_answer, hnew.analyze_answer, hanswer]
  refine ⟨hsame, ?_, ?_, ?_⟩
  · rw [analyze_tokens, analyze_tokens, hstream]
  · rw [h.analyze_written, hnew.analyze_written, emitted_of_acts hacts]
    simp [new]
  · rw [analyze_log, analyze_log, hsame, hacts]
    simp [new]

theorem Ready.analyze_program {t : Translator CountedTokens} (h : t.Ready) {w r : List Token}
    {f : Failure} (hw : w.map Token.kind ∈ grammar.language) (ht : t.tokens.Delivers (w ++ r) f) :
    t.analyze.1 = .ok () ∧ t.analyze.2.tokens.Delivers r f ∧
      t.analyze.2.emitter.sink.written =
        (ofTokens w).analyze.2.emitter.sink.written ++ t.emitter.sink.written := by
  let new : Translator CountedTokens :=
    { tokens := t.tokens, names := ⟨0, 0⟩, reporting := t.reporting }
  obtain ⟨hanswer, htokens, hwritten, -⟩ := h.analyze_eq_new 0
  obtain ⟨q, hq⟩ := (mem_language_iff w).mp hw
  obtain ⟨ha, he, hleft⟩ := analyze_eq_reading CountedTokens.delivery (t := new) ht rfl
  have hfuel : (w ++ r).length ≤ TokenStream.supply new.tokens + 1 :=
    Nat.le_succ_of_le (Nat.le_of_eq (congrArg List.length ht.1.symm))
  rw [hq.reading hfuel] at ha he hleft
  obtain ⟨-, -, halone⟩ := analyze_of_spelled hq []
  rw [List.append_nil] at halone
  refine ⟨?_, ?_, ?_⟩
  · exact hanswer.trans (ha.trans (outcome_eq rfl he _))
  · rw [htokens]
    exact hleft nofun
  · rw [hwritten, he, halone]

theorem Ready.after_programs {ws : List (List Token)} {r : List Token} {f : Failure}
    (hws : ∀ w ∈ ws, w.map Token.kind ∈ grammar.language) {t : Translator CountedTokens}
    (h : t.Ready) (ht : t.tokens.Delivers (ws.flatten ++ r) f) :
    (∀ k < ws.length, (t.after k).analyze.1 = .ok ()) ∧
      (t.after ws.length).tokens.Delivers r f ∧
      (t.after ws.length).emitter.sink.written.reverse = t.emitter.sink.written.reverse ++
        ws.flatMap fun w => (ofTokens w).analyze.2.emitter.sink.written.reverse := by
  induction ws generalizing t with
  | nil => exact ⟨nofun, ht, (List.append_nil _).symm⟩
  | cons w ws ih =>
    obtain ⟨hw, hws⟩ := List.forall_mem_cons.mp hws
    rw [List.flatten_cons, List.append_assoc] at ht
    obtain ⟨hanswer, hleft, hwritten⟩ := h.analyze_program hw ht
    obtain ⟨hanswers, hrest, hall⟩ := ih hws h.analyze hleft
    refine ⟨fun k hk => ?_, hrest, ?_⟩
    · cases k with
      | zero => exact hanswer
      | succ k => exact hanswers k (Nat.lt_of_succ_lt_succ hk)
    · rw [List.length_cons, List.flatMap_cons, ← List.append_assoc, ← List.reverse_append,
        ← hwritten]
      exact hall

/-- Analyses one after the other are independent of each other: whatever the stream gave and the
analyses before came to, an analysis gives the answer, makes the requests, writes the lines and
reports the diagnostics of a new translator at the same place of the stream, even of one with
temporaries in use. So programs in a row are translated one by one. -/
theorem analyses_are_independent :
    (∀ (σ : Type) [TokenStream σ] (s : σ) (reporting : Bool) (n i : Nat),
      let t := (ofStream s {} reporting).after n
      let new : Translator σ := { tokens := t.tokens, names := ⟨i, 0⟩, reporting }
      t.analyze.1 = new.analyze.1 ∧ t.analyze.2.tokens = new.analyze.2.tokens ∧
        t.analyze.2.emitter.sink.written =
          new.analyze.2.emitter.sink.written ++ t.emitter.sink.written ∧
        t.analyze.2.log = new.analyze.2.log ++ t.log) ∧
    ∀ (ws : List (List Token)) (r : List Token),
      (∀ w ∈ ws, w.map Token.kind ∈ grammar.language) →
      let t := ofTokens (ws.flatten ++ r)
      (∀ k < ws.length, (t.after k).analyze.1 = .ok ()) ∧
        (t.after ws.length).tokens.tokens = r ∧
        (t.after ws.length).emitter.sink.written.reverse =
          ws.flatMap fun w => (ofTokens w).analyze.2.emitter.sink.written.reverse := by
  refine ⟨fun σ _ s reporting n i => ?_, fun ws r hws => ?_⟩
  · have hready : ((ofStream s {} reporting).after n).Ready := Ready.after ⟨rfl, rfl, rfl⟩ n
    have hnew := hready.analyze_eq_new i
    rw [reporting_after] at hnew
    exact hnew
  · let t := ofTokens (ws.flatten ++ r)
    have hready : t.Ready := ⟨rfl, rfl, rfl⟩
    have hstart : t.tokens.Delivers (ws.flatten ++ r) { cause := .unexpectedEnd } :=
      ⟨rfl, rfl, rfl, rfl⟩
    obtain ⟨hanswers, hleft, hwritten⟩ := hready.after_programs hws hstart
    exact ⟨hanswers, hleft.1, hwritten⟩

/-- Two loops one after the other: the second one starts with the first label and the first
temporary again. -/
theorem analyses_are_independent_of_two_loops :
    let x := Expression.name (utf8 "x")
    let next := Expression.binary .add x (.numeral (utf8 "1"))
    let q : Program := [.loop ⟨x, .less, .numeral (utf8 "9")⟩ (.assign (utf8 "x") next)]
    let w := q.tokens (fun _ => 0) false
    (∀ v ∈ [w, w], v.map Token.kind ∈ grammar.language) ∧
      ((ofTokens (w ++ w)).after 2).emitter.sink.written.reverse =
        (q.code 0).map Quad.line ++ (q.code 0).map Quad.line := by
  intro x next q w
  have hq : q.Spelled w := q.spelled_tokens _ false
  have hw : ∀ v ∈ [w, w], v.map Token.kind ∈ grammar.language := by
    have hmem := (mem_language_iff w).mpr ⟨q, hq⟩
    simpa using hmem
  obtain ⟨-, -, hwritten⟩ := analyses_are_independent.2 [w, w] [] hw
  obtain ⟨-, -, halone⟩ := analyze_of_spelled hq []
  rw [List.append_nil] at halone
  refine ⟨hw, ?_⟩
  simpa [halone, Emitter.written_foldl_emit] using hwritten

end Translator

end ThreeAddress
