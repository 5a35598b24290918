import ThreeAddress.Proofs.Acceptance
import ThreeAddress.Proofs.Parallel
import ThreeAddress.Proofs.SourceLines

namespace ThreeAddress

theorem Token.forall₂_alike {ts us : List Token} (hkind : ts.map Token.kind = us.map Token.kind)
    (hword : ts.map Token.word? = us.map Token.word?) : List.Forall₂ Token.Alike ts us := by
  induction ts generalizing us with
  | nil =>
    rw [List.map_eq_nil_iff.mp hkind.symm]
    exact .nil
  | cons t ts ih =>
    cases us with
    | nil => cases hkind
    | cons u us =>
      obtain ⟨hk, hks⟩ := List.cons.inj hkind
      obtain ⟨hw, hws⟩ := List.cons.inj hword
      exact .cons ⟨hk, hw⟩ (ih hks hws)

namespace SameAnswer

variable {ρ : Type} {x y : Except Failure ρ}

theorem ok {a : ρ} (h : SameAnswer x y) (hx : x = .ok a) : y = .ok a := by
  cases h with
  | same => exact hx
  | rejected htu message expected => cases hx

theorem error {f : Failure} (h : SameAnswer x y) (hx : x = .error f) (hf : f.isGrammar = false) :
    y = .error f := by
  cases h with
  | same => exact hx
  | rejected htu message expected =>
    cases hx
    cases hf

theorem grammar {e : GrammarError} (h : SameAnswer x y)
    (hx : x = .error { cause := .grammar e }) :
    ∃ e', y = .error { cause := .grammar e' } ∧ e.message = e'.message ∧
      e.expected = e'.expected := by
  cases h with
  | same => exact ⟨e, hx, rfl, rfl⟩
  | rejected htu message expected =>
    cases hx
    exact ⟨_, rfl, rfl, rfl⟩

end SameAnswer

theorem Translator.reading_alike {fuel : Nat} {ts us : List Token}
    (h : List.Forall₂ Token.Alike ts us) (hfuel : ts.length ≤ fuel) :
    let f : Failure := { cause := .unexpectedEnd }
    let x := reading fuel ts f
    let y := reading fuel us f
    x.1 = .ok () ∧ y.1 = .ok () ∨ x.1 = .error f ∧ y.1 = .error f ∨
      ∃ k t u e e', ts[k]? = some t ∧ us[k]? = some u ∧
        x.1 = .error { cause := .grammar e } ∧ y.1 = .error { cause := .grammar e' } ∧
        e.message = e'.message ∧ e.expected = e'.expected ∧
        e.found = t.lexeme ∧ e.position = t.position ∧
        e'.found = u.lexeme ∧ e'.position = u.position ∧
        x.2.tokens = ts.drop k ∧ y.2.tokens = us.drop k := by
  intro f x y
  have hfuel' : us.length ≤ fuel := h.length_eq ▸ hfuel
  obtain ⟨hanswer, hstate⟩ :
      SameAnswer x.1 y.1 ∧ x.2.Parallel (fun _ => True) y.2 :=
    parallel_reading _ h (fun _ _ => trivial) fuel f
  obtain hx | hx | ⟨e, hx⟩ := Program.answer_reading hfuel f
  · exact .inl ⟨hx, hanswer.ok hx⟩
  · exact .inr (.inl ⟨hx, hanswer.error hx rfl⟩)
  · obtain ⟨e', hy, hmessage, hexpected⟩ := hanswer.grammar hx
    obtain ⟨p, t, r, hts, -, -, hfound, hposition, hrest⟩ := Program.exists_rejected hfuel hx
    obtain ⟨p', u, r', hus, -, -, hfound', hposition', hrest'⟩ :=
      Program.exists_rejected hfuel' hy
    have hrests : (t :: r).length = (u :: r').length := by
      have hlength : x.2.tokens.length = y.2.tokens.length := hstate.tokens.length_eq
      rwa [hrest, hrest'] at hlength
    have hindex : p.length = p'.length := by
      have hlength := h.length_eq
      rw [hts, hus, List.length_append, List.length_append, hrests] at hlength
      exact Nat.add_right_cancel hlength
    have hdrop : ts.drop p.length = t :: r := by rw [hts, List.drop_left]
    have hdrop' : us.drop p.length = u :: r' := by rw [hindex, hus, List.drop_left]
    refine .inr (.inr ⟨p.length, t, u, e, e', ?_, ?_, hx, hy, hmessage, hexpected, hfound,
      hposition, hfound', hposition', hrest.trans hdrop.symm, hrest'.trans hdrop'.symm⟩)
    · rw [← List.head?_drop, hdrop, List.head?_cons]
    · rw [← List.head?_drop, hdrop', List.head?_cons]

theorem translate_ofPieces (pieces : List Bytes) {n : Nat}
    (hn : (Source.ofPieces pieces).tokens.length = n) :
    let source := Source.ofPieces pieces
    let u := Translator.reading (n + 1) source.tokens { cause := .unexpectedEnd }
    translate source = (u.1, (u.2.quads.map Quad.line).flatten) ∧
      (u.1 ≠ .error { cause := .unexpectedEnd } →
        (Translator.ofSource source).analyze.2.tokens.Delivers u.2.tokens
          { cause := .unexpectedEnd }) := by
  intro source u
  let t := Translator.ofSource source
  have hfeed : t.tokens.feed = (scans pieces.flatten).map LineScan.answer :=
    Scanner.answers_ofPieces pieces
  have hdelivers : t.tokens.Delivers source.tokens { cause := .unexpectedEnd } := by
    refine ⟨rfl, ?_⟩
    rw [hfeed, Cursor.feedFailure_answers]
  have hsupply : TokenStream.supply t.tokens = n := by
    have hqueue : TokenStream.supply t.tokens = 0 + Cursor.feedSupply t.tokens.feed := rfl
    rw [hqueue, hfeed, Cursor.feedSupply_answers, ← Source.tokens_ofPieces, Nat.zero_add, hn]
  obtain ⟨ha, he, hleft⟩ := Translator.analyze_eq_reading Cursor.delivery (t := t) hdelivers rfl
  rw [hsupply] at ha he hleft
  refine ⟨Prod.ext ?_ ?_, hleft⟩
  · exact ha.trans (Translator.outcome_eq rfl he _)
  · have htext : (translate source).2 = t.analyze.2.emitter.sink.written.reverse.flatten := rfl
    have hstart : t.emitter = {} := rfl
    rw [htext, he, hstart, Emitter.written_foldl_emit]

/-- Two sources of data with tokens that are alike get the same listing, and the same answer: both
are accepted, both end too early, or the same token is wrong in both for the same reason. -/
theorem translate_ignores_layout (pieces pieces' : List Bytes)
    (hkind : (Source.ofPieces pieces).tokens.map Token.kind =
      (Source.ofPieces pieces').tokens.map Token.kind)
    (hword : (Source.ofPieces pieces).tokens.map Token.word? =
      (Source.ofPieces pieces').tokens.map Token.word?) :
    let a := Source.ofPieces pieces
    let b := Source.ofPieces pieces'
    (translate a).2 = (translate b).2 ∧
      ((translate a).1 = .ok () ∧ (translate b).1 = .ok () ∨
        (translate a).1 = .error { cause := .unexpectedEnd } ∧
          (translate b).1 = .error { cause := .unexpectedEnd } ∨
        ∃ k t u e e', a.tokens[k]? = some t ∧ b.tokens[k]? = some u ∧
          (translate a).1 = .error { cause := .grammar e } ∧
          (translate b).1 = .error { cause := .grammar e' } ∧
          e.message = e'.message ∧ e.expected = e'.expected ∧
          e.found = t.lexeme ∧ e.position = t.position ∧
          e'.found = u.lexeme ∧ e'.position = u.position ∧
          (Translator.ofSource a).analyze.2.tokens.Delivers (a.tokens.drop k)
            { cause := .unexpectedEnd } ∧
          (Translator.ofSource b).analyze.2.tokens.Delivers (b.tokens.drop k)
            { cause := .unexpectedEnd }) := by
  intro a b
  have halike := Token.forall₂_alike hkind hword
  obtain ⟨ha, hleft⟩ := translate_ofPieces pieces rfl
  obtain ⟨hb, hleft'⟩ := translate_ofPieces pieces' halike.length_eq.symm
  obtain ⟨-, hstate⟩ := Translator.parallel_reading (fun _ => True) halike
    (fun _ _ => trivial) (a.tokens.length + 1) { cause := .unexpectedEnd }
  rw [ha, hb]
  dsimp only
  refine ⟨by rw [hstate.quads], ?_⟩
  obtain hok | hend | ⟨k, t, u, e, e', ht, hu, hx, hy, hmessage, hexpected, hfound, hposition,
    hfound', hposition', hrest, hrest'⟩ := Translator.reading_alike halike (Nat.le_succ _)
  · exact .inl hok
  · exact .inr (.inl hend)
  · refine .inr (.inr ⟨k, t, u, e, e', ht, hu, hx, hy, hmessage, hexpected, hfound, hposition,
      hfound', hposition', ?_, ?_⟩)
    · rw [← hrest]
      exact hleft (by rw [hx]; nofun)
    · rw [← hrest']
      exact hleft' (by rw [hy]; nofun)

/-- A program on one line, and the same program in small letters on five lines, one of which arrives
in two pieces. -/
theorem translate_ignores_layout_of_broken_loop :
    let pieces := [utf8 "PROGRAM WHILE x <> 10 DO x = x + y1; y1 = ) END."]
    let pieces' := [utf8 "program { to ten }\n\n  while x <", utf8 "> 10\r\ndo x=x+y1 ;",
      utf8 "\ny1 = ) { no value }End.\n"]
    let a := Source.ofPieces pieces
    let b := Source.ofPieces pieces'
    let e : GrammarError :=
      ⟨utf8 "Expected Open Parenthesis, Identifier, or Constant", utf8 ")",
        [utf8 "(", utf8 "IDENT", utf8 "NUMBER"], ⟨0, 42⟩⟩
    a.tokens.map Token.kind = b.tokens.map Token.kind ∧
      a.tokens.map Token.word? = b.tokens.map Token.word? ∧
      (translate a).1 = .error { cause := .grammar e } ∧
      (translate b).2 = utf8
        "L0\nTST, x, 10, 5, L1\nJMP, L2\nL1\nADD, x, y1, T0\nMOV, T0, x\nJMP, L0\nL2\n" ∧
      ∃ e', (translate b).1 = .error { cause := .grammar e' } ∧ e.message = e'.message := by
  intro pieces pieces' a b e
  have hkind : a.tokens.map Token.kind = b.tokens.map Token.kind := by decide +kernel
  have hword : a.tokens.map Token.word? = b.tokens.map Token.word? := by decide +kernel
  have ha : (translate a).1 = .error { cause := .grammar e } := by decide +kernel
  have htext : (translate a).2 = utf8
      "L0\nTST, x, 10, 5, L1\nJMP, L2\nL1\nADD, x, y1, T0\nMOV, T0, x\nJMP, L0\nL2\n" := by
    decide +kernel
  obtain ⟨hsame, ⟨hok, -⟩ | ⟨hend, -⟩ | ⟨k, t, u, e₁, e', -, -, hx, hy, hmessage, -⟩⟩ :=
    translate_ignores_layout pieces pieces' hkind hword
  · cases ha.symm.trans hok
  · cases ha.symm.trans hend
  · cases ha.symm.trans hx
    exact ⟨hkind, hword, ha, hsame.symm.trans htext, e', hy, hmessage⟩

end ThreeAddress
