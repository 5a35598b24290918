import ThreeAddress.Proofs.Acceptance
import ThreeAddress.Proofs.Feed
import ThreeAddress.Proofs.Printing

namespace ThreeAddress

namespace Translator

/-- The tokens of a program have one syntax tree, every tree has tokens, with whatever parentheses
it does not need, and over all of these tokens the translator writes the code of the tree. -/
theorem analyze_emits_code_of_tree :
    (∀ p : List Token, p.map Token.kind ∈ grammar.language → ∃! q : Program, q.Spelled p) ∧
    (∀ (q : Program) (extra : Expression → Nat) (terminated : Bool),
      q.Spelled (q.tokens extra terminated)) ∧
    ∀ (q : Program) (p r : List Token), q.Spelled p →
      let t := (ofTokens (p ++ r)).analyze
      t.1 = .ok () ∧ t.2.tokens.tokens = r ∧ t.2.emitter = (q.code 0).foldl Emitter.emit {} ∧
        t.2.emitter.sink.written.reverse = (q.code 0).map Quad.line := by
  refine ⟨fun p hp => ?_, fun q extra terminated => q.spelled_tokens extra terminated,
    fun q p r hq => ?_⟩
  · obtain ⟨q, hq⟩ := (mem_language_iff p).mp hp
    exact ⟨q, hq, fun q' hq' => (hq'.unique hq (r := []) rfl).1⟩
  · obtain ⟨ha, ht, he⟩ := analyze_of_spelled hq r
    exact ⟨ha, ht, he, by rw [he, Emitter.written_foldl_emit]⟩

end Translator

theorem translate_of_ok {source : Source} (h : (translate source).1 = .ok ()) :
    ∃ (q : Program) (p r : List Token), source.tokens = p ++ r ∧ q.Spelled p ∧
      (translate source).2 = ((q.code 0).map Quad.line).flatten := by
  let t := Translator.ofSource source
  have hs : t.tokens.Delivers source.tokens (Cursor.feedFailure t.tokens.feed) := ⟨rfl, rfl⟩
  obtain ⟨ha, he, -⟩ := Translator.analyze_eq_reading Cursor.delivery (t := t) hs rfl
  have hanswer : t.analyze.1 = _ := ha.trans (Translator.outcome_eq rfl he _)
  have hfuel : source.tokens.length ≤ TokenStream.supply t.tokens + 1 :=
    Nat.le_succ_of_le (Nat.le_trans (Cursor.length_feedTokens_le _) (Nat.le_add_left _ _))
  have hok : t.analyze.1 = .ok () := h
  obtain ⟨q, p, r, hts, hq, hread⟩ | ⟨-, -, hread⟩ | ⟨p, r, x, e, -, -, -, -, -, -, hread⟩ :=
    Program.answered hfuel
  · rw [hread] at he
    refine ⟨q, p, r, hts, hq, ?_⟩
    have htext : (translate source).2 = t.analyze.2.emitter.sink.written.reverse.flatten := rfl
    have hemit : t.analyze.2.emitter = (q.code 0).foldl Emitter.emit {} := he
    rw [htext, hemit, Emitter.written_foldl_emit]
  · rw [hanswer, hread] at hok
    cases hok
  · obtain ⟨n, qs, hread⟩ := hread (Cursor.feedFailure t.tokens.feed)
    rw [hanswer, hread] at hok
    cases hok

end ThreeAddress
