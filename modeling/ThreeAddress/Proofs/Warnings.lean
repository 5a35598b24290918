import Mathlib.Data.List.Forall2
import ThreeAddress.Proofs.Segmentation

namespace ThreeAddress

/-- Whether the token is a character that the language does not know. A brace that closes nothing
is an error as well, but a known character. -/
def Token.isUnknown (t : Token) : Bool := t.kind = .error && t.lexeme ≠ utf8 "\x7d"

namespace Diagnostic

def IsAbout (line : Nat) (t : Token) (d : Diagnostic) : Prop :=
  ∃ c, t.lexeme = encode [c] ∧
    d.line = utf8 "[WARN] unknown input " ++ quotedChar c ++ utf8 " at line " ++ ordinal line ++
      utf8 ", char " ++ ordinal t.position.column ++ utf8 "\n"

theorem isAbout_unknownInput (line k : Nat) (c : Char) :
    IsAbout line ⟨.error, encode [c], ⟨line, k⟩⟩ (.unknownInput c ⟨line, k⟩) := by
  have hat : utf8 " at line " = utf8 " at " ++ utf8 "line " := by decide
  have hend : utf8 "\n" = [Bytes.newline] := by decide
  refine ⟨c, rfl, ?_⟩
  simp only [Diagnostic.line, text, Position.text, hat, hend, List.append_assoc]

end Diagnostic

theorem encode_injective {cs ds : List Char} (h : encode cs = encode ds) : cs = ds := by
  have hdecode := congrArg decode h
  rwa [decode_encode, decode_encode] at hdecode

namespace Segment

variable {g : Segment} {rest : List Char}

theorem IsLexeme.exists_stray {text : List Char} (h : IsLexeme .error text rest) :
    ∃ c, text = [c] ∧ IsStray c := by
  generalize hkind : TokenKind.error = kind at h
  cases h with
  | word => exact absurd hkind.symm (wordKind_ne_error _)
  | symbol hs => exact absurd hkind.symm (symbols_accepted _ hs).2.1
  | @stray c _ hc => exact ⟨c, rfl, hc⟩
  | number | lessEqual | notEqual | greaterEqual | less | greater => cases hkind

theorem Fits.forall₂_isAbout (h : g.Fits rest) (line k : Nat) :
    List.Forall₂ (Diagnostic.IsAbout line) ((g.token? line k).toList.filter Token.isUnknown)
      (g.warning? line k).toList := by
  cases g with
  | blank | comment | unclosed => exact .nil
  | lexeme kind text =>
    by_cases hkind : kind = .error
    · subst hkind
      obtain ⟨c, rfl, -⟩ := IsLexeme.exists_stray h
      by_cases hc : c = '\x7d'
      · subst hc
        exact .nil
      · have hlexeme : encode [c] ≠ utf8 "\x7d" := by
          intro heq
          obtain ⟨hc', -⟩ := List.cons.inj (encode_injective heq)
          exact hc hc'
        have hunknown : (Option.toList (token? line k (lexeme .error [c]))).filter
            Token.isUnknown = [⟨.error, encode [c], ⟨line, k⟩⟩] := by
          simp [token?, Token.isUnknown, hlexeme]
        have hwarning : warning? line k (lexeme .error [c]) =
            some (.unknownInput c ⟨line, k⟩) := if_neg hc
        rw [hunknown, hwarning]
        exact .cons (Diagnostic.isAbout_unknownInput line k c) .nil
    · have hunknown : (Option.toList (token? line k (lexeme kind text))).filter
          Token.isUnknown = [] := by
        simp [token?, Token.isUnknown, hkind]
      rw [hunknown, warning?_of_ne hkind]
      exact .nil

theorem Cuts.forall₂_isAbout {cs : List Char} {gs : List Segment} (h : Cuts cs gs)
    (line k : Nat) :
    List.Forall₂ (Diagnostic.IsAbout line) ((tokens line k gs).filter Token.isUnknown)
      (warnings line k gs) := by
  induction h generalizing k with
  | nil => exact .nil
  | @cons g rest gs hg h ih =>
    rw [tokens, warnings, List.filter_append]
    exact List.rel_append (hg.forall₂_isAbout line k) (ih (k + g.text.length))

theorem exists_of_mem_tokens {line k : Nat} {gs : List Segment} {t : Token}
    (h : t ∈ tokens line k gs) :
    ∃ before kind text behind, gs = before ++ lexeme kind text :: behind ∧
      t = ⟨kind, encode text,
        ⟨line, ((k + (before.flatMap Segment.text).length : Nat) : Int)⟩⟩ := by
  induction gs generalizing k with
  | nil => cases h
  | cons g gs ih =>
    rw [tokens, List.mem_append] at h
    rcases h with h | h
    · cases g with
      | lexeme kind text =>
        refine ⟨[], kind, text, gs, rfl, ?_⟩
        simpa [token?] using h
      | blank | comment | unclosed => cases h
    · obtain ⟨before, kind, text, behind, rfl, rfl⟩ := ih h
      refine ⟨g :: before, kind, text, behind, rfl, ?_⟩
      simp [Nat.add_assoc]

theorem Cuts.fits_of_append {cs : List Char} {before behind : List Segment}
    (h : Cuts cs (before ++ g :: behind)) : ∃ rest, g.Fits rest := by
  generalize hgs : before ++ g :: behind = gs at h
  induction h generalizing before with
  | nil => simp at hgs
  | @cons g' rest gs hg h ih =>
    cases before with
    | nil =>
      obtain ⟨rfl, rfl⟩ := List.cons.inj hgs
      exact ⟨rest, hg⟩
    | cons g'' before =>
      obtain ⟨-, htail⟩ := List.cons.inj hgs
      exact ih htail

theorem Cuts.pairwise_columns {cs : List Char} {gs : List Segment} (h : Cuts cs gs)
    (line k : Nat) :
    (tokens line k gs).Pairwise fun t u => t.position.column < u.position.column := by
  induction h generalizing k with
  | nil => exact .nil
  | @cons g rest gs hg h ih =>
    rw [tokens, List.pairwise_append]
    refine ⟨?_, ih _, ?_⟩
    · cases g.token? line k <;> simp
    · intro t ht u hu
      obtain ⟨before, kind, text, behind, -, rfl⟩ := exists_of_mem_tokens hu
      have hcolumn : t.position.column = k := by
        cases g with
        | lexeme kind text =>
          obtain rfl : t = ⟨kind, encode text, ⟨line, k⟩⟩ := by simpa [token?] using ht
          rfl
        | blank | comment | unclosed => cases ht
      have hpos := List.length_pos_iff.mpr hg.text_ne_nil
      rw [hcolumn]
      push_cast
      omega

end Segment

/-- For each unknown character among the tokens of a line there is one warning, which names the
character and its place, counted from one. There are no other warnings: each of these characters
stands outside of comments and in a column of its own. Without warnings the tokens are the same. -/
theorem Scanner.scanText_warns_of_unknown_characters (s : Scanner) (text : Bytes)
    (h : s.reporting = true) :
    let scan := s.scanText text
    let unknown := scan.tokens.filter Token.isUnknown
    List.Forall₂ (Diagnostic.IsAbout s.line) unknown scan.warnings ∧
    unknown.Pairwise (fun t u => t.position.column < u.position.column) ∧
    (∀ t ∈ unknown, ∃ before c behind,
      Segment.Cuts (decode text) (before ++ .lexeme .error [c] :: behind) ∧
        t.lexeme = encode [c] ∧ t.position.column = (before.flatMap Segment.text).length) ∧
    ({ s with reporting := false } : Scanner).scanText text = ⟨scan.tokens, []⟩ := by
  intro scan unknown
  obtain ⟨gs, hgs, -⟩ := Segment.existsUnique_cuts (decode text)
  have hscan : scan = ⟨Segment.tokens s.line 0 gs, Segment.warnings s.line 0 gs⟩ := by
    simp only [scan, scanText, hgs.scanLine_eq, h, if_true]
  have hunknown : unknown = (Segment.tokens s.line 0 gs).filter Token.isUnknown := by
    simp only [unknown, hscan]
  refine ⟨?_, ?_, ?_, ?_⟩
  · rw [hunknown, hscan]
    exact hgs.forall₂_isAbout s.line 0
  · rw [hunknown]
    exact (hgs.pairwise_columns s.line 0).filter _
  · intro t ht
    rw [hunknown, List.mem_filter] at ht
    obtain ⟨ht, hisUnknown⟩ := ht
    obtain ⟨before, kind, text, behind, rfl, rfl⟩ := Segment.exists_of_mem_tokens ht
    obtain ⟨rfl, -⟩ : kind = .error ∧ encode text ≠ utf8 "\x7d" := by
      simpa [Token.isUnknown] using hisUnknown
    obtain ⟨rest, hfits⟩ := hgs.fits_of_append
    obtain ⟨c, rfl, -⟩ := Segment.IsLexeme.exists_stray hfits
    exact ⟨before, c, behind, hgs, rfl, by simp⟩
  · rw [hscan]
    simp only [scanText, hgs.scanLine_eq]
    rfl

/-- Unknown characters that end a name and a `<`, one in a comment, one in place of a byte that is
no character, and a brace that closes nothing. -/
theorem Scanner.scanText_warns_of_three_characters :
    let s : Scanner := { readings := [], line := 7 }
    let text := utf8 "a?\x7b?\x7d \x7d<é" ++ [255]
    let unknown := (s.scanText text).tokens.filter Token.isUnknown
    s.reporting = true ∧
      (s.scanText text).warnings.map Diagnostic.line =
        [utf8 "[WARN] unknown input '?' at line 8, char 2\n",
          utf8 "[WARN] unknown input 'é' at line 8, char 9\n",
          utf8 "[WARN] unknown input '\ufffd' at line 8, char 10\n"] ∧
      unknown.map Token.lexeme = [utf8 "?", utf8 "é", utf8 "\ufffd"] ∧
      List.Forall₂ (Diagnostic.IsAbout 7) unknown (s.scanText text).warnings := by
  intro s text unknown
  have hwarnings : (s.scanText text).warnings.map Diagnostic.line =
      [utf8 "[WARN] unknown input '?' at line 8, char 2\n",
        utf8 "[WARN] unknown input 'é' at line 8, char 9\n",
        utf8 "[WARN] unknown input '\ufffd' at line 8, char 10\n"] := by decide +kernel
  have hlexemes : unknown.map Token.lexeme = [utf8 "?", utf8 "é", utf8 "\ufffd"] := by
    decide +kernel
  exact ⟨rfl, hwarnings, hlexemes, (scanText_warns_of_unknown_characters s text rfl).1⟩

end ThreeAddress
