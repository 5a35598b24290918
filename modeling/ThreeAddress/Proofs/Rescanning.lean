import ThreeAddress.Proofs.Separators
import ThreeAddress.Proofs.Warnings
import ThreeAddress.Text.Split.RoundTrip

namespace ThreeAddress

/-- The lexemes of tokens, with one space between neighbours. -/
def Token.print (ts : List Token) : Bytes := Bytes.join (utf8 " ") (ts.map Token.lexeme)

namespace Segment

variable {line k : Nat} {gs : List Segment}

def isLexeme : Segment → Bool
  | lexeme _ _ => true
  | _ => false

def spaced (gs : List Segment) : List Segment := (gs.filter isLexeme).intersperse (blank ' ')

def kindAndLexeme? : Segment → Option (TokenKind × Bytes)
  | lexeme kind text => some (kind, encode text)
  | _ => none

theorem ne_unclosed_of_isLexeme {g : Segment} (hg : g.isLexeme = true) (body : List Char) :
    g ≠ unclosed body := by
  rintro rfl
  cases hg

theorem cuts_intersperse (hgs : ∀ g ∈ gs, g.isLexeme = true ∧ ∃ rest, g.Fits rest) :
    Cuts ((gs.intersperse (blank ' ')).flatMap text) (gs.intersperse (blank ' ')) := by
  induction gs with
  | nil => exact .nil
  | cons g gs ih =>
    obtain ⟨⟨hlexeme, rest, hg⟩, hgs⟩ := List.forall_mem_cons.mp hgs
    have hne := ne_unclosed_of_isLexeme hlexeme
    cases gs with
    | nil => exact .cons (hg.of_head hne (by simp)) .nil
    | cons g' gs =>
      rw [List.intersperse_cons_cons, List.flatMap_cons, List.flatMap_cons]
      have hspace : (blank ' ').Fits (((g' :: gs).intersperse (blank ' ')).flatMap text) :=
        List.mem_cons_self ..
      refine .cons (hg.of_head hne ?_) (.cons hspace (ih hgs))
      intro d hd
      exact .inr ((separates_blank (List.mem_cons_self ..)).head _ d hd)

theorem Cuts.spaced {cs : List Char} (h : Cuts cs gs) :
    Cuts ((spaced gs).flatMap text) (Segment.spaced gs) := by
  refine cuts_intersperse fun g hg => ?_
  obtain ⟨hmem, hlexeme⟩ := List.mem_filter.mp hg
  obtain ⟨before, behind, rfl⟩ := List.append_of_mem hmem
  exact ⟨hlexeme, h.fits_of_append⟩

theorem map_tokens (line k : Nat) (gs : List Segment) :
    (tokens line k gs).map (fun t => (t.kind, t.lexeme)) = gs.filterMap kindAndLexeme? := by
  induction gs generalizing k with
  | nil => rfl
  | cons g gs ih =>
    rw [tokens, List.map_append, ih]
    cases g <;> rfl

theorem filterMap_intersperse (gs : List Segment) :
    (gs.intersperse (blank ' ')).filterMap kindAndLexeme? = gs.filterMap kindAndLexeme? := by
  induction gs with
  | nil => rfl
  | cons g gs ih =>
    cases gs with
    | nil => rfl
    | cons g' gs =>
      rw [List.intersperse_cons_cons, List.filterMap_cons, List.filterMap_cons, ih,
        List.filterMap_cons (a := g)]
      rfl

theorem filterMap_spaced (gs : List Segment) :
    (spaced gs).filterMap kindAndLexeme? = gs.filterMap kindAndLexeme? := by
  rw [spaced, filterMap_intersperse, List.filterMap_filter]
  congr 1
  funext g
  cases g <;> rfl

theorem map_lexeme_tokens (line k : Nat) (gs : List Segment) :
    (tokens line k gs).map Token.lexeme = (gs.filter isLexeme).map fun g => encode g.text := by
  induction gs generalizing k with
  | nil => rfl
  | cons g gs ih =>
    rw [tokens, List.map_append, ih]
    cases g <;> rfl

theorem join_encode (gs : List Segment) :
    Bytes.join (utf8 " ") (gs.map fun g => encode g.text) =
      encode ((gs.intersperse (blank ' ')).flatMap text) := by
  induction gs with
  | nil => rfl
  | cons g gs ih =>
    cases gs with
    | nil => simp [Bytes.join]
    | cons g' gs =>
      rw [List.map_cons] at ih
      rw [List.map_cons, List.map_cons, join_cons_cons, ih, List.intersperse_cons_cons,
        List.flatMap_cons, List.flatMap_cons]
      simp [encode, utf8, text]

theorem print_tokens (line k : Nat) (gs : List Segment) :
    Token.print (tokens line k gs) = encode ((spaced gs).flatMap text) := by
  rw [Token.print, map_lexeme_tokens, join_encode, spaced]

theorem Cuts.tokens_scanText_print {cs : List Char} (h : Cuts cs gs) (s : Scanner) :
    (s.scanText (Token.print (tokens s.line 0 gs))).tokens =
      tokens s.line 0 (Segment.spaced gs) := by
  refine Cuts.tokens_scanText ?_ s
  rw [print_tokens, decode_encode]
  exact h.spaced

end Segment

/-- The tokens of any line, printed and scanned, are the same in kind and lexeme. Printed and
scanned once more they also stand in the same places. -/
theorem Scanner.scanText_undoes_printing (s : Scanner) (line : Bytes) :
    let ts := (s.scanText line).tokens
    let us := (s.scanText (Token.print ts)).tokens
    us.map (fun t => (t.kind, t.lexeme)) = ts.map (fun t => (t.kind, t.lexeme)) ∧
      (s.scanText (Token.print us)).tokens = us := by
  intro ts us
  obtain ⟨gs, hgs, -⟩ := Segment.existsUnique_cuts (decode line)
  have hts : ts = Segment.tokens s.line 0 gs := hgs.tokens_scanText s
  have hus : us = Segment.tokens s.line 0 (Segment.spaced gs) := by
    simp only [us, hts]
    exact hgs.tokens_scanText_print s
  have hsame : us.map (fun t => (t.kind, t.lexeme)) = ts.map (fun t => (t.kind, t.lexeme)) := by
    rw [hus, hts, Segment.map_tokens, Segment.map_tokens, Segment.filterMap_spaced]
  have hlexemes : us.map Token.lexeme = ts.map Token.lexeme := by
    simpa [Function.comp_def] using congrArg (List.map Prod.snd) hsame
  have hprint : Token.print us = Token.print ts := congrArg (Bytes.join (utf8 " ")) hlexemes
  refine ⟨hsame, ?_⟩
  rw [hprint]

/-- Lexemes without blanks between them, a keyword in small letters, a comment, a brace that closes
nothing and a byte that is no character. -/
example :
    let s : Scanner := { readings := [], line := 2 }
    let line := utf8 "if a1<=2<>\x7b=\x7d=\x7d" ++ [255]
    Token.print (s.scanText line).tokens = utf8 "if a1 <= 2 <> = \x7d \ufffd" ∧
      (s.scanText (Token.print (s.scanText line).tokens)).tokens.map Token.kind =
        [.ifWord, .ident, .lessEqual, .number, .notEqual, .equal, .error, .error] := by
  decide

end ThreeAddress
