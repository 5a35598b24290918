import ThreeAddress.Proofs.Lexeme
import ThreeAddress.Proofs.Segments
import ThreeAddress.Scan.Scanner

namespace ThreeAddress

namespace CharClass

variable {c : Char}

theorem ofChar_eq_letter_iff : ofChar c = .letter ↔ c.isAlpha = true := by
  rw [Segment.isAlpha_iff]
  unfold ofChar ofChar?
  split
  · next hl => exact iff_of_true rfl hl
  · next hl =>
    refine iff_of_false (fun h => ?_) hl
    split at h
    · cases h
    · split at h <;> cases h

theorem ofChar_eq_digit_iff : ofChar c = .digit ↔ c.isDigit = true := by
  refine ⟨fun h => ?_, ofChar_of_isDigit⟩
  rw [Segment.isDigit_iff]
  unfold ofChar ofChar? at h
  split at h
  · cases h
  · split at h
    · assumption
    · split at h <;> cases h

theorem ofChar_of_isAlphanum (h : c.isAlphanum = true) :
    ofChar c = .letter ∨ ofChar c = .digit := by
  rw [Char.isAlphanum, Bool.or_eq_true] at h
  exact h.imp ofChar_eq_letter_iff.mpr ofChar_eq_digit_iff.mpr

def char? : CharClass → Option Char
  | openBrace => some '\x7b'
  | closeBrace => some '\x7d'
  | openParen => some '('
  | closeParen => some ')'
  | equal => some '='
  | less => some '<'
  | greater => some '>'
  | _ => none

theorem eq_of_char?_ofChar {d : Char} (h : (ofChar c).char? = some d) : c = d := by
  unfold ofChar ofChar? at h
  split at h
  · cases h
  split at h
  · cases h
  revert h
  split <;> simp [char?]

theorem known_or_unknown (c : Char) : ofChar? c = none ∨ c.isAlphanum = true ∨
    c ∈ Segment.blanks ∨ c ∈ ['\x7b', '<', '>'] ∨ c = '\x7d' ∨
      ∃ kind, (c, kind) ∈ Segment.symbols := by
  rw [Char.isAlphanum, Bool.or_eq_true, Segment.isAlpha_iff, Segment.isDigit_iff]
  unfold ofChar?
  split
  · next hl => exact .inr (.inl (.inl hl))
  split
  · next hd => exact .inr (.inl (.inr hd))
  split <;> simp [Segment.blanks, Segment.symbols]

theorem ofChar?_of_stray (h : Segment.IsStray c) (hc : c ≠ '\x7d') : ofChar? c = none := by
  rcases known_or_unknown c with hn | ha | hb | ho | hb | ⟨kind, hk⟩
  · exact hn
  · rw [h.not_alphanum] at ha
    cases ha
  · exact absurd hb h.not_blank
  · exact absurd ho h.not_opening
  · exact absurd hb hc
  · exact absurd hk (h.not_symbol kind)

theorem ofChar?_ne_none (h : ofChar c ≠ .punctuation) : ofChar? c ≠ none := by
  intro hn
  exact h (by rw [ofChar, hn]; rfl)

end CharClass

theorem Keyword.capital_of_isAlphanum {c : Char} (h : c.isAlphanum = true) :
    capital c = c.toUpper := by
  unfold capital
  rw [if_neg (by rintro rfl; revert h; decide), if_neg (by rintro rfl; revert h; decide)]

namespace ScanMachine

variable {line : Nat} {m : ScanMachine} {c : Char}

def between (column : Nat) (tokens : List Token) (warnings : List Diagnostic) : ScanMachine :=
  { start := column, column, tokens, warnings }

theorem warn_of_known (h : CharClass.ofChar? c ≠ none) : m.warn line c = m := by
  simp [warn, h]

theorem warn_in_comment (h : m.state = .inComment) : m.warn line c = m := by
  simp [warn, h]

theorem read_gather {s s' : ScanState} {p : List Char} {k n : Nat} {ts : List Token}
    {ws : List Diagnostic} (hs : s.next (.ofChar c) = s') (ha : s'.acceptor? = none)
    (hne : s' ≠ .start) (hw : s = .inComment ∨ CharClass.ofChar c ≠ .punctuation) :
    read line ⟨s, p, k, n, ts, ws⟩ c = ⟨s', c :: p, k, n + 1, ts, ws⟩ := by
  have hwarn : warn line ⟨s, p, k, n, ts, ws⟩ c = ⟨s, p, k, n, ts, ws⟩ := by
    rcases hw with hw | hw
    · exact warn_in_comment hw
    · exact warn_of_known (CharClass.ofChar?_ne_none hw)
  simp [read, hwarn, step, hs, ha, hne]

@[simp] theorem warn_state : (m.warn line c).state = m.state := by
  unfold warn; split <;> rfl

@[simp] theorem warn_pending : (m.warn line c).pending = m.pending := by
  unfold warn; split <;> rfl

@[simp] theorem warn_column : (m.warn line c).column = m.column := by
  unfold warn; split <;> rfl

theorem read_accept {a : Acceptor} (ha : (m.state.next (.ofChar c)).acceptor? = some a)
    (hr : a.retract = false) :
    m.read line c = (m.warn line c).finish line a.kind? (c :: m.pending) (m.column + 1) := by
  simp [read, step, ha, hr]

theorem step_start (h : m.state = .start) : (m.step line c).2 = true := by
  cases hk : CharClass.ofChar c <;>
    simp [step, h, hk, ScanState.next, ScanState.acceptor?, ScanState.always]

theorem read_start (h : m.state = .start) :
    m.read line c = ((m.warn line c).step line c).1 := by
  have hpass : ((m.warn line c).step line c).2 = true := step_start (by rw [warn_state, h])
  unfold read
  split
  · next hm => rw [hm]
  · next hm =>
    rw [hm] at hpass
    cases hpass

theorem warn_finish (h : m.state ≠ .inComment) (kind? : List Char → Option TokenKind) :
    (m.warn line c).finish line kind? m.pending m.column =
      (m.finish line kind? m.pending m.column).warn line c := by
  by_cases hc : CharClass.ofChar? c = none
  · simp [warn, finish, h, hc]
  · simp [warn, hc]

/-- A character that shows that a lexeme has ended before it is read again from the start. -/
theorem read_retract {a : Acceptor} (ha : (m.state.next (.ofChar c)).acceptor? = some a)
    (hr : a.retract = true) :
    m.read line c = (m.finish line a.kind? m.pending m.column).read line c := by
  have hm : m.state ≠ .inComment := by
    intro hm
    rw [hm] at ha
    cases hk : CharClass.ofChar c <;> rw [hk] at ha <;> cases ha
    cases hr
  have hs : (m.finish line a.kind? m.pending m.column).state = .start := rfl
  rw [read_start hs, ← warn_finish hm]
  simp [read, step, ha, hr]

end ScanMachine

open ScanMachine

namespace Segment

variable {line k : Nat} {ts : List Token} {ws : List Diagnostic}

def warning? (line column : Nat) : Segment → Option Diagnostic
  | lexeme .error [c] => if c = '\x7d' then none else some (.unknownInput c ⟨line, column⟩)
  | _ => none

theorem foldl_read_gather {s : ScanState} (ha : s.acceptor? = none) (hne : s ≠ .start)
    {cs : List Char} (hcs : ∀ c ∈ cs, s.next (.ofChar c) = s ∧
      (s = .inComment ∨ CharClass.ofChar c ≠ .punctuation)) (p : List Char) (n : Nat) :
    cs.foldl (read line) ⟨s, p, k, n, ts, ws⟩ =
      ⟨s, cs.reverse ++ p, k, n + cs.length, ts, ws⟩ := by
  induction cs generalizing p n with
  | nil => rfl
  | cons c cs ih =>
    obtain ⟨⟨hc, hw⟩, hcs⟩ := List.forall_mem_cons.mp hcs
    rw [List.foldl_cons, read_gather hc ha hne hw, ih hcs]
    simp [Nat.add_assoc, Nat.add_comm 1]

theorem exists_next {p : Char → Bool} {rest : List Char} (h : ∀ d ∈ rest.head?, p d = false)
    (hp : p ' ' = false) : ∃ d r, rest ++ [' '] = d :: r ∧ p d = false := by
  cases rest with
  | nil => exact ⟨' ', [], rfl, hp⟩
  | cons d r => exact ⟨d, r ++ [' '], rfl, h d rfl⟩

theorem wordKind_eq {cs : List Char} (h : ∀ c ∈ cs, c.isAlphanum = true) :
    TokenKind.ofWord cs = wordKind cs := by
  have hmap : cs.map Keyword.capital = cs.map Char.toUpper :=
    List.map_congr_left fun c hc => Keyword.capital_of_isAlphanum (h c hc)
  have htable : Keyword.table = reserved := rfl
  rw [TokenKind.ofWord, hmap, htable, wordKind]

/-- A lexeme that is over when a character comes that it cannot take in. -/
theorem foldl_read_retract {s : ScanState} {a : Acceptor} {kind : TokenKind} {c d : Char}
    {cs : List Char} (hc : ScanState.start.next (.ofChar c) = s) (hs : s.acceptor? = none)
    (hne : s ≠ .start) (hcs : ∀ e ∈ cs, s.next (.ofChar e) = s ∧ CharClass.ofChar e ≠ .punctuation)
    (hd : (s.next (.ofChar d)).acceptor? = some a) (hr : a.retract = true)
    (hk : a.kind? (c :: cs) = some kind) (r : List Char) :
    (c :: cs ++ d :: r).foldl (read line) (between k ts ws) =
      (d :: r).foldl (read line) (between (k + (c :: cs).length)
        (⟨kind, encode (c :: cs), ⟨line, k⟩⟩ :: ts) ws) := by
  have hp : CharClass.ofChar c ≠ .punctuation := by
    intro hp
    rw [hp] at hc
    subst hc
    cases hs
  have hgather : cs.foldl (read line) ⟨s, [c], k, k + 1, ts, ws⟩ =
      ⟨s, cs.reverse ++ [c], k, k + 1 + cs.length, ts, ws⟩ :=
    foldl_read_gather hs hne (fun e he => ⟨(hcs e he).1, .inr (hcs e he).2⟩) _ _
  have hfirst : read line (between k ts ws) c = ⟨s, [c], k, k + 1, ts, ws⟩ :=
    read_gather hc hs hne (.inr hp)
  have hend : read line ⟨s, cs.reverse ++ [c], k, k + 1 + cs.length, ts, ws⟩ d =
      read line (between (k + (c :: cs).length)
        (⟨kind, encode (c :: cs), ⟨line, k⟩⟩ :: ts) ws) d := by
    rw [read_retract hd hr]
    simp [finish, between, hk, Nat.add_assoc, Nat.add_comm 1]
  simp only [List.foldl_append, List.foldl_cons, hfirst, hgather, hend]

theorem foldl_read_word {c : Char} {cs rest : List Char} (hc : c.isAlpha = true)
    (hcs : ∀ d ∈ cs, d.isAlphanum = true) (hrest : ∀ d ∈ rest.head?, d.isAlphanum = false) :
    (c :: cs ++ (rest ++ [' '])).foldl (read line) (between k ts ws) =
      (rest ++ [' ']).foldl (read line) (between (k + (c :: cs).length)
        (⟨wordKind (c :: cs), encode (c :: cs), ⟨line, k⟩⟩ :: ts) ws) := by
  obtain ⟨d, r, hr, hd⟩ := exists_next hrest rfl
  have hend : ScanState.inIdent.next (.ofChar d) = .endIdent := by
    rw [Char.isAlphanum, Bool.or_eq_false_iff] at hd
    cases hk : CharClass.ofChar d with
    | letter => simp [CharClass.ofChar_eq_letter_iff.mp hk] at hd
    | digit => simp [CharClass.ofChar_eq_digit_iff.mp hk] at hd
    | _ => rfl
  have hkind : TokenKind.ofWord (c :: cs) = wordKind (c :: cs) :=
    wordKind_eq (List.forall_mem_cons.mpr ⟨by simp [Char.isAlphanum, hc], hcs⟩)
  rw [hr]
  apply foldl_read_retract (s := .inIdent) _ rfl (by decide) _
    (congrArg ScanState.acceptor? hend) rfl
  · exact congrArg some hkind
  · rw [CharClass.ofChar_eq_letter_iff.mpr hc]
    rfl
  · intro e he
    rcases CharClass.ofChar_of_isAlphanum (hcs e he) with h | h <;> simp [h, ScanState.next]

theorem foldl_read_number {c : Char} {cs rest : List Char} (hc : c.isDigit = true)
    (hcs : ∀ d ∈ cs, d.isDigit = true) (hrest : ∀ d ∈ rest.head?, d.isDigit = false) :
    (c :: cs ++ (rest ++ [' '])).foldl (read line) (between k ts ws) =
      (rest ++ [' ']).foldl (read line) (between (k + (c :: cs).length)
        (⟨.number, encode (c :: cs), ⟨line, k⟩⟩ :: ts) ws) := by
  obtain ⟨d, r, hr, hd⟩ := exists_next hrest rfl
  have hend : ScanState.inNumber.next (.ofChar d) = .endNumber := by
    cases hk : CharClass.ofChar d with
    | digit => simp [CharClass.ofChar_eq_digit_iff.mp hk] at hd
    | _ => rfl
  rw [hr]
  apply foldl_read_retract (s := .inNumber) _ rfl (by decide) _
    (congrArg ScanState.acceptor? hend) rfl rfl
  · rw [CharClass.ofChar_eq_digit_iff.mpr hc]
    rfl
  · intro e he
    simp [CharClass.ofChar_eq_digit_iff.mpr (hcs e he), ScanState.next]

theorem warning?_of_ne {kind : TokenKind} (h : kind ≠ .error) (text : List Char) :
    warning? line k (lexeme kind text) = none := by
  unfold warning?
  split
  · next hg =>
    cases hg
    exact absurd rfl h
  · rfl

theorem wordKind_ne_error (cs : List Char) : wordKind cs ≠ .error := by
  rcases wordKind_cases cs with hm | ⟨-, hident⟩
  · have hne : ∀ p ∈ reserved, p.2 ≠ .error := by decide
    exact hne _ hm
  · rw [hident]
    nofun

theorem read_single {a : Acceptor} {kind : TokenKind} {c : Char}
    (ha : (ScanState.start.next (.ofChar c)).acceptor? = some a) (hr : a.retract = false)
    (hk : a.kind? [c] = some kind) :
    read line (between k ts ws) c = between (k + 1) (⟨kind, encode [c], ⟨line, k⟩⟩ :: ts)
      (if CharClass.ofChar? c = none then .unknownInput c ⟨line, k⟩ :: ws else ws) := by
  rw [read_accept ha hr]
  by_cases hc : CharClass.ofChar? c = none <;> simp [finish, between, warn, hk, hc]

theorem symbols_accepted : ∀ p ∈ symbols, CharClass.ofChar? p.1 ≠ none ∧ p.2 ≠ .error ∧
    (ScanState.start.next (.ofChar p.1)).acceptor?.map (fun a => (a.retract, a.kind? [p.1])) =
      some (false, some p.2) := by
  decide

theorem foldl_read_isLexeme {kind : TokenKind} {text rest : List Char}
    (h : IsLexeme kind text rest) :
    (text ++ (rest ++ [' '])).foldl (read line) (between k ts ws) =
      (rest ++ [' ']).foldl (read line) (between (k + text.length)
        (⟨kind, encode text, ⟨line, k⟩⟩ :: ts)
          ((warning? line k (lexeme kind text)).toList ++ ws)) := by
  cases h with
  | word hc hcs hrest =>
    rw [foldl_read_word hc hcs hrest, warning?_of_ne (wordKind_ne_error _)]
    rfl
  | number hc hcs hrest => exact foldl_read_number hc hcs hrest
  | lessEqual | notEqual | greaterEqual => rfl
  | less he hg =>
    have hrest : ∀ d ∈ rest.head?, (d == '=' || d == '>') = false := by
      intro d hd
      simp_all
    obtain ⟨d, r, hr, hd⟩ := exists_next (p := fun d => d == '=' || d == '>') hrest rfl
    have hend : ScanState.less.next (.ofChar d) = .endLess := by
      cases hk : CharClass.ofChar d with
      | equal => simp [CharClass.eq_of_char?_ofChar (congrArg CharClass.char? hk)] at hd
      | greater => simp [CharClass.eq_of_char?_ofChar (congrArg CharClass.char? hk)] at hd
      | _ => rfl
    rw [hr]
    exact foldl_read_retract (s := .less) rfl rfl (by decide) (List.forall_mem_nil _)
      (congrArg ScanState.acceptor? hend) rfl rfl r
  | greater he =>
    have hrest : ∀ d ∈ rest.head?, (d == '=') = false := by
      intro d hd
      simp_all
    obtain ⟨d, r, hr, hd⟩ := exists_next (p := (· == '=')) hrest rfl
    have hend : ScanState.greater.next (.ofChar d) = .endGreater := by
      cases hk : CharClass.ofChar d with
      | equal => simp [CharClass.eq_of_char?_ofChar (congrArg CharClass.char? hk)] at hd
      | _ => rfl
    rw [hr]
    exact foldl_read_retract (s := .greater) rfl rfl (by decide) (List.forall_mem_nil _)
      (congrArg ScanState.acceptor? hend) rfl rfl r
  | @symbol c _ _ h =>
    obtain ⟨hc, hne, ha⟩ := symbols_accepted _ h
    obtain ⟨a, ha, hk⟩ := Option.map_eq_some_iff.mp ha
    obtain ⟨hr, hk⟩ := Prod.mk.inj hk
    rw [List.singleton_append, List.foldl_cons, read_single ha hr hk, if_neg hc,
      warning?_of_ne hne]
    rfl
  | @stray c _ h =>
    by_cases hc : c = '\x7d'
    · subst hc
      rfl
    · have hn := CharClass.ofChar?_of_stray h hc
      have hp : CharClass.ofChar c = .punctuation := by rw [CharClass.ofChar, hn]; rfl
      rw [List.singleton_append, List.foldl_cons, read_single (by rw [hp]; rfl) rfl rfl, if_pos hn]
      simp [warning?, hc]

theorem foldl_read_comment {body : List Char} (h : '\x7d' ∉ body) (r : List Char) :
    ('\x7b' :: (body ++ r)).foldl (read line) (between k ts ws) =
      r.foldl (read line)
        ⟨.inComment, body.reverse ++ ['\x7b'], k, k + 1 + body.length, ts, ws⟩ := by
  have hfirst : read line (between k ts ws) '\x7b' = ⟨.inComment, ['\x7b'], k, k + 1, ts, ws⟩ :=
    rfl
  rw [List.foldl_cons, hfirst, List.foldl_append,
    foldl_read_gather (s := .inComment) rfl (by decide)]
  intro c hc
  refine ⟨?_, .inl rfl⟩
  cases hk : CharClass.ofChar c with
  | closeBrace =>
    rw [CharClass.eq_of_char?_ofChar (congrArg CharClass.char? hk)] at hc
    exact absurd hc h
  | _ => rfl

theorem Fits.foldl_read {g : Segment} {rest : List Char} (h : g.Fits rest)
    (hg : ∀ body, g ≠ unclosed body) :
    (g.text ++ (rest ++ [' '])).foldl (read line) (between k ts ws) =
      (rest ++ [' ']).foldl (read line) (between (k + g.text.length)
        ((g.token? line k).toList ++ ts) ((g.warning? line k).toList ++ ws)) := by
  cases g with
  | blank c =>
    have hc : c ∈ blanks := h
    simp only [blanks, List.mem_cons, List.not_mem_nil, or_false] at hc
    rcases hc with rfl | rfl | rfl <;> rfl
  | comment body =>
    have htext : (comment body).text ++ (rest ++ [' ']) =
        '\x7b' :: (body ++ '\x7d' :: (rest ++ [' '])) := by simp [text]
    have hlength : k + (comment body).text.length = k + 1 + body.length + 1 := by
      simp [text]
      omega
    rw [htext, foldl_read_comment h, List.foldl_cons, hlength]
    rfl
  | unclosed body => exact absurd rfl (hg body)
  | lexeme kind text => exact foldl_read_isLexeme h

def warnings (line : Nat) : Nat → List Segment → List Diagnostic
  | _, [] => []
  | column, g :: gs => (g.warning? line column).toList ++ warnings line (column + g.text.length) gs

theorem Cuts.foldl_read {cs : List Char} {gs : List Segment} (h : Cuts cs gs) :
    let m := (cs ++ [' ']).foldl (read line) (between k ts ws)
    m.tokens = (tokens line k gs).reverse ++ ts ∧
      m.warnings = (warnings line k gs).reverse ++ ws ∧
      (m.state = .inComment ↔ ∃ body, unclosed body ∈ gs) := by
  induction h generalizing k ts ws with
  | nil =>
    have hblank : [' '].foldl (read line) (between k ts ws) = between (k + 1) ts ws := rfl
    rw [List.nil_append, hblank]
    exact ⟨rfl, rfl, by simp [between]⟩
  | @cons g rest gs hg h ih =>
    by_cases hu : ∃ body, g = unclosed body
    · -- the space behind the line belongs to the comment as well
      obtain ⟨body, rfl⟩ := hu
      obtain ⟨hb, rfl⟩ := hg
      obtain rfl := cuts_nil_iff.mp h
      have htext : (unclosed body).text ++ [] ++ [' '] = '\x7b' :: (body ++ [' ']) := by
        simp [text]
      rw [htext, foldl_read_comment hb]
      exact ⟨rfl, rfl, iff_of_true rfl ⟨body, List.mem_cons_self ..⟩⟩
    · rw [List.append_assoc, hg.foldl_read (not_exists.mp hu)]
      obtain ⟨htokens, hwarnings, hstate⟩ := @ih (k + g.text.length)
        ((g.token? line k).toList ++ ts) ((g.warning? line k).toList ++ ws)
      refine ⟨?_, ?_, ?_⟩
      · rw [htokens]
        cases g <;> simp [tokens, token?]
      · rw [hwarnings, warnings]
        cases g.warning? line k <;> simp
      · rw [hstate]
        simp only [List.mem_cons, not_exists.mp hu, eq_comm (b := g), false_or]

theorem Cuts.tokens_foldl_read {cs : List Char} {gs : List Segment} (h : Cuts cs gs) :
    ((cs ++ [' ']).foldl (read line) (between k ts ws)).tokens =
      (tokens line k gs).reverse ++ ts :=
  h.foldl_read.1

/-- The scan of a text is told by its segments. -/
theorem Cuts.scanLine_eq {text : Bytes} {gs : List Segment} (h : Cuts (decode text) gs)
    (line : Nat) : scanLine line text = ⟨tokens line 0 gs, warnings line 0 gs⟩ := by
  let m : ScanMachine := (decode text ++ [' ']).foldl (read line) {}
  obtain ⟨htokens, hwarnings, -⟩ :
      m.tokens = (tokens line 0 gs).reverse ++ [] ∧
        m.warnings = (warnings line 0 gs).reverse ++ [] ∧
        (m.state = .inComment ↔ ∃ body, unclosed body ∈ gs) := h.foldl_read
  have hscan : scanLine line text = ⟨m.tokens.reverse, m.warnings.reverse⟩ := rfl
  rw [hscan, htokens, hwarnings]
  simp

end Segment

/-- A line is cut into segments in one way only, and the scanner gives the lexemes among them. -/
theorem Scanner.scanText_gives_lexemes (s : Scanner) (text : Bytes) :
    ∃ gs, (∀ gs', Segment.Cuts (decode text) gs' ↔ gs' = gs) ∧
      (s.scanText text).tokens = Segment.tokens s.line 0 gs := by
  obtain ⟨gs, hgs, hunique⟩ := Segment.existsUnique_cuts (decode text)
  refine ⟨gs, fun gs' => ⟨hunique gs', fun h => h ▸ hgs⟩, ?_⟩
  have hread : ((decode text ++ [' ']).foldl (ScanMachine.read s.line) {}).tokens =
      (Segment.tokens s.line 0 gs).reverse ++ [] := hgs.tokens_foldl_read
  rw [List.append_nil] at hread
  simp only [scanText, scanLine, scanChars, hread, List.reverse_reverse]

end ThreeAddress
