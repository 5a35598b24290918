import Mathlib.Data.List.TakeWhile
import ThreeAddress.Text.Utf8
import ThreeAddress.Token.Basic

namespace ThreeAddress

inductive Segment where
  | blank (c : Char)
  /-- A comment, given without its braces. -/
  | comment (body : List Char)
  /-- A comment that goes on to the end of the line. -/
  | unclosed (body : List Char)
  | lexeme (kind : TokenKind) (text : List Char)

namespace Segment

def text : Segment → List Char
  | blank c => [c]
  | comment body => '\x7b' :: (body ++ ['\x7d'])
  | unclosed body => '\x7b' :: body
  | lexeme _ text => text

def blanks : List Char := [' ', '\t', '\r']

/-- The characters that are a lexeme whatever comes behind them. -/
def symbols : List (Char × TokenKind) :=
  [('(', .openParen), (')', .closeParen), ('=', .equal), ('#', .unaryPlus), ('~', .unaryMinus),
    ('^', .power), ('+', .plus), ('-', .minus), ('*', .times), ('/', .divide), (';', .semicolon),
    ('.', .period)]

structure IsStray (c : Char) : Prop where
  not_blank : c ∉ blanks
  not_alphanum : c.isAlphanum = false
  not_opening : c ∉ ['\x7b', '<', '>']
  not_symbol : ∀ kind, (c, kind) ∉ symbols

def reserved : List (List Char × TokenKind) :=
  [("DIV".toList, .intDivide), ("MOD".toList, .modulo), ("PROGRAM".toList, .programWord),
    ("END".toList, .endWord), ("IF".toList, .ifWord), ("WHILE".toList, .whileWord),
    ("THEN".toList, .thenWord), ("DO".toList, .doWord)]

/-- A reserved word may be written in capitals and small letters; every other word is a name. -/
def wordKind (word : List Char) : TokenKind :=
  (reserved.lookup (word.map Char.toUpper)).getD .ident

inductive IsLexeme : TokenKind → List Char → List Char → Prop
  | word {c : Char} {cs rest : List Char} (hc : c.isAlpha = true)
      (hcs : ∀ d ∈ cs, d.isAlphanum = true) (hrest : ∀ d ∈ rest.head?, d.isAlphanum = false) :
      IsLexeme (wordKind (c :: cs)) (c :: cs) rest
  | number {c : Char} {cs rest : List Char} (hc : c.isDigit = true)
      (hcs : ∀ d ∈ cs, d.isDigit = true) (hrest : ∀ d ∈ rest.head?, d.isDigit = false) :
      IsLexeme .number (c :: cs) rest
  | lessEqual {rest : List Char} : IsLexeme .lessEqual ['<', '='] rest
  | notEqual {rest : List Char} : IsLexeme .notEqual ['<', '>'] rest
  | greaterEqual {rest : List Char} : IsLexeme .greaterEqual ['>', '='] rest
  | less {rest : List Char} (he : rest.head? ≠ some '=') (hg : rest.head? ≠ some '>') :
      IsLexeme .less ['<'] rest
  | greater {rest : List Char} (he : rest.head? ≠ some '=') : IsLexeme .greater ['>'] rest
  | symbol {c : Char} {kind : TokenKind} {rest : List Char} (h : (c, kind) ∈ symbols) :
      IsLexeme kind [c] rest
  | stray {c : Char} {rest : List Char} (h : IsStray c) : IsLexeme .error [c] rest

/-- The segment may stand in a line where `rest` comes behind it. -/
def Fits : Segment → List Char → Prop
  | blank c, _ => c ∈ blanks
  | comment body, _ => '\x7d' ∉ body
  | unclosed body, rest => '\x7d' ∉ body ∧ rest = []
  | lexeme kind text, rest => IsLexeme kind text rest

inductive Cuts : List Char → List Segment → Prop
  | nil : Cuts [] []
  | cons {g : Segment} {rest : List Char} {gs : List Segment} (hg : g.Fits rest)
      (h : Cuts rest gs) : Cuts (g.text ++ rest) (g :: gs)

def token? (line column : Nat) : Segment → Option Token
  | lexeme kind text => some ⟨kind, encode text, ⟨line, column⟩⟩
  | _ => none

def tokens (line : Nat) : Nat → List Segment → List Token
  | _, [] => []
  | column, g :: gs => (g.token? line column).toList ++ tokens line (column + g.text.length) gs

def first (c : Char) (cs : List Char) : Segment × List Char :=
  if c.isAlpha then
    let word := c :: cs.takeWhile Char.isAlphanum
    (lexeme (wordKind word) word, cs.dropWhile Char.isAlphanum)
  else if c.isDigit then
    (lexeme .number (c :: cs.takeWhile Char.isDigit), cs.dropWhile Char.isDigit)
  else if c ∈ blanks then (blank c, cs)
  else if c = '\x7b' then
    if '\x7d' ∈ cs then
      (comment (cs.takeWhile (· != '\x7d')), (cs.dropWhile (· != '\x7d')).tail)
    else (unclosed cs, [])
  else if c = '<' then
    if cs.head? = some '=' then (lexeme .lessEqual [c, '='], cs.tail)
    else if cs.head? = some '>' then (lexeme .notEqual [c, '>'], cs.tail)
    else (lexeme .less [c], cs)
  else if c = '>' then
    if cs.head? = some '=' then (lexeme .greaterEqual [c, '='], cs.tail)
    else (lexeme .greater [c], cs)
  else (lexeme ((symbols.lookup c).getD .error) [c], cs)

theorem takeWhile_append_of_boundary {α : Type} {p : α → Bool} {cs rest : List α}
    (hcs : ∀ d ∈ cs, p d = true) (hrest : ∀ d ∈ rest.head?, p d = false) :
    (cs ++ rest).takeWhile p = cs ∧ (cs ++ rest).dropWhile p = rest := by
  rw [List.takeWhile_append_of_pos hcs, List.dropWhile_append_of_pos hcs]
  cases rest with
  | nil => simp
  | cons d rest =>
    have hd : p d = false := hrest d rfl
    simp [hd]

theorem boundary_dropWhile {α : Type} (p : α → Bool) (cs : List α) :
    ∀ d ∈ (cs.dropWhile p).head?, p d = false := by
  intro d hd
  have h := List.head?_dropWhile_not p cs
  rw [Option.mem_def.mp hd] at h
  exact h

theorem isAlpha_iff {c : Char} :
    c.isAlpha = true ↔ ('a' ≤ c ∧ c ≤ 'z') ∨ ('A' ≤ c ∧ c ≤ 'Z') := by
  change (decide (c.val ≥ 'A'.val ∧ c.val ≤ 'Z'.val) ||
    decide (c.val ≥ 'a'.val) && decide (c.val ≤ 'z'.val)) = true ↔ _
  simp only [Bool.or_eq_true, Bool.and_eq_true, decide_eq_true_eq]
  exact or_comm

theorem isDigit_iff {c : Char} : c.isDigit = true ↔ '0' ≤ c ∧ c ≤ '9' := by
  simp only [Char.isDigit, Bool.and_eq_true, decide_eq_true_eq]
  rfl

theorem isAlpha_of_isDigit {c : Char} (h : c.isDigit = true) : c.isAlpha = false := by
  obtain ⟨-, hnine⟩ := isDigit_iff.mp h
  by_contra halpha
  have hA : 'A' ≤ c := by
    rcases isAlpha_iff.mp (eq_true_of_ne_false halpha) with ⟨ha, -⟩ | ⟨hA, -⟩
    · exact Nat.le_trans (by decide : 'A'.toNat ≤ 'a'.toNat) ha
    · exact hA
  exact absurd (Nat.le_trans hA hnine) (by decide)

theorem IsStray.lookup_symbols {c : Char} (h : IsStray c) : symbols.lookup c = none := by
  rw [List.lookup_eq_none_iff]
  rintro ⟨d, kind⟩ hd
  apply bne_iff_ne.mpr
  rintro rfl
  exact h.not_symbol kind hd

theorem symbols_apart : ∀ p ∈ symbols, p.1.isAlphanum = false ∧ p.1 ∉ blanks ∧
    p.1 ∉ ['\x7b', '<', '>'] ∧ symbols.lookup p.1 = some p.2 := by
  decide

theorem wordKind_cases (word : List Char) :
    (word.map Char.toUpper, wordKind word) ∈ reserved ∨
      word.map Char.toUpper ∉ reserved.map Prod.fst ∧ wordKind word = .ident := by
  unfold wordKind
  cases h : reserved.lookup (word.map Char.toUpper) with
  | none =>
    refine .inr ⟨fun hm => ?_, rfl⟩
    obtain ⟨p, hp, heq⟩ := List.mem_map.mp hm
    simpa [heq] using List.lookup_eq_none_iff.mp h p hp
  | some kind =>
    obtain ⟨l, l', hl, -⟩ := List.lookup_eq_some_iff.mp h
    exact .inl (by simp [hl])

theorem first_of_isLexeme {kind : TokenKind} {text rest : List Char} {c : Char}
    {cs : List Char} (h : IsLexeme kind text rest) (hc : c :: cs = text ++ rest) :
    first c cs = (lexeme kind text, rest) := by
  cases h with
  | word ha hw hrest =>
    obtain ⟨rfl, rfl⟩ := List.cons.inj hc
    obtain ⟨ht, hd⟩ := takeWhile_append_of_boundary hw hrest
    simp [first, ha, ht, hd]
  | number hd hn hrest =>
    obtain ⟨rfl, rfl⟩ := List.cons.inj hc
    obtain ⟨ht, hr⟩ := takeWhile_append_of_boundary hn hrest
    simp [first, isAlpha_of_isDigit hd, hd, ht, hr]
  | lessEqual | notEqual | greaterEqual =>
    obtain ⟨rfl, rfl⟩ := List.cons.inj hc
    rfl
  | less he hg =>
    obtain ⟨rfl, rfl⟩ := List.cons.inj hc
    simp [first, blanks, he, hg]
  | greater he =>
    obtain ⟨rfl, rfl⟩ := List.cons.inj hc
    simp [first, blanks, he]
  | symbol h =>
    obtain ⟨rfl, rfl⟩ := List.cons.inj hc
    obtain ⟨hn, hb, ho, hl⟩ := symbols_apart _ h
    simp only [Char.isAlphanum, Bool.or_eq_false_iff, List.mem_cons, not_or] at hn ho
    simp [first, hn, hb, ho, hl]
  | stray h =>
    obtain ⟨rfl, rfl⟩ := List.cons.inj hc
    have ha := h.not_alphanum
    have ho := h.not_opening
    simp only [Char.isAlphanum, Bool.or_eq_false_iff, List.mem_cons, not_or] at ha ho
    simp [first, ha, h.not_blank, ho, h.lookup_symbols]

theorem first_of_fits {g : Segment} {rest : List Char} {c : Char} {cs : List Char}
    (h : g.Fits rest) (hc : c :: cs = g.text ++ rest) : first c cs = (g, rest) := by
  cases g with
  | blank d =>
    obtain ⟨rfl, rfl⟩ := List.cons.inj hc
    have hd : c ∈ blanks := h
    simp only [blanks, List.mem_cons, List.not_mem_nil, or_false] at hd
    rcases hd with rfl | rfl | rfl <;> rfl
  | comment body =>
    have hb : '\x7d' ∉ body := h
    obtain ⟨rfl, rfl⟩ : c = '\x7b' ∧ cs = body ++ '\x7d' :: rest := by simpa [text] using hc
    have hbody : ∀ d ∈ body, (d != '\x7d') = true := by
      rintro d hd
      exact bne_iff_ne.mpr fun he => hb (he ▸ hd)
    have hclose : ∀ d ∈ ('\x7d' :: rest).head?, (d != '\x7d') = false := by simp
    obtain ⟨ht, hd⟩ := takeWhile_append_of_boundary (p := (· != '\x7d')) hbody hclose
    simp [first, blanks, ht, hd]
  | unclosed body =>
    obtain ⟨hb, rfl⟩ := h
    obtain ⟨rfl, rfl⟩ := List.cons.inj hc
    simp [first, blanks, hb]
  | lexeme kind text => exact first_of_isLexeme h hc

theorem exists_fits (c : Char) (cs : List Char) :
    ∃ (g : Segment) (rest : List Char), g.Fits rest ∧ c :: cs = g.text ++ rest := by
  by_cases ha : c.isAlpha = true
  · refine ⟨lexeme _ (c :: cs.takeWhile Char.isAlphanum), _,
      .word ha ?_ (boundary_dropWhile _ cs), ?_⟩
    · exact fun d hd => List.mem_takeWhile_imp hd
    · simp [text]
  by_cases hd : c.isDigit = true
  · refine ⟨lexeme _ (c :: cs.takeWhile Char.isDigit), _,
      .number hd ?_ (boundary_dropWhile _ cs), ?_⟩
    · exact fun d hd => List.mem_takeWhile_imp hd
    · simp [text]
  by_cases hb : c ∈ blanks
  · exact ⟨blank c, cs, hb, rfl⟩
  by_cases ho : c = '\x7b'
  · by_cases hm : '\x7d' ∈ cs
    · obtain ⟨body, rest, rfl, hbody⟩ := List.eq_append_cons_of_mem hm
      exact ⟨comment body, rest, hbody, by simp [text, ho]⟩
    · exact ⟨unclosed cs, [], ⟨hm, rfl⟩, by simp [text, ho]⟩
  by_cases hl : c = '<'
  · subst hl
    by_cases he : cs.head? = some '='
    · obtain ⟨rest, rfl⟩ := List.head?_eq_some_iff.mp he
      exact ⟨lexeme .lessEqual ['<', '='], rest, .lessEqual, rfl⟩
    by_cases hg : cs.head? = some '>'
    · obtain ⟨rest, rfl⟩ := List.head?_eq_some_iff.mp hg
      exact ⟨lexeme .notEqual ['<', '>'], rest, .notEqual, rfl⟩
    · exact ⟨lexeme .less ['<'], cs, .less he hg, rfl⟩
  by_cases hg : c = '>'
  · subst hg
    by_cases he : cs.head? = some '='
    · obtain ⟨rest, rfl⟩ := List.head?_eq_some_iff.mp he
      exact ⟨lexeme .greaterEqual ['>', '='], rest, .greaterEqual, rfl⟩
    · exact ⟨lexeme .greater ['>'], cs, .greater he, rfl⟩
  by_cases hs : ∃ kind, (c, kind) ∈ symbols
  · obtain ⟨kind, hk⟩ := hs
    exact ⟨lexeme kind [c], cs, .symbol hk, rfl⟩
  · refine ⟨lexeme .error [c], cs, .stray ⟨hb, ?_, ?_, not_exists.mp hs⟩, rfl⟩
    · simp [Char.isAlphanum, ha, hd]
    · simp [ho, hl, hg]

theorem Fits.text_ne_nil {g : Segment} {rest : List Char} (h : g.Fits rest) : g.text ≠ [] := by
  cases g with
  | blank | comment | unclosed => simp [text]
  | lexeme kind text => cases h <;> simp [Segment.text]

theorem fits_first (c : Char) (cs : List Char) :
    (first c cs).1.Fits (first c cs).2 ∧ c :: cs = (first c cs).1.text ++ (first c cs).2 := by
  obtain ⟨g, rest, hg, hc⟩ := exists_fits c cs
  rw [first_of_fits hg hc]
  exact ⟨hg, hc⟩

theorem cuts_nil_iff {gs : List Segment} : Cuts [] gs ↔ gs = [] := by
  constructor
  · intro h
    generalize hcs : ([] : List Char) = cs at h
    cases h with
    | nil => rfl
    | cons hg _ => exact absurd (List.append_eq_nil_iff.mp hcs.symm).1 hg.text_ne_nil
  · rintro rfl
    exact .nil

theorem cuts_cons_iff {c : Char} {cs : List Char} {gs : List Segment} :
    Cuts (c :: cs) gs ↔ ∃ gs', gs = (first c cs).1 :: gs' ∧ Cuts (first c cs).2 gs' := by
  constructor
  · intro h
    generalize hcs : c :: cs = cs' at h
    cases h with
    | nil => cases hcs
    | cons hg h =>
      rw [first_of_fits hg hcs]
      exact ⟨_, rfl, h⟩
  · rintro ⟨gs', rfl, h⟩
    obtain ⟨hg, hc⟩ := fits_first c cs
    rw [hc]
    exact .cons hg h

theorem existsUnique_cuts (cs : List Char) : ∃! gs, Cuts cs gs := by
  induction hn : cs.length using Nat.strongRecOn generalizing cs with
  | ind n ih =>
  cases cs with
  | nil => exact ⟨[], .nil, fun gs h => cuts_nil_iff.mp h⟩
  | cons c cs =>
    obtain ⟨hg, hc⟩ := fits_first c cs
    have hlt : (first c cs).2.length < n := by
      have hlength := congrArg List.length hc
      have hpos := List.length_pos_iff.mpr hg.text_ne_nil
      rw [List.length_append, hn] at hlength
      omega
    obtain ⟨gs, h, hunique⟩ := ih _ hlt _ rfl
    refine ⟨_ :: gs, cuts_cons_iff.mpr ⟨gs, rfl, h⟩, fun gs' h' => ?_⟩
    obtain ⟨gs'', rfl, h''⟩ := cuts_cons_iff.mp h'
    rw [hunique gs'' h'']

end Segment

end ThreeAddress
