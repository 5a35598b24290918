import ThreeAddress.Proofs.Segmentation
import ThreeAddress.Text.Utf8.Boundary

namespace ThreeAddress

def Bytes.openBrace : UInt8 := 123

def Bytes.closeBrace : UInt8 := 125

/-- One blank, or one comment up to the first brace that closes it. -/
inductive Bytes.IsSeparator : Bytes → Prop
  | blank {x : UInt8} (h : x ∈ utf8 " \t\r") : IsSeparator [x]
  | comment {body : Bytes} (h : closeBrace ∉ body) :
      IsSeparator (openBrace :: (body ++ [closeBrace]))

def Token.shift (n : Nat) (t : Token) : Token :=
  { t with position := { t.position with column := t.position.column + n } }

/-- The machine stands in a comment when it has read all of the text. -/
def Scanner.EndsInComment (s : Scanner) (text : Bytes) : Prop :=
  ((decode text ++ [' ']).foldl (ScanMachine.read s.line) {}).state = .inComment

instance (s : Scanner) (text : Bytes) : Decidable (s.EndsInComment text) :=
  inferInstanceAs (Decidable (_ = _))

namespace Segment

variable {g : Segment} {cs ds rest : List Char} {gs hs : List Segment}

def separators : List Char := '\x7b' :: blanks

theorem separators_apart : ∀ d ∈ separators, d.isAlphanum = false ∧ d.isDigit = false ∧
    d ≠ '=' ∧ d ≠ '>' := by
  intro d hd
  simp only [separators, blanks, List.mem_cons, List.not_mem_nil, or_false] at hd
  rcases hd with rfl | rfl | rfl | rfl <;> decide

/-- Whether a segment fits depends on the first character behind it only, and a character that
separates suits all. -/
theorem Fits.of_head (h : g.Fits rest) (hg : ∀ body, g ≠ unclosed body)
    (hds : ∀ d ∈ ds.head?, d ∈ rest.head? ∨ d ∈ separators) : g.Fits ds := by
  have happly : ∀ {p : Char → Prop}, (∀ d ∈ rest.head?, p d) → (∀ d ∈ separators, p d) →
      ∀ d ∈ ds.head?, p d := by
    intro p hrest hsep d hd
    rcases hds d hd with hd | hd
    · exact hrest d hd
    · exact hsep d hd
  have hne : ∀ {e : Char}, rest.head? ≠ some e → (∀ d ∈ separators, d ≠ e) →
      ds.head? ≠ some e := by
    intro e hrest hsep he
    refine happly (p := (· ≠ e)) (fun d hd hde => hrest ?_) hsep e he rfl
    rw [← hde]
    exact hd
  cases g with
  | blank c => exact h
  | comment body => exact h
  | unclosed body => exact absurd rfl (hg body)
  | lexeme kind text =>
    cases h with
    | word hc hcs hrest =>
      exact .word hc hcs (happly hrest fun d hd => (separators_apart d hd).1)
    | number hc hcs hrest =>
      exact .number hc hcs (happly hrest fun d hd => (separators_apart d hd).2.1)
    | lessEqual => exact .lessEqual
    | notEqual => exact .notEqual
    | greaterEqual => exact .greaterEqual
    | less he hg =>
      exact .less (hne he fun d hd => (separators_apart d hd).2.2.1)
        (hne hg fun d hd => (separators_apart d hd).2.2.2)
    | greater he => exact .greater (hne he fun d hd => (separators_apart d hd).2.2.1)
    | symbol hs => exact .symbol hs
    | stray hs => exact .stray hs

theorem cuts_unclosed {body : List Char} (h : '\x7d' ∉ body) :
    Cuts ('\x7b' :: body) [unclosed body] := by
  have hcut : Cuts ((unclosed body).text ++ []) [unclosed body] := .cons ⟨h, rfl⟩ .nil
  rwa [List.append_nil] at hcut

theorem Cuts.append (h : Cuts cs gs) (hgs : ∀ body, unclosed body ∉ gs) (hcut : Cuts ds hs)
    (hds : ∀ d ∈ ds.head?, d ∈ separators) : Cuts (cs ++ ds) (gs ++ hs) := by
  induction h with
  | nil => exact hcut
  | @cons g rest gs hg h ih =>
    rw [List.append_assoc, List.cons_append]
    refine .cons (hg.of_head ?_ ?_) (ih fun body hb => hgs body (List.mem_cons_of_mem g hb))
    · rintro body rfl
      exact hgs body (List.mem_cons_self ..)
    · intro d hd
      cases rest with
      | nil => exact .inr (hds d hd)
      | cons e rest => exact .inl hd

/-- A comment that is not closed is the last segment, and those before it cut what stands before
it. -/
theorem Cuts.exists_unclosed (h : Cuts cs gs) (hgs : ∃ body, unclosed body ∈ gs) :
    ∃ cs' gs' body, cs = cs' ++ '\x7b' :: body ∧ gs = gs' ++ [unclosed body] ∧ Cuts cs' gs' ∧
      (∀ body, unclosed body ∉ gs') ∧ '\x7d' ∉ body := by
  induction h with
  | nil =>
    obtain ⟨body, hb⟩ := hgs
    cases hb
  | @cons g rest gs hg h ih =>
    by_cases hu : ∃ body, g = unclosed body
    · obtain ⟨body, rfl⟩ := hu
      obtain ⟨hb, rfl⟩ := hg
      obtain rfl := cuts_nil_iff.mp h
      exact ⟨[], [], body, by simp [text], rfl, .nil, fun _ => List.not_mem_nil, hb⟩
    · have hne := not_exists.mp hu
      obtain ⟨body, hb⟩ := hgs
      rcases List.mem_cons.mp hb with hb | hb
      · exact absurd hb.symm (hne body)
      · obtain ⟨cs', gs', body, rfl, rfl, hcut, hclosed, hbody⟩ := ih ⟨body, hb⟩
        refine ⟨g.text ++ cs', g :: gs', body, by simp, rfl, .cons (hg.of_head hne ?_) hcut, ?_,
          hbody⟩
        · intro d hd
          cases cs' with
          | nil => cases hd
          | cons e cs' => exact .inl hd
        · intro body hb
          rcases List.mem_cons.mp hb with hb | hb
          · exact hne body hb.symm
          · exact hclosed body hb

theorem Cuts.flatMap_text (h : Cuts cs gs) : gs.flatMap text = cs := by
  induction h with
  | nil => rfl
  | cons hg h ih => rw [List.flatMap_cons, ih]

theorem tokens_append (line k : Nat) (gs hs : List Segment) :
    tokens line k (gs ++ hs) =
      tokens line k gs ++ tokens line (k + (gs.flatMap text).length) hs := by
  induction gs generalizing k with
  | nil => rfl
  | cons g gs ih =>
    rw [List.cons_append, tokens, tokens, ih, List.append_assoc, List.flatMap_cons,
      List.length_append, Nat.add_assoc]

theorem tokens_append_unclosed (line k : Nat) (gs : List Segment) (body : List Char) :
    tokens line k (gs ++ [unclosed body]) = tokens line k gs := by
  rw [tokens_append]
  exact List.append_nil _

theorem tokens_shift (line k n : Nat) (gs : List Segment) :
    tokens line (k + n) gs = (tokens line k gs).map (Token.shift n) := by
  induction gs generalizing k with
  | nil => rfl
  | cons g gs ih =>
    have htoken : (g.token? line (k + n)).toList =
        (g.token? line k).toList.map (Token.shift n) := by
      cases g with
      | lexeme kind text => simp [token?, Token.shift]
      | blank | comment | unclosed => rfl
    rw [tokens, tokens, List.map_append, htoken, Nat.add_right_comm, ih]

structure Separates (g : Segment) : Prop where
  fits (rest : List Char) : g.Fits rest
  token?_eq (line k : Nat) : g.token? line k = none
  head (rest : List Char) : ∀ d ∈ (g.text ++ rest).head?, d ∈ separators

theorem separates_blank {c : Char} (h : c ∈ blanks) : (blank c).Separates := by
  refine ⟨fun _ => h, fun _ _ => rfl, fun rest d hd => ?_⟩
  obtain rfl : c = d := Option.some.inj hd
  exact List.mem_cons_of_mem _ h

theorem separates_comment {body : List Char} (h : '\x7d' ∉ body) : (comment body).Separates := by
  refine ⟨fun _ => h, fun _ _ => rfl, fun rest d hd => ?_⟩
  obtain rfl : '\x7b' = d := Option.some.inj hd
  exact List.mem_cons_self ..

theorem Cuts.tokens_scanText {text : Bytes} (h : Cuts (decode text) gs) (s : Scanner) :
    (s.scanText text).tokens = tokens s.line 0 gs := by
  rw [Scanner.scanText, h.scanLine_eq]

/-- A text that is divided by a separating segment is scanned in two parts. -/
theorem Separates.tokens_scanText (hg : g.Separates) (h : Cuts cs gs)
    (hgs : ∀ body, unclosed body ∉ gs) {text b : Bytes}
    (htext : decode text = cs ++ g.text ++ decode b) (s : Scanner) :
    (s.scanText text).tokens =
      tokens s.line 0 gs ++ (s.scanText b).tokens.map (Token.shift (cs ++ g.text).length) := by
  obtain ⟨hs, hhs, -⟩ := existsUnique_cuts (decode b)
  have hcuts : Cuts (decode text) (gs ++ g :: hs) := by
    rw [htext, List.append_assoc]
    exact h.append hgs (.cons (hg.fits _) hhs) (hg.head _)
  rw [hcuts.tokens_scanText, hhs.tokens_scanText, tokens_append, tokens, hg.token?_eq,
    h.flatMap_text, ← tokens_shift, List.length_append, Nat.zero_add, Nat.zero_add]
  rfl

end Segment

open Bytes

theorem decode_append_closeBrace (text rest : Bytes) :
    decode (text ++ closeBrace :: rest) = decode text ++ '\x7d' :: decode rest :=
  decode_append_cons (by decide) text rest

theorem decode_append_openBrace (text rest : Bytes) :
    decode (text ++ openBrace :: rest) = decode text ++ '\x7b' :: decode rest :=
  decode_append_cons (by decide) text rest

theorem decode_append_space (text rest : Bytes) :
    decode (text ++ utf8 " " ++ rest) = decode text ++ ' ' :: decode rest := by
  have hspace : utf8 " " = [32] := by decide
  rw [hspace, List.append_assoc]
  exact decode_append_cons (by decide) text rest

theorem closeBrace_not_mem_decode {text : Bytes} (h : closeBrace ∉ text) :
    '\x7d' ∉ decode text := by
  intro hmem
  obtain ⟨b, hb, heq⟩ := mem_of_mem_decode hmem (by decide)
  obtain rfl : b = closeBrace := UInt8.toNat_inj.mp heq
  exact h hb

theorem Bytes.IsSeparator.exists_separates {sep : Bytes} (h : sep.IsSeparator) :
    ∃ g : Segment, g.Separates ∧
      ∀ a b, decode (a ++ sep ++ b) = decode a ++ g.text ++ decode b := by
  cases h with
  | @blank x hx =>
    obtain ⟨hascii, hblank⟩ : x.toNat < 128 ∧ Char.ofNat x.toNat ∈ Segment.blanks := by
      have hblanks : utf8 " \t\r" = [32, 9, 13] := by decide
      simp only [hblanks, List.mem_cons, List.not_mem_nil, or_false] at hx
      rcases hx with rfl | rfl | rfl <;> decide
    refine ⟨_, Segment.separates_blank hblank, fun a b => ?_⟩
    rw [List.append_assoc, List.singleton_append, decode_append_cons hascii]
    simp [Segment.text]
  | @comment body hbody =>
    refine ⟨_, Segment.separates_comment (closeBrace_not_mem_decode hbody), fun a b => ?_⟩
    simp [Segment.text, decode_append_openBrace, decode_append_closeBrace]

theorem Scanner.endsInComment_iff (s : Scanner) {text : Bytes} {gs : List Segment}
    (h : Segment.Cuts (decode text) gs) :
    s.EndsInComment text ↔ ∃ body, Segment.unclosed body ∈ gs :=
  h.foldl_read.2.2

/-- Scanning is compositional at blanks and comments. Behind a text that ends in a comment it goes
on at the first brace that closes the comment. -/
theorem Scanner.scanText_splits_at_separators (s : Scanner) (a b : Bytes) :
    (¬s.EndsInComment a → ∀ sep : Bytes, sep.IsSeparator →
      (s.scanText (a ++ sep ++ b)).tokens =
        (s.scanText a).tokens ++
          (s.scanText b).tokens.map (Token.shift (decode (a ++ sep)).length)) ∧
    (s.EndsInComment a →
      (closeBrace ∉ b → (s.scanText (a ++ utf8 " " ++ b)).tokens = (s.scanText a).tokens) ∧
      ∀ c d, b = c ++ closeBrace :: d → closeBrace ∉ c →
        (s.scanText (a ++ utf8 " " ++ b)).tokens =
          (s.scanText a).tokens ++ (s.scanText d).tokens.map
            (Token.shift (decode (a ++ utf8 " " ++ c ++ [closeBrace])).length)) := by
  obtain ⟨gs, hgs, -⟩ := Segment.existsUnique_cuts (decode a)
  rw [s.endsInComment_iff hgs, hgs.tokens_scanText]
  refine ⟨fun hclosed sep hsep => ?_, fun hopen => ?_⟩
  · obtain ⟨g, hg, hdecode⟩ := hsep.exists_separates
    have hlength : decode (a ++ sep) = decode a ++ g.text := by
      simpa using hdecode a []
    rw [hlength]
    exact hg.tokens_scanText hgs (not_exists.mp hclosed) (hdecode a b) s
  · obtain ⟨cs, gs', body, hcs, rfl, hcut, hclosed, hbody⟩ := hgs.exists_unclosed hopen
    rw [Segment.tokens_append_unclosed]
    have hmore : ∀ {t : Bytes}, closeBrace ∉ t → '\x7d' ∉ body ++ ' ' :: decode t := by
      intro t ht
      simp [hbody, closeBrace_not_mem_decode ht]
    refine ⟨fun hb => ?_, fun c d hb hc => ?_⟩
    · -- the comment goes on to the end of the longer text
      have hcuts : Segment.Cuts (decode (a ++ utf8 " " ++ b))
          (gs' ++ [.unclosed (body ++ ' ' :: decode b)]) := by
        rw [decode_append_space, hcs, List.append_assoc, List.cons_append]
        exact hcut.append hclosed (Segment.cuts_unclosed (hmore hb)) (by simp [Segment.separators])
      rw [hcuts.tokens_scanText, Segment.tokens_append_unclosed]
    · have hcomment := Segment.separates_comment (hmore hc)
      have hdecode : decode (a ++ utf8 " " ++ b) =
          cs ++ (Segment.comment (body ++ ' ' :: decode c)).text ++ decode d := by
        rw [decode_append_space, hb, decode_append_closeBrace, hcs]
        simp [Segment.text]
      have hlength : decode (a ++ utf8 " " ++ c ++ [closeBrace]) =
          cs ++ (Segment.comment (body ++ ' ' :: decode c)).text := by
        rw [decode_append_closeBrace, decode_append_space, hcs]
        simp [Segment.text]
      rw [hlength]
      exact hcomment.tokens_scanText hcut hclosed hdecode s

/-- A text that breaks off in the middle of a character, a comment on a byte that is no character,
and `=`, which would have belonged to the `<`; then a comment that is closed by the first of two
braces only. -/
theorem Scanner.scanText_splits_at_broken_characters :
    let s : Scanner := { readings := [], line := 3 }
    let a := utf8 "x<" ++ [0xE2, 0x82]
    let sep : Bytes := openBrace :: ([255] ++ [closeBrace])
    let a' := utf8 "y \x7b<"
    let c := utf8 "éé"
    let d := utf8 "=z\x7d"
    (¬s.EndsInComment a ∧ sep.IsSeparator ∧
      (s.scanText (a ++ sep ++ utf8 "=1")).tokens =
        (s.scanText a).tokens ++ (s.scanText (utf8 "=1")).tokens.map (Token.shift 7)) ∧
    (s.EndsInComment a' ∧ closeBrace ∉ c ∧
      (s.scanText (a' ++ utf8 " " ++ (c ++ closeBrace :: d))).tokens =
        (s.scanText a').tokens ++ (s.scanText d).tokens.map (Token.shift 8)) ∧
    (s.scanText a).tokens.map Token.kind = [.ident, .less, .error, .error] ∧
    (s.scanText d).tokens.map Token.kind = [.equal, .ident, .error] := by
  intro s a sep a' c d
  have ha : ¬s.EndsInComment a := by decide
  have hsep : sep.IsSeparator := .comment (by decide)
  have ha' : s.EndsInComment a' := by decide
  have hc : closeBrace ∉ c := by decide
  have hcolumns : (decode (a ++ sep)).length = 7 ∧
      (decode (a' ++ utf8 " " ++ c ++ [closeBrace])).length = 8 := by decide
  have hclosed := (scanText_splits_at_separators s a (utf8 "=1")).1 ha sep hsep
  have hopen := ((scanText_splits_at_separators s a' (c ++ closeBrace :: d)).2 ha').2 c d rfl hc
  rw [hcolumns.1] at hclosed
  rw [hcolumns.2] at hopen
  exact ⟨⟨ha, hsep, hclosed⟩, ⟨ha', hc, hopen⟩, by decide, by decide⟩

end ThreeAddress
