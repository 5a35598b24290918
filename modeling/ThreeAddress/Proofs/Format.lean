import ThreeAddress.Proofs.FeedQueue
import ThreeAddress.Proofs.Parallel
import ThreeAddress.Proofs.Rendering
import ThreeAddress.Proofs.SourceLines
import ThreeAddress.Proofs.WriteLimit

namespace ThreeAddress

variable {ρ : Type}

def Source.HasToken (source : Source) (t : Token) : Prop :=
  ∃ line ∈ (Scanner.ofSource source).answers, ∃ ts, line.tokens = .ok ts ∧ t ∈ ts

/-- A word of the language, in capitals and small letters. -/
def IsReserved (x : Bytes) : Prop := (decode x).map Char.toUpper ∈ Segment.reserved.map Prod.fst

structure Source.HasName (source : Source) (x : Bytes) : Prop where
  token : ∃ t, source.HasToken t ∧ t.kind = .ident ∧ t.lexeme = x
  identifier : Identifier x
  not_reserved : ¬IsReserved x

structure Source.HasNumeral (source : Source) (x : Bytes) : Prop where
  token : ∃ t, source.HasToken t ∧ t.kind = .number ∧ t.lexeme = x
  numeral : Numeral x

inductive Source.HasOperand (source : Source) : Bytes → Prop
  | name {x : Bytes} (h : source.HasName x) : HasOperand source x
  | numeral {x : Bytes} (h : source.HasNumeral x) : HasOperand source x
  | temporary (n : Nat) : HasOperand source (Names.temporaryName n)

open Names in
inductive ListingLine (source : Source) : Bytes → Prop
  | label (n : Nat) : ListingLine source (labelName n)
  | binary {op x y : Bytes}
      (hop : op ∈ [utf8 "ADD", utf8 "SUB", utf8 "MUL", utf8 "DVD", utf8 "DIV", utf8 "MOD",
        utf8 "EXP"])
      (hx : source.HasOperand x) (hy : source.HasOperand y) (n : Nat) :
      ListingLine source (Bytes.join (utf8 ", ") [op, x, y, temporaryName n])
  | unary {op x : Bytes} (hop : op ∈ [utf8 "PLS", utf8 "NEG"]) (hx : source.HasOperand x)
      (n : Nat) : ListingLine source (Bytes.join (utf8 ", ") [op, x, temporaryName n])
  | move {x z : Bytes} (hx : source.HasOperand x) (hz : source.HasName z) :
      ListingLine source (Bytes.join (utf8 ", ") [utf8 "MOV", x, z])
  | test {x y : Bytes} (hx : source.HasOperand x) (hy : source.HasOperand y) {c : Nat} (hc : c ≤ 5)
      (n : Nat) :
      ListingLine source (Bytes.join (utf8 ", ") [utf8 "TST", x, y, decimal c, labelName n])
  | jump (n : Nat) : ListingLine source (Bytes.join (utf8 ", ") [utf8 "JMP", labelName n])

/-- The quadruple of a line with the given fields. A line of one field defines a label. -/
def Quad.ofFields? : List Bytes → Option Quad
  | [] => none
  | [x] => some (.label x)
  | m :: args => (Opcode.all.find? fun op => op.mnemonic = m).map fun op => ⟨op, args⟩

theorem Segment.not_reserved_of_wordKind {word : List Char} (h : wordKind word = .ident) :
    ¬IsReserved (encode word) := by
  rw [IsReserved, decode_encode]
  rcases wordKind_cases word with hm | ⟨hm, -⟩
  · have hne : ∀ p ∈ reserved, p.2 ≠ .ident := by decide
    exact absurd h (hne _ hm)
  · exact hm

theorem Segment.IsLexeme.not_reserved {kind : TokenKind} {word rest : List Char}
    (h : IsLexeme kind word rest) (hk : kind = .ident) : ¬IsReserved (encode word) := by
  cases h with
  | word hc hcs hrest => exact not_reserved_of_wordKind hk
  | symbol hs =>
    have hne : ∀ p ∈ symbols, p.2 ≠ .ident := by decide
    exact absurd hk (hne _ hs)
  | number | lessEqual | notEqual | greaterEqual | less | greater | stray => cases hk

namespace Source

variable {source : Source} {t : Token} {x : Bytes}

theorem HasToken.regular (h : source.HasToken t) : t.Regular := by
  obtain ⟨line, hline, ts, hts, ht⟩ := h
  exact Scanner.regular_answers _ line hline ts hts t ht

theorem HasToken.hasName (h : source.HasToken t) (hk : t.kind = .ident) :
    source.HasName t.lexeme := by
  refine ⟨⟨t, h, hk, rfl⟩, h.regular.identifier hk, ?_⟩
  obtain ⟨line, hline, ts, hts, ht⟩ := h
  obtain ⟨number, text, rfl⟩ := Scanner.exists_scanLine _ line hline ts hts
  obtain ⟨-, word, rest, hlexeme, heq⟩ := of_mem_scanLine ht
  rw [heq]
  exact hlexeme.not_reserved hk

theorem HasToken.hasNumeral (h : source.HasToken t) (hk : t.kind = .number) :
    source.HasNumeral t.lexeme :=
  ⟨⟨t, h, hk, rfl⟩, h.regular.numeral hk⟩

theorem hasOperand_of_operand (h : Operand source.HasToken x) : source.HasOperand x := by
  cases h with
  | @word t x ht hx =>
    unfold Token.word? at hx
    split at hx
    · rename_i hk
      obtain rfl : t.lexeme = x := Option.some.inj hx
      rcases hk with hk | hk
      · exact .name (ht.hasName hk)
      · exact .numeral (ht.hasNumeral hk)
    · cases hx
  | temporary n => exact .temporary n

theorem HasOperand.alphanumeric (h : source.HasOperand x) : x.Alphanumeric := by
  cases h with
  | name h => exact h.identifier.alphanumeric
  | numeral h => exact h.numeral.alphanumeric
  | temporary n => exact (Names.identifier_temporaryName n).alphanumeric

end Source

theorem Bytes.Alphanumeric.ascii {x : Bytes} (h : x.Alphanumeric) : ∀ b ∈ x, b < 128 := by
  intro b hb
  have hb := h b hb
  simp only [isLetter, isDigit, Bool.or_eq_true, Bool.and_eq_true, decide_eq_true_eq,
    UInt8.le_iff_toNat_le, UInt8.lt_iff_toNat_lt, UInt8.reduceToNat] at hb ⊢
  omega

namespace Quad

theorem ascii_text {q : Quad} (h : ∀ x ∈ q.args, x.Alphanumeric) : ∀ b ∈ q.text, b < 128 := by
  intro b hb
  by_contra hlarge
  have hmark : b ∉ fieldMark := by
    intro hm
    have hsmall : ∀ c ∈ fieldMark, c < 128 := by simp [fieldMark]
    exact hlarge (hsmall b hm)
  rw [text_eq_join] at hb
  exact not_mem_join hmark (fun x hx hbx => hlarge ((alphanumeric_fields h x hx).ascii b hbx)) hb

namespace Built

variable {source : Source} {given : Token → Prop} {q : Quad}

theorem ofFields?_fields (h : q.Built given) : ofFields? q.fields = some q := by
  cases h with
  | unary op hx n => cases op <;> rfl
  | binary op hx hy n => cases op <;> rfl
  | label n => simp [fields, Quad.label, ofFields?]
  | move | test | jump => rfl

theorem alphanumeric (h : q.Built source.HasToken) : ∀ x ∈ q.args, x.Alphanumeric := by
  have hoperand : ∀ {x}, Operand source.HasToken x → x.Alphanumeric :=
    fun hx => (Source.hasOperand_of_operand hx).alphanumeric
  have htemporary := fun n => (Names.identifier_temporaryName n).alphanumeric
  have hlabel := fun n => (Names.identifier_labelName n).alphanumeric
  cases h with
  | unary op hx n => simp [Quad.unary, hoperand hx, htemporary n]
  | binary op hx hy n => simp [Quad.binary, hoperand hx, hoperand hy, htemporary n]
  | move hx ht hi => simp [Quad.move, hoperand hx, (ht.hasName hi).identifier.alphanumeric]
  | test c hx hy n =>
    have hc : c.comparator.text.Alphanumeric := by
      apply Bytes.alphanumeric_of_all
      cases c <;> decide
    simp [Quad.test, hoperand hx, hoperand hy, hc, hlabel n]
  | jump n | label n => simp [Quad.jump, Quad.label, hlabel n]

theorem listingLine (h : q.Built source.HasToken) : ListingLine source q.text := by
  have hoperand : ∀ {x}, Operand source.HasToken x → source.HasOperand x :=
    Source.hasOperand_of_operand
  cases h with
  | unary op hx n =>
    have hop : op.opcode.mnemonic ∈ [utf8 "PLS", utf8 "NEG"] := by cases op <;> decide
    have hform := ListingLine.unary hop (hoperand hx) n
    cases op <;> exact hform
  | binary op hx hy n =>
    have hop : op.opcode.mnemonic ∈ [utf8 "ADD", utf8 "SUB", utf8 "MUL", utf8 "DVD", utf8 "DIV",
        utf8 "MOD", utf8 "EXP"] := by
      cases op <;> decide
    have hform := ListingLine.binary hop (hoperand hx) (hoperand hy) n
    cases op <;> exact hform
  | move hx ht hi => exact .move (hoperand hx) (ht.hasName hi)
  | test c hx hy n =>
    have hform := fun d hd => ListingLine.test (c := d) (hoperand hx) (hoperand hy) hd n
    cases c <;> exact hform _ (by decide)
  | jump n => exact .jump n
  | label n =>
    have htext : (Quad.label (Names.labelName n)).text = Names.labelName n := by
      simp [text, Quad.label]
    rw [htext]
    exact .label n

end Built

end Quad

theorem FeedQueue.items_pull (q : FeedQueue) (r : Request) : (q.pull r).2.items ⊆ q.items := by
  obtain ⟨items, ending⟩ := q
  cases items with
  | nil => exact List.Subset.refl _
  | cons item items =>
    simp only [pull]
    split
    · exact List.subset_cons_self item items
    · exact List.Subset.refl _

namespace Cursor

theorem items_pull (c : Cursor) (r : Request) :
    (TokenStream.pull r c).stream.toQueue.items ⊆ c.toQueue.items := by
  obtain ⟨hpull, -⟩ := c.toQueue_pull r
  have hitems := c.toQueue.items_pull r
  rwa [hpull] at hitems

theorem items_course (d : Dialogue ρ) (c : Cursor) (n : Names) :
    (d.course c n).stream.toQueue.items ⊆ c.toQueue.items := by
  induction d using Dialogue.inductionOnRequests generalizing c n with
  | done result | reject error | outOfFuel => exact List.Subset.refl _
  | ask r next ih =>
    cases h : (TokenStream.pull r c).answer with
    | ok token =>
      rw [Dialogue.course_ask_ok h]
      exact List.Subset.trans (ih token _ n) (c.items_pull r)
    | error f =>
      rw [Dialogue.course_ask_error h]
      exact c.items_pull r
  | temporary next ih | label next ih => exact ih _ c _
  | releaseTemporaries next ih | emit quad next ih => exact ih c _

/-- The tokens that a cursor delivers are among those it has to give. -/
theorem exists_item {c : Cursor} {t : Token} (h : t ∈ c.queue ++ feedTokens c.feed) :
    ∃ call, ⟨call, .ok t⟩ ∈ c.toQueue.items := by
  rcases List.mem_append.mp h with h | h
  · exact ⟨c.calls, List.mem_append_left _ (List.mem_map_of_mem h)⟩
  · obtain ⟨line, hline, hts⟩ := exists_line h
    obtain ⟨k, hk⟩ := List.mem_iff_getElem?.mp hline
    have hitem := FeedItem.token_mem_ofLine.mpr ⟨Eq.refl (c.calls + k + 1), hts⟩
    exact ⟨_, List.mem_append_right _ (FeedItem.mem_ofFeed.mpr ⟨k, line, hk, hitem⟩)⟩

end Cursor

namespace Translator

structure Draws (given : Token → Prop) (t : Translator Cursor) : Prop where
  names : t.names = {}
  tokens : ∀ call token, ⟨call, .ok token⟩ ∈ t.tokens.toQueue.items → given token

namespace Draws

variable {given : Token → Prop} {t : Translator Cursor}

theorem analyze (h : t.Draws given) : t.analyze.2.Draws given := by
  refine ⟨analyze_names t, fun call token hitem => h.tokens call token ?_⟩
  rw [analyze_tokens] at hitem
  exact Cursor.items_course _ _ _ hitem

theorem built (h : t.Draws given) : ∀ q ∈ t.emitted, q.Built given := by
  let ts := t.tokens.queue ++ Cursor.feedTokens t.tokens.feed
  have hgiven : ∀ token ∈ ts, given token := by
    intro token htoken
    obtain ⟨call, hitem⟩ := Cursor.exists_item htoken
    exact h.tokens call token hitem
  have halike : List.Forall₂ Token.Alike ts ts := List.forall₂_same.mpr fun _ _ => ⟨rfl, rfl⟩
  obtain ⟨-, hquads, -⟩ := course_eq_reading Cursor.delivery (t := t) ⟨rfl, rfl⟩ h.names
  obtain ⟨-, hstate⟩ := parallel_reading given halike hgiven (TokenStream.supply t.tokens + 1)
    (Cursor.feedFailure t.tokens.feed)
  rw [hquads]
  exact hstate.built

theorem built_emittedIn (h : t.Draws given) (n : Nat) : ∀ q ∈ t.emittedIn n, q.Built given := by
  intro q hq
  obtain ⟨k, -, hq⟩ := List.mem_flatMap.mp hq
  have hk : (t.after k).Draws given := after_of_analyze (fun _ => Draws.analyze) h k
  exact hk.built q hq

end Draws

theorem draws_ofSource (source : Source) (sink : Sink) (reporting : Bool) :
    (ofStream (Cursor.ofScanner (.ofSource source)) sink reporting).Draws source.HasToken := by
  refine ⟨rfl, fun call token hitem => ?_⟩
  obtain ⟨k, line, hline, hitem⟩ := FeedItem.mem_ofFeed.mp hitem
  obtain ⟨-, hts⟩ := FeedItem.token_mem_ofLine.mp hitem
  exact ⟨line, List.mem_of_getElem? hline, hts⟩

variable {σ : Type} [TokenStream σ]

theorem written_after (s : σ) (limit : Option Nat) (reporting : Bool) (n : Nat) :
    let t := ofStream s { limit } reporting
    (t.after n).emitter.sink.written.reverse =
      ((t.emittedIn n).take (limit.getD (t.emittedIn n).length)).map Quad.line := by
  intro t
  rw [after_emitter]
  cases limit with
  | none =>
    rw [Option.getD_none, List.take_length]
    exact Emitter.written_foldl_emit _
  | some k =>
    have hfilled : (t.emittedIn n).foldl Emitter.emit t.emitter = .filled k (t.emittedIn n) :=
      Emitter.foldl_emit_limited k _
    rw [hfilled, Option.getD_some, List.map_take]
    exact List.reverse_reverse _

/-- Whatever the source holds, however often it is analysed, however the analyses end and whether or
not the sink has room for all lines: the listing is ASCII, each of its lines has one of the forms,
and taken apart into lines and fields it gives back the quadruples that were written. -/
theorem listing_is_decodable (source : Source) (limit : Option Nat) (reporting : Bool) (n : Nat) :
    let t := ofStream (Cursor.ofScanner (.ofSource source)) { limit } reporting
    let text := (t.after n).emitter.sink.written.reverse.flatten
    let qs := (t.emittedIn n).take (limit.getD (t.emittedIn n).length)
    (∀ b ∈ text, b < 128) ∧
      ∃ ls, lines text = ls ++ [[]] ∧ (∀ line ∈ ls, ListingLine source line) ∧
        ls.map (fun line => Quad.ofFields? (fields line)) = qs.map some := by
  intro t text qs
  have hbuilt : ∀ q ∈ qs, q.Built source.HasToken := fun q hq =>
    (draws_ofSource source { limit } reporting).built_emittedIn n q (List.mem_of_mem_take hq)
  have htext : text = (qs.map Quad.line).flatten :=
    congrArg List.flatten (written_after _ limit reporting n)
  have hlegible : ∀ q ∈ qs, q.Legible := fun q hq =>
    Quad.legible_of_alphanumeric (hbuilt q hq).alphanumeric
  refine ⟨?_, qs.map Quad.text, ?_, ?_, ?_⟩
  · rw [htext]
    intro b hb
    obtain ⟨line, hline, hb⟩ := List.mem_flatten.mp hb
    obtain ⟨q, hq, rfl⟩ := List.mem_map.mp hline
    rcases List.mem_append.mp hb with hb | hb
    · exact Quad.ascii_text (hbuilt q hq).alphanumeric b hb
    · cases List.mem_singleton.mp hb
      decide
  · rw [htext, lines_of_quads hlegible]
  · exact List.forall_mem_map.mpr fun q hq => (hbuilt q hq).listingLine
  · rw [List.map_map]
    refine List.map_congr_left fun q hq => ?_
    rw [Function.comp_apply, Quad.fields_text (hlegible q hq), (hbuilt q hq).ofFields?_fields]

/-- The listing of a source that breaks off at a byte which is no character. -/
theorem listing_is_decodable_of_broken_sum :
    let source := Source.ofPieces [utf8 "PROGRAM x = y1 + 2; z = ", [255]]
    let t := ofStream (Cursor.ofScanner (.ofSource source)) {}
    let text := (t.after 1).emitter.sink.written.reverse.flatten
    text = utf8 "ADD, y1, 2, T0\nMOV, T0, x\n" ∧
      ListingLine source (utf8 "MOV, T0, x") ∧
      t.emittedIn 1 =
        [.binary .add (utf8 "y1") (utf8 "2") (utf8 "T0"), .move (utf8 "T0") (utf8 "x")] := by
  intro source t text
  have htext : text = utf8 "ADD, y1, 2, T0\nMOV, T0, x\n" := by decide +kernel
  have hcut : lines text = [utf8 "ADD, y1, 2, T0", utf8 "MOV, T0, x"] ++ [[]] := by
    rw [htext]
    decide
  obtain ⟨-, ls, hlines, hforms, hquads⟩ := listing_is_decodable source none true 1
  obtain rfl := List.append_cancel_right (hlines.symm.trans hcut)
  refine ⟨htext, hforms _ (by simp), ?_⟩
  rw [Option.getD_none, List.take_length] at hquads
  exact (List.map_inj_right fun _ _ => Option.some.inj).mp (hquads.symm.trans (by decide))

end Translator

end ThreeAddress
