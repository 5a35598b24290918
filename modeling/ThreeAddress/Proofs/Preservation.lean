import ThreeAddress.Proofs.Emission
import ThreeAddress.Proofs.Simulation.Statement

namespace ThreeAddress

universe u

theorem Program.Spelled.alphanumeric {q : Program} {p : List Token} (hq : q.Spelled p)
    (hp : ∀ t ∈ p, t.Regular) : q.Over Bytes.Alphanumeric Bytes.Alphanumeric :=
  hq.over fun t ht =>
    ⟨fun h => ((hp t ht).identifier h).alphanumeric, fun h => ((hp t ht).numeral h).alphanumeric⟩

theorem Listing.ofText_code {q : Program} {p : List Token} (hq : q.Spelled p)
    (hp : ∀ t ∈ p, t.Regular) :
    Listing.ofText ((q.code 0).map Quad.line).flatten = instructions (q.code 0) :=
  ofText_lines (q.legible_code (hq.alphanumeric hp) 0)

/-- From every store the program has a run exactly if the machine stops, and both then leave the
same values, temporaries apart. -/
def Listing.Implements (l : Listing) (q : Program) : Prop :=
  ∀ (V : Type u) (I : Interpretation V) (s : Store V),
    ((∃ t, q.Runs I s t) ↔ ∃ t, l.Stops I s t) ∧
      ∀ t t', q.Runs I s t → l.Stops I s t' → t'.Agrees t

/-- The listing of a source implements the program at its start, if no name in the source is that
of a temporary. -/
theorem translate_preserves_meaning (source : Source) (h : (translate source).1 = .ok ())
    (hv : ∀ t ∈ source.tokens, t.kind = .ident → ¬IsTemporary t.lexeme) :
    ∃ q : Program, (∃ p r, source.tokens = p ++ r ∧ q.Spelled p) ∧
      (∀ q' p' r', source.tokens = p' ++ r' → Program.Spelled q' p' → q' = q) ∧
      Listing.Implements.{u} (Listing.ofText (translate source).2) q := by
  obtain ⟨q, p, r, hts, hq, htext⟩ := translate_of_ok h
  have hregular : ∀ t ∈ p, t.Regular := fun t ht =>
    source.regular_tokens t (hts ▸ List.mem_append_left r ht)
  have hover : q.Over IsVariable Numeral := by
    refine hq.over fun t ht => ⟨fun hi => ⟨(hregular t ht).identifier hi, ?_⟩,
      (hregular t ht).numeral⟩
    exact hv t (hts ▸ List.mem_append_left r ht) hi
  rw [htext, Listing.ofText_code hq hregular]
  refine ⟨q, ⟨p, r, hts, hq⟩, fun q' p' r' hts' hq' => ?_, fun V I s =>
    ⟨Program.exists_runs_iff hover s, fun t t' ht ht' => ht.agrees hover ht'⟩⟩
  exact (hq'.unique hq (hts'.symm.trans hts)).1

theorem not_isTemporary_of_head? {x : Bytes} (h : x.head? ≠ some 84) : ¬IsTemporary x := by
  rintro ⟨n, rfl⟩
  exact h rfl

theorem translate_preserves_meaning_of_loop :
    let source := Source.ofText (utf8 "PROGRAM x = 2; WHILE x < 9 DO x = x + x ^ 2 END.")
    (translate source).1 = .ok () ∧
      (∀ t ∈ source.tokens, t.kind = .ident → ¬IsTemporary t.lexeme) ∧
      ∃ q : Program, (∃ p r, source.tokens = p ++ r ∧ q.Spelled p) ∧
        (∀ q' p' r', source.tokens = p' ++ r' → Program.Spelled q' p' → q' = q) ∧
        Listing.Implements.{0} (Listing.ofText (translate source).2) q := by
  intro source
  have hok : (translate source).1 = .ok () := by decide +kernel
  have hhead : ∀ t ∈ source.tokens, t.kind = .ident → t.lexeme.head? ≠ some 84 := by
    decide +kernel
  have hv : ∀ t ∈ source.tokens, t.kind = .ident → ¬IsTemporary t.lexeme :=
    fun t ht hi => not_isTemporary_of_head? (hhead t ht hi)
  exact ⟨hok, hv, translate_preserves_meaning source hok hv⟩

end ThreeAddress
