import Mathlib.Data.List.DropRight
import ThreeAddress.Proofs.Segments
import ThreeAddress.Text.Blank
import ThreeAddress.Text.Utf8.Boundary

namespace ThreeAddress

/-- The characters with the property `White_Space`. -/
def whiteSpace : List Char :=
  ['\t', '\n', '\u000b', '\u000c', '\r', ' ', '\u0085', '\u00a0', '\u1680', '\u2000', '\u2001',
    '\u2002', '\u2003', '\u2004', '\u2005', '\u2006', '\u2007', '\u2008', '\u2009', '\u200a',
    '\u2028', '\u2029', '\u202f', '\u205f', '\u3000']

/-- The second text is the first without the white space at its two ends. -/
structure Bytes.Strips (text inner : Bytes) : Prop where
  ends : ∃ before after : List Char, text = encode before ++ inner ++ encode after ∧
    ∀ c ∈ before ++ after, c ∈ whiteSpace
  bare : ∀ c ∈ whiteSpace, ¬encode [c] <+: inner ∧ ¬encode [c] <:+ inner

theorem isBlank_iff {c : Char} : isBlank c = true ↔ c ∈ whiteSpace := by
  have hnat : ∀ d : Char, c = d ↔ c.toNat = d.toNat := fun d => Char.toNat_inj.symm
  simp only [isBlank, whiteSpace, List.mem_cons, List.not_mem_nil, or_false, hnat, Bool.or_eq_true,
    Bool.and_eq_true, decide_eq_true_eq, beq_iff_eq, Char.reduceToNat]
  omega

theorem dropWhile_rdropWhile {α : Type} {p : α → Bool} {before inner after : List α}
    (hends : ∀ x ∈ before ++ after, p x = true) (hfirst : ∀ x ∈ inner.head?, p x = false)
    (hlast : ∀ x ∈ inner.getLast?, p x = false) :
    ((before ++ inner ++ after).dropWhile p).rdropWhile p = inner := by
  obtain ⟨hbefore, hafter⟩ := List.forall_mem_append.mp hends
  rw [List.append_assoc, List.dropWhile_append_of_pos hbefore]
  cases inner with
  | nil => rw [List.nil_append, List.dropWhile_eq_nil_iff.mpr hafter, List.rdropWhile_nil]
  | cons x inner =>
    have hx : p x = false := hfirst x rfl
    have hreverse : ∀ x ∈ after.reverse, p x = true := fun x hx => hafter x (List.mem_reverse.mp hx)
    rw [List.cons_append, List.dropWhile_cons_of_neg (by simp [hx]), ← List.cons_append,
      List.rdropWhile, List.reverse_append, List.dropWhile_append_of_pos hreverse,
      ← List.rdropWhile, List.rdropWhile_eq_self_iff]
    intro hne hl
    rw [hlast _ (List.getLast_mem_getLast? hne)] at hl
    cases hl

namespace Bytes

theorem trimBlanks_eq_flatMap (text : Bytes) : trimBlanks text =
    (((units text).dropWhile fun u => isBlank u.char).rdropWhile
      fun u => isBlank u.char).flatMap TextUnit.bytes := rfl

theorem eq_ofChar_of_isBlank {text : Bytes} {u : TextUnit} (h : u ∈ units text)
    (hu : isBlank u.char = true) : u = .ofChar u.char := by
  apply eq_ofChar_of_mem_units h
  intro hreplacement
  rw [hreplacement] at hu
  exact absurd hu (by decide)

theorem flatMap_bytes_ofChar (cs : List Char) :
    (cs.map TextUnit.ofChar).flatMap TextUnit.bytes = encode cs := by
  rw [← units_encode, flatMap_bytes_units]

theorem not_prefix_iff {inner : Bytes} :
    (∀ c ∈ whiteSpace, ¬encode [c] <+: inner) ↔
      ∀ u ∈ (units inner).head?, isBlank u.char = false := by
  constructor
  · intro h u hu
    by_contra hblank
    rw [Bool.not_eq_false] at hblank
    obtain ⟨rest, hrest⟩ := List.head?_eq_some_iff.mp hu
    have hchar := eq_ofChar_of_isBlank (List.mem_of_mem_head? hu) hblank
    apply h u.char (isBlank_iff.mp hblank)
    refine ⟨rest.flatMap TextUnit.bytes, ?_⟩
    rw [← flatMap_bytes_units inner, hrest, List.flatMap_cons, ← flatMap_bytes_ofChar,
      List.map_singleton, ← hchar, List.flatMap_singleton]
  · rintro hfirst c hc ⟨rest, rfl⟩
    have hblank := hfirst (.ofChar c) (by simp [units_encode_append])
    rw [TextUnit.ofChar, isBlank_iff.mpr hc] at hblank
    cases hblank

theorem not_suffix_iff {inner : Bytes} :
    (∀ c ∈ whiteSpace, ¬encode [c] <:+ inner) ↔
      ∀ u ∈ (units inner).getLast?, isBlank u.char = false := by
  constructor
  · intro h u hu
    by_contra hblank
    rw [Bool.not_eq_false] at hblank
    obtain ⟨rest, hrest⟩ := List.getLast?_eq_some_iff.mp hu
    have hchar := eq_ofChar_of_isBlank (List.mem_of_mem_getLast? hu) hblank
    apply h u.char (isBlank_iff.mp hblank)
    refine ⟨rest.flatMap TextUnit.bytes, ?_⟩
    rw [← flatMap_bytes_units inner, hrest, List.flatMap_append, ← flatMap_bytes_ofChar,
      List.map_singleton, ← hchar]
  · rintro hlast c hc ⟨rest, rfl⟩
    have hblank := hlast (.ofChar c) (by simp [units_append_encode])
    rw [TextUnit.ofChar, isBlank_iff.mpr hc] at hblank
    cases hblank

theorem bare_iff {inner : Bytes} :
    (∀ c ∈ whiteSpace, ¬encode [c] <+: inner ∧ ¬encode [c] <:+ inner) ↔
      (∀ u ∈ (units inner).head?, isBlank u.char = false) ∧
        ∀ u ∈ (units inner).getLast?, isBlank u.char = false := by
  rw [← not_prefix_iff, ← not_suffix_iff]
  exact forall₂_and

theorem eq_map_ofChar {text : Bytes} {us : List TextUnit} (h : us ⊆ units text)
    (hus : ∀ u ∈ us, isBlank u.char = true) :
    us = (us.map TextUnit.char).map TextUnit.ofChar := by
  rw [List.map_map]
  exact (List.map_id' us).symm.trans
    (List.map_congr_left fun u hu => eq_ofChar_of_isBlank (h hu) (hus u hu))

theorem exists_units_eq (text : Bytes) :
    ∃ before after : List Char, (∀ c ∈ before ++ after, c ∈ whiteSpace) ∧
      units text = before.map TextUnit.ofChar ++
        ((units text).dropWhile fun u => isBlank u.char).rdropWhile (fun u => isBlank u.char) ++
          after.map TextUnit.ofChar := by
  let p : TextUnit → Bool := fun u => isBlank u.char
  let before := (units text).takeWhile p
  let after := ((units text).dropWhile p).rtakeWhile p
  have hunits : units text = before ++ ((units text).dropWhile p).rdropWhile p ++ after := by
    rw [List.append_assoc, List.rdropWhile_append_rtakeWhile, List.takeWhile_append_dropWhile]
  have hbefore : ∀ u ∈ before, p u = true := fun u hu => List.mem_takeWhile_imp hu
  have hafter : ∀ u ∈ after, p u = true := fun u hu => List.mem_rtakeWhile_imp hu
  refine ⟨before.map TextUnit.char, after.map TextUnit.char, ?_, ?_⟩
  · intro c hc
    rw [← List.map_append] at hc
    obtain ⟨u, hu, rfl⟩ := List.mem_map.mp hc
    exact isBlank_iff.mp (List.forall_mem_append.mpr ⟨hbefore, hafter⟩ u hu)
  · have hfirst : before ⊆ units text := (List.takeWhile_prefix p).subset
    have hlast : after ⊆ units text := fun u hu =>
      (List.dropWhile_suffix p).subset ((List.rtakeWhile_suffix p _).subset hu)
    rw [← eq_map_ofChar hfirst hbefore, ← eq_map_ofChar hlast hafter]
    exact hunits

theorem strips_trimBlanks (text : Bytes) : text.Strips (trimBlanks text) := by
  let p : TextUnit → Bool := fun u => isBlank u.char
  obtain ⟨before, after, hspace, hunits⟩ := exists_units_eq text
  have htext : text = encode before ++ trimBlanks text ++ encode after := by
    rw [← flatMap_bytes_ofChar, ← flatMap_bytes_ofChar, trimBlanks_eq_flatMap,
      ← List.flatMap_append, ← List.flatMap_append, ← hunits, flatMap_bytes_units]
  have hinner : units (trimBlanks text) = ((units text).dropWhile p).rdropWhile p := by
    have hsame := hunits
    nth_rewrite 1 [htext] at hsame
    rw [units_append_encode, units_encode_append] at hsame
    exact List.append_cancel_left (List.append_cancel_right hsame)
  refine ⟨⟨before, after, htext, hspace⟩, bare_iff.mpr ?_⟩
  rw [hinner]
  constructor
  · intro u hu
    obtain ⟨rest, hrest⟩ := List.rdropWhile_prefix p ((units text).dropWhile p)
    apply Segment.boundary_dropWhile p (units text) u
    rw [← hrest, List.head?_append, Option.mem_def.mp hu]
    rfl
  · intro u hu
    obtain ⟨hne, rfl⟩ := List.mem_getLast?_eq_getLast hu
    exact eq_false_of_ne_true (List.rdropWhile_last_not p _ hne)

theorem strips_iff {text inner : Bytes} : text.Strips inner ↔ trimBlanks text = inner := by
  refine ⟨?_, fun h => h ▸ strips_trimBlanks text⟩
  rintro ⟨⟨before, after, rfl, hspace⟩, hbare⟩
  obtain ⟨hfirst, hlast⟩ := bare_iff.mp hbare
  have hends : ∀ u ∈ before.map TextUnit.ofChar ++ after.map TextUnit.ofChar,
      isBlank u.char = true := by
    intro u hu
    rw [← List.map_append] at hu
    obtain ⟨c, hc, rfl⟩ := List.mem_map.mp hu
    exact isBlank_iff.mpr (hspace c hc)
  rw [trimBlanks_eq_flatMap, units_append_encode, units_encode_append,
    dropWhile_rdropWhile hends hfirst hlast, flatMap_bytes_units]

end Bytes

end ThreeAddress
