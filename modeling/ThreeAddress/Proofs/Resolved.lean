import ThreeAddress.Proofs.Numbered
import ThreeAddress.Proofs.Preservation
import ThreeAddress.Proofs.ResolvedLines

namespace ThreeAddress

universe u

open Names

theorem getElem?_filter_of_getElem? {α : Type} {p : α → Bool} {l : List α} {k : Nat} {a : α}
    (h : l[k]? = some a) (ha : p a = true) : (l.filter p)[(l.take k).countP p]? = some a := by
  induction l generalizing k with
  | nil => cases h
  | cons b l ih =>
    cases k with
    | zero =>
      obtain rfl : b = a := by simpa using h
      simp [ha]
    | succ k =>
      have hk := ih (k := k) (by simpa using h)
      cases hb : p b <;> simp [hb, hk]

namespace Quad

variable {q : Quad} {number? : Bytes → Option Nat}

theorem retarget_of_plain (h : q.Plain) : q.retarget number? = q := by
  simp [retarget, h.2]

theorem retarget_jump (x : Bytes) :
    (Quad.jump x).retarget number? = .jump ((number? x).elim x decimal) := by
  rw [retarget, target?_jump, Option.bind_some]
  cases number? x <;> rfl

theorem retarget_test (x y : Bytes) (c : Comparator) (z : Bytes) :
    (Quad.test x y c z).retarget number? = .test x y c ((number? z).elim z decimal) := by
  rw [retarget, target?_test, Option.bind_some]
  cases number? z <;> rfl

@[simp] theorem op_retarget : (q.retarget number?).op = q.op := by
  unfold retarget
  split <;> rfl

theorem args_retarget_ne_nil (h : q.args ≠ []) : (q.retarget number?).args ≠ [] := by
  unfold retarget
  split
  · simp
  · exact h

theorem numberedLine (hi : q.isInstruction = true) (hargs : q.args ≠ []) :
    NumberedLine.ofFields? q.fields = q.instruction?.map .instruction := by
  obtain ⟨x, xs, hx⟩ := List.exists_cons_of_ne_nil hargs
  rw [instruction?, fields_of_instruction hi, hx]
  rfl

theorem Computation.isInstruction (h : q.Computation) : q.isInstruction = true := by
  cases h with
  | unary op | binary op => cases op <;> rfl

/-- What resolution does to a quadruple it does to the instruction that this stands for. -/
theorem Coded.retarget_instruction? (h : q.Coded) (hq : q.isInstruction = true)
    (number? : Bytes → Option Nat) :
    ∃ i, q.instruction? = some i ∧ (∀ x, i ≠ .label x) ∧ i.target? = q.target? ∧
      (q.retarget number?).instruction? =
        some (i.mapTarget fun x => (number? x).elim x decimal) := by
  cases h with
  | computation h =>
    have hplain := plain_of_isArithmetic h.isArithmetic
    rw [retarget_of_plain hplain, hplain.2]
    cases h with
    | unary op x n =>
      exact ⟨.unary op x (temporaryName n), instruction?_unary .., nofun, rfl,
        instruction?_unary ..⟩
    | binary op x y n =>
      exact ⟨.binary op x y (temporaryName n), instruction?_binary .., nofun, rfl,
        instruction?_binary ..⟩
  | move x r => exact ⟨.move x r, rfl, nofun, rfl, rfl⟩
  | test x y c n =>
    rw [retarget_test]
    exact ⟨.test x y c (labelName n), instruction?_test .., nofun, rfl, instruction?_test ..⟩
  | jump n =>
    rw [retarget_jump]
    exact ⟨.jump (labelName n), rfl, nofun, rfl, rfl⟩
  | label n => cases hq

theorem Coded.eq_label (h : q.Coded) (hq : q.isInstruction = false) :
    ∃ n, q = .label (labelName n) := by
  cases h with
  | computation h =>
    rw [h.isInstruction] at hq
    cases hq
  | move | test | jump => cases hq
  | label n => exact ⟨n, rfl⟩

end Quad

abbrev resolvedListing (qs : List Quad) : NumberedListing :=
  (resolveQuads qs).map fun q => NumberedLine.ofFields? q.fields

namespace WellLabelled

variable {qs : List Quad}

theorem ends (h : WellLabelled qs) :
    (resolvedListing qs).Ends (qs.countP Quad.isInstruction) := by
  have hlength := h.length_resolveQuads
  have hkept : ((qs.filter Quad.isInstruction).map
      (Quad.retarget fun x => labelNumber? x qs)).length = qs.countP Quad.isInstruction := by
    rw [List.length_map, List.countP_eq_length_filter]
  by_cases hlast : (qs.getLast?.any fun q => !q.isInstruction) = true
  · refine .inr ?_
    rw [resolvedListing, h.resolveQuads_eq, if_pos hlast, List.getElem?_map, ← hkept,
      List.getElem?_concat_length]
    rfl
  · rw [if_neg hlast] at hlength
    exact .inl (by rw [List.length_map]; omega)

theorem at?_code (k : Nat) :
    (Listing.code (instructions qs)).at? k = qs[k]?.bind Quad.instruction? := by
  simp only [Listing.code, List.getElem?_map]
  cases qs[k]? <;> rfl

theorem at?_resolved (h : WellLabelled qs) {k : Nat} {q : Quad} (hk : qs[k]? = some q)
    (hi : q.isInstruction = true) :
    (resolvedListing qs).code.at? ((qs.take k).countP Quad.isInstruction) =
      (q.retarget fun x => labelNumber? x qs).instruction? := by
  have hfilter := getElem?_filter_of_getElem? hk hi
  have hlt : (qs.take k).countP Quad.isInstruction < ((qs.filter Quad.isInstruction).map
      (Quad.retarget fun x => labelNumber? x qs)).length := by
    rw [List.length_map]
    exact (List.getElem?_eq_some_iff.mp hfilter).1
  have hline : NumberedLine.ofFields? (q.retarget fun x => labelNumber? x qs).fields =
      (q.retarget fun x => labelNumber? x qs).instruction?.map .instruction := by
    refine Quad.numberedLine (by simpa [Quad.isInstruction] using hi) ?_
    exact Quad.args_retarget_ne_nil ((h.clear q (List.mem_of_getElem? hk)).args_ne_nil hi)
  simp only [NumberedListing.code, resolvedListing, h.resolveQuads_eq, List.getElem?_map,
    List.getElem?_append_left hlt, hfilter, Option.map_some, hline]
  cases (q.retarget fun x => labelNumber? x qs).instruction? <;> rfl

theorem find_resolved (h : WellLabelled qs) {q : Quad} {x : Bytes} (hq : q ∈ qs)
    (hx : q.target? = some x) :
    ∃ n, (Listing.code (instructions qs)).find x = some n ∧
      (resolvedListing qs).code.find ((labelNumber? x qs).elim x decimal) =
        some ((qs.take n).countP Quad.isInstruction) := by
  obtain ⟨a, b, hqs, ha, hb⟩ := h.exists_definition hq hx
  have hinstructions : instructions qs = instructions a ++ some (.label x) :: instructions b := by
    simp [hqs]
  have hnodup : (instructions qs).labels.Nodup := by
    rw [labels_instructions h.coded]
    exact h.nodup
  have hlt : a.countP Quad.isInstruction < (resolvedListing qs).length := by
    rw [List.length_map]
    exact (h.standsFor hqs ha hb).2
  have hnumber : labelNumber? x qs = some (a.countP Quad.isInstruction + 1) := by
    rw [hqs]
    exact labelNumber?_append (Quad.defined?_label x) hb a
  refine ⟨a.length, ?_, ?_⟩
  · rw [hinstructions] at hnodup ⊢
    exact (Listing.find_of_nodup hnodup).trans (by rw [List.length_map])
  · rw [hnumber, Option.elim_some, NumberedListing.find_decimal hlt, hqs, List.take_left]

theorem strips (h : WellLabelled qs) :
    (Listing.code (instructions qs)).Strips (resolvedListing qs).code qs.length
      fun k => (qs.take k).countP Quad.isInstruction where
  inside k := by
    rw [at?_code]
    constructor
    · intro hk
      have hq := h.coded _ (List.getElem_mem hk)
      rw [List.getElem?_eq_getElem hk, Option.bind_some]
      cases hi : qs[k].isInstruction with
      | false =>
        obtain ⟨n, hn⟩ := hq.eq_label hi
        exact ⟨_, hn ▸ Quad.instruction?_label _⟩
      | true =>
        obtain ⟨i, hi, -⟩ := hq.retarget_instruction? hi fun _ => none
        exact ⟨i, hi⟩
    · rintro ⟨i, hi⟩
      obtain ⟨q, hq, -⟩ := Option.bind_eq_some_iff.mp hi
      exact (List.getElem?_eq_some_iff.mp hq).1
  find_le hn := by
    have hn := (List.idxOf?_eq_some_iff.mp hn).1
    rw [List.length_map] at hn
    exact Nat.le_of_lt hn
  label hk := by
    rw [at?_code] at hk
    obtain ⟨q, hq, hlabel⟩ := Option.bind_eq_some_iff.mp hk
    have hi : q.isInstruction = false := by
      by_contra hi
      obtain ⟨i, hi, hne, -⟩ := (h.coded q (List.mem_of_getElem? hq)).retarget_instruction?
        (Bool.eq_true_of_not_eq_false hi) fun _ => none
      exact hne _ (Option.some.inj (hi.symm.trans hlabel))
    simp [List.take_add_one, hq, hi]
  instruction {k i} hk hi := by
    rw [at?_code] at hk
    obtain ⟨q, hq, hqi⟩ := Option.bind_eq_some_iff.mp hk
    have hmem := List.mem_of_getElem? hq
    have htrue : q.isInstruction = true := by
      by_contra hfalse
      obtain ⟨n, rfl⟩ := (h.coded q hmem).eq_label (Bool.eq_false_of_not_eq_true hfalse)
      exact hi _ (Option.some.inj (hqi.symm.trans (Quad.instruction?_label _)))
    obtain ⟨j, hj, -, htarget, hre⟩ :=
      (h.coded q hmem).retarget_instruction? htrue fun x => labelNumber? x qs
    obtain rfl : i = j := Option.some.inj (hqi.symm.trans hj)
    refine ⟨by simp [List.take_add_one, hq, htrue], _, (h.at?_resolved hq htrue).trans hre, ?_⟩
    exact fun x hx => h.find_resolved hmem (htarget ▸ hx)
  stop := by
    rw [List.take_length]
    exact h.ends.at?_eq_none

end WellLabelled

theorem NumberedListing.ofText_lines {qs : List Quad} (h : ∀ q ∈ qs, q.Legible) :
    ofText (qs.map Quad.line).flatten = qs.map fun q => NumberedLine.ofFields? q.fields := by
  rw [ofText, lines_of_quads h, List.dropLast_concat, List.map_map]
  refine List.map_congr_left fun q hq => ?_
  rw [Function.comp_apply, Quad.fields_text (h q hq)]

/-- From every store the listings make the same stores and tests, and one ends where the other
does. -/
def Listing.SameRuns (l : Listing) (r : NumberedListing) : Prop :=
  ∀ (V : Type u) (I : Interpretation V) (s : Store V),
    (∀ es, (∃ m, l.code.Performs I ⟨0, s⟩ es m) ↔ ∃ m, r.code.Performs I ⟨0, s⟩ es m) ∧
    (∀ es t, l.code.Performs I ⟨0, s⟩ es ⟨l.length, t⟩ ↔
      ∃ k, r.Ends k ∧ r.code.Performs I ⟨0, s⟩ es ⟨k, t⟩) ∧
    ∀ t, l.Stops I s t ↔ ∃ es k, r.Ends k ∧ r.code.Performs I ⟨0, s⟩ es ⟨k, t⟩

theorem WellLabelled.sameRuns {qs : List Quad} (h : WellLabelled qs) :
    (instructions qs).SameRuns (resolvedListing qs) := by
  intro V I s
  have hends : ∀ (es : List (Event V)) (t : Store V),
      (Listing.code (instructions qs)).Performs I ⟨0, s⟩ es ⟨(instructions qs).length, t⟩ ↔
        ∃ k, (resolvedListing qs).Ends k ∧
          (resolvedListing qs).code.Performs I ⟨0, s⟩ es ⟨k, t⟩ := by
    intro es t
    rw [List.length_map]
    exact h.strips.ends_iff rfl (by rw [List.take_length]; exact h.ends)
      (fun k hk => hk.at?_eq_none) s t es
  refine ⟨fun es => h.strips.performs_iff rfl s es, hends, fun t => ?_⟩
  rw [Listing.Stops, ← Listing.performs_iff_steps]
  exact exists_congr fun es => hends es t

/-- The listing of a source keeps its instructions when its labels are resolved, and does the
same. -/
theorem resolveLabels_preserves_execution (source : Source) (h : (translate source).1 = .ok ()) :
    let out := (translate source).2
    (∃ ls rs, lines out = ls ++ [[]] ∧ lines (resolveLabels out) = rs ++ [[]] ∧ Resolves ls rs) ∧
      Listing.SameRuns.{u} (.ofText out) (.ofText (resolveLabels out)) := by
  obtain ⟨q, p, r, hts, hq, htext⟩ := translate_of_ok h
  have hregular : ∀ t ∈ p, t.Regular := fun t ht =>
    source.regular_tokens t (hts ▸ List.mem_append_left r ht)
  have hw := Program.wellLabelled_code (hq.alphanumeric hregular)
  rw [htext]
  dsimp only
  rw [resolveLabels_lines hw.clear]
  constructor
  · exact ⟨_, _, lines_of_quads hw.legible, lines_of_quads hw.legible_resolveQuads, hw.resolves⟩
  · rw [Listing.ofText_lines hw.legible, NumberedListing.ofText_lines hw.legible_resolveQuads]
    exact hw.sameRuns

theorem resolveLabels_preserves_execution_of_loop :
    let source := Source.ofText (utf8 "PROGRAM WHILE L0 < 9 DO L0 = L0 + 1 END.")
    let out := (translate source).2
    (translate source).1 = .ok () ∧
      out = utf8 ("L0\nTST, L0, 9, 1, L1\nJMP, L2\nL1\nADD, L0, 1, T0\nMOV, T0, L0\nJMP, L0\n" ++
        "L2\n") ∧
      resolveLabels out =
        utf8 "TST, L0, 9, 1, 3\nJMP, 6\nADD, L0, 1, T0\nMOV, T0, L0\nJMP, 1\nHALT\n" ∧
      (∃ ls rs, lines out = ls ++ [[]] ∧ lines (resolveLabels out) = rs ++ [[]] ∧
        Resolves ls rs) ∧
      Listing.SameRuns.{0} (.ofText out) (.ofText (resolveLabels out)) := by
  intro source out
  have hok : (translate source).1 = .ok () := by decide +kernel
  exact ⟨hok, by decide +kernel, by decide +kernel, resolveLabels_preserves_execution source hok⟩

end ThreeAddress
