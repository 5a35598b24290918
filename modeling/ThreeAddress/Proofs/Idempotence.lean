import Mathlib.Data.List.Infix
import ThreeAddress.Proofs.Resolution

namespace ThreeAddress

open Resolve

def NamesHalt (line : Bytes) : Prop :=
  ((fields line).head? = some (utf8 "JMP") ∨ (fields line).head? = some (utf8 "TST")) ∧
    (fields line).getLast? = some (utf8 "HALT")

instance (line : Bytes) : Decidable (NamesHalt line) := inferInstanceAs (Decidable (_ ∧ _))

structure IsInstruction (line : Bytes) : Prop where
  marked : isInstructionLine line = true
  whole : Bytes.newline ∉ line

inductive IsResolved : Bytes → Prop
  | plain {is : List Bytes} (h : ∀ i ∈ is, IsInstruction i) :
      IsResolved (is.map (· ++ [Bytes.newline])).flatten
  | halted {is : List Bytes} (h : ∀ i ∈ is, IsInstruction i) (hne : is ≠ [])
      (hhalt : ∀ i ∈ is, ¬NamesHalt i) :
      IsResolved ((is ++ [utf8 "HALT"]).map (· ++ [Bytes.newline])).flatten

theorem Resolve.Layout.foldl_add_of_instructions {is : List Bytes}
    (h : ∀ i ∈ is, isInstructionLine i = true) {l : Layout} (hl : l.trailing = false) :
    (is.foldl Layout.add l).labels = l.labels ∧ (is.foldl Layout.add l).trailing = false := by
  induction is generalizing l with
  | nil => exact ⟨rfl, hl⟩
  | cons i is ih =>
    obtain ⟨hi, his⟩ := List.forall_mem_cons.mp h
    rw [List.foldl_cons, l.add_instruction hi]
    exact ih his rfl

section

variable {i : Bytes}

theorem Resolve.retarget_cases (labels : List (Bytes × Nat)) (i : Bytes) :
    retarget labels i = i ∨
      ∃ n, retarget labels i = Bytes.join fieldMark ((fields i).dropLast ++ [decimal n]) := by
  by_cases hhead : (fields i).head? = some Opcode.jmp.mnemonic ∨
      (fields i).head? = some Opcode.tst.mnemonic
  · rw [retarget, if_pos hhead]
    cases (fields i).getLast?.bind fun last => labels.lookup last with
    | none => exact .inl rfl
    | some n => exact .inr ⟨n, rfl⟩
  · rw [retarget, if_neg hhead]
    exact .inl rfl

theorem fields_retargeted (i : Bytes) (n : Nat) :
    fields (Bytes.join fieldMark ((fields i).dropLast ++ [decimal n])) =
      (fields i).dropLast ++ [decimal n] := by
  apply fields_join
  · simp
  · rw [List.forall_mem_append, List.forall_mem_singleton]
    refine ⟨fun x hx => ?_, (numeral_decimal n).alphanumeric.apart.2⟩
    exact not_infix_of_mem_fields (List.mem_of_mem_dropLast hx)

theorem IsInstruction.retarget (h : IsInstruction i) (labels : List (Bytes × Nat)) :
    IsInstruction (Resolve.retarget labels i) := by
  rcases retarget_cases labels i with hi | ⟨n, hi⟩
  · rwa [hi]
  · rw [hi]
    constructor
    · have hlength : (fields i).length ≠ 1 := by simpa [isInstructionLine] using h.marked
      have hpos : 0 < (fields i).length := List.length_pos_iff.mpr (fields_ne_nil i)
      rw [isInstructionLine, fields_retargeted, List.length_append, List.length_dropLast,
        List.length_singleton]
      simp only [ne_eq, decide_not, Bool.not_eq_eq_eq_not, Bool.not_true, decide_eq_false_iff_not]
      omega
    · apply not_mem_join (by decide)
      rw [List.forall_mem_append, List.forall_mem_singleton]
      refine ⟨fun x hx hb => ?_, (numeral_decimal n).alphanumeric.apart.1⟩
      exact h.whole (mem_of_mem_fields (List.mem_of_mem_dropLast hx) hb)

/-- Resolution makes no target `HALT`, since all targets that it makes are numbers. -/
theorem not_namesHalt_retarget (h : ¬NamesHalt i) (labels : List (Bytes × Nat)) :
    ¬NamesHalt (retarget labels i) := by
  rcases retarget_cases labels i with hi | ⟨n, hi⟩
  · rwa [hi]
  · rintro ⟨-, hlast⟩
    rw [hi, fields_retargeted, List.getLast?_concat, Option.some.injEq] at hlast
    have hdigits := (numeral_decimal n).digits
    rw [hlast] at hdigits
    exact absurd hdigits (by decide)

theorem retarget_of_not_namesHalt (h : ¬NamesHalt i) (n : Nat) :
    retarget [(utf8 "HALT", n)] i = i := by
  by_cases hhead : (fields i).head? = some Opcode.jmp.mnemonic ∨
      (fields i).head? = some Opcode.tst.mnemonic
  · rw [retarget, if_pos hhead]
    cases hx : (fields i).getLast? with
    | none => rfl
    | some x =>
      have hne : (x == utf8 "HALT") = false := by
        apply beq_false_of_ne
        rintro rfl
        exact h ⟨hhead, hx⟩
      simp only [Option.bind_some, List.lookup_cons, hne, List.lookup_nil]
  · rw [retarget, if_neg hhead]

end

theorem resolveLabels_of_instructions {is rest : List Bytes} (h : ∀ i ∈ is, IsInstruction i)
    (hrest : ∀ line ∈ rest, isInstructionLine line = false ∧ Bytes.newline ∉ line) :
    let layout : Layout := rest.foldl Layout.add (is.foldl Layout.add {})
    let halt := if layout.trailing ∧ is ≠ [] then [Opcode.halt.mnemonic] else []
    resolveLabels ((is ++ rest).map (· ++ [Bytes.newline])).flatten =
      ((is.map (retarget layout.labels) ++ halt).map (· ++ [Bytes.newline])).flatten := by
  intro layout halt
  have hlines : lines ((is ++ rest).map (· ++ [Bytes.newline])).flatten = is ++ rest ++ [[]] := by
    apply lines_flatten
    rw [List.forall_mem_append]
    exact ⟨fun i hi => (h i hi).whole, fun line hline => (hrest line hline).2⟩
  have hkept : (is ++ rest ++ [[]]).filter isInstructionLine = is := by
    have his : is.filter isInstructionLine = is :=
      List.filter_eq_self.mpr fun i hi => (h i hi).marked
    have hnone : (rest ++ [[]]).filter isInstructionLine = [] := by
      rw [List.filter_eq_nil_iff, List.forall_mem_append, List.forall_mem_singleton]
      exact ⟨fun line hline => by simp [(hrest line hline).1], by decide⟩
    rw [List.append_assoc, List.filter_append, his, hnone, List.append_nil]
  have hlayout : (is ++ rest ++ [[]]).foldl Layout.add {} = layout := by
    rw [List.foldl_append, List.foldl_append]
    exact Layout.add_nil _
  rw [resolveLabels_eq, hlines, hkept, hlayout]

theorem IsResolved.resolveLabels_eq_self {text : Bytes} (h : IsResolved text) :
    resolveLabels text = text := by
  cases h with
  | @plain is h =>
    obtain ⟨hlabels, htrailing⟩ :=
      Layout.foldl_add_of_instructions (l := {}) (fun i hi => (h i hi).marked) rfl
    have hresolve := resolveLabels_of_instructions h (List.forall_mem_nil _)
    have hsame : is.map (retarget []) = is := List.map_id'' (fun i => by simp [retarget]) is
    simpa [hlabels, htrailing, hsame] using hresolve
  | @halted is h hne hhalt =>
    obtain ⟨hlabels, htrailing⟩ :=
      Layout.foldl_add_of_instructions (l := {}) (fun i hi => (h i hi).marked) rfl
    have hrest : isInstructionLine (utf8 "HALT") = false ∧ Bytes.newline ∉ utf8 "HALT" := by decide
    have hresolve := resolveLabels_of_instructions h (List.forall_mem_singleton.mpr hrest)
    have hadd := (is.foldl Layout.add {}).add_label (by decide) hrest.1
    have hsame : ∀ n, is.map (retarget [(utf8 "HALT", n)]) = is := fun n =>
      (List.map_congr_left fun i hi => retarget_of_not_namesHalt (hhalt i hi) n).trans
        (List.map_id is)
    rw [hresolve, List.foldl_cons, List.foldl_nil, hadd]
    simp only [hlabels, hsame, hne, ne_eq, not_false_eq_true, and_self, if_true]
    rfl

theorem isResolved_resolveLabels {text : Bytes} (h : ∀ line ∈ lines text, ¬NamesHalt line) :
    IsResolved (resolveLabels text) := by
  rw [resolveLabels_eq]
  generalize ((lines text).foldl Layout.add {} : Layout) = layout
  have hkept : ∀ i ∈ (lines text).filter isInstructionLine, IsInstruction i ∧ ¬NamesHalt i := by
    intro i hi
    obtain ⟨hline, hmarked⟩ := List.mem_filter.mp hi
    exact ⟨⟨hmarked, not_mem_of_mem_cutAt hline⟩, h i hline⟩
  generalize (lines text).filter isInstructionLine = kept at hkept
  have hinstruction : ∀ i ∈ kept.map (retarget layout.labels), IsInstruction i :=
    List.forall_mem_map.mpr fun i hi => (hkept i hi).1.retarget layout.labels
  by_cases hhalt : layout.trailing ∧ kept ≠ []
  · rw [if_pos hhalt]
    apply IsResolved.halted hinstruction
    · simpa using hhalt.2
    · exact List.forall_mem_map.mpr fun i hi => not_namesHalt_retarget (hkept i hi).2 layout.labels
  · rw [if_neg hhalt, List.append_nil]
    exact .plain hinstruction

/-- Resolving the labels of a text a second time changes nothing, if no jump or test of the text
names a label `HALT`. -/
theorem resolveLabels_idempotent {text : Bytes} (h : ∀ line ∈ lines text, ¬NamesHalt line) :
    resolveLabels (resolveLabels text) = resolveLabels text :=
  (isResolved_resolveLabels h).resolveLabels_eq_self

/-- Empty lines, a label that is defined twice, labels that look like numbers and a target that is
not defined. -/
theorem resolveLabels_idempotent_of_odd_text :
    let text := utf8 "\n\nL1\nJMP, L1\n\nL1\nTST, a, b, 1, 7\n7\n" ++
      utf8 "ADD, x, y, HALT\nJMP, gone\nend\n3\n\n"
    let resolved := utf8 "JMP, 2\nTST, a, b, 1, 3\nADD, x, y, HALT\nJMP, gone\nHALT\n"
    (∀ line ∈ lines text, ¬NamesHalt line) ∧ resolveLabels text = resolved ∧
      resolveLabels resolved = resolved := by
  intro text resolved
  have h : ∀ line ∈ lines text, ¬NamesHalt line := by decide +kernel
  have hresolved : resolveLabels text = resolved := by decide +kernel
  refine ⟨h, hresolved, ?_⟩
  have hsame := resolveLabels_idempotent h
  rwa [hresolved] at hsame

-- A jump to a label `HALT` that is not defined finds the `HALT` that the first resolution adds.
example : resolveLabels (utf8 "JMP, HALT\nL0\n") = utf8 "JMP, HALT\nHALT\n" ∧
    resolveLabels (utf8 "JMP, HALT\nHALT\n") = utf8 "JMP, 2\nHALT\n" := by
  decide +kernel

end ThreeAddress
