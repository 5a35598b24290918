import ThreeAddress.Proofs.Targets
import ThreeAddress.Quad.Resolve

namespace ThreeAddress

open Resolve

theorem lines_concat_newline (text : Bytes) :
    lines (text ++ [Bytes.newline]) = lines text ++ [[]] := by
  simp [lines, cutAt, Split.Pieces.toList, Split.Pieces.cut]

def isInstructionLine (line : Bytes) : Bool := (fields line).length ≠ 1

namespace Resolve.Layout

variable (l : Layout) {line : Bytes}

theorem add_nil : l.add [] = l := if_pos rfl

theorem add_label (hne : line ≠ []) (h : isInstructionLine line = false) :
    l.add line = { l with labels := (line, l.size + 1) :: l.labels, trailing := true } := by
  have hlength : (fields line).length = 1 := by simpa [isInstructionLine] using h
  rw [add, if_neg hne, if_pos hlength]

theorem add_instruction (h : isInstructionLine line = true) :
    l.add line =
      { l with instructions := line :: l.instructions, size := l.size + 1, trailing := false } := by
  have hlength : (fields line).length ≠ 1 := by simpa [isInstructionLine] using h
  have hne : line ≠ [] := by
    rintro rfl
    cases h
  rw [add, if_neg hne, if_neg hlength]

theorem instructions_foldl_add (ls : List Bytes) :
    (ls.foldl add l).instructions = (ls.filter isInstructionLine).reverse ++ l.instructions := by
  induction ls generalizing l with
  | nil => rfl
  | cons line ls ih =>
    rw [List.foldl_cons, ih]
    cases hi : isInstructionLine line with
    | true => simp [add_instruction l hi, hi]
    | false =>
      by_cases hne : line = []
      · subst hne
        rw [add_nil, List.filter_cons_of_neg (by simp [hi])]
      · simp [add_label l hne hi, hi]

end Resolve.Layout

theorem Resolve.foldl_add_dropEndWhile (text : Bytes) :
    (lines (text.dropEndWhile fun b => b = Bytes.newline)).foldl Layout.add {} =
      (lines text).foldl Layout.add {} := by
  rw [← List.reverse_reverse text]
  generalize text.reverse = r
  induction r with
  | nil => rfl
  | cons b r ih =>
    by_cases hb : b = Bytes.newline
    · subst hb
      rw [Bytes.dropEndWhile] at ih ⊢
      rw [List.reverse_reverse] at ih ⊢
      rw [List.dropWhile_cons_of_pos (by simp), ih, List.reverse_cons, lines_concat_newline,
        List.foldl_append]
      exact (Layout.add_nil _).symm
    · simp [Bytes.dropEndWhile, hb]

theorem Resolve.retarget_halt (labels : List (Bytes × Nat)) :
    retarget labels Opcode.halt.mnemonic = Opcode.halt.mnemonic := by
  have hhead : ¬((fields Opcode.halt.mnemonic).head? = some Opcode.jmp.mnemonic ∨
      (fields Opcode.halt.mnemonic).head? = some Opcode.tst.mnemonic) := by decide
  rw [retarget, if_neg hhead]

/-- The lines of a resolved listing are the instructions of the listing with other targets, and
perhaps a `HALT`. -/
theorem resolveLabels_eq (text : Bytes) :
    let layout : Layout := (lines text).foldl Layout.add {}
    let kept := (lines text).filter isInstructionLine
    let halt := if layout.trailing ∧ kept ≠ [] then [Opcode.halt.mnemonic] else []
    resolveLabels text =
      ((kept.map (retarget layout.labels) ++ halt).map (· ++ [Bytes.newline])).flatten := by
  intro layout kept halt
  have hkept : layout.instructions.reverse = kept := by
    simp [layout, Layout.instructions_foldl_add, kept]
  have hempty : layout.instructions ≠ [] ↔ kept ≠ [] := by
    rw [← hkept, List.reverse_ne_nil_iff]
  have hhalt : halt.map (retarget layout.labels) = halt := by
    unfold halt
    split
    · rw [List.map_singleton, retarget_halt]
    · rfl
  simp only [resolveLabels, Resolve.foldl_add_dropEndWhile]
  change ((layout.instructions.reverse ++
    if layout.trailing ∧ layout.instructions ≠ [] then [Opcode.halt.mnemonic] else []).flatMap
      fun i => retarget layout.labels i ++ [Bytes.newline]) = _
  simp only [hkept, hempty]
  rw [List.flatMap_def, ← hhalt, ← List.map_append, List.map_map]
  rfl

namespace Quad

def isInstruction (q : Quad) : Bool := q.op ≠ .label

structure Clear (q : Quad) : Prop where
  legible : q.Legible
  label_ne_nil : q.isInstruction = false → q.text ≠ []
  args_ne_nil : q.isInstruction = true → q.args ≠ []

def retarget (number? : Bytes → Option Nat) (q : Quad) : Quad :=
  match q.target?.bind number? with
  | some n => { q with args := q.args.dropLast ++ [decimal n] }
  | none => q

@[simp] theorem text_label (x : Bytes) : (Quad.label x).text = x := by
  simp [text, Quad.label]

theorem text_of_label {q : Quad} (h : q.isInstruction = false) : q.text = q.args.flatten := by
  have hop : q.op = .label := by simpa [isInstruction] using h
  simp [text, hop]

theorem fields_of_instruction {q : Quad} (h : q.isInstruction = true) :
    q.fields = q.op.mnemonic :: q.args := by
  have hop : q.op ≠ .label := by simpa [isInstruction] using h
  simp [fields, hop]

end Quad

/-- The number of the instruction after the last definition of a label. -/
def labelNumber? (x : Bytes) : List Quad → Option Nat
  | [] => none
  | q :: qs =>
    match labelNumber? x qs with
    | some n => some (if q.isInstruction then n + 1 else n)
    | none => if q.defined? = some x then some 1 else none

/-- Quadruples without labels. Labels after the last instruction stand before a `HALT`, which is
added for them. -/
def resolveQuads (qs : List Quad) : List Quad :=
  let instructions := qs.filter Quad.isInstruction
  let halt :=
    if (qs.getLast?.any fun q => !q.isInstruction) ∧ instructions ≠ [] then [⟨.halt, []⟩] else []
  instructions.map (Quad.retarget fun x => labelNumber? x qs) ++ halt

theorem Opcode.mnemonic_eq_jmp_or_tst_iff {op : Opcode} :
    op.mnemonic = Opcode.jmp.mnemonic ∨ op.mnemonic = Opcode.tst.mnemonic ↔
      op = .jmp ∨ op = .tst := by
  cases op with
  | other code => simp [mnemonic, utf8, encode]
  | _ => decide

namespace Quad.Clear

variable {q : Quad}

theorem fields_text (h : q.Clear) (hq : q.isInstruction = true) :
    ThreeAddress.fields q.text = q.op.mnemonic :: q.args :=
  (Quad.fields_text h.legible).trans (fields_of_instruction hq)

theorem length_fields (h : q.Clear) :
    (ThreeAddress.fields q.text).length = 1 ↔ q.isInstruction = false := by
  cases hq : q.isInstruction with
  | true =>
    rw [h.fields_text hq]
    simp [h.args_ne_nil hq]
  | false =>
    have hop : q.op = .label := by simpa [isInstruction] using hq
    simp [Quad.fields_text h.legible, fields, hop]

theorem isInstructionLine_text (h : q.Clear) : isInstructionLine q.text = q.isInstruction := by
  rw [isInstructionLine, Bool.eq_iff_iff, decide_eq_true_iff, Ne, h.length_fields,
    Bool.not_eq_false]

theorem text_ne_nil (h : q.Clear) : q.text ≠ [] := by
  cases hq : q.isInstruction with
  | false => exact h.label_ne_nil hq
  | true =>
    intro ht
    rw [← h.isInstructionLine_text, ht] at hq
    cases hq

theorem add_label (h : q.Clear) (hq : q.isInstruction = false) (l : Layout) :
    l.add q.text = { l with labels := (q.text, l.size + 1) :: l.labels, trailing := true } :=
  l.add_label h.text_ne_nil (h.isInstructionLine_text.trans hq)

theorem add_instruction (h : q.Clear) (hq : q.isInstruction = true) (l : Layout) :
    l.add q.text =
      { l with
        instructions := q.text :: l.instructions, size := l.size + 1, trailing := false } :=
  l.add_instruction (h.isInstructionLine_text.trans hq)

theorem text_retarget (h : q.Clear) (hq : q.isInstruction = true) {number? : Bytes → Option Nat}
    {n : Nat} (hn : q.target?.bind number? = some n) :
    (q.retarget number?).text =
      Bytes.join fieldMark ((ThreeAddress.fields q.text).dropLast ++ [decimal n]) := by
  have hop : q.op ≠ .label := by simpa [isInstruction] using hq
  have hmark : utf8 ", " = fieldMark := by decide
  rw [h.fields_text hq, List.dropLast_cons_of_ne_nil (h.args_ne_nil hq)]
  simp only [Quad.retarget, hn, text, if_neg hop, hmark]
  rfl

theorem head?_fields_iff (h : q.Clear) (hq : q.isInstruction = true) :
    (ThreeAddress.fields q.text).head? = some Opcode.jmp.mnemonic ∨
        (ThreeAddress.fields q.text).head? = some Opcode.tst.mnemonic ↔
      q.op = .jmp ∨ q.op = .tst := by
  rw [h.fields_text hq, List.head?_cons, Option.some.injEq, Option.some.injEq]
  exact Opcode.mnemonic_eq_jmp_or_tst_iff

theorem getLast?_fields (h : q.Clear) (hq : q.isInstruction = true)
    (hjump : q.op = .jmp ∨ q.op = .tst) : (ThreeAddress.fields q.text).getLast? = q.target? := by
  have ht : q.target? = q.args.getLast? := if_pos hjump
  rw [ht, h.fields_text hq, List.getLast?_cons,
    List.getLast?_eq_some_getLast (h.args_ne_nil hq)]
  rfl

theorem retarget_text (h : q.Clear) (hq : q.isInstruction = true) (labels : List (Bytes × Nat)) :
    Resolve.retarget labels q.text = (q.retarget fun x => labels.lookup x).text := by
  by_cases hjump : q.op = .jmp ∨ q.op = .tst
  · rw [Resolve.retarget, if_pos ((h.head?_fields_iff hq).mpr hjump), h.getLast?_fields hq hjump]
    cases hn : q.target?.bind fun x => labels.lookup x with
    | none => simp only [Quad.retarget, hn]
    | some n => exact (h.text_retarget hq hn).symm
  · have ht : q.target? = none := if_neg hjump
    rw [Resolve.retarget, if_neg ((h.head?_fields_iff hq).not.mpr hjump)]
    simp [Quad.retarget, ht]

end Quad.Clear

theorem filter_isInstructionLine_texts {qs : List Quad} (h : ∀ q ∈ qs, q.Clear) :
    (qs.map Quad.text).filter isInstructionLine = (qs.filter Quad.isInstruction).map Quad.text := by
  rw [List.filter_map]
  exact congrArg _ (List.filter_congr fun q hq => (h q hq).isInstructionLine_text)

namespace Resolve

variable {qs : List Quad} (h : ∀ q ∈ qs, q.Clear) (l : Layout)

include h

theorem trailing_foldl_add :
    ((qs.map Quad.text).foldl Layout.add l).trailing =
      (qs.getLast?.map fun q => !q.isInstruction).getD l.trailing := by
  induction qs generalizing l with
  | nil => rfl
  | cons q qs ih =>
    obtain ⟨hq, h⟩ := List.forall_mem_cons.mp h
    rw [List.map_cons, List.foldl_cons, ih h]
    cases qs with
    | cons q' qs =>
      rw [List.getLast?_cons_cons, List.getLast?_eq_some_getLast (List.cons_ne_nil q' qs)]
      rfl
    | nil =>
      cases hi : q.isInstruction with
      | true => simp [hq.add_instruction hi, hi]
      | false => simp [hq.add_label hi, hi]

theorem lookup_foldl_add (x : Bytes) :
    ((qs.map Quad.text).foldl Layout.add l).labels.lookup x =
      ((labelNumber? x qs).map (l.size + ·)).or (l.labels.lookup x) := by
  induction qs generalizing l with
  | nil => rfl
  | cons q qs ih =>
    obtain ⟨hq, h⟩ := List.forall_mem_cons.mp h
    rw [List.map_cons, List.foldl_cons, ih h, labelNumber?]
    cases hi : q.isInstruction with
    | true =>
      have hd : q.defined? = none := if_neg (by simpa [Quad.isInstruction] using hi)
      rw [hq.add_instruction hi]
      cases labelNumber? x qs with
      | none => simp [hd]
      | some n => simp [Nat.add_assoc, Nat.add_comm 1]
    | false =>
      have hop : q.op = .label := by simpa [Quad.isInstruction] using hi
      have hd : q.defined? = some q.text := by
        rw [Quad.text_of_label hi]
        exact if_pos hop
      rw [hq.add_label hi]
      cases labelNumber? x qs with
      | some n => simp
      | none =>
        by_cases hx : x = q.text
        · simp [hd, hx]
        · have hx' : (x == q.text) = false := beq_false_of_ne hx
          simp [hd, List.lookup_cons, hx', Ne.symm hx]

end Resolve

theorem labelNumber?_eq_none {x : Bytes} {qs : List Quad} (h : x ∉ definitions qs) :
    labelNumber? x qs = none := by
  induction qs with
  | nil => rfl
  | cons q qs ih =>
    rw [definitions_cons, List.mem_append, not_or] at h
    rw [labelNumber?, ih h.2]
    exact if_neg fun hd => h.1 (by simp [hd])

/-- The number of a label is that of the first instruction after its last definition. -/
theorem labelNumber?_append {x : Bytes} {d : Quad} {b : List Quad} (hd : d.defined? = some x)
    (h : x ∉ definitions b) (a : List Quad) :
    labelNumber? x (a ++ d :: b) = some (a.countP Quad.isInstruction + 1) := by
  induction a with
  | nil => simp [labelNumber?, labelNumber?_eq_none h, hd]
  | cons q a ih =>
    rw [List.cons_append, labelNumber?, ih]
    cases hi : q.isInstruction <;> simp [hi]

theorem resolveLabels_lines {qs : List Quad} (h : ∀ q ∈ qs, q.Clear) :
    resolveLabels (qs.map Quad.line).flatten = ((resolveQuads qs).map Quad.line).flatten := by
  let layout : Layout := (qs.map Quad.text).foldl Layout.add {}
  have hlines : lines (qs.map Quad.line).flatten = qs.map Quad.text ++ [[]] :=
    lines_of_quads fun q hq => (h q hq).legible
  have hlayout : (lines (qs.map Quad.line).flatten).foldl Layout.add {} = layout := by
    rw [hlines, List.foldl_append]
    exact Layout.add_nil _
  have hkept : (lines (qs.map Quad.line).flatten).filter isInstructionLine =
      (qs.filter Quad.isInstruction).map Quad.text := by
    rw [hlines, List.filter_append, filter_isInstructionLine_texts h]
    exact List.append_nil _
  have hlookup : ∀ x, layout.labels.lookup x = labelNumber? x qs := fun x => by
    simp only [layout, Resolve.lookup_foldl_add h]
    simp
  have htrailing : layout.trailing = qs.getLast?.any fun q => !q.isInstruction := by
    simp only [layout, Resolve.trailing_foldl_add h]
    cases qs.getLast? <;> rfl
  have hretarget : ((qs.filter Quad.isInstruction).map Quad.text).map
        (Resolve.retarget layout.labels) =
      ((qs.filter Quad.isInstruction).map (Quad.retarget fun x => labelNumber? x qs)).map
        Quad.text := by
    rw [List.map_map, List.map_map]
    refine List.map_congr_left fun q hq => ?_
    obtain ⟨hq, hi⟩ := List.mem_filter.mp hq
    simp only [Function.comp_apply, (h q hq).retarget_text hi, hlookup]
  simp only [resolveLabels_eq, hlayout, hkept, hretarget, htrailing, Ne, List.map_eq_nil_iff,
    resolveQuads]
  rw [List.map_append, List.map_append, List.map_map]
  congr 2
  split <;> rfl

end ThreeAddress
