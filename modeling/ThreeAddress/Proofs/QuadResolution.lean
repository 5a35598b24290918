import Mathlib.Data.List.Forall2
import ThreeAddress.Proofs.Resolution

namespace ThreeAddress

/-- The instruction `q` of `qs` becomes `r`. The label that a jump or a test names is replaced by
the number of the instruction after its last definition. -/
inductive Quad.ResolvesTo (qs : List Quad) : Quad → Quad → Prop
  | defined {op : Opcode} {args : List Bytes} {x : Bytes} {d : Quad} {a b : List Quad}
      (hop : op = .jmp ∨ op = .tst) (hqs : qs = a ++ d :: b) (hd : d.defined? = some x)
      (hb : x ∉ definitions b) :
      ResolvesTo qs ⟨op, args ++ [x]⟩ ⟨op, args ++ [decimal (1 + a.countP Quad.isInstruction)]⟩
  | undefined {op : Opcode} {args : List Bytes} {x : Bytes} (hop : op = .jmp ∨ op = .tst)
      (hx : x ∉ definitions qs) : ResolvesTo qs ⟨op, args ++ [x]⟩ ⟨op, args ++ [x]⟩
  | plain {q : Quad} (hop : ¬(q.op = .jmp ∨ q.op = .tst)) : ResolvesTo qs q q

theorem exists_last_definition {x : Bytes} {qs : List Quad} (h : x ∈ definitions qs) :
    ∃ a d b, qs = a ++ d :: b ∧ d.defined? = some x ∧ x ∉ definitions b := by
  induction qs with
  | nil => cases h
  | cons q qs ih =>
    by_cases hqs : x ∈ definitions qs
    · obtain ⟨a, d, b, rfl, hd, hb⟩ := ih hqs
      exact ⟨q :: a, d, b, rfl, hd, hb⟩
    · rw [definitions_cons, List.mem_append] at h
      have hq : q.defined? = some x := by simpa using h.resolve_right hqs
      exact ⟨[], q, qs, rfl, hq, hqs⟩

namespace Quad

theorem clear_of_args {q : Quad}
    (hlabel : q.isInstruction = false →
      q.text ≠ [] ∧ Bytes.newline ∉ q.text ∧ ¬fieldMark <:+: q.text)
    (hother : q.isInstruction = true →
      q.args ≠ [] ∧ ∀ x ∈ q.args, Bytes.newline ∉ x ∧ ¬fieldMark <:+: x) : q.Clear where
  legible := by
    cases hi : q.isInstruction with
    | false =>
      have hop : q.op = .label := by simpa [isInstruction] using hi
      have hfields : q.fields = [q.text] := by simp [fields, text, hop]
      rw [Legible, hfields]
      exact List.forall_mem_singleton.mpr (hlabel hi).2
    | true =>
      rw [Legible, fields_of_instruction hi]
      exact List.forall_mem_cons.mpr ⟨(alphanumeric_mnemonic q.op).apart, (hother hi).2⟩
  label_ne_nil hi := (hlabel hi).1
  args_ne_nil hi := (hother hi).1

theorem resolvesTo_retarget {q : Quad} (hargs : q.args ≠ []) (qs : List Quad) :
    q.ResolvesTo qs (q.retarget fun x => labelNumber? x qs) := by
  by_cases hop : q.op = .jmp ∨ q.op = .tst
  · obtain ⟨op, args⟩ := q
    obtain ⟨args, x, rfl⟩ := (List.eq_nil_or_concat' args).resolve_left hargs
    have htarget : target? ⟨op, args ++ [x]⟩ = some x := by simp [target?, hop]
    by_cases hx : x ∈ definitions qs
    · obtain ⟨a, d, b, hqs, hd, hb⟩ := exists_last_definition hx
      have hnumber : labelNumber? x qs = some (1 + a.countP Quad.isInstruction) := by
        rw [hqs, labelNumber?_append hd hb, Nat.add_comm]
      have hretarget : retarget (fun x => labelNumber? x qs) ⟨op, args ++ [x]⟩ =
          ⟨op, args ++ [decimal (1 + a.countP Quad.isInstruction)]⟩ := by
        simp [retarget, htarget, hnumber]
      rw [hretarget]
      exact .defined hop hqs hd hb
    · have hretarget : retarget (fun x => labelNumber? x qs) ⟨op, args ++ [x]⟩ =
          ⟨op, args ++ [x]⟩ := by
        simp [retarget, htarget, labelNumber?_eq_none hx]
      rw [hretarget]
      exact .undefined hop hx
  · have hretarget : q.retarget (fun x => labelNumber? x qs) = q := by
      simp [retarget, target?, hop]
    rw [hretarget]
    exact .plain hop

theorem flatten_lines_eq_nil_iff {qs : List Quad} : (qs.map line).flatten = [] ↔ qs = [] := by
  cases qs with
  | nil => simp
  | cons q qs => simp [line]

end Quad

theorem resolveQuads_eq_nil_iff {qs : List Quad} :
    resolveQuads qs = [] ↔ ∀ q ∈ qs, q.isInstruction = false := by
  have hfilter : qs.filter Quad.isInstruction = [] ↔ ∀ q ∈ qs, q.isInstruction = false := by simp
  rw [← hfilter]
  by_cases hnil : qs.filter Quad.isInstruction = []
  · simp [resolveQuads, hnil]
  · simp only [resolveQuads, List.append_eq_nil_iff, List.map_eq_nil_iff, hnil, false_and]

/-- Resolving the labels of a written listing gives the listing of the resolved quadruples: without
the definitions of labels, with numbers for the labels that jumps and tests name, and with a `HALT`
if a label stands after the last instruction. -/
theorem resolveLabels_resolves_quads (qs : List Quad)
    (hlabel : ∀ q ∈ qs, q.isInstruction = false →
      q.text ≠ [] ∧ Bytes.newline ∉ q.text ∧ ¬utf8 ", " <:+: q.text)
    (hother : ∀ q ∈ qs, q.isInstruction = true →
      q.args ≠ [] ∧ ∀ x ∈ q.args, Bytes.newline ∉ x ∧ ¬utf8 ", " <:+: x) :
    let resolved := resolveLabels (qs.map Quad.line).flatten
    let halt : List Quad :=
      if (qs.getLast?.any fun q => !q.isInstruction) ∧ qs.any Quad.isInstruction then [⟨.halt, []⟩]
      else []
    (∃ rs, List.Forall₂ (Quad.ResolvesTo qs) (qs.filter Quad.isInstruction) rs ∧
      resolved = ((rs ++ halt).map Quad.line).flatten) ∧
    (resolved = [] ↔ ∀ q ∈ qs, q.isInstruction = false) := by
  intro resolved halt
  have hclear : ∀ q ∈ qs, q.Clear := fun q hq => Quad.clear_of_args (hlabel q hq) (hother q hq)
  have hresolved : resolved = ((resolveQuads qs).map Quad.line).flatten :=
    resolveLabels_lines hclear
  have hany : qs.any Quad.isInstruction = true ↔ qs.filter Quad.isInstruction ≠ [] := by simp
  refine ⟨⟨(qs.filter Quad.isInstruction).map (Quad.retarget fun x => labelNumber? x qs), ?_, ?_⟩,
    ?_⟩
  · rw [List.forall₂_map_right_iff, List.forall₂_same]
    intro q hq
    obtain ⟨hq, hi⟩ := List.mem_filter.mp hq
    exact Quad.resolvesTo_retarget ((hclear q hq).args_ne_nil hi) qs
  · simp only [hresolved, resolveQuads, halt, hany]
  · rw [hresolved, Quad.flatten_lines_eq_nil_iff, resolveQuads_eq_nil_iff]

/-- Labels that are defined twice, at the end and not at all, a label of two parts, arguments that
are empty or hold a comma and a space apart, and an operation without a mnemonic. -/
theorem resolveLabels_resolves_quads_of_odd_listing :
    let qs : List Quad :=
      [.label (utf8 "L"), .jump (utf8 "L"), ⟨.label, [utf8 "En", utf8 "d"]⟩,
        ⟨.tst, [utf8 "a,", utf8 " b", [], utf8 "End"]⟩, ⟨.other 99, [utf8 "L"]⟩, .label (utf8 "L"),
        .jump (utf8 "M"), ⟨.tst, [utf8 "L", utf8 "L"]⟩, .label (utf8 "End")]
    (∀ q ∈ qs, q.isInstruction = false →
      q.text ≠ [] ∧ Bytes.newline ∉ q.text ∧ ¬utf8 ", " <:+: q.text) ∧
    (∀ q ∈ qs, q.isInstruction = true →
      q.args ≠ [] ∧ ∀ x ∈ q.args, Bytes.newline ∉ x ∧ ¬utf8 ", " <:+: x) ∧
    resolveLabels (qs.map Quad.line).flatten =
      utf8 "JMP, 4\nTST, a,,  b, , 6\n, L\nJMP, M\nTST, L, 4\nHALT\n" ∧
    ∃ rs, List.Forall₂ (Quad.ResolvesTo qs) (qs.filter Quad.isInstruction) rs ∧
      resolveLabels (qs.map Quad.line).flatten =
        ((rs ++ [(⟨.halt, []⟩ : Quad)]).map Quad.line).flatten := by
  intro qs
  have hlabel : ∀ q ∈ qs, q.isInstruction = false →
      q.text ≠ [] ∧ Bytes.newline ∉ q.text ∧ ¬utf8 ", " <:+: q.text := by decide +kernel
  have hother : ∀ q ∈ qs, q.isInstruction = true →
      q.args ≠ [] ∧ ∀ x ∈ q.args, Bytes.newline ∉ x ∧ ¬utf8 ", " <:+: x := by decide +kernel
  exact ⟨hlabel, hother, by decide +kernel, (resolveLabels_resolves_quads qs hlabel hother).1⟩

end ThreeAddress
