import Mathlib.Data.List.Forall2
import ThreeAddress.Proofs.Blocks
import ThreeAddress.Proofs.Resolution

namespace ThreeAddress

open Names

structure WellLabelled (qs : List Quad) : Prop where
  coded : ∀ q ∈ qs, q.Coded
  legible : ∀ q ∈ qs, q.Legible
  nodup : (definitions qs).Nodup
  closed : targets qs ⊆ definitions qs
  nonempty : qs ≠ [] → ∃ q ∈ qs, q.isInstruction = true

theorem Quad.Coded.clear {q : Quad} (h : q.Coded) (hl : q.Legible) : q.Clear where
  legible := hl
  label_ne_nil hi := by
    cases h with
    | computation h =>
      have hop : q.op = .label := by simpa [isInstruction] using hi
      have harith := h.isArithmetic
      rw [hop] at harith
      cases harith
    | move | test | jump => cases hi
    | label n =>
      rw [text_label]
      exact List.cons_ne_nil 76 (decimal n)
  args_ne_nil hi := by
    cases h with
    | computation h => cases h <;> exact List.cons_ne_nil _ _
    | move | test | jump | label => exact List.cons_ne_nil _ _

theorem Statement.exists_instruction (s : Statement) (first : Nat) :
    ∃ q ∈ s.code first, q.isInstruction = true := by
  cases s with
  | assign x e => exact ⟨.move (e.operand 0) x, by simp [code], rfl⟩
  | conditional c s => exact ⟨.jump (labelName (first + 1)), by simp [code, Condition.branch], rfl⟩
  | loop c s => exact ⟨.jump (labelName first), by simp [code], rfl⟩

theorem Program.wellLabelled_code {p : Program}
    (hp : p.Over Bytes.Alphanumeric Bytes.Alphanumeric) : WellLabelled (p.code 0) where
  coded := p.coded_code 0
  legible := p.legible_code hp 0
  nodup := by
    rw [← labels_instructions (p.coded_code 0)]
    exact p.nodup_labels_code
  closed x hx := mem_definitions_code.mpr (isLabel_of_mem_targets hx)
  nonempty hne := by
    cases p with
    | nil => exact absurd rfl hne
    | cons s p =>
      obtain ⟨q, hq, hi⟩ := s.exists_instruction 0
      exact ⟨q, List.mem_append_left _ hq, hi⟩

def lineNumber (before : List Bytes) : Nat := before.countP isInstructionLine + 1

/-- The label `x` of the lines `ls` stands for line `n` of the lines `rs`: it is defined once, and
line `n` comes from the first instruction after it or is the `HALT` that is added. -/
def StandsFor (ls rs : List Bytes) (x : Bytes) (n : Nat) : Prop :=
  ∃ a b, ls = a ++ x :: b ∧ x ∉ a ∧ x ∉ b ∧
    ((∃ c i d, b = c ++ i :: d ∧ (∀ y ∈ c, isInstructionLine y = false) ∧
      isInstructionLine i = true ∧ n = lineNumber (a ++ x :: c)) ∨
    (∀ y ∈ b, isInstructionLine y = false) ∧ n = rs.length ∧ rs.getLast? = some (utf8 "HALT"))

/-- The line `i` of `ls` becomes the line `j` of `rs`: of a jump or a test the last field changes,
and of other lines nothing. -/
def Becomes (ls rs : List Bytes) (i j : Bytes) : Prop :=
  if (fields i).head? = some (utf8 "JMP") ∨ (fields i).head? = some (utf8 "TST") then
    ∃ x n, (fields i).getLast? = some x ∧ StandsFor ls rs x n ∧ 1 ≤ n ∧ n ≤ rs.length ∧
      j = Bytes.join fieldMark ((fields i).dropLast ++ [decimal n])
  else j = i

def Resolves (ls rs : List Bytes) : Prop :=
  ∃ kept, List.Forall₂ (Becomes ls rs) (ls.filter isInstructionLine) kept ∧
    rs = kept ++
      if ls.getLast?.any fun x => !isInstructionLine x then [utf8 "HALT"] else []

section

variable {qs : List Quad} (h : ∀ q ∈ qs, q.Clear)

include h

theorem countP_isInstructionLine_texts :
    (qs.map Quad.text).countP isInstructionLine = qs.countP Quad.isInstruction := by
  rw [List.countP_map]
  exact List.countP_congr fun q hq => by
    rw [Function.comp_apply, (h q hq).isInstructionLine_text]

omit h in
theorem getLast?_any_of_labels (a : List Quad) {q : Quad} {b : List Quad}
    (hb : ∀ r ∈ q :: b, r.isInstruction = false) :
    ((a ++ q :: b).getLast?.any fun r => !r.isInstruction) = true := by
  have hne : q :: b ≠ [] := List.cons_ne_nil q b
  rw [List.getLast?_append_of_ne_nil _ hne, List.getLast?_eq_some_getLast hne]
  simp [hb _ (List.getLast_mem hne)]

theorem not_mem_texts {x : Bytes} (hx : isInstructionLine x = false) (hd : x ∉ definitions qs) :
    x ∉ qs.map Quad.text := by
  intro hm
  obtain ⟨q, hq, rfl⟩ := List.mem_map.mp hm
  rw [(h q hq).isInstructionLine_text] at hx
  have hop : q.op = .label := by simpa [Quad.isInstruction] using hx
  refine hd (List.mem_filterMap.mpr ⟨q, hq, ?_⟩)
  rw [Quad.text_of_label hx]
  exact if_pos hop

end

namespace WellLabelled

variable {qs : List Quad}

theorem clear (h : WellLabelled qs) : ∀ q ∈ qs, q.Clear := fun q hq =>
  (h.coded q hq).clear (h.legible q hq)

theorem exists_definition (h : WellLabelled qs) {q : Quad} {x : Bytes} (hq : q ∈ qs)
    (ht : q.target? = some x) :
    ∃ a b, qs = a ++ .label x :: b ∧ x ∉ definitions a ∧ x ∉ definitions b := by
  have hx : x ∈ definitions qs := h.closed (List.mem_filterMap.mpr ⟨q, hq, ht⟩)
  obtain ⟨d, hd, hx⟩ := List.mem_filterMap.mp hx
  obtain rfl : d = .label x := by
    cases h.coded d hd with
    | computation hc => rw [(Quad.plain_of_isArithmetic hc.isArithmetic).1] at hx; cases hx
    | move | test | jump => cases hx
    | label n =>
      rw [Quad.defined?_label] at hx
      rw [Option.some.inj hx]
  obtain ⟨a, b, rfl⟩ := List.append_of_mem hd
  have hnodup := h.nodup
  rw [definitions_append, definitions_cons, Quad.defined?_label, Option.toList_some,
    List.singleton_append, List.nodup_middle, List.nodup_cons, List.mem_append, not_or] at hnodup
  exact ⟨a, b, rfl, hnodup.1⟩

theorem resolveQuads_eq (h : WellLabelled qs) :
    resolveQuads qs =
      (qs.filter Quad.isInstruction).map (Quad.retarget fun x => labelNumber? x qs) ++
        if qs.getLast?.any fun q => !q.isInstruction then [⟨.halt, []⟩] else [] := by
  have hne : (qs.getLast?.any fun q => !q.isInstruction) = true →
      qs.filter Quad.isInstruction ≠ [] := by
    intro hlast
    have hqs : qs ≠ [] := by
      rintro rfl
      cases hlast
    obtain ⟨q, hq, hi⟩ := h.nonempty hqs
    exact List.ne_nil_of_mem (List.mem_filter.mpr ⟨hq, hi⟩)
  rw [resolveQuads]
  simp only [and_iff_left_of_imp hne]

theorem length_resolveQuads (h : WellLabelled qs) :
    (resolveQuads qs).length = qs.countP Quad.isInstruction +
      if qs.getLast?.any fun q => !q.isInstruction then 1 else 0 := by
  rw [h.resolveQuads_eq, List.length_append, List.length_map, List.countP_eq_length_filter]
  split <;> rfl

theorem getLast?_resolveQuads (h : WellLabelled qs)
    (hlast : (qs.getLast?.any fun q => !q.isInstruction) = true) :
    ((resolveQuads qs).map Quad.text).getLast? = some (utf8 "HALT") := by
  rw [h.resolveQuads_eq, if_pos hlast, List.map_append, List.map_singleton, List.getLast?_concat]
  rfl

theorem standsFor (h : WellLabelled qs) {a b : List Quad} {x : Bytes}
    (hqs : qs = a ++ .label x :: b) (ha : x ∉ definitions a) (hb : x ∉ definitions b) :
    StandsFor (qs.map Quad.text) ((resolveQuads qs).map Quad.text) x
        (a.countP Quad.isInstruction + 1) ∧
      a.countP Quad.isInstruction + 1 ≤ (resolveQuads qs).length := by
  have hclear := h.clear
  rw [hqs, List.forall_mem_append, List.forall_mem_cons] at hclear
  obtain ⟨hca, hcx, hcb⟩ := hclear
  have hx : isInstructionLine x = false := by
    have hx := hcx.isInstructionLine_text
    rwa [Quad.text_label] at hx
  have hcount : qs.countP Quad.isInstruction =
      a.countP Quad.isInstruction + b.countP Quad.isInstruction := by
    rw [hqs, List.countP_append, List.countP_cons_of_neg (by simp [Quad.isInstruction, Quad.label])]
  have htexts : qs.map Quad.text = a.map Quad.text ++ x :: b.map Quad.text := by
    simp [hqs]
  have hlength := h.length_resolveQuads
  cases hfind : b.find? Quad.isInstruction with
  | some i =>
    obtain ⟨hi, c, d, rfl, hc⟩ := List.find?_eq_some_iff_append.mp hfind
    obtain ⟨hcc, hci, -⟩ := List.forall_mem_append.mp hcb |>.imp_right List.forall_mem_cons.mp
    have hlabels : ∀ y ∈ c.map Quad.text, isInstructionLine y = false := by
      intro y hy
      obtain ⟨q, hq, rfl⟩ := List.mem_map.mp hy
      rw [(hcc q hq).isInstructionLine_text]
      simpa using hc q hq
    have hnumber : lineNumber (a.map Quad.text ++ x :: c.map Quad.text) =
        a.countP Quad.isInstruction + 1 := by
      have hzero : (c.map Quad.text).countP isInstructionLine = 0 :=
        List.countP_eq_zero.mpr (by simpa using hlabels)
      rw [lineNumber, List.countP_append, countP_isInstructionLine_texts hca,
        List.countP_cons_of_neg (by simp [hx]), hzero, Nat.add_zero]
    refine ⟨⟨_, _, htexts, not_mem_texts hca hx ha, not_mem_texts hcb hx hb, .inl ?_⟩, ?_⟩
    · exact ⟨c.map Quad.text, i.text, d.map Quad.text, by simp, hlabels,
        hci.isInstructionLine_text.trans hi, hnumber.symm⟩
    · rw [List.countP_append, List.countP_cons_of_pos hi] at hcount
      omega
  | none =>
    have hlabels : ∀ q ∈ b, q.isInstruction = false := by
      simpa using List.find?_eq_none.mp hfind
    have hlast : (qs.getLast?.any fun q => !q.isInstruction) = true := by
      rw [hqs]
      exact getLast?_any_of_labels a (List.forall_mem_cons.mpr ⟨rfl, hlabels⟩)
    have hzero : b.countP Quad.isInstruction = 0 :=
      List.countP_eq_zero.mpr (by simpa using hlabels)
    rw [if_pos hlast] at hlength
    refine ⟨⟨_, _, htexts, not_mem_texts hca hx ha, not_mem_texts hcb hx hb, .inr ?_⟩, by omega⟩
    refine ⟨?_, by rw [List.length_map]; omega, h.getLast?_resolveQuads hlast⟩
    intro y hy
    obtain ⟨q, hq, rfl⟩ := List.mem_map.mp hy
    rw [(hcb q hq).isInstructionLine_text, hlabels q hq]

theorem becomes (h : WellLabelled qs) {q : Quad} (hq : q ∈ qs) (hi : q.isInstruction = true) :
    Becomes (qs.map Quad.text) ((resolveQuads qs).map Quad.text) q.text
      (q.retarget fun x => labelNumber? x qs).text := by
  have hclear := h.clear q hq
  have hhead : (fields q.text).head? = some (utf8 "JMP") ∨
      (fields q.text).head? = some (utf8 "TST") ↔ q.op = .jmp ∨ q.op = .tst :=
    hclear.head?_fields_iff hi
  by_cases hjump : q.op = .jmp ∨ q.op = .tst
  · obtain ⟨x, hx⟩ : ∃ x, q.target? = some x := by
      refine ⟨q.args.getLast (hclear.args_ne_nil hi), ?_⟩
      rw [← List.getLast?_eq_some_getLast]
      exact if_pos hjump
    obtain ⟨a, b, hqs, ha, hb⟩ := h.exists_definition hq hx
    obtain ⟨hstands, hle⟩ := h.standsFor hqs ha hb
    have hnumber : labelNumber? x qs = some (a.countP Quad.isInstruction + 1) := by
      rw [hqs]
      exact labelNumber?_append (Quad.defined?_label x) hb a
    rw [Becomes, if_pos (hhead.mpr hjump)]
    refine ⟨x, _, (hclear.getLast?_fields hi hjump).trans hx, hstands, Nat.le_add_left 1 _,
      by rwa [List.length_map], hclear.text_retarget hi ?_⟩
    rw [hx]
    exact hnumber
  · have ht : q.target? = none := if_neg hjump
    rw [Becomes, if_neg (hhead.not.mpr hjump)]
    simp [Quad.retarget, ht]

theorem resolves (h : WellLabelled qs) :
    Resolves (qs.map Quad.text) ((resolveQuads qs).map Quad.text) := by
  refine ⟨((qs.filter Quad.isInstruction).map
    (Quad.retarget fun x => labelNumber? x qs)).map Quad.text, ?_, ?_⟩
  · rw [filter_isInstructionLine_texts h.clear, List.map_map, List.forall₂_map_left_iff,
      List.forall₂_map_right_iff, List.forall₂_same]
    intro q hq
    obtain ⟨hq, hi⟩ := List.mem_filter.mp hq
    exact h.becomes hq hi
  · have hlast : ((qs.map Quad.text).getLast?.any fun x => !isInstructionLine x) =
        qs.getLast?.any fun q => !q.isInstruction := by
      rw [List.getLast?_map]
      cases hl : qs.getLast? with
      | none => rfl
      | some q => simp [(h.clear q (List.mem_of_getLast? hl)).isInstructionLine_text]
    rw [hlast, h.resolveQuads_eq, List.map_append]
    congr 1
    split <;> rfl

end WellLabelled

theorem Quad.Legible.retarget {q : Quad} (h : q.Legible) (number? : Bytes → Option Nat) :
    (q.retarget number?).Legible := by
  unfold Quad.retarget
  split
  · next n hn =>
    have hop : q.op ≠ .label := by
      intro hop
      simp [target?, hop] at hn
    have hfields : q.fields = q.op.mnemonic :: q.args := if_neg hop
    simp only [Legible, hfields, List.forall_mem_cons] at h
    simp only [Legible, fields, if_neg hop, List.forall_mem_cons, List.forall_mem_append]
    exact ⟨h.1, fun x hx => h.2 x (List.mem_of_mem_dropLast hx),
      (numeral_decimal n).alphanumeric.apart, List.forall_mem_nil _⟩
  · exact h

theorem WellLabelled.legible_resolveQuads {qs : List Quad} (h : WellLabelled qs) :
    ∀ q ∈ resolveQuads qs, q.Legible := by
  rw [h.resolveQuads_eq, List.forall_mem_append]
  constructor
  · intro q hq
    obtain ⟨q', hq', rfl⟩ := List.mem_map.mp hq
    exact (h.legible q' (List.mem_filter.mp hq').1).retarget _
  · split
    · exact List.forall_mem_singleton.mpr (Quad.legible_of_alphanumeric nofun)
    · exact nofun

end ThreeAddress
