import ThreeAddress.Proofs.Emission
import ThreeAddress.Proofs.LabelUse

namespace ThreeAddress

open Names

def IsLabel (first n : Nat) (x : Bytes) : Prop := ∃ k, first ≤ k ∧ k < first + n ∧ labelName k = x

namespace IsLabel

variable {first n k : Nat} {x : Bytes}

theorem of_range (h : first ≤ k) (h' : k < first + n) : IsLabel first n (labelName k) :=
  ⟨k, h, h', rfl⟩

theorem mono {first' n' : Nat} (h : IsLabel first n x) (hf : first' ≤ first)
    (hn : first + n ≤ first' + n') : IsLabel first' n' x := by
  obtain ⟨k, hk, hk', rfl⟩ := h
  exact of_range (hf.trans hk) (hk'.trans_le hn)

theorem ne (h : IsLabel first n x) (hk : k < first ∨ first + n ≤ k) : x ≠ labelName k := by
  obtain ⟨l, hl, hl', rfl⟩ := h
  rw [Ne, labelName_inj]
  omega

end IsLabel

namespace Statement

variable {s : Statement} {first : Nat} {x : Bytes}

theorem mem_definitions_code : x ∈ definitions (s.code first) ↔ IsLabel first s.labels x := by
  rw [← labels_instructions (s.coded_code first), (s.labels_code first).mem_iff, List.mem_map]
  simp only [List.mem_range'_1, and_assoc, IsLabel]

theorem isLabel_of_mem_targets (h : x ∈ targets (s.code first)) : IsLabel first s.labels x := by
  induction s generalizing first with
  | assign y e =>
    simp [code, targets_of_computation (e.computation_code 0), (Quad.plain_move _ _).2] at h
  | conditional c s ih =>
    have ht : targets ((conditional c s).code first) =
        labelName first :: labelName (first + 1) :: targets (s.code (first + 2)) := by
      simp [code, targets_of_computation c.computation_code, Condition.branch]
    rw [ht, List.mem_cons, List.mem_cons] at h
    simp only [labels]
    rcases h with rfl | rfl | h
    · exact .of_range (by omega) (by omega)
    · exact .of_range (by omega) (by omega)
    · exact (ih h).mono (by omega) (by omega)
  | loop c s ih =>
    have ht : targets ((loop c s).code first) =
        labelName (first + 1) :: labelName (first + 2) ::
          (targets (s.code (first + 3)) ++ [labelName first]) := by
      simp [code, targets_of_computation c.computation_code, Condition.branch]
    rw [ht, List.mem_cons, List.mem_cons, List.mem_append, List.mem_singleton] at h
    simp only [labels]
    rcases h with rfl | rfl | h | rfl
    · exact .of_range (by omega) (by omega)
    · exact .of_range (by omega) (by omega)
    · exact (ih h).mono (by omega) (by omega)
    · exact .of_range (by omega) (by omega)

end Statement

namespace Program

variable {p : Program} {first : Nat} {x : Bytes}

theorem mem_definitions_code : x ∈ definitions (p.code first) ↔ IsLabel first p.labels x := by
  rw [← labels_instructions (p.coded_code first), (p.labels_code first).mem_iff, List.mem_map]
  simp only [List.mem_range'_1, and_assoc, IsLabel]

theorem isLabel_of_mem_targets (h : x ∈ targets (p.code first)) : IsLabel first p.labels x := by
  induction p generalizing first with
  | nil => exact absurd h List.not_mem_nil
  | cons s p ih =>
    rw [code, targets_append, List.mem_append] at h
    simp only [labels]
    rcases h with h | h
    · exact (Statement.isLabel_of_mem_targets h).mono (by omega) (by omega)
    · exact (ih h).mono (by omega) (by omega)

end Program

inductive Statement.Block : Statement → Nat → List Quad → List Quad → List Quad → Prop
  | whole (s : Statement) (first : Nat) : Block s first [] (s.code first) []
  | conditional {c : Condition} {s : Statement} {first : Nat} {before block after : List Quad}
      (h : Block s (first + 2) before block after) :
      Block (.conditional c s) first (c.code ++ c.branch first (first + 1) ++ before) block
        (after ++ [.label (labelName (first + 1))])
  | loop {c : Condition} {s : Statement} {first : Nat} {before block after : List Quad}
      (h : Block s (first + 3) before block after) :
      Block (.loop c s) first
        (.label (labelName first) :: (c.code ++ c.branch (first + 1) (first + 2) ++ before)) block
        (after ++ [.jump (labelName first), .label (labelName (first + 2))])

inductive Program.Block : Program → Nat → List Quad → List Quad → List Quad → Prop
  | here {s : Statement} {p : Program} {first : Nat} {before block after : List Quad}
      (h : s.Block first before block after) :
      Block (s :: p) first before block (after ++ Program.code p (first + s.labels))
  | later {s : Statement} {p : Program} {first : Nat} {before block after : List Quad}
      (h : Block p (first + s.labels) before block after) :
      Block (s :: p) first (s.code first ++ before) block after

/-- The block jumps only to labels that it defines, and nothing outside of it jumps to these. -/
structure ClosedBlock (before block after : List Quad) : Prop where
  targets_subset : targets block ⊆ definitions block
  not_before : ∀ x ∈ definitions block, x ∉ targets before
  not_after : ∀ x ∈ definitions block, x ∉ targets after

namespace Statement.Block

variable {s : Statement} {first : Nat} {before block after : List Quad}

theorem code_eq (h : s.Block first before block after) :
    s.code first = before ++ block ++ after := by
  induction h with
  | whole s first => simp
  | conditional h ih | loop h ih => simp [code, ih]

theorem isLabel {x : Bytes} (h : s.Block first before block after) (hx : x ∈ definitions block) :
    IsLabel first s.labels x := by
  rw [← mem_definitions_code, h.code_eq]
  simp [hx]

theorem closed (h : s.Block first before block after) : ClosedBlock before block after := by
  induction h with
  | whole s first =>
    refine ⟨fun x hx => ?_, fun _ _ => List.not_mem_nil, fun _ _ => List.not_mem_nil⟩
    exact mem_definitions_code.mpr (isLabel_of_mem_targets hx)
  | @conditional c s first before block after h ih =>
    refine ⟨ih.targets_subset, fun x hx => ?_, fun x hx => ?_⟩
    · have hx' := h.isLabel hx
      simp [targets_of_computation c.computation_code, Condition.branch, ih.not_before x hx,
        hx'.ne (k := first) (by omega), hx'.ne (k := first + 1) (by omega)]
    · simpa using ih.not_after x hx
  | @loop c s first before block after h ih =>
    refine ⟨ih.targets_subset, fun x hx => ?_, fun x hx => ?_⟩
    · have hx' := h.isLabel hx
      simp [targets_of_computation c.computation_code, Condition.branch, ih.not_before x hx,
        hx'.ne (k := first + 1) (by omega), hx'.ne (k := first + 2) (by omega)]
    · have hx' := h.isLabel hx
      simp [ih.not_after x hx, hx'.ne (k := first) (by omega)]

end Statement.Block

namespace Program.Block

variable {p : Program} {first : Nat} {before block after : List Quad}

theorem code_eq (h : p.Block first before block after) :
    p.code first = before ++ block ++ after := by
  induction h with
  | here h => simp [code, h.code_eq]
  | later h ih => simp [code, ih]

theorem isLabel {x : Bytes} (h : p.Block first before block after) (hx : x ∈ definitions block) :
    IsLabel first p.labels x := by
  rw [← mem_definitions_code, h.code_eq]
  simp [hx]

theorem closed (h : p.Block first before block after) : ClosedBlock before block after := by
  induction h with
  | @here s p first before block after h =>
    refine ⟨h.closed.targets_subset, h.closed.not_before, fun x hx => ?_⟩
    rw [targets_append, List.mem_append, not_or]
    refine ⟨h.closed.not_after x hx, fun ht => ?_⟩
    obtain ⟨k, hk, -, rfl⟩ := isLabel_of_mem_targets ht
    exact (h.isLabel hx).ne (.inr hk) rfl
  | @later s p first before block after h ih =>
    refine ⟨ih.targets_subset, fun x hx => ?_, ih.not_after⟩
    rw [targets_append, List.mem_append, not_or]
    refine ⟨fun ht => ?_, ih.not_before x hx⟩
    obtain ⟨k, -, hk, rfl⟩ := Statement.isLabel_of_mem_targets ht
    exact (h.isLabel hx).ne (.inl hk) rfl

end Program.Block

namespace Translator

/-- Where an analysis succeeds, failures that the stream was about to make did not come up. -/
theorem emitted_of_ok {t : Translator CountedTokens} (hn : t.names = {})
    (h : t.analyze.1 = .ok ()) :
    ∃ (q : Program) (p r : List Token), t.tokens.tokens = p ++ r ∧ q.Spelled p ∧
      t.emitted = q.code 0 := by
  let f : Failure := { cause := .unexpectedEnd }
  obtain ⟨hanswer, hquads⟩ := CountedTokens.course_row_of_ok (answer_of_analyze_ok h) f
  rw [hn] at hanswer
  have hquads : _ = t.emitted := hquads
  rw [hn] at hquads
  let fuel := t.tokens.tokens.length + 1
  have hok : (reading fuel t.tokens.tokens f).1 = .ok () := hanswer
  have hcode : (reading fuel t.tokens.tokens f).2.quads = t.emitted := hquads
  obtain ⟨q, p, r, hts, hq, hread⟩ | ⟨-, -, hread⟩ | ⟨p, r, x, e, -, -, -, -, -, -, hread⟩ :=
    Program.answered (Nat.le_succ t.tokens.tokens.length)
  · rw [hread f] at hcode
    exact ⟨q, p, r, hts, hq, hcode.symm⟩
  · rw [hread f] at hok
    cases hok
  · obtain ⟨n, qs, hread⟩ := hread f
    rw [hread] at hok
    cases hok

/-- Wherever an analysis ends, the labels in what has been emitted are the first ones, and none is
defined twice. If it succeeds, each of them is defined, and the code of every statement is
closed. -/
theorem analyze_closes_blocks (ts : List Token) (peekFault popFault : Option (Nat × Failure)) :
    let t : Translator CountedTokens := { tokens := { tokens := ts, peekFault, popFault } }
    let qs := t.emitted
    t.analyze.2.emitter.sink.written.reverse = qs.map Quad.line ∧
    (definitions qs).Nodup ∧
    ∃ m, (∀ x, x ∈ definitions qs ∨ x ∈ targets qs ↔ ∃ k < m, x = labelName k) ∧
      (t.analyze.1 = .ok () →
        (definitions qs).Perm ((List.range m).map labelName) ∧ targets qs ⊆ definitions qs ∧
        ∃ (q : Program) (p r : List Token), ts = p ++ r ∧ q.Spelled p ∧
          ∀ before block after, q.Block 0 before block after →
            qs = before ++ block ++ after ∧ ClosedBlock before block after) := by
  intro t qs
  have hwritten : t.analyze.2.emitter.sink.written.reverse = qs.map Quad.line := by
    rw [analyze_emitter]
    exact Emitter.written_foldl_emit qs
  obtain ⟨hnodup, m, hm⟩ := consistent_emitted (t := t) rfl
  refine ⟨hwritten, hnodup, ?_⟩
  by_cases hok : t.analyze.1 = .ok ()
  · obtain ⟨q, p, r, hts, hq, hqs⟩ := emitted_of_ok rfl hok
    have hqs : qs = q.code 0 := hqs
    have hdefs : ∀ x, x ∈ definitions qs ↔ IsLabel 0 q.labels x := fun x => by
      rw [hqs]
      exact Program.mem_definitions_code
    have htargets : targets qs ⊆ definitions qs := by
      intro x hx
      rw [hqs] at hx
      exact (hdefs x).mpr (Program.isLabel_of_mem_targets hx)
    have hperm : (definitions qs).Perm ((List.range q.labels).map labelName) := by
      rw [hqs, ← labels_instructions (q.coded_code 0), List.range_eq_range']
      exact q.labels_code 0
    refine ⟨q.labels, fun x => ?_, fun _ => ⟨hperm, htargets, q, p, r, hts, hq, ?_⟩⟩
    · rw [or_iff_left_of_imp (htargets ·), hdefs]
      simp [IsLabel, eq_comm]
    · exact fun before block after hb => ⟨hqs.trans hb.code_eq, hb.closed⟩
  · exact ⟨m, hm, fun h => absurd h hok⟩

end Translator

end ThreeAddress
