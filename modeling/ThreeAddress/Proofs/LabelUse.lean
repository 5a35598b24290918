import Mathlib.Data.List.Nodup
import ThreeAddress.Proofs.AnyStream
import ThreeAddress.Proofs.Targets

namespace ThreeAddress

def Consistent (qs : List Quad) : Prop :=
  (definitions qs).Nodup ∧
    ∃ m, ∀ x, x ∈ definitions qs ∨ x ∈ targets qs ↔ ∃ k < m, x = Names.labelName k

/-- The state of the labels within a program: `j` of them occur, and those with the numbers in
`awaited` are still to be defined. The numbers in `passed` are kept for later jumps. -/
structure Labelled (awaited passed : List Nat) (j : Nat) (qs : List Quad) : Prop where
  nodup : (definitions qs).Nodup
  occurs : ∀ x, x ∈ definitions qs ∨ x ∈ targets qs ↔ ∃ k < j, x = Names.labelName k
  awaited_nodup : awaited.Nodup
  awaited_lt : ∀ k ∈ awaited, k < j
  undefined : ∀ k ∈ awaited, Names.labelName k ∉ definitions qs
  passed_lt : ∀ k ∈ passed, k < j

namespace Labelled

variable {awaited passed : List Nat} {j k : Nat} {qs : List Quad}

theorem consistent (j : Nat) (qs : List Quad) (h : Labelled awaited passed j qs) : Consistent qs :=
  ⟨h.nodup, j, h.occurs⟩

theorem fresh (h : Labelled awaited passed j qs) (hk : j ≤ k) :
    Names.labelName k ∉ definitions qs := by
  intro hd
  obtain ⟨k', hk', he⟩ := (h.occurs _).mp (.inl hd)
  have := Names.labelName_inj.mp he
  omega

theorem plain (j : Nat) (qs : List Quad) (q : Quad) (hq : q.Plain)
    (h : Labelled awaited passed j qs) :
    Labelled awaited passed j (qs ++ [q]) := by
  have hd : definitions (qs ++ [q]) = definitions qs := by simp [hq.1]
  have ht : targets (qs ++ [q]) = targets qs := by simp [hq.2]
  exact ⟨hd ▸ h.nodup, by rw [hd, ht]; exact h.occurs, h.awaited_nodup, h.awaited_lt,
    hd ▸ h.undefined, h.passed_lt⟩

theorem occurs_concat {q : Quad} {x : Bytes} :
    x ∈ definitions (qs ++ [q]) ∨ x ∈ targets (qs ++ [q]) ↔
      (x ∈ definitions qs ∨ x ∈ targets qs) ∨ q.defined? = some x ∨ q.target? = some x := by
  rw [definitions_append, targets_append, List.mem_append, List.mem_append, or_or_or_comm]
  simp

theorem nodup_define {x : Bytes} (hx : x ∉ definitions qs) (h : (definitions qs).Nodup) :
    (definitions (qs ++ [.label x])).Nodup := by
  have hd : definitions (qs ++ [.label x]) = definitions qs ++ [x] := by simp
  rw [hd, List.nodup_append]
  refine ⟨h, List.nodup_singleton x, ?_⟩
  rintro y hy _ hz rfl
  exact hx (List.mem_singleton.mp hz ▸ hy)

theorem define (h : Labelled awaited passed j qs) :
    Labelled awaited (j :: passed) (j + 1) (qs ++ [.label (Names.labelName j)]) where
  nodup := nodup_define (h.fresh (Nat.le_refl j)) h.nodup
  occurs x := by
    rw [occurs_concat, h.occurs x, Nat.exists_lt_succ_right]
    simp [eq_comm]
  awaited_nodup := h.awaited_nodup
  awaited_lt k hk := Nat.lt_succ_of_lt (h.awaited_lt k hk)
  undefined k hk := by
    have hne : k ≠ j := Nat.ne_of_lt (h.awaited_lt k hk)
    simp [h.undefined k hk, Names.labelName_inj, hne]
  passed_lt := List.forall_mem_cons.mpr
    ⟨Nat.lt_succ_self j, fun k hk => Nat.lt_succ_of_lt (h.passed_lt k hk)⟩

theorem await {q : Quad} (hd : q.defined? = none) (ht : q.target? = some (Names.labelName j))
    (h : Labelled awaited passed j qs) :
    Labelled (j :: awaited) passed (j + 1) (qs ++ [q]) where
  nodup := by simpa [hd] using h.nodup
  occurs x := by
    rw [occurs_concat, h.occurs x, Nat.exists_lt_succ_right]
    simp [hd, ht, eq_comm]
  awaited_nodup := List.nodup_cons.mpr
    ⟨fun hj => Nat.lt_irrefl j (h.awaited_lt j hj), h.awaited_nodup⟩
  awaited_lt := List.forall_mem_cons.mpr
    ⟨Nat.lt_succ_self j, fun k hk => Nat.lt_succ_of_lt (h.awaited_lt k hk)⟩
  undefined := by
    have hdefs : definitions (qs ++ [q]) = definitions qs := by simp [hd]
    rw [hdefs]
    exact List.forall_mem_cons.mpr ⟨h.fresh (Nat.le_refl j), h.undefined⟩
  passed_lt k hk := Nat.lt_succ_of_lt (h.passed_lt k hk)

theorem close (hk : k ∈ awaited) (h : Labelled awaited passed j qs) :
    Labelled (awaited.erase k) passed j (qs ++ [.label (Names.labelName k)]) where
  nodup := nodup_define (h.undefined k hk) h.nodup
  occurs x := by
    have hx : x = Names.labelName k → ∃ l < j, x = Names.labelName l :=
      fun hx => ⟨k, h.awaited_lt k hk, hx⟩
    rw [occurs_concat, h.occurs x]
    simpa [eq_comm] using hx
  awaited_nodup := h.awaited_nodup.erase k
  awaited_lt l hl := h.awaited_lt l (List.mem_of_mem_erase hl)
  undefined l hl := by
    obtain ⟨hne, hl⟩ := h.awaited_nodup.mem_erase_iff.mp hl
    simp [h.undefined l hl, Names.labelName_inj, hne]
  passed_lt := h.passed_lt

theorem jump (h : Labelled awaited (k :: passed) j qs) :
    Labelled awaited passed j (qs ++ [.jump (Names.labelName k)]) where
  nodup := by simpa using h.nodup
  occurs x := by
    have hx : x = Names.labelName k → ∃ l < j, x = Names.labelName l :=
      fun hx => ⟨k, h.passed_lt k (List.mem_cons_self ..), hx⟩
    rw [occurs_concat, h.occurs x]
    simpa [eq_comm] using hx
  awaited_nodup := h.awaited_nodup
  awaited_lt := h.awaited_lt
  undefined k' hk := by simpa using h.undefined k' hk
  passed_lt k' hk := h.passed_lt k' (List.mem_cons_of_mem _ hk)

/-- The start of code that depends on a test. The second of its labels is defined behind it. -/
theorem guard (x y : Bytes) (c : Comparator) (h : Labelled awaited passed j qs) :
    Labelled ((j + 1) :: awaited) passed (j + 2)
      (qs ++ [.test x y c (Names.labelName j)] ++ [.jump (Names.labelName (j + 1))] ++
        [.label (Names.labelName j)]) := by
  have htest := h.await (q := .test x y c (Names.labelName j)) rfl rfl
  have hjump := htest.await (q := .jump (Names.labelName (j + 1))) rfl rfl
  have hlabel := hjump.close (k := j) (by simp)
  simpa using hlabel

end Labelled

theorem Opcode.isArithmetic_of_term {kind : TokenKind} {op : Opcode}
    (h : ofTermOperator? kind = some op) : op.isArithmetic = true := by
  cases kind <;> cases h <;> rfl

theorem Opcode.isArithmetic_of_factor {kind : TokenKind} {op : Opcode}
    (h : ofFactorOperator? kind = some op) : op.isArithmetic = true := by
  cases kind <;> cases h <;> rfl

theorem Opcode.isArithmetic_of_sign {kind : TokenKind} {op : Opcode}
    (h : ofSign? kind = some op) : op.isArithmetic = true := by
  cases kind <;> cases h <;> rfl

namespace Production

variable {ρ : Type}

section Expressions

variable {out : List Quad → Prop} {inv : Nat → List Quad → Prop}
  (hout : ∀ j qs, inv j qs → out qs) (hplain : ∀ j qs q, q.Plain → inv j qs → inv j (qs ++ [q]))

include hout hplain

theorem meets_chain {operation? : TokenKind → Option Opcode} {operand : Production ρ Bytes}
    (hop : ∀ kind op, operation? kind = some op → op.isArithmetic = true)
    (h : Meets out inv operand fun _ => inv) (fuel : Nat) (left : Bytes) :
    Meets out inv (chain operation? operand fuel left) fun _ => inv := by
  induction fuel generalizing left with
  | zero => exact meets_outOfFuel hout _
  | succ fuel ih =>
    refine .bind (meets_peek hout) fun token => ?_
    split
    · exact .pure fun _ _ hinv => hinv
    · next op heq =>
      have hq : ∀ right result, (Quad.binary op left right result).Plain := fun _ _ =>
        Quad.plain_of_isArithmetic (hop token.kind op heq)
      exact .bind (meets_pop hout) fun _ => .bind h fun right => .bind .temporary fun result =>
        .bind (.emit fun j qs => hplain j qs _ (hq right result)) fun _ => ih result

theorem meets_base {value : Production ρ Bytes} (h : Meets out inv value fun _ => inv) :
    Meets out inv (base value) fun _ => inv := by
  refine .bind (meets_peek hout) fun token => ?_
  split
  · exact h
  · next op heq =>
    have hq : ∀ operand result, (Quad.unary op operand result).Plain := fun _ _ =>
      Quad.plain_of_isArithmetic (Opcode.isArithmetic_of_sign heq)
    exact .bind (meets_pop hout) fun _ => .bind h fun operand => .bind .temporary fun result =>
      .bind (.emit fun j qs => hplain j qs _ (hq operand result)) fun _ =>
        .pure fun _ _ hinv => hinv

theorem meets_factor {value : Production ρ Bytes} (h : Meets out inv value fun _ => inv)
    (fuel : Nat) : Meets out inv (factor value fuel) fun _ => inv := by
  induction fuel with
  | zero => exact meets_outOfFuel hout _
  | succ fuel ih =>
    refine .bind (meets_base hout hplain h) fun left => .bind (meets_accept hout _) fun found => ?_
    split
    · have hq : ∀ right result, (Quad.binary .exp left right result).Plain := fun _ _ =>
        Quad.plain_of_isArithmetic rfl
      exact .bind ih fun right => .bind .temporary fun result =>
        .bind (.emit fun j qs => hplain j qs _ (hq right result)) fun _ =>
          .pure fun _ _ hinv => hinv
    · exact .pure fun _ _ hinv => hinv

theorem meets_sum {value : Production ρ Bytes} (h : Meets out inv value fun _ => inv)
    (fuel : Nat) : Meets out inv (sum value fuel) fun _ => inv := by
  have hfactor := meets_factor hout hplain h fuel
  have hterm : Meets out inv (term value fuel) fun _ => inv := .bind hfactor fun left =>
    meets_chain hout hplain (fun _ _ => Opcode.isArithmetic_of_factor) hfactor fuel left
  exact .bind hterm fun left =>
    meets_chain hout hplain (fun _ _ => Opcode.isArithmetic_of_term) hterm fuel left

theorem meets_value (fuel : Nat) :
    Meets out inv (value fuel : Production ρ Bytes) fun _ => inv := by
  induction fuel with
  | zero => exact meets_outOfFuel hout _
  | succ fuel ih =>
    refine .bind (meets_peek hout) fun token => ?_
    split
    · exact .bind (meets_pop hout) fun _ => .bind (meets_sum hout hplain ih fuel) fun operand =>
        .bind (meets_expect hout _ _) fun _ => .pure fun _ _ hinv => hinv
    · exact .bind (meets_pop hout) fun _ => .pure fun _ _ hinv => hinv
    · exact .bind (meets_pop hout) fun _ => .pure fun _ _ hinv => hinv
    · exact meets_reject hout _ _ _ _

theorem meets_expression (fuel : Nat) :
    Meets out inv (expression fuel : Production ρ Bytes) fun _ => inv :=
  meets_sum hout hplain (meets_value hout hplain fuel) fuel

theorem meets_condition (place : Bytes) (fuel : Nat) :
    Meets out inv (condition place fuel : Production ρ (Bytes × Bytes × Comparator))
      fun _ => inv := by
  have hcomparator :
      Meets out inv (comparator : Production ρ (Option Comparator)) fun _ => inv := by
    refine .bind (meets_peek hout) fun token => ?_
    split
    · exact .pure fun _ _ hinv => hinv
    · exact .bind (meets_pop hout) fun _ => .pure fun _ _ hinv => hinv
  refine .bind (meets_expression hout hplain fuel) fun left => .bind hcomparator fun c => ?_
  split
  · exact .bind (meets_peek hout) fun token => meets_reject hout _ _ _ _
  · exact .bind (meets_expression hout hplain fuel) fun right => .pure fun _ _ hinv => hinv

end Expressions

def KeepsLabels (P : Production ρ Unit) : Prop :=
  ∀ awaited passed, Meets Consistent (Labelled awaited passed) P fun _ => Labelled awaited passed

section Statements

variable {awaited passed : List Nat} {body : Production ρ Unit}

theorem Meets.bind_guarded {α : Type} {Q : Bytes → Production ρ α}
    {post : α → Nat → List Quad → Prop} (hbody : KeepsLabels body)
    (hQ : ∀ k, Meets Consistent (Labelled (k :: awaited) passed) (Q (Names.labelName k)) post)
    (left right : Bytes) (c : Comparator) :
    Meets Consistent (Labelled awaited passed) (guarded left right c body >>= Q) post := by
  intro next hnext i j qs h
  exact hbody ((j + 1) :: awaited) passed _ (fun _ => hQ (j + 1) next hnext) i (j + 2) _
    (h.guard left right c)

theorem keepsLabels_assignment (fuel : Nat) :
    KeepsLabels (assignment fuel : Production ρ Unit) := by
  intro awaited passed
  exact .bind (meets_pop Labelled.consistent) fun target =>
    .bind (meets_expect Labelled.consistent _ _) fun _ =>
      .bind (meets_expression Labelled.consistent Labelled.plain fuel) fun operand =>
        .emit fun j qs => Labelled.plain j qs _ (Quad.plain_move operand target.lexeme)

theorem keepsLabels_conditional (hbody : KeepsLabels body) (fuel : Nat) :
    KeepsLabels (conditional body fuel) := by
  intro awaited passed
  refine .bind (meets_pop Labelled.consistent) fun _ =>
    .bind (meets_condition Labelled.consistent Labelled.plain _ fuel) fun test =>
      .bind (meets_expect Labelled.consistent _ _) fun _ =>
        .bind_guarded hbody (fun k => .emit fun j qs h => ?_) _ _ _
  simpa using h.close (List.mem_cons_self ..)

theorem keepsLabels_loop (hbody : KeepsLabels body) (fuel : Nat) :
    KeepsLabels (loop body fuel) := by
  intro awaited passed
  refine .bind (meets_pop Labelled.consistent) fun _ => .bind_label fun again => ?_
  have hagain : Meets Consistent (fun j qs => j = again + 1 ∧ Labelled awaited passed again qs)
      (emit (.label (Names.labelName again)) : Production ρ Unit)
      fun _ => Labelled awaited (again :: passed) := by
    refine .emit fun j qs h => ?_
    obtain ⟨rfl, h⟩ := h
    exact h.define
  refine .bind hagain fun _ =>
    .bind (meets_condition Labelled.consistent Labelled.plain _ fuel) fun test =>
      .bind (meets_expect Labelled.consistent _ _) fun _ =>
        .bind_guarded hbody (fun k => ?_) _ _ _
  refine .bind (.emit fun _ _ => Labelled.jump) fun _ => .emit fun j qs h => ?_
  simpa using h.close (List.mem_cons_self ..)

theorem keepsLabels_statement (fuel : Nat) : KeepsLabels (statement fuel : Production ρ Unit) := by
  induction fuel with
  | zero => exact fun _ _ => meets_outOfFuel Labelled.consistent _
  | succ fuel ih =>
    intro awaited passed
    refine .bind .releaseTemporaries fun _ => .bind (meets_peek Labelled.consistent) fun first =>
      .bind ?_ fun _ => .releaseTemporaries
    unfold statementFrom
    split
    · exact keepsLabels_assignment fuel awaited passed
    · exact keepsLabels_conditional ih fuel awaited passed
    · exact keepsLabels_loop ih fuel awaited passed
    · exact meets_reject Labelled.consistent _ _ _ _

theorem keepsLabels_statements (fuel : Nat) :
    KeepsLabels (statements fuel : Production ρ Unit) := by
  induction fuel with
  | zero => exact fun _ _ => meets_outOfFuel Labelled.consistent _
  | succ fuel ih =>
    intro awaited passed
    refine .bind (meets_peek Labelled.consistent) fun token => ?_
    split
    · refine .bind (keepsLabels_statement _ awaited passed) fun _ =>
        .bind (meets_accept Labelled.consistent _) fun found => ?_
      split
      · exact ih awaited passed
      · exact .pure fun _ _ h => h
    · exact .pure fun _ _ h => h

theorem keepsLabels_program (fuel : Nat) : KeepsLabels (program fuel : Production ρ Unit) := by
  intro awaited passed
  exact .bind (meets_expect Labelled.consistent _ _) fun _ =>
    .bind (keepsLabels_statements fuel awaited passed) fun _ =>
      .bind (meets_expect Labelled.consistent _ _) fun _ => meets_expect Labelled.consistent _ _

end Statements

end Production

theorem Labelled.nil : Labelled [] [] 0 [] :=
  ⟨.nil, by simp, .nil, nofun, nofun, nofun⟩

/-- Whatever the stream gives, and wherever that stops the translator, the labels of what it has
emitted are consistent. -/
theorem Translator.consistent_emitted {σ : Type} [TokenStream σ] {t : Translator σ}
    (h : t.names = {}) : Consistent t.emitted := by
  have hdone : t.dialogue.Ensures Consistent t.names [] := by
    rw [h]
    exact Production.keepsLabels_program _ [] [] .done (fun _ _ => Labelled.consistent) 0 0 [] .nil
  exact hdone.course

end ThreeAddress
