import ThreeAddress.Proofs.Code
import ThreeAddress.Proofs.Machine
import ThreeAddress.Text.Split.RoundTrip

namespace ThreeAddress

namespace Quad

def fields (q : Quad) : List Bytes :=
  if q.op = .label then [q.args.flatten] else q.op.mnemonic :: q.args

def instruction? (q : Quad) : Option Instruction := Instruction.ofFields? q.fields

def Legible (q : Quad) : Prop := ∀ x ∈ q.fields, Bytes.newline ∉ x ∧ ¬fieldMark <:+: x

theorem text_eq_join (q : Quad) : q.text = Bytes.join fieldMark q.fields := by
  unfold text fields
  split
  · simp [Bytes.join]
  · rfl

theorem fields_text {q : Quad} (h : q.Legible) : ThreeAddress.fields q.text = q.fields := by
  have hne : q.fields ≠ [] := by
    unfold fields
    split <;> simp
  rw [text_eq_join, fields_join hne fun x hx => (h x hx).2]

theorem newline_not_mem_text {q : Quad} (h : q.Legible) : Bytes.newline ∉ q.text := by
  rw [text_eq_join]
  exact not_mem_join (by decide) fun x hx => (h x hx).1

end Quad

theorem lines_of_quads {qs : List Quad} (h : ∀ q ∈ qs, q.Legible) :
    lines (qs.map Quad.line).flatten = qs.map Quad.text ++ [[]] := by
  have hmap : qs.map Quad.line = (qs.map Quad.text).map (· ++ [Bytes.newline]) := by
    simp [Quad.line]
  rw [hmap]
  exact lines_flatten (List.forall_mem_map.mpr fun q hq => Quad.newline_not_mem_text (h q hq))

theorem Listing.ofText_lines {qs : List Quad} (h : ∀ q ∈ qs, q.Legible) :
    ofText (qs.map Quad.line).flatten = qs.map Quad.instruction? := by
  rw [ofText, lines_of_quads h, List.dropLast_concat, List.map_map]
  refine List.map_congr_left fun q hq => ?_
  rw [Function.comp_apply, Quad.fields_text (h q hq)]
  rfl

theorem Bytes.Alphanumeric.apart {x : Bytes} (h : x.Alphanumeric) :
    Bytes.newline ∉ x ∧ ¬fieldMark <:+: x := by
  refine ⟨fun hn => absurd (h _ hn) (by decide), fun hmark => ?_⟩
  have hcomma : (44 : UInt8) ∈ x := hmark.subset (List.mem_cons_self ..)
  exact absurd (h _ hcomma) (by decide)

namespace Quad

@[simp] theorem instruction?_label (x : Bytes) :
    (Quad.label x).instruction? = some (.label x) := by
  simp [instruction?, fields, Quad.label, Instruction.ofFields?]

@[simp] theorem instruction?_jump (x : Bytes) : (Quad.jump x).instruction? = some (.jump x) := rfl

@[simp] theorem instruction?_move (x r : Bytes) :
    (Quad.move x r).instruction? = some (.move x r) := rfl

@[simp] theorem instruction?_test (x y : Bytes) (c : Comparison) (target : Bytes) :
    (Quad.test x y c.comparator target).instruction? = some (.test x y c target) := by
  cases c <;> rfl

@[simp] theorem instruction?_unary (op : UnaryOperator) (x r : Bytes) :
    (Quad.unary op.opcode x r).instruction? = some (.unary op x r) := by
  cases op <;> rfl

@[simp] theorem instruction?_binary (op : BinaryOperator) (x y r : Bytes) :
    (Quad.binary op.opcode x y r).instruction? = some (.binary op x y r) := by
  cases op <;> rfl

theorem alphanumeric_mnemonic (op : Opcode) : op.mnemonic.Alphanumeric := by
  apply Bytes.alphanumeric_of_all
  cases op with
  | other => rfl
  | _ => decide

theorem alphanumeric_fields {q : Quad} (h : ∀ x ∈ q.args, x.Alphanumeric) :
    ∀ x ∈ q.fields, x.Alphanumeric := by
  unfold fields
  split
  · refine List.forall_mem_singleton.mpr fun b hb => ?_
    obtain ⟨x, hx, hb⟩ := List.mem_flatten.mp hb
    exact h x hx b hb
  · exact List.forall_mem_cons.mpr ⟨alphanumeric_mnemonic q.op, h⟩

theorem legible_of_alphanumeric {q : Quad} (h : ∀ x ∈ q.args, x.Alphanumeric) :
    q.Legible :=
  fun x hx => (alphanumeric_fields h x hx).apart

end Quad

section

variable {e : Expression}

theorem Expression.alphanumeric_operand (he : e.Over Bytes.Alphanumeric Bytes.Alphanumeric)
    (start : Nat) : (e.operand start).Alphanumeric := by
  cases e with
  | name x | numeral x => exact he
  | unary op e | binary op a b => exact (Names.identifier_temporaryName _).alphanumeric

theorem Expression.legible_code (he : e.Over Bytes.Alphanumeric Bytes.Alphanumeric)
    (start : Nat) : ∀ q ∈ e.code start, q.Legible := by
  induction e generalizing start with
  | name x | numeral x => exact nofun
  | unary op e ih =>
    refine List.forall_mem_append.mpr ⟨ih he start, List.forall_mem_singleton.mpr ?_⟩
    apply Quad.legible_of_alphanumeric
    have ho := alphanumeric_operand (e := e) he start
    simp [Quad.unary, ho, (Names.identifier_temporaryName _).alphanumeric]
  | binary op a b iha ihb =>
    refine List.forall_mem_append.mpr ⟨List.forall_mem_append.mpr ⟨iha he.1 start, ihb he.2 _⟩,
      List.forall_mem_singleton.mpr ?_⟩
    apply Quad.legible_of_alphanumeric
    simp [Quad.binary, alphanumeric_operand he.1, alphanumeric_operand he.2,
      (Names.identifier_temporaryName _).alphanumeric]

theorem Quad.legible_label (n : Nat) : (Quad.label (Names.labelName n)).Legible :=
  legible_of_alphanumeric
    (List.forall_mem_singleton.mpr (Names.identifier_labelName n).alphanumeric)

theorem Quad.legible_jump (n : Nat) : (Quad.jump (Names.labelName n)).Legible :=
  legible_of_alphanumeric
    (List.forall_mem_singleton.mpr (Names.identifier_labelName n).alphanumeric)

theorem Condition.legible_code {c : Condition}
    (hc : c.Over Bytes.Alphanumeric Bytes.Alphanumeric) (inside behind : Nat) :
    ∀ q ∈ c.code ++ c.branch inside behind, q.Legible := by
  have hd : c.comparison.comparator.text.Alphanumeric := by
    apply Bytes.alphanumeric_of_all
    cases c.comparison <;> decide
  have ht : (Quad.test (c.left.operand 0) (c.right.operand c.left.operations)
      c.comparison.comparator (Names.labelName inside)).Legible := by
    apply Quad.legible_of_alphanumeric
    simp [Quad.test, Expression.alphanumeric_operand hc.1, Expression.alphanumeric_operand hc.2, hd,
      (Names.identifier_labelName _).alphanumeric]
  simp only [List.forall_mem_append, code, branch]
  refine ⟨⟨Expression.legible_code hc.1 _, Expression.legible_code hc.2 _⟩, ?_⟩
  simp [ht, Quad.legible_jump, Quad.legible_label]

theorem Statement.legible_code {s : Statement}
    (hs : s.Over Bytes.Alphanumeric Bytes.Alphanumeric) (first : Nat) :
    ∀ q ∈ s.code first, q.Legible := by
  induction s generalizing first with
  | assign x e =>
    refine List.forall_mem_append.mpr ⟨Expression.legible_code hs.2 0,
      List.forall_mem_singleton.mpr ?_⟩
    apply Quad.legible_of_alphanumeric
    simp [Quad.move, Expression.alphanumeric_operand hs.2, hs.1]
  | conditional c s ih =>
    have hc := Condition.legible_code hs.1 first (first + 1)
    simp only [List.forall_mem_append, code] at hc ⊢
    exact ⟨⟨hc, ih hs.2 _⟩, List.forall_mem_singleton.mpr (Quad.legible_label _)⟩
  | loop c s ih =>
    have hc := Condition.legible_code hs.1 (first + 1) (first + 2)
    simp only [List.forall_mem_append, List.forall_mem_cons, code] at hc ⊢
    exact ⟨Quad.legible_label _, ⟨hc, ih hs.2 _⟩, Quad.legible_jump _, Quad.legible_label _, nofun⟩

theorem Program.legible_code {p : Program}
    (hp : p.Over Bytes.Alphanumeric Bytes.Alphanumeric) (first : Nat) :
    ∀ q ∈ p.code first, q.Legible := by
  induction p generalizing first with
  | nil => exact nofun
  | cons s p ih =>
    obtain ⟨hs, hp⟩ := List.forall_mem_cons.mp hp
    exact List.forall_mem_append.mpr ⟨Statement.legible_code hs first, ih hp _⟩

end

end ThreeAddress
