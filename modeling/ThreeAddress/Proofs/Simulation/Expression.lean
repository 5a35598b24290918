import ThreeAddress.Proofs.Labels

namespace ThreeAddress

universe u

variable {V : Type u} {I : Interpretation V} {l : Listing}

def IsTemporary (x : Bytes) : Prop := ∃ n, x = Names.temporaryName n

def IsVariable (x : Bytes) : Prop := Identifier x ∧ ¬IsTemporary x

theorem Identifier.isNumeral {x : Bytes} (h : Identifier x) : isNumeral x = false := by
  cases h with
  | @intro b x hb _ =>
    simp only [Bytes.isLetter, UInt8.le_iff_toNat_le, Bool.or_eq_true, Bool.and_eq_true,
      decide_eq_true_eq, UInt8.reduceToNat] at hb
    simp only [ThreeAddress.isNumeral, Bytes.isDigit, UInt8.le_iff_toNat_le, UInt8.reduceToNat,
      Bool.and_eq_false_iff, decide_eq_false_iff_not]
    omega

theorem Numeral.isNumeral {x : Bytes} (h : Numeral x) : isNumeral x = true := by
  cases h with
  | intro hb _ => exact hb

theorem Interpretation.operand_numeral {x : Bytes} (h : Numeral x) (s : Store V) :
    I.operand s x = I.numeral x := by
  simp [operand, h.isNumeral]

theorem Interpretation.operand_identifier {x : Bytes} (h : Identifier x) (s : Store V) :
    I.operand s x = s x := by
  simp [operand, h.isNumeral]

namespace Store

def Agrees (s t : Store V) : Prop := ∀ x, ¬IsTemporary x → s x = t x

theorem Agrees.refl (s : Store V) : s.Agrees s := fun _ _ => rfl

theorem Agrees.trans {s t r : Store V} (h : s.Agrees t) (h' : t.Agrees r) : s.Agrees r :=
  fun x hx => (h x hx).trans (h' x hx)

theorem Agrees.set {s t : Store V} (h : s.Agrees t) (x : Bytes) (v : V) :
    (s.set x v).Agrees (t.set x v) := by
  intro y hy
  simp only [Store.set]
  split
  · rfl
  · exact h y hy

end Store

theorem Expression.value_congr {e : Expression} (he : e.Over IsVariable Numeral) {s t : Store V}
    (h : s.Agrees t) : e.value I s = e.value I t := by
  induction e with
  | name x => exact h x he.2
  | numeral x => rfl
  | unary op e ih => simp [value, ih he]
  | binary op a b iha ihb => simp [value, iha he.1, ihb he.2]

theorem Condition.holds_congr {c : Condition} (hc : c.Over IsVariable Numeral) {s t : Store V}
    (h : s.Agrees t) : c.holds I s = c.holds I t := by
  simp [holds, Expression.value_congr hc.1 h, Expression.value_congr hc.2 h]

namespace Listing

theorem step_of_holds {k : Nat} {i : Instruction} {b : Listing} (h : l.Holds k (some i :: b))
    (s : Store V) : l.step I ⟨k, s⟩ = i.execute I l.find ⟨k, s⟩ := by
  simp [step, h.1]

/-- From line `k` the machine passes `n` lines in as many steps, and the only names whose values
change are temporaries from number `start` on. -/
structure Computes (I : Interpretation V) (l : Listing) (k n start : Nat) (s t : Store V) :
    Prop where
  steps : l.steps I n ⟨k, s⟩ = some ⟨k + n, t⟩
  frame : ∀ x, (∀ i, start ≤ i → x ≠ Names.temporaryName i) → t x = s x

namespace Computes

variable {k n start : Nat} {s t : Store V}

theorem refl (k start : Nat) (s : Store V) : Computes I l k 0 start s s := ⟨rfl, fun _ _ => rfl⟩

theorem trans (h : Computes I l k n start s t) {n' start' : Nat} {r : Store V}
    (h' : Computes I l (k + n) n' start' t r) (hs : start ≤ start') :
    Computes I l k (n + n') start s r where
  steps := by
    rw [← Nat.add_assoc]
    exact steps_trans h.steps h'.steps
  frame x hx := (h'.frame x fun i hi => hx i (by omega)).trans (h.frame x hx)

theorem agrees (h : Computes I l k n start s t) : t.Agrees s :=
  fun x hx => h.frame x fun i _ he => hx ⟨i, he⟩

theorem set {j : Nat} {v : V} (h : l.step I ⟨k, s⟩ = some ⟨k + 1, s.set (Names.temporaryName j) v⟩)
    (hj : start ≤ j) : Computes I l k 1 start s (s.set (Names.temporaryName j) v) where
  steps := steps_one h
  frame x hx := by simp [Store.set, hx j hj]

end Computes

def Reaches (I : Interpretation V) (l : Listing) (m m' : Configuration V) : Prop :=
  ∃ n, l.steps I n m = some m'

variable {m m' m'' : Configuration V}

theorem Reaches.trans (h : l.Reaches I m m') (h' : l.Reaches I m' m'') : l.Reaches I m m'' := by
  obtain ⟨a, ha⟩ := h
  obtain ⟨b, hb⟩ := h'
  exact ⟨a + b, steps_trans ha hb⟩

theorem Reaches.of_step (h : l.step I m = some m') : l.Reaches I m m' := ⟨1, steps_one h⟩

theorem Computes.reaches {k n start : Nat} {s t : Store V} (h : Computes I l k n start s t) :
    l.Reaches I ⟨k, s⟩ ⟨k + n, t⟩ := ⟨n, h.steps⟩

theorem Reaches.rest (h : l.Reaches I m m') {n : Nat} {t : Store V}
    (hn : l.steps I n m = some ⟨l.length, t⟩) :
    ∃ b ≤ n, l.steps I b m' = some ⟨l.length, t⟩ := by
  obtain ⟨a, ha⟩ := h
  obtain ⟨b, rfl, hb⟩ := steps_of_stops ha hn
  exact ⟨b, Nat.le_add_left _ _, hb⟩

theorem Reaches.rest_lt (h : l.Reaches I m m') (hne : m.position ≠ m'.position) {n : Nat}
    {t : Store V} (hn : l.steps I n m = some ⟨l.length, t⟩) :
    ∃ b < n, l.steps I b m' = some ⟨l.length, t⟩ := by
  obtain ⟨a, ha⟩ := h
  obtain ⟨b, rfl, hb⟩ := steps_of_stops ha hn
  refine ⟨b, ?_, hb⟩
  cases a with
  | zero => exact absurd (congrArg Configuration.position (Option.some.inj ha)) hne
  | succ a => omega

end Listing

open Listing

/-- What an expression leaves in its operand stays there while later temporaries get values. -/
theorem Expression.operand_stable {e : Expression} (he : e.Over IsVariable Numeral) {start : Nat}
    {k n start' : Nat} {s t : Store V} (h : Computes I l k n start' s t)
    (hs : start + e.operations ≤ start') :
    I.operand t (e.operand start) = I.operand s (e.operand start) := by
  cases e with
  | name x =>
    have hx : Identifier x := he.1
    simp only [operand, I.operand_identifier hx]
    exact h.agrees x he.2
  | numeral x =>
    have hx : Numeral x := he
    simp only [operand, I.operand_numeral hx]
  | unary op e =>
    simp only [operand_unary, I.operand_identifier (Names.identifier_temporaryName _)]
    refine h.frame _ fun i hi he => ?_
    have hn := Names.temporaryName_inj.mp he
    simp only [operations] at hs
    omega
  | binary op a b =>
    simp only [operand_binary, I.operand_identifier (Names.identifier_temporaryName _)]
    refine h.frame _ fun i hi he => ?_
    have hn := Names.temporaryName_inj.mp he
    simp only [operations] at hs
    omega

/-- The code of an expression computes its value into its operand. -/
theorem Expression.computes {e : Expression} (he : e.Over IsVariable Numeral) {k start : Nat}
    (h : l.Holds k (instructions (e.code start))) (s : Store V) :
    ∃ t, Computes I l k (e.code start).length start s t ∧
      I.operand t (e.operand start) = e.value I s := by
  induction e generalizing k start s with
  | name x =>
    have hx : Identifier x := he.1
    exact ⟨s, .refl k start s, I.operand_identifier hx s⟩
  | numeral x =>
    have hx : Numeral x := he
    exact ⟨s, .refl k start s, I.operand_numeral hx s⟩
  | unary op e ih =>
    simp only [code, instructions, List.map_append, List.map_cons, List.map_nil, holds_append,
      List.length_map, Quad.instruction?_unary] at h
    obtain ⟨t, ht, hv⟩ := ih he h.1 s
    let r := Names.temporaryName (start + e.operations)
    have hset : Computes I l _ 1 start t (t.set r (I.unary op (I.operand t (e.operand start)))) :=
      .set (step_of_holds h.2 t) (Nat.le_add_right _ _)
    have hlength : ((unary op e).code start).length = (e.code start).length + 1 := by
      simp [code]
    rw [hlength]
    refine ⟨_, ht.trans hset (Nat.le_refl _), ?_⟩
    simp [I.operand_identifier (Names.identifier_temporaryName _), Store.set, value, hv, r]
  | binary op a b iha ihb =>
    simp only [code, instructions, List.map_append, List.map_cons, List.map_nil, holds_append,
      List.length_append, List.length_map, Quad.instruction?_binary] at h
    obtain ⟨t, ht, ha⟩ := iha he.1 h.1.1 s
    obtain ⟨t', ht', hb⟩ := ihb he.2 h.1.2 t
    rw [← operand_stable he.1 ht' (Nat.le_refl _)] at ha
    rw [value_congr he.2 ht.agrees] at hb
    let r := Names.temporaryName (start + a.operations + b.operations)
    have hset : Computes I l _ 1 start t' (t'.set r (I.binary op (I.operand t' (a.operand start))
        (I.operand t' (b.operand (start + a.operations))))) :=
      .set (step_of_holds h.2 t') (by omega)
    have hlength : ((binary op a b).code start).length =
        (a.code start).length + (b.code (start + a.operations)).length + 1 := by
      simp [code, Nat.add_assoc]
    rw [hlength]
    refine ⟨_, (ht.trans ht' (Nat.le_add_right _ _)).trans hset (Nat.le_refl _), ?_⟩
    simp [I.operand_identifier (Names.identifier_temporaryName _), Store.set, value, ha, hb, r]

namespace Condition

variable {c : Condition}

theorem computes (hc : c.Over IsVariable Numeral) {k : Nat} (h : l.Holds k (instructions c.code))
    (s : Store V) :
    ∃ t, Computes I l k c.code.length 0 s t ∧
      I.compare c.comparison (I.operand t (c.left.operand 0))
        (I.operand t (c.right.operand c.left.operations)) = c.holds I s := by
  simp only [code, instructions, List.map_append, holds_append, List.length_map] at h
  obtain ⟨t, ht, ha⟩ := Expression.computes hc.1 h.1 s
  obtain ⟨t', ht', hb⟩ := Expression.computes hc.2 h.2 t
  refine ⟨t', by simpa [code] using ht.trans ht' (Nat.zero_le _), ?_⟩
  rw [Expression.operand_stable hc.1 ht' (by omega), ha, hb, Expression.value_congr hc.2 ht.agrees]
  rfl

theorem reaches_inside (hc : c.Over IsVariable Numeral) {k inside behind : Nat}
    (h : l.Holds k (instructions (c.code ++ c.branch inside behind))) {s : Store V}
    (hs : c.holds I s = true) :
    ∃ t, l.Reaches I ⟨k, s⟩ ⟨k + c.code.length + 3, t⟩ ∧ t.Agrees s := by
  simp only [instructions, List.map_append, holds_append, List.length_map] at h
  obtain ⟨t, ht, hv⟩ := computes (I := I) hc h.1 s
  obtain ⟨htest, -, hjump, -, hlabel, hfind, -⟩ := h.2
  rw [hs] at hv
  have hin : l.step I ⟨k + c.code.length, t⟩ = some ⟨k + c.code.length + 1 + 1, t⟩ := by
    simp [step, htest, Instruction.execute, hv, hfind _ (Quad.instruction?_label _)]
  have hpass : l.step I ⟨k + c.code.length + 1 + 1, t⟩ = some ⟨k + c.code.length + 3, t⟩ := by
    simp [step, hlabel, Instruction.execute]
  exact ⟨t, ht.reaches.trans ((Reaches.of_step hin).trans (.of_step hpass)), ht.agrees⟩

theorem reaches_behind (hc : c.Over IsVariable Numeral) {k inside behind p : Nat}
    (h : l.Holds k (instructions (c.code ++ c.branch inside behind)))
    (hp : l.find (Names.labelName behind) = some p) {s : Store V} (hs : c.holds I s = false) :
    ∃ t, l.Reaches I ⟨k, s⟩ ⟨p, t⟩ ∧ t.Agrees s := by
  simp only [instructions, List.map_append, holds_append, List.length_map] at h
  obtain ⟨t, ht, hv⟩ := computes (I := I) hc h.1 s
  obtain ⟨htest, -, hjump, -⟩ := h.2
  rw [hs] at hv
  have hout : l.step I ⟨k + c.code.length, t⟩ = some ⟨k + c.code.length + 1, t⟩ := by
    simp [step, htest, Instruction.execute, hv]
  have hgo : l.step I ⟨k + c.code.length + 1, t⟩ = some ⟨p, t⟩ := by
    simp [step, hjump, Instruction.execute, hp]
  exact ⟨t, ht.reaches.trans ((Reaches.of_step hout).trans (.of_step hgo)), ht.agrees⟩

end Condition

end ThreeAddress
