import ThreeAddress.Proofs.Preservation

namespace ThreeAddress

universe u

open Names

def Instruction.computed? : Option Instruction → Option Bytes
  | some (.unary _ _ r) | some (.binary _ _ _ r) => some r
  | _ => none

def Listing.computed (l : Listing) : List Bytes := l.filterMap Instruction.computed?

/-- The number of temporaries that the statement needs at once. -/
def Statement.temporaries : Statement → Nat
  | assign _ e => e.operations
  | conditional c s | loop c s => max (c.left.operations + c.right.operations) s.temporaries

def Program.temporaries : Program → Nat
  | [] => 0
  | s :: p => max s.temporaries (Program.temporaries p)

namespace Listing

@[simp] theorem computed_nil : computed [] = [] := rfl

@[simp] theorem computed_cons (i : Option Instruction) (l : Listing) :
    computed (i :: l) = (Instruction.computed? i).toList ++ computed l := by
  cases h : Instruction.computed? i <;> simp [computed, h]

@[simp] theorem computed_append (l l' : Listing) :
    computed (l ++ l') = computed l ++ computed l' :=
  List.filterMap_append

end Listing

theorem Expression.computed_code (e : Expression) (start : Nat) :
    (instructions (e.code start)).computed =
      (List.range' start e.operations).map temporaryName := by
  have hcomputed := e.map_code (f := Instruction.computed? ∘ Quad.instruction?)
    (g := some ∘ temporaryName) (by simp [Instruction.computed?]) (by simp [Instruction.computed?])
    start
  have hnames := congrArg (List.filterMap id) hcomputed
  rw [List.filterMap_map, List.filterMap_map, Function.id_comp, Function.id_comp,
    List.filterMap_eq_map] at hnames
  rw [Listing.computed, instructions, List.filterMap_map]
  exact hnames

theorem Condition.computed_code (c : Condition) (inside behind : Nat) :
    (instructions (c.code ++ c.branch inside behind)).computed =
      (List.range (c.left.operations + c.right.operations)).map temporaryName := by
  have hrange : List.range (c.left.operations + c.right.operations) =
      List.range' 0 c.left.operations ++ List.range' c.left.operations c.right.operations := by
    rw [List.range_eq_range', ← List.range'_append_1, Nat.zero_add]
  simp [code, branch, Expression.computed_code, Instruction.computed?, hrange]

theorem exists_lt_max {m n : Nat} {P : Nat → Prop} :
    (∃ k < max m n, P k) ↔ (∃ k < m, P k) ∨ ∃ k < n, P k := by
  simp only [lt_max_iff, or_and_right, exists_or]

theorem Statement.mem_computed_code {s : Statement} {first : Nat} {x : Bytes} :
    x ∈ (instructions (s.code first)).computed ↔ ∃ n < s.temporaries, temporaryName n = x := by
  induction s generalizing first with
  | assign y e => simp [code, Expression.computed_code, Instruction.computed?, temporaries]
  | conditional c s ih =>
    have hcode : (instructions ((conditional c s).code first)).computed =
        (instructions (c.code ++ c.branch first (first + 1))).computed ++
          (instructions (s.code (first + 2))).computed := by
      simp [code, Instruction.computed?]
    rw [hcode, List.mem_append, ih, c.computed_code, temporaries, exists_lt_max]
    simp
  | loop c s ih =>
    have hcode : (instructions ((loop c s).code first)).computed =
        (instructions (c.code ++ c.branch (first + 1) (first + 2))).computed ++
          (instructions (s.code (first + 3))).computed := by
      simp [code, Instruction.computed?]
    rw [hcode, List.mem_append, ih, c.computed_code, temporaries, exists_lt_max]
    simp

theorem Program.mem_computed_code {p : Program} {first : Nat} {x : Bytes} :
    x ∈ (instructions (p.code first)).computed ↔ ∃ n < p.temporaries, temporaryName n = x := by
  induction p generalizing first with
  | nil => simp [code, temporaries]
  | cons s p ih =>
    rw [code, instructions, List.map_append, Listing.computed_append, List.mem_append, temporaries,
      exists_lt_max, Statement.mem_computed_code, ih]

/-- An instruction changes nothing but its result. -/
theorem Instruction.store_execute {V : Type u} {I : Interpretation V} {find : Bytes → Option Nat}
    {m m' : Configuration V} {i : Instruction} {x : Bytes} (h : i.execute I find m = some m')
    (hx : computed? (some i) ≠ some x) (hmove : ∀ y, i ≠ .move y x) :
    m'.store x = m.store x := by
  cases i with
  | label y =>
    cases h
    rfl
  | jump y =>
    obtain ⟨n, -, rfl⟩ := Option.map_eq_some_iff.mp h
    rfl
  | test y z c target =>
    simp only [execute] at h
    split at h
    · obtain ⟨n, -, rfl⟩ := Option.map_eq_some_iff.mp h
      rfl
    · cases h
      rfl
  | move y r =>
    cases h
    have hr : x ≠ r := fun hr => hmove y (hr ▸ rfl)
    simp [Store.set, hr]
  | unary op y r | binary op y z r =>
    cases h
    have hr : x ≠ r := fun hr => hx (hr ▸ rfl)
    simp [Store.set, hr]

/-- No step changes the value of `x`, except a move to `x`. -/
def Listing.OnlyMoves (l : Listing) (x : Bytes) : Prop :=
  ∀ (V : Type u) (I : Interpretation V) (m m' : Configuration V), l.step I m = some m' →
    m'.store x ≠ m.store x → ∃ y, l[m.position]? = some (some (.move y x))

theorem Listing.onlyMoves_of_not_mem {l : Listing} {x : Bytes} (hx : x ∉ l.computed) :
    l.OnlyMoves x := by
  intro V I m m' h hne
  unfold step at h
  split at h
  · next i hi =>
    by_contra hmove
    refine hne (Instruction.store_execute h (fun hr => ?_) fun y hy => hmove ⟨y, hy ▸ hi⟩)
    exact hx (List.mem_filterMap.mpr ⟨_, List.mem_of_getElem? hi, hr⟩)
  · cases h

/-- The listing of a source computes values for the first temporaries, as many as its program needs
for one statement. A name in the source that is none of these changes only by moves to it. -/
theorem translate_computes_temporaries (source : Source) (h : (translate source).1 = .ok ()) :
    ∃ (q : Program) (p r : List Token), source.tokens = p ++ r ∧ q.Spelled p ∧
      (∀ x, x ∈ (Listing.ofText (translate source).2).computed ↔
        ∃ n < q.temporaries, temporaryName n = x) ∧
      ∀ t ∈ source.tokens, t.kind = .ident → (∀ n < q.temporaries, temporaryName n ≠ t.lexeme) →
        Listing.OnlyMoves.{u} (.ofText (translate source).2) t.lexeme := by
  obtain ⟨q, p, r, hts, hq, htext⟩ := translate_of_ok h
  have hregular : ∀ t ∈ p, t.Regular := fun t ht =>
    source.regular_tokens t (hts ▸ List.mem_append_left r ht)
  rw [htext, Listing.ofText_code hq hregular]
  refine ⟨q, p, r, hts, hq, fun x => Program.mem_computed_code, fun t ht hi hne => ?_⟩
  refine Listing.onlyMoves_of_not_mem fun hx => ?_
  obtain ⟨n, hn, he⟩ := Program.mem_computed_code.mp hx
  exact hne n hn he

theorem translate_computes_temporaries_of_sum :
    let source := Source.ofText (utf8 "PROGRAM T2 = 1 + 2 * 3 END.")
    (translate source).1 = .ok () ∧
      ∃ (q : Program) (p r : List Token), source.tokens = p ++ r ∧ q.Spelled p ∧
        (∀ x, x ∈ (Listing.ofText (translate source).2).computed ↔
          ∃ n < q.temporaries, temporaryName n = x) ∧
        ∀ t ∈ source.tokens, t.kind = .ident →
          (∀ n < q.temporaries, temporaryName n ≠ t.lexeme) →
            Listing.OnlyMoves.{0} (.ofText (translate source).2) t.lexeme := by
  intro source
  have hok : (translate source).1 = .ok () := by decide +kernel
  exact ⟨hok, translate_computes_temporaries source hok⟩

/-- A variable with the name of a temporary loses its value to a sum that has nothing to do with
it. -/
theorem translate_overwrites_variable :
    let source := Source.ofText (utf8 "PROGRAM T0 = 5; x = 1 + 2; y = T0 END.")
    (translate source).1 = .ok () ∧
      (translate source).2 = utf8 "MOV, 5, T0\nADD, 1, 2, T0\nMOV, T0, x\nMOV, T0, y\n" ∧
      (∃ t ∈ source.tokens, t.kind = .ident ∧
        t.lexeme ∈ (Listing.ofText (translate source).2).computed) ∧
      ∀ (V : Type) (I : Interpretation V) (s : Store V),
        (Listing.ofText (translate source).2).step I ⟨1, s⟩ =
          some ⟨2, s.set (utf8 "T0")
            (I.binary .add (I.numeral (utf8 "1")) (I.numeral (utf8 "2")))⟩ := by
  intro source
  have hlisting : Listing.ofText (translate source).2 =
      [some (.move (utf8 "5") (utf8 "T0")),
        some (.binary .add (utf8 "1") (utf8 "2") (utf8 "T0")),
        some (.move (utf8 "T0") (utf8 "x")), some (.move (utf8 "T0") (utf8 "y"))] := by
    decide +kernel
  refine ⟨by decide +kernel, by decide +kernel, by decide +kernel, fun V I s => ?_⟩
  rw [hlisting]
  rfl

end ThreeAddress
