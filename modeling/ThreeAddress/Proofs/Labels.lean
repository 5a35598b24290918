import ThreeAddress.Proofs.Rendering

namespace ThreeAddress

def Instruction.definedLabel? : Option Instruction → Option Bytes
  | some (.label x) => some x
  | _ => none

namespace Listing

def labels (l : Listing) : List Bytes := l.filterMap Instruction.definedLabel?

@[simp] theorem labels_nil : labels [] = [] := rfl

@[simp] theorem labels_cons (i : Option Instruction) (l : Listing) :
    labels (i :: l) = (Instruction.definedLabel? i).toList ++ labels l := by
  cases h : Instruction.definedLabel? i <;> simp [labels, h]

@[simp] theorem labels_append (l l' : Listing) : labels (l ++ l') = labels l ++ labels l' :=
  List.filterMap_append

theorem mem_labels {l : Listing} {x : Bytes} (h : some (.label x) ∈ l) : x ∈ l.labels :=
  List.mem_filterMap.mpr ⟨_, h, rfl⟩

theorem find_of_nodup {l b : Listing} {x : Bytes} (h : (l ++ some (.label x) :: b).labels.Nodup) :
    find (l ++ some (.label x) :: b) x = some l.length := by
  have hx : some (.label x) ∉ l := by
    intro hm
    rw [labels_append, List.nodup_append] at h
    exact h.2.2 x (mem_labels hm) x (mem_labels (List.mem_cons_self ..)) rfl
  rw [find, List.idxOf?_eq_some_iff]
  refine ⟨by simp, by simp, fun j hj he => hx ?_⟩
  rw [List.getElem_append_left hj] at he
  exact he ▸ List.getElem_mem hj

/-- The lines of `b` stand in the listing from line `k` on, and there are their labels found. -/
def Holds (l : Listing) : Nat → Listing → Prop
  | _, [] => True
  | k, i :: b => l[k]? = some i ∧ (∀ x, i = some (.label x) → l.find x = some k) ∧ l.Holds (k + 1) b

@[simp] theorem holds_append {l a b : Listing} {k : Nat} :
    l.Holds k (a ++ b) ↔ l.Holds k a ∧ l.Holds (k + a.length) b := by
  induction a generalizing k with
  | nil => simp [Holds]
  | cons i a ih =>
    have hk : k + 1 + a.length = k + (a.length + 1) := by omega
    simp [Holds, ih, and_assoc, hk]

theorem holds_of_nodup {l : Listing} (a b : Listing) (hl : l = a ++ b) (h : l.labels.Nodup) :
    l.Holds a.length b := by
  induction b generalizing a with
  | nil => trivial
  | cons i b ih =>
    refine ⟨by simp [hl], ?_, ?_⟩
    · rintro x rfl
      rw [hl] at h ⊢
      exact find_of_nodup h
    · simpa using ih (a ++ [i]) (by simp [hl])

end Listing

abbrev instructions (qs : List Quad) : Listing := qs.map Quad.instruction?

theorem Expression.labels_code (e : Expression) (start : Nat) :
    (instructions (e.code start)).labels = [] := by
  induction e generalizing start with
  | name x | numeral x => rfl
  | unary op e ih => simp [code, ih, Instruction.definedLabel?]
  | binary op a b iha ihb => simp [code, iha, ihb, Instruction.definedLabel?]

/-- A statement defines the labels that belong to it, each of them once. -/
theorem Statement.labels_code (s : Statement) (first : Nat) :
    (instructions (s.code first)).labels.Perm
      ((List.range' first s.labels).map Names.labelName) := by
  induction s generalizing first with
  | assign x e => simp [code, labels, Expression.labels_code, Instruction.definedLabel?]
  | conditional c s ih =>
    have hcode : (instructions ((conditional c s).code first)).labels =
        Names.labelName first ::
          ((instructions (s.code (first + 2))).labels ++ [Names.labelName (first + 1)]) := by
      simp [code, Condition.code, Condition.branch, Expression.labels_code,
        Instruction.definedLabel?]
    rw [hcode]
    exact .cons _ (List.perm_append_comm.trans (.cons _ (ih (first + 2))))
  | loop c s ih =>
    have hcode : (instructions ((loop c s).code first)).labels =
        Names.labelName first :: Names.labelName (first + 1) ::
          ((instructions (s.code (first + 3))).labels ++ [Names.labelName (first + 2)]) := by
      simp [code, Condition.code, Condition.branch, Expression.labels_code,
        Instruction.definedLabel?]
    rw [hcode]
    exact .cons _ (.cons _ (List.perm_append_comm.trans (.cons _ (ih (first + 3)))))

theorem Program.labels_code (p : Program) (first : Nat) :
    (instructions (p.code first)).labels.Perm
      ((List.range' first p.labels).map Names.labelName) := by
  induction p generalizing first with
  | nil => exact .refl _
  | cons s p ih =>
    have hrange : List.range' first (Program.labels (s :: p)) =
        List.range' first s.labels ++ List.range' (first + s.labels) (Program.labels p) := by
      simp [Program.labels]
    rw [Program.code, instructions, List.map_append, Listing.labels_append, hrange, List.map_append]
    exact (s.labels_code first).append (ih (first + s.labels))

theorem Program.nodup_labels_code (p : Program) : (instructions (p.code 0)).labels.Nodup := by
  have hnodup : ((List.range' 0 p.labels).map Names.labelName).Nodup :=
    List.Pairwise.map _ (fun a b h he => h (Names.labelName_inj.mp he)) List.nodup_range'
  exact (p.labels_code 0).nodup_iff.mpr hnodup

/-- Every part of the code of a program finds its labels where it defines them. -/
theorem Program.holds_code (p : Program) :
    (instructions (p.code 0)).Holds 0 (instructions (p.code 0)) :=
  Listing.holds_of_nodup [] _ rfl p.nodup_labels_code

end ThreeAddress
