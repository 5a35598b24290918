import ThreeAddress.Proofs.Machine

namespace ThreeAddress

universe u

variable {V : Type u}

inductive Event (V : Type u) where
  | store (result : Bytes) (value : V)
  | test (c : Comparison) (left right : V)

namespace Instruction

def event? (I : Interpretation V) (s : Store V) : Instruction → Option (Event V)
  | label _ | jump _ => none
  | test left right c _ => some (.test c (I.operand s left) (I.operand s right))
  | move x r => some (.store r (I.operand s x))
  | unary op x r => some (.store r (I.unary op (I.operand s x)))
  | binary op x y r => some (.store r (I.binary op (I.operand s x) (I.operand s y)))

def target? : Instruction → Option Bytes
  | jump x | test _ _ _ x => some x
  | _ => none

def mapTarget (f : Bytes → Bytes) : Instruction → Instruction
  | jump x => jump (f x)
  | test left right c x => test left right c (f x)
  | i => i

end Instruction

/-- What a machine needs to know of a listing: its instructions, and where a jump goes. -/
structure Code where
  at? : Nat → Option Instruction
  find : Bytes → Option Nat

namespace Code

variable (I : Interpretation V)

inductive Performs (c : Code) : Configuration V → List (Event V) → Configuration V → Prop
  | refl (m : Configuration V) : Performs c m [] m
  | step {m m' m'' : Configuration V} {i : Instruction} {es : List (Event V)}
      (hi : c.at? m.position = some i) (hm : i.execute I c.find m = some m')
      (h : Performs c m' es m'') : Performs c m ((i.event? I m.store).toList ++ es) m''

variable {I} {c d : Code}

theorem Performs.trans {m m' m'' : Configuration V} {es es' : List (Event V)}
    (h : c.Performs I m es m') (h' : c.Performs I m' es' m'') :
    c.Performs I m (es ++ es') m'' := by
  induction h with
  | refl m => exact h'
  | step hi hm _ ih =>
    rw [List.append_assoc]
    exact .step hi hm (ih h')

/-- `d` is `c` without its labels, and `place` tells where the instructions have gone to. -/
structure Strips (c d : Code) (size : Nat) (place : Nat → Nat) : Prop where
  inside (k : Nat) : k < size ↔ ∃ i, c.at? k = some i
  find_le {x : Bytes} {n : Nat} (h : c.find x = some n) : n ≤ size
  label {k : Nat} {x : Bytes} (h : c.at? k = some (.label x)) : place (k + 1) = place k
  instruction {k : Nat} {i : Instruction} (h : c.at? k = some i) (hi : ∀ x, i ≠ .label x) :
    place (k + 1) = place k + 1 ∧ ∃ f, d.at? (place k) = some (i.mapTarget f) ∧
      ∀ x, i.target? = some x → ∃ n, c.find x = some n ∧ d.find (f x) = some (place n)
  stop : d.at? (place size) = none

end Code

theorem Instruction.event?_mapTarget (I : Interpretation V) (s : Store V) (f : Bytes → Bytes)
    (i : Instruction) : (i.mapTarget f).event? I s = i.event? I s := by
  cases i <;> rfl

namespace Code.Strips

variable {I : Interpretation V} {c d : Code} {size : Nat} {place : Nat → Nat}

def image (place : Nat → Nat) (m : Configuration V) : Configuration V :=
  ⟨place m.position, m.store⟩

theorem execute (h : Strips c d size place) {m : Configuration V} {i : Instruction}
    (hm : c.at? m.position = some i) (hi : ∀ x, i ≠ .label x) :
    ∃ j, d.at? (place m.position) = some j ∧ j.event? I m.store = i.event? I m.store ∧
      j.execute I d.find (image place m) = (i.execute I c.find m).map (image place) := by
  obtain ⟨hplace, f, hj, ht⟩ := h.instruction hm hi
  refine ⟨i.mapTarget f, hj, i.event?_mapTarget I m.store f, ?_⟩
  cases i with
  | label x => exact absurd rfl (hi x)
  | jump x =>
    obtain ⟨n, hn, hn'⟩ := ht x rfl
    simp [Instruction.mapTarget, Instruction.execute, hn, hn', image]
  | test left right r x =>
    obtain ⟨n, hn, hn'⟩ := ht x rfl
    simp only [Instruction.mapTarget, Instruction.execute, hn, hn', image]
    split <;> simp [image, hplace]
  | move x r | unary op x r | binary op x y r =>
    simp [Instruction.mapTarget, Instruction.execute, image, hplace]

theorem position_le (h : Strips c d size place) {m m' : Configuration V} {i : Instruction}
    (hm : c.at? m.position = some i) (he : i.execute I c.find m = some m') :
    m'.position ≤ size := by
  have hk : m.position + 1 ≤ size := (h.inside _).mpr ⟨i, hm⟩
  cases i with
  | label x | move x r | unary op x r | binary op x y r =>
    cases he
    exact hk
  | jump x =>
    obtain ⟨n, hn, rfl⟩ := Option.map_eq_some_iff.mp he
    exact h.find_le hn
  | test left right r x =>
    simp only [Instruction.execute] at he
    split at he
    · obtain ⟨n, hn, rfl⟩ := Option.map_eq_some_iff.mp he
      exact h.find_le hn
    · cases he
      exact hk

theorem performs (h : Strips c d size place) {m m' : Configuration V} {es : List (Event V)}
    (hm : c.Performs I m es m') : d.Performs I (image place m) es (image place m') := by
  induction hm with
  | refl m => exact .refl _
  | @step m m' m'' i es hi hm _ ih =>
    by_cases hlabel : ∃ x, i = .label x
    · -- a label takes a step, but there is nothing to be seen of it
      obtain ⟨x, rfl⟩ := hlabel
      cases hm
      have hplace : image place { m with position := m.position + 1 } = image place m := by
        rw [image, h.label hi]
        rfl
      rwa [hplace] at ih
    · obtain ⟨j, hj, he, hexec⟩ := h.execute (I := I) hi (not_exists.mp hlabel)
      rw [hm] at hexec
      rw [← he]
      exact .step hj hexec ih

theorem skip (h : Strips c d size place) {k : Nat} (hk : k ≤ size) (s : Store V) :
    ∃ l, l ≤ size ∧ place l = place k ∧ c.Performs I ⟨k, s⟩ [] ⟨l, s⟩ ∧
      (l = size ∨ ∃ i, c.at? l = some i ∧ ∀ x, i ≠ .label x) := by
  induction hn : size - k generalizing k with
  | zero => exact ⟨k, hk, rfl, .refl _, .inl (by omega)⟩
  | succ n ih =>
    obtain ⟨i, hi⟩ := (h.inside k).mp (by omega)
    by_cases hlabel : ∃ x, i = .label x
    · obtain ⟨x, rfl⟩ := hlabel
      obtain ⟨l, hl, hplace, hrun, hend⟩ := ih (k := k + 1) (by omega) (by omega)
      have hstep : c.Performs I ⟨k, s⟩ [] ⟨l, s⟩ :=
        .step (m := ⟨k, s⟩) (i := .label x) hi rfl hrun
      exact ⟨l, hl, hplace.trans (h.label hi), hstep, hend⟩
    · exact ⟨k, hk, rfl, .refl _, .inr ⟨i, hi, not_exists.mp hlabel⟩⟩

theorem exists_performs (h : Strips c d size place) {n n' : Configuration V}
    {es : List (Event V)} (hn : d.Performs I n es n') {m : Configuration V}
    (hm : m.position ≤ size) (himage : n = image place m) :
    ∃ m', m'.position ≤ size ∧ n' = image place m' ∧ c.Performs I m es m' := by
  induction hn generalizing m with
  | refl n => exact ⟨m, hm, himage, .refl m⟩
  | @step n n' n'' j es hj he _ ih =>
    subst himage
    obtain ⟨l, hl, hplace, hskip, hend⟩ := h.skip (I := I) hm m.store
    have hj : d.at? (place l) = some j := hplace ▸ hj
    obtain rfl | ⟨i, hi, hlabel⟩ := hend
    · rw [h.stop] at hj
      cases hj
    · obtain ⟨j', hj', hevent, hexec⟩ := h.execute (I := I) (m := ⟨l, m.store⟩) hi hlabel
      obtain rfl : j = j' := Option.some.inj (hj.symm.trans hj')
      have himage : image place ⟨l, m.store⟩ = image place m := by
        rw [image, hplace]
        rfl
      rw [himage, he] at hexec
      obtain ⟨m', hm', rfl⟩ := Option.map_eq_some_iff.mp hexec.symm
      obtain ⟨m'', hm'', himage'', hrun⟩ := ih (h.position_le hi hm') rfl
      refine ⟨m'', hm'', himage'', ?_⟩
      have hstep := Performs.step hi hm' hrun
      rw [← hevent] at hstep
      exact hskip.trans hstep

theorem performs_iff (h : Strips c d size place) (hplace : place 0 = 0) (s : Store V)
    (es : List (Event V)) :
    (∃ m, c.Performs I ⟨0, s⟩ es m) ↔ ∃ n, d.Performs I ⟨0, s⟩ es n := by
  have himage : image place ⟨0, s⟩ = ⟨0, s⟩ := by rw [image, hplace]
  constructor
  · rintro ⟨m, hm⟩
    exact ⟨_, himage ▸ h.performs hm⟩
  · rintro ⟨n, hn⟩
    obtain ⟨m, -, -, hm⟩ := h.exists_performs hn (m := ⟨0, s⟩) (Nat.zero_le _) himage.symm
    exact ⟨m, hm⟩

theorem ends_iff (h : Strips c d size place) (hplace : place 0 = 0) {stops : Nat → Prop}
    (hstop : stops (place size)) (hnone : ∀ k, stops k → d.at? k = none) (s t : Store V)
    (es : List (Event V)) :
    c.Performs I ⟨0, s⟩ es ⟨size, t⟩ ↔ ∃ k, stops k ∧ d.Performs I ⟨0, s⟩ es ⟨k, t⟩ := by
  have himage : image place ⟨0, s⟩ = ⟨0, s⟩ := by rw [image, hplace]
  constructor
  · intro hm
    exact ⟨place size, hstop, himage ▸ h.performs hm⟩
  · rintro ⟨k, hk, hn⟩
    obtain ⟨m, hsize, himage', hm⟩ :=
      h.exists_performs hn (m := ⟨0, s⟩) (Nat.zero_le _) himage.symm
    obtain ⟨rfl, rfl⟩ : k = place m.position ∧ t = m.store := by
      simpa [image] using himage'
    obtain ⟨l, -, hl, hskip, rfl | ⟨i, hi, hlabel⟩⟩ := h.skip (I := I) hsize m.store
    · simpa using hm.trans hskip
    · -- an instruction is still to come, and so the other run has not come to its end
      obtain ⟨j, hj, -⟩ := h.execute (I := I) (m := ⟨l, m.store⟩) hi hlabel
      have hj : d.at? (place l) = some j := hj
      rw [hl, hnone _ hk] at hj
      cases hj

end Code.Strips

def Listing.code (l : Listing) : Code := ⟨fun k => l[k]?.join, l.find⟩

namespace Listing

variable {I : Interpretation V} {l : Listing} {m m' : Configuration V}

theorem step_eq_some_iff : l.step I m = some m' ↔
    ∃ i, l.code.at? m.position = some i ∧ i.execute I l.code.find m = some m' := by
  simp only [step, code]
  cases l[m.position]? with
  | none => simp
  | some i => cases i <;> simp

theorem performs_iff_steps :
    (∃ es, l.code.Performs I m es m') ↔ ∃ n, l.steps I n m = some m' := by
  constructor
  · rintro ⟨es, h⟩
    induction h with
    | refl m => exact ⟨0, rfl⟩
    | step hi hm _ ih =>
      obtain ⟨n, hn⟩ := ih
      refine ⟨n + 1, ?_⟩
      rw [steps, step_eq_some_iff.mpr ⟨_, hi, hm⟩]
      exact hn
  · rintro ⟨n, h⟩
    induction n generalizing m with
    | zero =>
      cases h
      exact ⟨[], .refl _⟩
    | succ n ih =>
      obtain ⟨m₁, hm₁, h⟩ := Option.bind_eq_some_iff.mp h
      obtain ⟨i, hi, hm⟩ := step_eq_some_iff.mp hm₁
      obtain ⟨es, hes⟩ := ih h
      exact ⟨_, .step hi hm hes⟩

end Listing

inductive NumberedLine where
  | halt
  | instruction (i : Instruction)

def NumberedLine.ofFields? : List Bytes → Option NumberedLine
  | [m] => if m = utf8 "HALT" then some .halt else none
  | fs => (Instruction.ofFields? fs).map .instruction

abbrev NumberedListing := List (Option NumberedLine)

namespace NumberedListing

def ofText (text : Bytes) : NumberedListing :=
  (lines text).dropLast.map fun line => NumberedLine.ofFields? (fields line)

def code (l : NumberedListing) : Code where
  at? k :=
    match l[k]? with
    | some (some (.instruction i)) => some i
    | _ => none
  find x := (List.range l.length).find? fun k => decimal (k + 1) = x

/-- A run ends at a `HALT` and behind the last line. -/
def Ends (l : NumberedListing) (k : Nat) : Prop := k = l.length ∨ l[k]? = some (some .halt)

variable {l : NumberedListing} {k : Nat}

theorem Ends.at?_eq_none (h : l.Ends k) : l.code.at? k = none := by
  obtain rfl | h := h
  · simp [code]
  · simp [code, h]

theorem find_decimal (h : k < l.length) : l.code.find (decimal (k + 1)) = some k := by
  refine List.find?_range_eq_some.mpr ⟨by simp, by simpa using h, fun j hj => ?_⟩
  have hne : decimal (j + 1) ≠ decimal (k + 1) := by
    intro he
    have := decimal_injective he
    omega
  simp [hne]

end NumberedListing

end ThreeAddress
