import ThreeAddress.Proofs.Simulation.Expression

namespace ThreeAddress

universe u

variable {V : Type u} {I : Interpretation V} {l : Listing}

open Listing

/-- From line `k` the machine comes to `inside` if the condition holds and else to `behind`. -/
structure Condition.Guards (I : Interpretation V) (l : Listing) (c : Condition)
    (k inside behind : Nat) : Prop where
  enter {s : Store V} (hs : c.holds I s = true) :
    ∃ t, l.Reaches I ⟨k, s⟩ ⟨inside, t⟩ ∧ t.Agrees s
  skip {s : Store V} (hs : c.holds I s = false) :
    ∃ t, l.Reaches I ⟨k, s⟩ ⟨behind, t⟩ ∧ t.Agrees s

namespace Statement

theorem holds_conditional {c : Condition} {b : Statement}
    (hb : (conditional c b).Over IsVariable Numeral) {k first : Nat}
    (h : l.Holds k (instructions ((conditional c b).code first))) :
    ∃ inside, c.Guards I l k inside (k + ((conditional c b).code first).length) ∧
      l.Holds inside (instructions (b.code (first + 2))) ∧
      ∀ t : Store V, l.Reaches I ⟨inside + (b.code (first + 2)).length, t⟩
        ⟨k + ((conditional c b).code first).length, t⟩ := by
  have hlength : k + ((conditional c b).code first).length =
      k + c.code.length + 3 + (b.code (first + 2)).length + 1 := by
    simp [code, Condition.branch]
    omega
  rw [code, instructions, List.map_append, List.map_append, holds_append, holds_append] at h
  simp only [List.length_append, List.length_map, Condition.branch, List.length_cons,
    List.length_nil, ← Nat.add_assoc, Nat.zero_add] at h
  obtain ⟨⟨htest, hbody⟩, hlabel, hfind, -⟩ := h
  have hpass : ∀ t : Store V,
      l.step I ⟨k + c.code.length + 3 + (b.code (first + 2)).length, t⟩ =
        some ⟨k + ((conditional c b).code first).length, t⟩ := by
    intro t
    simp [step, hlabel, Instruction.execute, hlength]
  refine ⟨k + c.code.length + 3, ⟨c.reaches_inside hb.1 htest, fun hs => ?_⟩, hbody,
    fun t => .of_step (hpass t)⟩
  obtain ⟨t, ht, hag⟩ := c.reaches_behind hb.1 htest (hfind _ (Quad.instruction?_label _)) hs
  exact ⟨t, ht.trans (.of_step (hpass t)), hag⟩

theorem holds_loop {c : Condition} {b : Statement} (hb : (loop c b).Over IsVariable Numeral)
    {k first : Nat} (h : l.Holds k (instructions ((loop c b).code first))) :
    ∃ inside, k < inside ∧ c.Guards I l k inside (k + ((loop c b).code first).length) ∧
      l.Holds inside (instructions (b.code (first + 3))) ∧
      ∀ t : Store V, l.Reaches I ⟨inside + (b.code (first + 3)).length, t⟩ ⟨k, t⟩ := by
  have hlength : k + ((loop c b).code first).length =
      k + 1 + c.code.length + 3 + (b.code (first + 3)).length + 2 := by
    simp [code, Condition.branch]
    omega
  rw [code, instructions, List.map_cons, List.map_append, List.map_append] at h
  obtain ⟨hagain, hstart, h⟩ := h
  rw [holds_append, holds_append] at h
  simp only [List.length_append, List.length_map, Condition.branch, List.length_cons,
    List.length_nil, ← Nat.add_assoc, Nat.zero_add] at h
  obtain ⟨⟨htest, hbody⟩, hjump, -, hlabel, hfind, -⟩ := h
  have hfirst : ∀ t : Store V, l.Reaches I ⟨k, t⟩ ⟨k + 1, t⟩ := by
    intro t
    refine .of_step ?_
    simp [step, hagain, Instruction.execute]
  have hback : ∀ t : Store V,
      l.step I ⟨k + 1 + c.code.length + 3 + (b.code (first + 3)).length, t⟩ = some ⟨k, t⟩ := by
    intro t
    simp [step, hjump, Instruction.execute, hstart _ (Quad.instruction?_label _)]
  have hpass : ∀ t : Store V,
      l.step I ⟨k + 1 + c.code.length + 3 + (b.code (first + 3)).length + 1, t⟩ =
        some ⟨k + ((loop c b).code first).length, t⟩ := by
    intro t
    simp [step, hlabel, Instruction.execute, hlength]
  refine ⟨k + 1 + c.code.length + 3, by omega, ⟨fun hs => ?_, fun hs => ?_⟩, hbody,
    fun t => .of_step (hback t)⟩
  · obtain ⟨t, ht, hag⟩ := c.reaches_inside hb.1 htest hs
    exact ⟨t, (hfirst _).trans ht, hag⟩
  · obtain ⟨t, ht, hag⟩ := c.reaches_behind hb.1 htest (hfind _ (Quad.instruction?_label _)) hs
    exact ⟨t, (hfirst _).trans (ht.trans (.of_step (hpass t))), hag⟩

theorem holds_assign {x : Bytes} {e : Expression} (hb : (assign x e).Over IsVariable Numeral)
    {k first : Nat} (h : l.Holds k (instructions ((assign x e).code first))) (s : Store V) :
    ∃ t : Store V, l.Reaches I ⟨k, s⟩
        ⟨k + ((assign x e).code first).length, t.set x (e.value I s)⟩ ∧ t.Agrees s := by
  rw [code, instructions, List.map_append, holds_append, List.length_map] at h
  obtain ⟨t, ht, hv⟩ := Expression.computes (I := I) hb.2 h.1 s
  refine ⟨t, ht.reaches.trans (.of_step ?_), ht.agrees⟩
  simp [step, h.2.1, Instruction.execute, hv, code, Nat.add_assoc]

theorem Runs.reaches {b : Statement} {s t s' : Store V} (h : b.Runs I s t)
    (hb : b.Over IsVariable Numeral) {k first : Nat}
    (hl : l.Holds k (instructions (b.code first))) (hs : s'.Agrees s) :
    ∃ t', l.Reaches I ⟨k, s'⟩ ⟨k + (b.code first).length, t'⟩ ∧ t'.Agrees t := by
  induction h generalizing k first s' with
  | assign x e s =>
    obtain ⟨t', ht, hag⟩ := holds_assign hb hl s'
    rw [Expression.value_congr hb.2 hs] at ht
    exact ⟨_, ht, (hag.trans hs).set x _⟩
  | conditional_true hc _ ih =>
    obtain ⟨inside, hguards, hbody, hexit⟩ := holds_conditional hb hl
    obtain ⟨u, hu, hus⟩ := hguards.enter ((Condition.holds_congr hb.1 hs).trans hc)
    obtain ⟨t', ht, hag⟩ := ih hb.2 hbody (hus.trans hs)
    exact ⟨t', hu.trans (ht.trans (hexit t')), hag⟩
  | conditional_false hc =>
    obtain ⟨inside, hguards, -⟩ := holds_conditional hb hl
    obtain ⟨u, hu, hus⟩ := hguards.skip ((Condition.holds_congr hb.1 hs).trans hc)
    exact ⟨u, hu, hus.trans hs⟩
  | loop_true hc _ _ ihb ihl =>
    obtain ⟨inside, -, hguards, hbody, hback⟩ := holds_loop hb hl
    obtain ⟨u, hu, hus⟩ := hguards.enter ((Condition.holds_congr hb.1 hs).trans hc)
    obtain ⟨v, hv, hvs⟩ := ihb hb.2 hbody (hus.trans hs)
    obtain ⟨t', ht, hag⟩ := ihl hb hl hvs
    exact ⟨t', hu.trans (hv.trans ((hback v).trans ht)), hag⟩
  | loop_false hc =>
    obtain ⟨inside, -, hguards, -⟩ := holds_loop hb hl
    obtain ⟨u, hu, hus⟩ := hguards.skip ((Condition.holds_congr hb.1 hs).trans hc)
    exact ⟨u, hu, hus.trans hs⟩

/-- Where the machine passes the code of a statement on its way to the end, the statement has a
run. -/
theorem exists_runs {b : Statement} (hb : b.Over IsVariable Numeral) {k first : Nat}
    (hl : l.Holds k (instructions (b.code first))) {s s' t : Store V} (hs : s'.Agrees s) {n : Nat}
    (hn : l.steps I n ⟨k, s'⟩ = some ⟨l.length, t⟩) : ∃ r, b.Runs I s r := by
  induction b generalizing k first s s' n with
  | assign x e => exact ⟨_, .assign x e s⟩
  | conditional c b ih =>
    obtain ⟨inside, hguards, hbody, -⟩ := holds_conditional hb hl
    cases hc : c.holds I s with
    | false => exact ⟨s, .conditional_false hc⟩
    | true =>
      obtain ⟨u, hu, hus⟩ := hguards.enter ((Condition.holds_congr hb.1 hs).trans hc)
      obtain ⟨a, -, ha⟩ := hu.rest hn
      obtain ⟨r, hr⟩ := ih hb.2 hbody (hus.trans hs) ha
      exact ⟨r, .conditional_true hc hr⟩
  | loop c b ih =>
    obtain ⟨inside, hlt, hguards, hbody, hback⟩ := holds_loop (I := I) hb hl
    -- the machine is back at the condition with fewer steps to go
    induction n using Nat.strongRecOn generalizing s s' with
    | ind n ihn =>
    cases hc : c.holds I s with
    | false => exact ⟨s, .loop_false hc⟩
    | true =>
      obtain ⟨u, hu, hus⟩ := hguards.enter ((Condition.holds_congr hb.1 hs).trans hc)
      obtain ⟨a, han, ha⟩ := hu.rest_lt (Nat.ne_of_lt hlt) hn
      obtain ⟨r, hr⟩ := ih hb.2 hbody (hus.trans hs) ha
      obtain ⟨v, hv, hvr⟩ := hr.reaches hb.2 hbody (hus.trans hs)
      obtain ⟨d, hda, hd⟩ := (hv.trans (hback v)).rest ha
      obtain ⟨q, hq⟩ := ihn d (Nat.lt_of_le_of_lt hda han) hvr hd
      exact ⟨q, .loop_true hc hr hq⟩

end Statement

namespace Program

theorem Runs.reaches {p : Program} {s t s' : Store V} (h : p.Runs I s t)
    (hp : p.Over IsVariable Numeral) {k first : Nat}
    (hl : l.Holds k (instructions (p.code first))) (hs : s'.Agrees s) :
    ∃ t', l.Reaches I ⟨k, s'⟩ ⟨k + (p.code first).length, t'⟩ ∧ t'.Agrees t := by
  induction h generalizing k first s' with
  | done s => exact ⟨s', ⟨0, rfl⟩, hs⟩
  | next hb _ ih =>
    obtain ⟨hpb, hpp⟩ := List.forall_mem_cons.mp hp
    rw [code, instructions, List.map_append, holds_append, List.length_map] at hl
    obtain ⟨u, hu, hus⟩ := hb.reaches hpb hl.1 hs
    obtain ⟨t', ht, hag⟩ := ih hpp hl.2 hus
    rw [code, List.length_append, ← Nat.add_assoc]
    exact ⟨t', hu.trans ht, hag⟩

theorem exists_runs {p : Program} (hp : p.Over IsVariable Numeral) {k first : Nat}
    (hl : l.Holds k (instructions (p.code first))) {s s' t : Store V} (hs : s'.Agrees s) {n : Nat}
    (hn : l.steps I n ⟨k, s'⟩ = some ⟨l.length, t⟩) : ∃ r, p.Runs I s r := by
  induction p generalizing k first s s' n with
  | nil => exact ⟨s, .done s⟩
  | cons b p ih =>
    obtain ⟨hpb, hpp⟩ := List.forall_mem_cons.mp hp
    rw [code, instructions, List.map_append, holds_append, List.length_map] at hl
    obtain ⟨r, hr⟩ := Statement.exists_runs hpb hl.1 hs hn
    obtain ⟨u, hu, hur⟩ := hr.reaches hpb hl.1 hs
    obtain ⟨a, -, ha⟩ := hu.rest hn
    obtain ⟨q, hq⟩ := ih hpp hl.2 hur ha
    exact ⟨q, .next hr hq⟩

/-- The machine comes to the end of the code of a program exactly if the program has a run. -/
theorem exists_runs_iff {p : Program} (hp : p.Over IsVariable Numeral) (s : Store V) :
    (∃ t, p.Runs I s t) ↔ ∃ t, (instructions (p.code 0)).Stops I s t := by
  constructor
  · rintro ⟨t, h⟩
    obtain ⟨t', ⟨n, hn⟩, -⟩ := h.reaches hp p.holds_code (.refl s)
    exact ⟨t', n, by simpa using hn⟩
  · rintro ⟨t, n, hn⟩
    exact exists_runs hp p.holds_code (.refl s) hn

theorem Runs.agrees {p : Program} (hp : p.Over IsVariable Numeral) {s t t' : Store V}
    (h : p.Runs I s t) (h' : (instructions (p.code 0)).Stops I s t') : t'.Agrees t := by
  obtain ⟨u, ⟨n, hn⟩, hu⟩ := h.reaches hp p.holds_code (.refl s)
  obtain rfl := h'.unique ⟨n, by simpa using hn⟩
  exact hu

end Program

end ThreeAddress
