import ThreeAddress.Proofs.Segmentation
import ThreeAddress.Proofs.Warnings

namespace ThreeAddress

/-- What the loop keeps between two rounds: the machine, and whether it has read the character in
its column before. -/
structure ScanLoop where
  machine : ScanMachine := {}
  again : Bool := false

namespace ScanLoop

def reader (line : Nat) (l : ScanLoop) (c : Char) : ScanMachine :=
  if l.again then l.machine else l.machine.warn line c

def round (line : Nat) (cs : List Char) (l : ScanLoop) : Option ScanLoop :=
  cs[l.machine.column]?.map fun c =>
    let (m, passed) := (l.reader line c).step line c
    ⟨m, !passed⟩

def rounds (line : Nat) (cs : List Char) : Nat → ScanLoop → Option ScanLoop
  | 0, l => some l
  | n + 1, l => (l.round line cs).bind (rounds line cs n)

end ScanLoop

namespace ScanState

theorem retract_of_start {k : CharClass} {a : Acceptor}
    (h : (ScanState.start.next k).acceptor? = some a) : a.retract = false := by
  cases k <;> cases h <;> rfl

end ScanState

namespace ScanMachine

variable {line : Nat} {m : ScanMachine} {c : Char}

@[simp] theorem warn_start : (m.warn line c).start = m.start := by
  unfold warn; split <;> rfl

@[simp] theorem warn_tokens : (m.warn line c).tokens = m.tokens := by
  unfold warn; split <;> rfl

inductive Steps (line : Nat) (m : ScanMachine) (c : Char) : ScanMachine × Bool → Prop
  /-- The character is not part of the lexeme, which is over. -/
  | retract (a : Acceptor) (ha : (m.state.next (.ofChar c)).acceptor? = some a)
      (hr : a.retract = true) : Steps line m c (m.finish line a.kind? m.pending m.column, false)
  /-- The character is the last one of the lexeme. -/
  | accept (a : Acceptor) (ha : (m.state.next (.ofChar c)).acceptor? = some a)
      (hr : a.retract = false) :
      Steps line m c (m.finish line a.kind? (c :: m.pending) (m.column + 1), true)
  | skip : Steps line m c
      ({ m with state := .start, pending := [], start := m.column + 1, column := m.column + 1 },
        true)
  | gather (ha : (m.state.next (.ofChar c)).acceptor? = none)
      (hs : m.state.next (.ofChar c) ≠ .start) :
      Steps line m c
        ({ m with
            state := m.state.next (.ofChar c), pending := c :: m.pending, column := m.column + 1 },
          true)

theorem steps_step (line : Nat) (m : ScanMachine) (c : Char) : Steps line m c (m.step line c) := by
  unfold step
  simp only
  split
  · next a ha =>
    split
    · next hr => exact .retract a ha hr
    · next hr => exact .accept a ha (eq_false_of_ne_true hr)
  · next ha =>
    split
    · next hs =>
      rw [hs]
      exact .skip
    · next hs => exact .gather ha hs

theorem Steps.advances {x : ScanMachine × Bool} (h : Steps line m c x) :
    x.2 = true ∧ x.1.column = m.column + 1 ∨
      x.2 = false ∧ x.1.column = m.column ∧ x.1.state = .start := by
  cases h with
  | retract a ha hr => exact .inr ⟨rfl, rfl, rfl⟩
  | accept a ha hr => exact .inl ⟨rfl, rfl⟩
  | skip => exact .inl ⟨rfl, rfl⟩
  | gather ha hs => exact .inl ⟨rfl, rfl⟩

theorem column_step_of_start (h : m.state = .start) :
    (m.step line c).1.column = m.column + 1 := by
  rcases (steps_step line m c).advances with ⟨-, hcolumn⟩ | ⟨hpass, -⟩
  · exact hcolumn
  · rw [step_start h] at hpass
    cases hpass

theorem column_read (line : Nat) (m : ScanMachine) (c : Char) :
    (m.read line c).column = m.column + 1 := by
  unfold read
  have hsteps := (steps_step line (m.warn line c) c).advances
  split
  · next hm =>
    rw [hm, warn_column] at hsteps
    simpa using hsteps
  · next hm =>
    rw [hm, warn_column] at hsteps
    obtain ⟨hcolumn, hstate⟩ : _ ∧ _ := by simpa using hsteps
    rw [column_step_of_start hstate, hcolumn]

/-- The machine stands in the line, and its lexeme is the part of the line from where it started. -/
structure InBounds (cs : List Char) (m : ScanMachine) : Prop where
  start_le : m.start ≤ m.column
  column_le : m.column ≤ cs.length
  in_progress : m.state.acceptor? = none
  pending : m.pending.reverse = cs.extract m.start m.column
  start_of_nil (h : m.pending = []) : m.state = .start

namespace InBounds

variable {cs : List Char}

theorem of_start (hs : m.state = .start) (hp : m.pending = []) (hk : m.start = m.column)
    (hn : m.column ≤ cs.length) : m.InBounds cs := by
  refine ⟨Nat.le_of_eq hk, hn, by rw [hs]; rfl, ?_, fun _ => hs⟩
  rw [hp, hk]
  simp

theorem warn (h : m.InBounds cs) (line : Nat) (c : Char) : (m.warn line c).InBounds cs := by
  unfold ScanMachine.warn
  split
  · exact ⟨h.start_le, h.column_le, h.in_progress, h.pending, h.start_of_nil⟩
  · exact h

theorem pending_cons (h : m.InBounds cs) (hc : cs[m.column]? = some c) :
    (c :: m.pending).reverse = cs.extract m.start (m.column + 1) := by
  have hsucc : m.column + 1 - m.start = m.column - m.start + 1 := Nat.succ_sub h.start_le
  have hget : (cs.drop m.start)[m.column - m.start]? = some c := by
    rw [List.getElem?_drop, Nat.add_sub_cancel' h.start_le, hc]
  rw [List.reverse_cons, h.pending, List.extract_eq_take_drop, List.extract_eq_take_drop, hsucc,
    List.take_add_one, hget]
  rfl

theorem of_steps {x : ScanMachine × Bool} (h : m.InBounds cs) (hc : cs[m.column]? = some c)
    (hx : Steps line m c x) : x.1.InBounds cs := by
  have hlt : m.column + 1 ≤ cs.length := (List.getElem?_eq_some_iff.mp hc).1
  cases hx with
  | retract a ha hr => exact of_start rfl rfl rfl h.column_le
  | accept a ha hr => exact of_start rfl rfl rfl hlt
  | skip => exact of_start rfl rfl rfl hlt
  | gather ha hs =>
    exact ⟨Nat.le_succ_of_le h.start_le, hlt, ha, h.pending_cons hc, fun hnil => by cases hnil⟩

end InBounds

/-- From the tokens of `m` to those of `m'` comes at most one, which is a part of the line that is
not empty and that the machine has passed. -/
def Emits (line : Nat) (cs : List Char) (m m' : ScanMachine) : Prop :=
  m'.tokens = m.tokens ∨
    ∃ kind, m'.tokens = ⟨kind, encode (cs.extract m.start m'.column), ⟨line, m.start⟩⟩ :: m.tokens ∧
      m.start < m'.column ∧ m'.column ≤ cs.length

theorem emits_finish {cs p : List Char} {k : Nat} (hp : p.reverse = cs.extract m.start k)
    (hlt : m.start < k) (hk : k ≤ cs.length) (kind? : List Char → Option TokenKind) :
    Emits line cs m (m.finish line kind? p k) := by
  unfold finish
  simp only [hp]
  cases hkind : kind? (cs.extract m.start k) with
  | none => exact .inl rfl
  | some kind => exact .inr ⟨kind, rfl, hlt, hk⟩

theorem Emits.lexeme_ne_nil {cs : List Char} {m' : ScanMachine} (h : Emits line cs m m')
    (ht : ∀ t ∈ m.tokens, t.lexeme ≠ []) : ∀ t ∈ m'.tokens, t.lexeme ≠ [] := by
  rcases h with h | ⟨kind, h, hlt, hle⟩
  · rwa [h]
  · rw [h]
    refine List.forall_mem_cons.mpr ⟨fun hnil => ?_, ht⟩
    have hslice : cs.extract m.start m'.column = [] := encode_injective hnil
    have hlength := congrArg List.length hslice
    simp only [List.extract_eq_take_drop, List.length_take, List.length_drop, List.length_nil]
      at hlength
    omega

theorem InBounds.emits {cs : List Char} {x : ScanMachine × Bool} (h : m.InBounds cs)
    (hc : cs[m.column]? = some c) (hx : Steps line m c x) : Emits line cs m x.1 := by
  have hlt : m.column + 1 ≤ cs.length := (List.getElem?_eq_some_iff.mp hc).1
  cases hx with
  | retract a ha hr =>
    -- a lexeme that is over without the character is not empty: the machine is not at the start
    have hne : m.start ≠ m.column := by
      intro heq
      have hpending := h.pending
      rw [heq] at hpending
      have hstate := h.start_of_nil (by simpa using hpending)
      rw [hstate] at ha
      rw [ScanState.retract_of_start ha] at hr
      cases hr
    exact emits_finish h.pending (Nat.lt_of_le_of_ne h.start_le hne) h.column_le a.kind?
  | accept a ha hr =>
    exact emits_finish (h.pending_cons hc) (Nat.lt_succ_of_le h.start_le) hlt a.kind?
  | skip => exact .inl rfl
  | gather ha hs => exact .inl rfl

end ScanMachine

namespace ScanLoop

open ScanMachine

variable {line : Nat} {cs : List Char} {l l' : ScanLoop}

@[simp] theorem reader_state (c : Char) : (l.reader line c).state = l.machine.state := by
  unfold reader; split <;> simp

@[simp] theorem reader_start (c : Char) : (l.reader line c).start = l.machine.start := by
  unfold reader; split <;> simp

@[simp] theorem reader_column (c : Char) : (l.reader line c).column = l.machine.column := by
  unfold reader; split <;> simp

@[simp] theorem reader_tokens (c : Char) : (l.reader line c).tokens = l.machine.tokens := by
  unfold reader; split <;> simp

theorem inBounds_reader (h : l.machine.InBounds cs) (c : Char) :
    (l.reader line c).InBounds cs := by
  unfold reader
  split
  · exact h
  · exact h.warn line c

theorem round_eq_some (h : l.round line cs = some l') :
    ∃ c, cs[l.machine.column]? = some c ∧
      Steps line (l.reader line c) c (l'.machine, !l'.again) := by
  obtain ⟨c, hc, rfl⟩ := Option.map_eq_some_iff.mp h
  refine ⟨c, hc, ?_⟩
  rw [Bool.not_not]
  exact steps_step ..

theorem inBounds_round (h : l.machine.InBounds cs) (hround : l.round line cs = some l') :
    l'.machine.InBounds cs := by
  obtain ⟨c, hc, hsteps⟩ := round_eq_some hround
  exact (inBounds_reader h c).of_steps (by rwa [reader_column]) hsteps

theorem emits_round (h : l.machine.InBounds cs) (hround : l.round line cs = some l') :
    Emits line cs l.machine l'.machine := by
  obtain ⟨c, hc, hsteps⟩ := round_eq_some hround
  have hemits := (inBounds_reader h c).emits (by rwa [reader_column]) hsteps
  simpa only [Emits, reader_tokens, reader_start] using hemits

/-- A round that does not advance leads to the start. -/
theorem advances_round (hround : l.round line cs = some l') :
    l'.machine.column = l.machine.column + 1 ∨
      l'.machine.column = l.machine.column ∧ l'.machine.state = .start := by
  obtain ⟨c, -, hsteps⟩ := round_eq_some hround
  have hadvances := hsteps.advances
  rw [reader_column] at hadvances
  exact hadvances.imp And.right And.right

theorem advances_of_start (hstart : l.machine.state = .start)
    (hround : l.round line cs = some l') : l'.machine.column = l.machine.column + 1 := by
  obtain ⟨c, -, rfl⟩ := Option.map_eq_some_iff.mp hround
  have hcolumn : ((l.reader line c).step line c).1.column = (l.reader line c).column + 1 :=
    column_step_of_start (by rw [reader_state, hstart])
  rwa [reader_column] at hcolumn

theorem exists_round_of_start (hround : l.round line cs = some l')
    (hcolumn : l'.machine.column = l.machine.column) (hstart : l'.machine.state = .start) :
    ∃ l'', l'.round line cs = some l'' ∧ l''.machine.column = l'.machine.column + 1 := by
  obtain ⟨c, hc, -⟩ := round_eq_some hround
  have hnext : ∃ l'', l'.round line cs = some l'' := by
    rw [round, hcolumn, hc]
    exact ⟨_, rfl⟩
  obtain ⟨l'', hl''⟩ := hnext
  exact ⟨l'', hl'', advances_of_start hstart hl''⟩

theorem rounds_add (a b : Nat) (l : ScanLoop) :
    rounds line cs (a + b) l = (rounds line cs a l).bind (rounds line cs b) := by
  induction a generalizing l with
  | zero => rw [Nat.zero_add]; rfl
  | succ a ih =>
    rw [Nat.succ_add]
    cases h : l.round line cs with
    | none => simp [rounds, h]
    | some l' => simp [rounds, h, ih]

theorem rounds_of_round {P : ScanLoop → Prop}
    (hP : ∀ l l', P l → l.round line cs = some l' → P l') {n : Nat} (hl : P l)
    (h : rounds line cs n l = some l') : P l' := by
  induction n generalizing l with
  | zero =>
    cases h
    exact hl
  | succ n ih =>
    obtain ⟨l₁, hround, h⟩ := Option.bind_eq_some_iff.mp h
    exact ih (hP l l₁ hl hround) h

/-- To read a character until it is passed takes one round or two. -/
theorem exists_rounds_read (line : Nat) {m : ScanMachine} {c : Char}
    (hc : cs[m.column]? = some c) :
    ∃ n ≤ 2, rounds line cs n ⟨m, false⟩ = some ⟨m.read line c, false⟩ := by
  have hround : round line cs ⟨m, false⟩ =
      some ⟨((m.warn line c).step line c).1, !((m.warn line c).step line c).2⟩ := by
    simp [round, hc, reader]
  have hsteps := (steps_step line (m.warn line c) c).advances
  unfold ScanMachine.read
  split
  · next m₁ hm =>
    refine ⟨1, by decide, ?_⟩
    simp [rounds, hround, hm]
  · next m₁ hm =>
    rw [hm, warn_column] at hsteps
    obtain ⟨hcolumn, hstate⟩ : m₁.column = m.column ∧ m₁.state = .start := by simpa using hsteps
    refine ⟨2, by decide, ?_⟩
    have hagain : round line cs ⟨m₁, true⟩ = some ⟨(m₁.step line c).1, false⟩ := by
      simp [round, hcolumn, hc, reader, step_start hstate]
    simp [rounds, hround, hm, hagain]

/-- Reading the rest of the line takes at most two rounds for each character. -/
theorem exists_rounds_foldl (line : Nat) {rest : List Char} {m : ScanMachine}
    (h : cs.drop m.column = rest) :
    ∃ n ≤ 2 * rest.length,
      rounds line cs n ⟨m, false⟩ = some ⟨rest.foldl (read line) m, false⟩ ∧
      round line cs ⟨rest.foldl (read line) m, false⟩ = none := by
  induction rest generalizing m with
  | nil =>
    refine ⟨0, Nat.le_refl _, rfl, ?_⟩
    have hle := List.drop_eq_nil_iff.mp h
    simp [round, List.getElem?_eq_none hle]
  | cons c rest ih =>
    have hc : cs[m.column]? = some c := by
      rw [← List.head?_drop, h]
      rfl
    have hrest : cs.drop (m.read line c).column = rest := by
      rw [column_read, ← List.tail_drop, h]
      rfl
    obtain ⟨a, ha, hread⟩ := exists_rounds_read line hc
    obtain ⟨b, hb, hrounds, hend⟩ := ih hrest
    refine ⟨a + b, by rw [List.length_cons]; omega, ?_, hend⟩
    rw [rounds_add, hread]
    exact hrounds

end ScanLoop

/-- The scanning loop ends, after at most two rounds for each character of the line and the space
behind it, and gives the scan of the line. At the head of each of its rounds the machine stands in
the line, in a state that is in progress; a round that does not advance leads to the start, from
where the next one does; and what is emitted is a part of the line that is not empty. -/
theorem Scanner.scanText_loop_stays_in_bounds (s : Scanner) (text : Bytes) :
    let cs := decode text ++ [' ']
    (∃ n ≤ 2 * cs.length, ∃ l : ScanLoop, ScanLoop.rounds s.line cs n {} = some l ∧
      l.round s.line cs = none ∧
      s.scanText text =
        ⟨l.machine.tokens.reverse, if s.reporting then l.machine.warnings.reverse else []⟩) ∧
    (∀ n l, ScanLoop.rounds s.line cs n {} = some l →
      l.machine.start ≤ l.machine.column ∧ l.machine.column ≤ (decode text).length + 1 ∧
      l.machine.state.acceptor? = none ∧
      ∀ l', l.round s.line cs = some l' →
        (l.machine.state = .start → l'.machine.column = l.machine.column + 1) ∧
        (l'.machine.column = l.machine.column + 1 ∨
          l'.machine.column = l.machine.column ∧ l'.machine.state = .start ∧
            ∃ l'', l'.round s.line cs = some l'' ∧
              l''.machine.column = l'.machine.column + 1) ∧
        l.machine.Emits s.line cs l'.machine) ∧
    ∀ t ∈ (s.scanText text).tokens, t.lexeme ≠ [] := by
  intro cs
  have hlength : cs.length = (decode text).length + 1 := by simp [cs]
  have hstart : ScanMachine.InBounds cs {} := .of_start rfl rfl rfl (Nat.zero_le _)
  obtain ⟨n, hn, hrounds, hend⟩ :=
    ScanLoop.exists_rounds_foldl s.line (m := {}) (Eq.refl cs)
  have htokens := ScanLoop.rounds_of_round
    (P := fun l => l.machine.InBounds cs ∧ ∀ t ∈ l.machine.tokens, t.lexeme ≠ [])
    (fun l l' ⟨hb, ht⟩ hl => ⟨ScanLoop.inBounds_round hb hl,
      (ScanLoop.emits_round hb hl).lexeme_ne_nil ht⟩)
    ⟨hstart, List.forall_mem_nil _⟩ hrounds
  refine ⟨⟨n, hn, _, hrounds, hend, rfl⟩, fun n l hl => ?_,
    fun t ht => htokens.2 t (List.mem_reverse.mp ht)⟩
  have hbounds : l.machine.InBounds cs :=
    ScanLoop.rounds_of_round (P := fun l => l.machine.InBounds cs)
      (fun _ _ => ScanLoop.inBounds_round) hstart hl
  refine ⟨hbounds.start_le, hlength ▸ hbounds.column_le, hbounds.in_progress, fun l' hl' => ?_⟩
  refine ⟨fun hs => ScanLoop.advances_of_start hs hl', ?_, ScanLoop.emits_round hbounds hl'⟩
  refine (ScanLoop.advances_round hl').imp_right fun ⟨hcolumn, hs⟩ => ?_
  exact ⟨hcolumn, hs, ScanLoop.exists_round_of_start hl' hcolumn hs⟩

end ThreeAddress
