import ThreeAddress.Proofs.Course

namespace ThreeAddress

namespace Emitter

/-- An emitter that has been given the quadruples `qs` for a sink with room for `limit` lines. -/
def filled (limit : Nat) (qs : List Quad) : Emitter :=
  { sink :=
      { written := ((qs.map Quad.line).take limit).reverse
        attempts := min qs.length (limit + 1)
        limit := some limit }
    failure := if qs.length ≤ limit then none else some (.explain .outputWrite Sink.refusal) }

theorem filled_of_le {limit : Nat} {qs : List Quad} (h : qs.length ≤ limit) :
    filled limit qs =
      { sink :=
          { written := (qs.map Quad.line).reverse
            attempts := qs.length
            limit := some limit } } := by
  have hlines : (qs.map Quad.line).take limit = qs.map Quad.line :=
    List.take_of_length_le (by rwa [List.length_map])
  simp only [filled, hlines, h, ↓reduceIte, Nat.min_eq_left (Nat.le_succ_of_le h)]

theorem filled_of_lt {limit : Nat} {qs : List Quad} (h : limit < qs.length) :
    filled limit qs =
      { sink :=
          { written := ((qs.map Quad.line).take limit).reverse
            attempts := limit + 1
            limit := some limit }
        failure := some (.explain .outputWrite Sink.refusal) } := by
  simp only [filled, Nat.not_le.mpr h, ↓reduceIte, Nat.min_eq_right (Nat.succ_le_of_lt h)]

theorem emit_filled (limit : Nat) (qs : List Quad) (q : Quad) :
    (filled limit qs).emit q = filled limit (qs ++ [q]) := by
  have hlength : (qs ++ [q]).length = qs.length + 1 := by simp
  rcases Nat.lt_or_ge limit qs.length with hfull | hroom
  · have hlines : ((qs ++ [q]).map Quad.line).take limit = (qs.map Quad.line).take limit := by
      rw [List.map_append, List.take_append_of_le_length (by rw [List.length_map]; omega)]
    rw [filled_of_lt hfull, filled_of_lt (by omega), hlines]
    rfl
  · rw [filled_of_le hroom]
    by_cases hlast : limit = qs.length
    · -- The sink has just run full.
      have hlines : ((qs ++ [q]).map Quad.line).take limit = qs.map Quad.line := by
        rw [List.map_append, List.take_left' (by rw [List.length_map, hlast])]
      rw [filled_of_lt (by omega), hlines]
      simp [emit, Sink.write, Sink.full, hlast]
    · have hspace : ¬limit ≤ qs.length := by omega
      rw [filled_of_le (by omega)]
      simp [emit, Sink.write, Sink.full, hspace]

theorem foldl_emit_filled (limit : Nat) (ps qs : List Quad) :
    qs.foldl emit (filled limit ps) = filled limit (ps ++ qs) := by
  induction qs generalizing ps with
  | nil => rw [List.append_nil, List.foldl_nil]
  | cons q qs ih => rw [List.foldl_cons, emit_filled, ih, List.append_assoc, List.singleton_append]

theorem foldl_emit_limited (limit : Nat) (qs : List Quad) :
    qs.foldl emit { sink := { limit := some limit } } = filled limit qs := by
  have hempty : filled limit [] = { sink := { limit := some limit } } :=
    filled_of_le (Nat.zero_le limit)
  rw [← hempty]
  exact foldl_emit_filled limit [] qs

end Emitter

namespace Translator

variable {σ : Type}

theorem outcome_of_filled {t : Translator σ} {limit : Nat} {qs : List Quad}
    (h : t.emitter = .filled limit qs) (x : Except Failure Unit) :
    t.outcome x =
      match x with
      | .error f => .error f
      | .ok () =>
        if qs.length ≤ limit then .ok () else .error (.explain .outputWrite Sink.refusal) := by
  cases x with
  | error f => rfl
  | ok =>
    rcases Nat.lt_or_ge limit qs.length with hfull | hroom
    · rw [Emitter.filled_of_lt hfull] at h
      simp only [outcome, h, Nat.not_le.mpr hfull, ↓reduceIte]
    · rw [Emitter.filled_of_le hroom] at h
      simp only [outcome, h, hroom, ↓reduceIte]

variable [TokenStream σ]

theorem emitter_after_limited (s : σ) (limit n : Nat) :
    ((ofStream s { limit := some limit }).after n).emitter =
      .filled limit ((ofStream s).emittedIn n) := by
  have hagree : Agree (ofStream s { limit := some limit }) (ofStream s) := ⟨rfl, rfl⟩
  rw [after_emitter, hagree.emittedIn]
  exact Emitter.foldl_emit_limited limit _

/-- A limit on the number of lines cuts the listing and nothing else. Compared with a sink that
never runs full, every analysis makes the same requests and stops at the same place; of the
quadruples that are emitted the first ones are written, and at most one more is tried; and the
answers are the same, except that from the refusal on it takes the place of every success. -/
theorem write_limit_cuts_listing (s : σ) (limit k : Nat) :
    let full := (ofStream s).after k
    let cut := (ofStream s { limit := some limit }).after k
    let qs := (ofStream s).emittedIn k
    cut.tokens = full.tokens ∧ cut.course.acts = full.course.acts ∧
      full.emitter.sink.written.reverse = qs.map Quad.line ∧
      cut.emitter.sink.written.reverse = (qs.map Quad.line).take limit ∧
      cut.emitter.sink.attempts = min qs.length (limit + 1) ∧
      cut.analyze.1 =
        match full.analyze.1 with
        | .error f => .error f
        | .ok () =>
          if ((ofStream s).emittedIn (k + 1)).length ≤ limit then .ok ()
          else .error (.explain .outputWrite Sink.refusal) := by
  intro full cut qs
  have hready : (ofStream s).Ready := ⟨rfl, rfl, rfl⟩
  have hstart : Agree (ofStream s { limit := some limit }) (ofStream s) := ⟨rfl, rfl⟩
  have hagree : Agree cut full := hstart.after k
  have hcut : cut.emitter = .filled limit qs := emitter_after_limited s limit k
  have hnext : cut.analyze.2.emitter = .filled limit ((ofStream s).emittedIn (k + 1)) := by
    have h := emitter_after_limited s limit (k + 1)
    rwa [after_succ] at h
  refine ⟨hagree.tokens, congrArg Course.acts hagree.course, ?_, ?_, ?_, ?_⟩
  · rw [after_emitter]
    exact Emitter.written_foldl_emit qs
  · rw [hcut]
    exact List.reverse_reverse _
  · rw [hcut]
    rfl
  · rw [analyze_outcome, outcome_of_filled hnext, hagree.course, (hready.after k).analyze_answer]

end Translator

end ThreeAddress
