import ThreeAddress.Proofs.AnyStream

namespace ThreeAddress

variable {σ ρ α β : Type}

structure Stretch where
  quads : List Quad := []
  drawn : Nat := 0

/-- What acts emit, cut where the temporaries are given back. The first stretch goes on from the
given one, and what comes after the last cut stands apart. -/
def Act.stretches : List Act → Stretch → List Stretch × List Quad
  | [], s => ([], s.quads)
  | .emit quad :: acts, s => stretches acts { s with quads := s.quads ++ [quad] }
  | .temporary _ :: acts, s => stretches acts { s with drawn := s.drawn + 1 }
  | .releaseTemporaries :: acts, s =>
    let (cut, rest) := stretches acts {}
    (s :: cut, rest)
  | .ask _ _ _ :: acts, s | .label _ :: acts, s | .complain _ :: acts, s => stretches acts s

theorem Act.quads_stretches (acts : List Act) (s : Stretch) :
    (stretches acts s).1.flatMap Stretch.quads ++ (stretches acts s).2 = s.quads ++ quads acts := by
  induction acts generalizing s with
  | nil => exact (List.append_nil s.quads).symm
  | cons act acts ih =>
    cases act with
    | emit quad =>
      have hnext := ih { s with quads := s.quads ++ [quad] }
      rwa [List.append_assoc] at hnext
    | releaseTemporaries =>
      have hnext := ih {}
      simp only [stretches, List.flatMap_cons, List.append_assoc, hnext, List.nil_append]
      rfl
    | ask | temporary | label | complain => exact ih _

def Translator.stretches [TokenStream σ] (d : Dialogue ρ) (t : Translator σ) (qs : List Quad) :
    List Stretch × List Quad :=
  Act.stretches (d.course t.tokens t.names).acts ⟨qs, t.names.temporaries⟩

namespace Dialogue

variable {closed : Stretch → Prop} {final : ρ → Reading → Prop}

/-- Over the tokens of a reading, the dialogue gives the temporaries back only after a stretch that
is `closed`, and comes to an end only where `final` holds. The reading keeps the quadruples of the
stretch that is not over yet. -/
def Upholds (closed : Stretch → Prop) (final : ρ → Reading → Prop) : Dialogue ρ → Reading → Prop
  | .done result, s => final result s
  | .peek next, s =>
    ∀ token rest, s.tokens = token :: rest → (next token).Upholds closed final s
  | .pop next, s =>
    ∀ token rest, s.tokens = token :: rest →
      (next token).Upholds closed final { s with tokens := rest }
  | .temporary next, s =>
    (next s.names.temporary.1).Upholds closed final { s with names := s.names.temporary.2 }
  | .label next, s =>
    (next s.names.label.1).Upholds closed final { s with names := s.names.label.2 }
  | .releaseTemporaries next, s =>
    closed ⟨s.quads, s.names.temporaries⟩ ∧
      next.Upholds closed final { s with names := s.names.releaseTemporaries, quads := [] }
  | .emit quad next, s => next.Upholds closed final { s with quads := s.quads ++ [quad] }
  | .reject _, _ | .outOfFuel, _ => True

theorem upholds_ask {r : Request} {next : Token → Dialogue ρ} {s : Reading} {token : Token}
    {rest : List Token} (h : (ask r next).Upholds closed final s)
    (hs : s.tokens = token :: rest) :
    (next token).Upholds closed final { s with tokens := r.rest (token :: rest) } := by
  cases r with
  | peek =>
    have hnext := h token rest hs
    rwa [← hs]
  | pop => exact h token rest hs

end Dialogue

/-- What a dialogue upholds over a list of tokens, it upholds in every run over that list, whichever
requests are made to fail. -/
theorem Dialogue.Upholds.course {closed : Stretch → Prop} {final : ρ → Reading → Prop}
    {d : Dialogue ρ} {s : Reading} (h : d.Upholds closed final s) {u : CountedTokens}
    (hs : s.tokens = u.tokens) :
    let c := d.course u s.names
    let x := Act.stretches c.acts ⟨s.quads, s.names.temporaries⟩
    (∀ y ∈ x.1, closed y) ∧
      ∀ a, c.answer = .ok a → final a ⟨c.stream.tokens, s.ending, c.names, x.2⟩ := by
  induction d using Dialogue.inductionOnRequests generalizing s u with
  | done result =>
    refine ⟨List.forall_mem_nil _, fun a ha => ?_⟩
    cases ha
    obtain ⟨tokens, ending, names, quads⟩ := s
    obtain rfl : tokens = u.tokens := hs
    exact h
  | ask r next ih =>
    cases hp : (TokenStream.pull r u).answer with
    | ok token =>
      obtain ⟨rest, hrest, hstream⟩ := CountedTokens.tokens_of_pull hp
      rw [course_ask_ok hp]
      exact ih token (upholds_ask h (hs.trans hrest)) hstream.symm
    | error f =>
      rw [course_ask_error hp]
      exact ⟨List.forall_mem_nil _, fun a ha => by cases ha⟩
  | temporary next ih | label next ih => exact ih _ (s := { s with names := _ }) h hs
  | releaseTemporaries next ih =>
    obtain ⟨hclosed, hnext⟩ := h
    obtain ⟨hcut, hfinal⟩ :=
      ih (s := { s with names := s.names.releaseTemporaries, quads := [] }) hnext hs
    exact ⟨List.forall_mem_cons.mpr ⟨hclosed, hcut⟩, hfinal⟩
  | emit quad next ih => exact ih (s := { s with quads := s.quads ++ [quad] }) h hs
  | reject error | outOfFuel => exact ⟨List.forall_mem_nil _, fun a ha => by cases ha⟩

namespace Production

variable {closed : Stretch → Prop} {final : ρ → Reading → Prop} {s : Reading}

/-- From the reading `s` the production goes on with a result and a reading that satisfy `post`, if
it goes on at all. -/
def Leads (closed : Stretch → Prop) (final : ρ → Reading → Prop) (P : Production ρ α) (s : Reading)
    (post : α → Reading → Prop) : Prop :=
  ∀ next : α → Dialogue ρ, (∀ a s', post a s' → (next a).Upholds closed final s') →
    (P next).Upholds closed final s

namespace Leads

variable {post post' : α → Reading → Prop}

theorem pure {a : α} (h : post a s) :
    Leads closed final (Pure.pure a : Production ρ α) s post :=
  fun _ hnext => hnext a s h

theorem mono {P : Production ρ α} (hP : Leads closed final P s post)
    (h : ∀ a s', post a s' → post' a s') : Leads closed final P s post' :=
  fun next hnext => hP next fun a s' ha => hnext a s' (h a s' ha)

theorem bind {P : Production ρ β} {Q : β → Production ρ α} {mid : β → Reading → Prop}
    (hP : Leads closed final P s mid) (hQ : ∀ b s', mid b s' → Leads closed final (Q b) s' post) :
    Leads closed final (P >>= Q) s post :=
  fun next hnext => hP _ fun b s' hb => hQ b s' hb next hnext

theorem bind_peek {Q : Token → Production ρ α}
    (hQ : ∀ token rest, s.tokens = token :: rest → Leads closed final (Q token) s post) :
    Leads closed final (Production.peek >>= Q) s post :=
  fun next hnext token rest hs => hQ token rest hs next hnext

/-- Every token that is taken has been looked at before. -/
theorem bind_pop {token : Token} {rest : List Token} {Q : Token → Production ρ α}
    (hs : s.tokens = token :: rest)
    (hQ : Leads closed final (Q token) { s with tokens := rest } post) :
    Leads closed final (Production.pop >>= Q) s post := by
  intro next hnext token' rest' hs'
  obtain ⟨rfl, rfl⟩ := List.cons.inj (hs.symm.trans hs')
  exact hQ next hnext

theorem bind_temporary {Q : Bytes → Production ρ α}
    (hQ : Leads closed final (Q s.names.temporary.1) { s with names := s.names.temporary.2 } post) :
    Leads closed final (Production.temporary >>= Q) s post :=
  fun next hnext => hQ next hnext

theorem bind_label {Q : Bytes → Production ρ α}
    (hQ : Leads closed final (Q s.names.label.1) { s with names := s.names.label.2 } post) :
    Leads closed final (Production.label >>= Q) s post :=
  fun next hnext => hQ next hnext

theorem emit {q : Quad} {post : Unit → Reading → Prop}
    (h : post () { s with quads := s.quads ++ [q] }) :
    Leads closed final (Production.emit q : Production ρ Unit) s post :=
  fun _ hnext => hnext () _ h

theorem bind_emit {q : Quad} {Q : Unit → Production ρ α}
    (hQ : Leads closed final (Q ()) { s with quads := s.quads ++ [q] } post) :
    Leads closed final (Production.emit q >>= Q) s post :=
  fun next hnext => hQ next hnext

theorem releaseTemporaries {post : Unit → Reading → Prop}
    (hclosed : closed ⟨s.quads, s.names.temporaries⟩)
    (h : post () { s with names := s.names.releaseTemporaries, quads := [] }) :
    Leads closed final (Production.releaseTemporaries : Production ρ Unit) s post :=
  fun _ hnext => ⟨hclosed, hnext () _ h⟩

theorem reject (found : Token) (message : Bytes) (expected : List TokenKind) :
    Leads closed final (Production.reject found message expected : Production ρ α) s post :=
  fun _ _ => trivial

theorem outOfFuel : Leads closed final (Production.outOfFuel : Production ρ α) s post :=
  fun _ _ => trivial

theorem bind_accept {kind : TokenKind} {Q : Bool → Production ρ α}
    (htrue : ∀ token rest, s.tokens = token :: rest → token.kind = kind →
      Leads closed final (Q true) { s with tokens := rest } post)
    (hfalse : Leads closed final (Q false) s post) :
    Leads closed final (Production.accept kind >>= Q) s post := by
  rw [accept, bind_assoc]
  refine .bind_peek fun token rest hs => ?_
  split
  · next hk => exact .bind_pop hs (htrue token rest hs hk)
  · exact hfalse

theorem bind_expect {kind : TokenKind} {message : Bytes} {Q : Unit → Production ρ α}
    (hQ : ∀ token rest, s.tokens = token :: rest → token.kind = kind →
      Leads closed final (Q ()) { s with tokens := rest } post) :
    Leads closed final (Production.expect kind message >>= Q) s post := by
  rw [expect, bind_assoc]
  refine .bind_peek fun token rest hs => ?_
  split
  · next hk => exact .bind_pop hs (hQ token rest hs hk)
  · exact .reject token message [kind]

end Leads

end Production

end ThreeAddress
