import ThreeAddress.Proofs.Delivery

namespace ThreeAddress

variable {σ ρ α β : Type}

namespace CountedTokens

variable {s : CountedTokens} {x : Token}

theorem tokens_of_head_ok {f : Option Failure} (h : s.head f = .ok x) :
    ∃ r, s.tokens = x :: r := by
  unfold head at h
  split at h
  · cases h
  · cases h
  · next heq =>
    cases h
    exact ⟨_, heq⟩

theorem tokens_of_pull {r : Request} (h : (TokenStream.pull r s).answer = .ok x) :
    ∃ rest, s.tokens = x :: rest ∧ (TokenStream.pull r s).stream.tokens = r.rest (x :: rest) := by
  obtain ⟨rest, hrest⟩ := tokens_of_head_ok (pull_answer s r ▸ h)
  refine ⟨rest, hrest, ?_⟩
  cases r with
  | peek => exact hrest
  | pop =>
    simp only [TokenStream.pull, TokenStream.pop, pop] at h ⊢
    simp only [h, hrest]
    rfl

/-- A dialogue that comes to its end over a list has met none of the failures of the list. -/
theorem course_row_of_ok {d : Dialogue ρ} {n : Names} {a : ρ}
    (h : (d.course s n).answer = .ok a) (f : Failure) :
    let x := d.course (⟨s.tokens, f⟩ : TokenRow) n
    x.answer = .ok a ∧ Act.quads x.acts = Act.quads (d.course s n).acts := by
  induction d using Dialogue.inductionOnRequests generalizing s n with
  | done result => exact ⟨h, rfl⟩
  | ask r next ih =>
    cases hp : (TokenStream.pull r s).answer with
    | error g =>
      rw [Dialogue.course_ask_error hp] at h
      cases h
    | ok token =>
      obtain ⟨rest, htokens, hstream⟩ := tokens_of_pull hp
      rw [Dialogue.course_ask_ok hp] at h ⊢
      have hnext := ih token h
      rw [hstream] at hnext
      rw [htokens, TokenRow.course_ask_cons]
      exact hnext
  | temporary next ih | label next ih => exact ih _ h
  | releaseTemporaries next ih => exact ih h
  | emit quad next ih =>
    obtain ⟨hanswer, hquads⟩ := ih h
    exact ⟨hanswer, congrArg (List.cons quad) hquads⟩
  | reject error | outOfFuel => cases h

end CountedTokens

namespace Dialogue

/-- Wherever the dialogue can stop, `out` holds of all that has been emitted: at its end, at a
rejection, and at every request for a token. -/
def Ensures (out : List Quad → Prop) : Dialogue ρ → Names → List Quad → Prop
  | .done _, _, qs | .reject _, _, qs | .outOfFuel, _, qs => out qs
  | .peek next, n, qs | .pop next, n, qs => out qs ∧ ∀ token, (next token).Ensures out n qs
  | .temporary next, n, qs => (next n.temporary.1).Ensures out n.temporary.2 qs
  | .label next, n, qs => (next n.label.1).Ensures out n.label.2 qs
  | .releaseTemporaries next, n, qs => next.Ensures out n.releaseTemporaries qs
  | .emit quad next, n, qs => next.Ensures out n (qs ++ [quad])

theorem ensures_ask {out : List Quad → Prop} {r : Request} {next : Token → Dialogue ρ} {n : Names}
    {qs : List Quad} :
    (ask r next).Ensures out n qs ↔ out qs ∧ ∀ token, (next token).Ensures out n qs := by
  cases r <;> rfl

theorem Ensures.course [TokenStream σ] {out : List Quad → Prop} {d : Dialogue ρ} {s : σ}
    {n : Names} {qs : List Quad} (h : d.Ensures out n qs) :
    out (qs ++ Act.quads (d.course s n).acts) := by
  induction d using inductionOnRequests generalizing s n qs with
  | done result | reject error | outOfFuel =>
    have h : out qs := h
    rwa [← List.append_nil qs] at h
  | ask r next ih =>
    obtain ⟨hout, hnext⟩ := ensures_ask.mp h
    cases hp : (TokenStream.pull r s).answer with
    | ok token =>
      rw [course_ask_ok hp]
      exact ih token (hnext token)
    | error f =>
      rw [course_ask_error hp]
      rwa [← List.append_nil qs] at hout
  | temporary next ih | label next ih => exact ih _ h
  | releaseTemporaries next ih => exact ih h
  | emit quad next ih =>
    have hnext := ih (s := s) h
    rwa [List.append_assoc] at hnext

end Dialogue

namespace Production

/-- From every state that satisfies `pre` the production goes on with a state that satisfies `post`,
and `out` holds wherever it can stop. A state is the number of labels so far and what has been
emitted. -/
def Meets (out : List Quad → Prop) (pre : Nat → List Quad → Prop) (P : Production ρ α)
    (post : α → Nat → List Quad → Prop) : Prop :=
  ∀ next : α → Dialogue ρ,
    (∀ a i j qs, post a j qs → (next a).Ensures out ⟨i, j⟩ qs) →
      ∀ i j qs, pre j qs → (P next).Ensures out ⟨i, j⟩ qs

variable {out : List Quad → Prop} {pre : Nat → List Quad → Prop}

namespace Meets

theorem pure {post : α → Nat → List Quad → Prop} {a : α} (h : ∀ j qs, pre j qs → post a j qs) :
    Meets out pre (Pure.pure a : Production ρ α) post :=
  fun _ hnext i j qs hpre => hnext a i j qs (h j qs hpre)

theorem bind {P : Production ρ α} {Q : α → Production ρ β} {mid : α → Nat → List Quad → Prop}
    {post : β → Nat → List Quad → Prop} (hP : Meets out pre P mid)
    (hQ : ∀ a, Meets out (mid a) (Q a) post) : Meets out pre (P >>= Q) post :=
  fun next hnext => hP _ fun a => hQ a next hnext

theorem emit {q : Quad} {post : Nat → List Quad → Prop}
    (h : ∀ j qs, pre j qs → post j (qs ++ [q])) :
    Meets out pre (Production.emit q : Production ρ Unit) fun _ => post :=
  fun _ hnext i j qs hpre => hnext () i j (qs ++ [q]) (h j qs hpre)

theorem bind_label {Q : Bytes → Production ρ β} {post : β → Nat → List Quad → Prop}
    (hQ : ∀ k, Meets out (fun j qs => j = k + 1 ∧ pre k qs) (Q (Names.labelName k)) post) :
    Meets out pre (Production.label >>= Q) post :=
  fun next hnext i k qs hpre => hQ k next hnext i (k + 1) qs ⟨rfl, hpre⟩

theorem temporary : Meets out pre (Production.temporary : Production ρ Bytes) fun _ => pre :=
  fun _ hnext i j qs hpre => hnext (Names.temporaryName i) (i + 1) j qs hpre

theorem releaseTemporaries :
    Meets out pre (Production.releaseTemporaries : Production ρ Unit) fun _ => pre :=
  fun _ hnext _ j qs hpre => hnext () 0 j qs hpre

end Meets

section

variable (hout : ∀ j qs, pre j qs → out qs)

include hout

theorem meets_peek : Meets out pre (peek : Production ρ Token) fun _ => pre :=
  fun _ hnext i j qs hpre => ⟨hout j qs hpre, fun token => hnext token i j qs hpre⟩

theorem meets_pop : Meets out pre (pop : Production ρ Token) fun _ => pre :=
  fun _ hnext i j qs hpre => ⟨hout j qs hpre, fun token => hnext token i j qs hpre⟩

theorem meets_reject (found : Token) (message : Bytes) (expected : List TokenKind)
    (post : α → Nat → List Quad → Prop) :
    Meets out pre (reject found message expected : Production ρ α) post :=
  fun _ _ _ j qs hpre => hout j qs hpre

theorem meets_outOfFuel (post : α → Nat → List Quad → Prop) :
    Meets out pre (outOfFuel : Production ρ α) post :=
  fun _ _ _ j qs hpre => hout j qs hpre

theorem meets_accept (kind : TokenKind) :
    Meets out pre (accept kind : Production ρ Bool) fun _ => pre := by
  refine .bind (meets_peek hout) fun token => ?_
  split
  · exact .bind (meets_pop hout) fun _ => .pure fun _ _ h => h
  · exact .pure fun _ _ h => h

theorem meets_expect (kind : TokenKind) (message : Bytes) :
    Meets out pre (expect kind message : Production ρ Unit) fun _ => pre := by
  refine .bind (meets_peek hout) fun token => ?_
  split
  · exact .bind (meets_pop hout) fun _ => .pure fun _ _ h => h
  · exact meets_reject hout token message [kind] _

end

end Production

end ThreeAddress
