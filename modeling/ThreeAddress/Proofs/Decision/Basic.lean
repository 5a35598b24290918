import ThreeAddress.Proofs.Reading

namespace ThreeAddress

variable {ρ α β : Type}

/-- What a reading stops at when it finds no program. -/
inductive Obstacle where
  | ending
  | rejection (error : GrammarError)

def Obstacle.failure (f : Failure) : Obstacle → Failure
  | ending => f
  | rejection error => { cause := .grammar error }

/-- The tokens `p` are viable, and what follows them is an obstacle. -/
inductive Stuck (viable : List Token → Prop) : List Token → List Token → Obstacle → Prop
  | ended {p : List Token} (hp : viable p) : Stuck viable p [] .ending
  | rejected {p r : List Token} {t : Token} {e : GrammarError} (hp : viable p)
      (hf : e.found = t.lexeme) (hq : e.position = t.position)
      (he : ∀ x ∈ e.expected, ∃ kind : TokenKind, kind.text = x ∧ viable (p ++ [{ t with kind }])) :
      Stuck viable p (t :: r) (.rejection e)

namespace Stuck

variable {viable viable' : List Token → Prop} {p r : List Token} {o : Obstacle}

theorem of_kinds {t : Token} (message : Bytes) (kinds : List TokenKind) (hp : viable p)
    (hk : ∀ kind ∈ kinds, viable (p ++ [{ t with kind }])) :
    Stuck viable p (t :: r) (.rejection (Production.rejection t message kinds)) := by
  refine .rejected hp rfl rfl fun x hx => ?_
  obtain ⟨kind, hm, rfl⟩ := List.mem_map.mp hx
  exact ⟨kind, rfl, hk kind hm⟩

theorem within (h : Stuck viable p r o) {a : List Token}
    (hv : ∀ q, viable q → viable' (a ++ q)) : Stuck viable' (a ++ p) r o := by
  cases h with
  | ended hp => exact .ended (hv p hp)
  | rejected hp hf hq he =>
    refine .rejected (hv p hp) hf hq fun x hx => ?_
    obtain ⟨kind, hk, h⟩ := he x hx
    exact ⟨kind, hk, by simpa using hv _ h⟩

end Stuck

/-- From the tokens `w` the dialogue comes to the obstacle `o` before `r`. -/
def Dialogue.Fails (d : Dialogue ρ) (w r : List Token) (o : Obstacle) : Prop :=
  ∀ (f : Failure) (n : Names) (qs : List Quad), ∃ n' qs',
    d.read ⟨w, f, n, qs⟩ = (.error (o.failure f), ⟨r, f, n', qs'⟩)

/-- From the tokens `w` the production goes on with `r`, whatever comes after it. -/
def Production.Passes (P : Production ρ α) (w r : List Token) : Prop :=
  ∀ (next : α → Dialogue ρ) (f : Failure) (n : Names) (qs : List Quad), ∃ a n' qs',
    (P next).read ⟨w, f, n, qs⟩ = (next a).read ⟨r, f, n', qs'⟩

theorem Production.Passes.fails {P : Production ρ α} {w u r : List Token} {o : Obstacle}
    (hP : P.Passes w u) {next : α → Dialogue ρ} (h : ∀ a, (next a).Fails u r o) :
    (P next).Fails w r o := by
  intro f n qs
  obtain ⟨a, n', qs', hread⟩ := hP next f n qs
  rw [hread]
  exact h a f n' qs'

namespace Production

variable {t : Token} {ts : List Token}

theorem fails_peek_nil (next : Token → Dialogue ρ) : (peek next).Fails [] [] .ending :=
  fun f n qs => ⟨n, qs, Dialogue.read_ask_nil .peek next f n qs⟩

theorem fails_expect_nil (kind : TokenKind) (message : Bytes) (next : Unit → Dialogue ρ) :
    (expect kind message next).Fails [] [] .ending :=
  fails_peek_nil _

theorem fails_expect_cons {kind : TokenKind} (h : t.kind ≠ kind) (message : Bytes)
    (next : Unit → Dialogue ρ) :
    (expect kind message next).Fails (t :: ts) (t :: ts)
      (.rejection (rejection t message [kind])) :=
  fun _ n qs => ⟨n, qs, by simp [h, Obstacle.failure]⟩

end Production

section

variable {τ : Type} (Spelled : τ → List Token → Prop) (Ends : List Token → Prop)
  (Fails : List Token → List Token → Obstacle → Prop)

def Begins (p : List Token) : Prop := ∃ z x, Spelled x (p ++ z)

inductive Decided (w : List Token) : Prop
  | success (x : τ) (p r : List Token) (hw : w = p ++ r) (hx : Spelled x p) (hr : Ends r)
  | stuck (p r : List Token) (o : Obstacle) (hw : w = p ++ r)
      (hs : Stuck (Begins Spelled) p r o) (hf : Fails w r o)

variable {Spelled}

theorem begins_of_spelled {x : τ} {p : List Token} (h : Spelled x p) : Begins Spelled p :=
  ⟨[], x, by rwa [List.append_nil]⟩

theorem Begins.of_append {p q : List Token} (h : Begins Spelled (p ++ q)) : Begins Spelled p := by
  obtain ⟨z, x, hx⟩ := h
  exact ⟨q ++ z, x, by rwa [← List.append_assoc]⟩

theorem Stuck.of_kind {p r : List Token} {t : Token} (message : Bytes) {kind : TokenKind}
    (h : Begins Spelled (p ++ [{ t with kind }])) :
    Stuck (Begins Spelled) p (t :: r) (.rejection (Production.rejection t message [kind])) :=
  .of_kinds message [kind] h.of_append fun _ hm => List.mem_singleton.mp hm ▸ h

end

end ThreeAddress
