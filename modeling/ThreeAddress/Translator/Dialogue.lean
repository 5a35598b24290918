import ThreeAddress.Quad.Basic
import ThreeAddress.Token.Basic
import ThreeAddress.Failure

namespace ThreeAddress

inductive Dialogue (ρ : Type) where
  | done (result : ρ)
  | peek (next : Token → Dialogue ρ)
  | pop (next : Token → Dialogue ρ)
  | temporary (next : Bytes → Dialogue ρ)
  | label (next : Bytes → Dialogue ρ)
  | releaseTemporaries (next : Dialogue ρ)
  | emit (quad : Quad) (next : Dialogue ρ)
  | reject (error : GrammarError)
  /-- Ends because the bound on the number of steps was too small. -/
  | outOfFuel

/-- A part of a dialogue that gives an `α` to the part after it. -/
def Production (ρ α : Type) := (α → Dialogue ρ) → Dialogue ρ

namespace Production

variable {ρ α : Type}

instance : Monad (Production ρ) where
  pure a := fun next => next a
  bind p f := fun next => p fun a => f a next

@[simp] theorem pure_apply (a : α) (next : α → Dialogue ρ) :
    (pure a : Production ρ α) next = next a := rfl

@[simp] theorem bind_apply {β : Type} (p : Production ρ α) (f : α → Production ρ β)
    (next : β → Dialogue ρ) : (p >>= f) next = p fun a => f a next := rfl

instance : LawfulMonad (Production ρ) :=
  LawfulMonad.mk' _ (fun _ => rfl) (fun _ _ => rfl) (fun _ _ _ => rfl)

def peek : Production ρ Token := Dialogue.peek

def pop : Production ρ Token := Dialogue.pop

def temporary : Production ρ Bytes := Dialogue.temporary

def label : Production ρ Bytes := Dialogue.label

def releaseTemporaries : Production ρ Unit := fun next => .releaseTemporaries (next ())

def emit (q : Quad) : Production ρ Unit := fun next => .emit q (next ())

def outOfFuel : Production ρ α := fun _ => .outOfFuel

/-- Ends with a complaint about the token `found`, in place of which a token of one of the kinds
`expected` could have stood. -/
def reject (found : Token) (message : Bytes) (expected : List TokenKind) : Production ρ α :=
  fun _ => .reject
    { message
      found := found.lexeme
      expected := expected.map TokenKind.text
      position := found.position }

def accept (kind : TokenKind) : Production ρ Bool := do
  let token ← peek
  if token.kind = kind then
    let _ ← pop
    return true
  else
    return false

def expect (kind : TokenKind) (message : Bytes) : Production ρ Unit := do
  let token ← peek
  if token.kind = kind then
    let _ ← pop
    return ()
  else
    reject token message [kind]

end Production

end ThreeAddress
