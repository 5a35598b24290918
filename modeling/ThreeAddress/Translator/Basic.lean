import ThreeAddress.Quad.Emitter
import ThreeAddress.Quad.Names
import ThreeAddress.Scan.Cursor
import ThreeAddress.Translator.Grammar

namespace ThreeAddress

structure Translator (σ : Type) where
  tokens : σ
  names : Names := {}
  emitter : Emitter := {}
  /-- The diagnostics so far, the last first. -/
  log : List Diagnostic := []
  reporting : Bool := true

namespace Translator

variable {σ ρ : Type} [TokenStream σ]

def report (t : Translator σ) (d : Diagnostic) : Translator σ :=
  if t.reporting then { t with log := d :: t.log } else t

def afterPull (t : Translator σ) (p : Pull σ) : Translator σ :=
  { t with tokens := p.stream, log := p.warnings.reverse ++ t.log }

def run : Dialogue ρ → Translator σ → Except Failure ρ × Translator σ
  | .done result, t => (.ok result, t)
  | .peek next, t =>
    let p := TokenStream.peek t.tokens
    match p.answer with
    | .ok token => run (next token) (t.afterPull p)
    | .error f => (.error f, t.afterPull p)
  | .pop next, t =>
    let p := TokenStream.pop t.tokens
    match p.answer with
    | .ok token => run (next token) (t.afterPull p)
    | .error f => (.error f, t.afterPull p)
  | .temporary next, t =>
    let (name, names) := t.names.temporary
    run (next name) { t with names }
  | .label next, t =>
    let (name, names) := t.names.label
    run (next name) { t with names }
  | .releaseTemporaries next, t => run next { t with names := t.names.releaseTemporaries }
  | .emit quad next, t => run next { t with emitter := t.emitter.emit quad }
  | .reject error, t => (.error { cause := .grammar error }, t.report (.error error))
  | .outOfFuel, t => (.error { cause := .outOfFuel }, t)

/-- What has been written decides once the program has been recognised. -/
def outcome (t : Translator σ) : Except Failure Unit → Except Failure Unit
  | .error f => .error f
  | .ok () =>
    match t.emitter.failure with
    | some f => .error f
    | none => .ok ()

/-- Translates one program. Every failure is reported, a violation of the grammar where it is found
and any other at the end. The names start over for the next program. -/
def analyze (t : Translator σ) : Except Failure Unit × Translator σ :=
  let (answer, t) := t.run (Production.program (TokenStream.supply t.tokens + 1) Dialogue.done)
  let t := { t with names := t.names.releaseTemporaries.releaseLabels }
  match t.outcome answer with
  | .ok () => (.ok (), t)
  | .error f => (.error f, if f.isGrammar then t else t.report (.fatal f))

def ofSource (source : Source) : Translator Cursor :=
  { tokens := Cursor.ofScanner (Scanner.ofSource source) }

end Translator

def translate (source : Source) : Except Failure Unit × Bytes :=
  let (answer, t) := (Translator.ofSource source).analyze
  (answer, t.emitter.sink.text)

end ThreeAddress
