import ThreeAddress.Command.Flags
import ThreeAddress.Command.World

namespace ThreeAddress.Batch

def separator : Bytes := List.replicate 30 45

def outputPath (o : Options) (input : Path) : Path := input.withoutExtension ++ o.extension

def title (input : Path) : Bytes := (Path.base input).dropEnding (Path.extension input)

def overwrites (o : Options) (input : Path) : Bool :=
  Path.clean (outputPath o input) = Path.clean input

/-- Translates a file. The code up to a failure is still written, with its labels as they are. A
failure to translate comes before one to write the code. -/
def translateFile (o : Options) (input : Path) (w : World) : Except Failure Unit × World :=
  match w.openSource input with
  | .error f => (.error (f.within (utf8 "cannot open input file")), w)
  | .ok source =>
    let (answer, sink, w) := w.translateTo source {}
    let code :=
      match answer with
      | .ok () => if o.resolve then resolveLabels sink.text else sink.text
      | .error _ => sink.text
    match w.save (outputPath o input) code, answer with
    | .ok w, answer => (answer, w)
    | .error _, .error f => (.error f, w)
    | .error f, .ok () => (.error (f.within (utf8 "cannot write output file")), w)

def run (o : Options) : List Path → Nat → World → Nat × World
  | [], status, w => (status, w)
  | input :: rest, status, w =>
    let w := w.printLine (title input)
    if overwrites o input then
      let w := w.complain
        (input ++ utf8 ": output file would overwrite the input, choose another -ext")
      run o rest 1 (w.printLine separator)
    else
      let (answer, w) := translateFile o input w
      let w := w.printLine separator
      match answer with
      | .ok () => run o rest status w
      | .error f =>
        let w := w.reportFailure input f
        if f.isGrammar then run o rest 1 w else (1, w)

end ThreeAddress.Batch
