import ThreeAddress.Command.Run

namespace ThreeAddress.Main

def textOf (bytes : Bytes) : String :=
  (String.fromUTF8? (ByteArray.mk bytes.toArray)).getD (String.ofList (decode bytes))

def emptyTree : IO FileTree :=
  return { working := { names := (Path.elements (utf8 (← IO.currentDir).toString)).reverse } }

def explore (tree : FileTree) (path : Path) : IO FileTree := do
  let mut tree := tree
  let mut place := tree.origin path
  let mut passed := if path.head? = some Path.slash then "/" else ""
  for name in Path.elements path do
    place := place.follow name
    passed := passed ++ textOf name
    let file := (← IO.currentDir) / passed
    if ¬place.names <:+ tree.working.names then
      if ← file.isDir then
        tree := tree.put place .directory
      else if ← file.pathExists then
        tree := tree.put place (.file (← IO.FS.readBinFile file).toList)
    passed := passed ++ "/"
  return tree

def store (before after : FileTree) (path : Path) : IO Unit := do
  let old := (before.lookup path).toOption
  match (after.lookup path).toOption with
  | some (.file content) =>
    unless old = some (.file content) do
      IO.FS.writeBinFile ((← IO.currentDir) / textOf path) (ByteArray.mk content.toArray)
  | _ => return

def display (w : World) : IO World := do
  let out ← IO.getStdout
  let err ← IO.getStderr
  out.write (ByteArray.mk w.out.text.toArray)
  out.flush
  err.write (ByteArray.mk w.errorText.toArray)
  err.flush
  return { files := w.files }

def batch (arguments : List Bytes) (o : Options) (inputs : List Path) : IO UInt32 := do
  let paths := inputs ++ inputs.map (Batch.outputPath o)
  let files ← paths.foldlM explore (← emptyTree)
  let (status, w) := Command.run arguments [] { files }
  let after ← display w
  for path in paths do
    store files after.files path
  return status.toUInt32

def takeLines (c : Conversation) : List DeliveredLine → IO Conversation
  | [] => return c
  | line :: rest => do
    let c ← match c.phase with
      | .naming _ => do
        let name := Conversation.fileName line.text
        let files ← explore c.world.files name
        let after := Conversation.step { c with world := { c.world with files } } line.text
        store files after.world.files name
        pure after
      | _ => pure (c.step line.text)
    let world ← display c.world
    takeLines { c with world } rest

partial def talk (collector : TextLines.Collector) (c : Conversation) : IO UInt32 := do
  let text ← (← IO.getStdin).getLine
  let signals :=
    if text.isEmpty then [Signal.ending] else text.toUTF8.toList.map Signal.byte
  let collector := signals.foldl TextLines.Collector.accept collector
  let c ← takeLines c collector.delivered.reverse
  match c.phase, collector.stopped with
  | .closed, _ | _, some none => return 0
  | _, some (some reason) => do
    let _ ← display (c.world.complain (utf8 "cannot read input: " ++ reason))
    return 1
  | _, none => talk { collector with delivered := [] } c

end ThreeAddress.Main

open ThreeAddress in
def main (arguments : List String) : IO UInt32 := do
  let arguments := arguments.map utf8
  match Options.parse {} arguments with
  | .ok (o, inputs) =>
    if o.interactive then
      let world : World := { files := ← Main.emptyTree }
      let world ← Main.display (world.complain Command.signature)
      let start ← Main.display (Conversation.start world).world
      Main.talk {} { world := start }
    else Main.batch arguments o inputs
  | .error _ => Main.batch arguments {} []
