import ThreeAddress.Command.World
import ThreeAddress.Source.TextLines
import ThreeAddress.Text.Blank

namespace ThreeAddress

/-- What the next line of a conversation is for. The lines of the program are kept the last
first. -/
inductive ConversationPhase where
  | writing (lines : List Bytes)
  | naming (lines : List Bytes)
  | closed

structure Conversation where
  world : World
  phase : ConversationPhase := .writing []

namespace Conversation

def start (w : World) : Conversation := { world := w.printLine (utf8 "Write your program:") }

def completes (line : Bytes) : Bool := (trimBlanks line).getLast? = some Path.dot

def programText (lines : List Bytes) : Bytes :=
  lines.reverse.flatMap fun line => line ++ [Bytes.newline]

def fileName (line : Bytes) : Path :=
  let name := trimBlanks line
  if Path.extension name = [] then name ++ utf8 ".txt" else name

def submit (w : World) (name : Path) (program : Bytes) : World :=
  match w.save name program with
  | .error f =>
    w.complain (utf8 "Could not create file " ++ name ++ utf8 ": " ++ f.message)
  | .ok w =>
    let (answer, out, w) := w.translateTo (.ofText program) w.out
    let w := { w with out }
    match answer with
    | .ok () => w
    | .error f => w.reportFailure name f

def step (c : Conversation) (line : Bytes) : Conversation :=
  match c.phase with
  | .closed => c
  | .writing lines =>
    if line = utf8 "exit" then { c with phase := .closed }
    else if completes line then
      { world := c.world.print (utf8 "Filename to save to: "), phase := .naming (line :: lines) }
    else { c with phase := .writing (line :: lines) }
  | .naming lines =>
    { world := submit (c.world.printLine []) (fileName line) (programText lines) }

/-- Takes lines until the conversation is closed or there are no more. Gives the failure to read
that is known by then, where `ending` is the one known after the last line. -/
def converse (ending : Option Bytes) : Conversation → List DeliveredLine →
    Option Bytes × Conversation
  | c, [] => (ending, c)
  | c, line :: rest =>
    let c := c.step line.text
    match c.phase with
    | .closed => (line.failure, c)
    | _ => converse ending c rest

def run (input : Source) (w : World) : Nat × World :=
  let lines := input.textLines
  match converse lines.failure (start w) lines.lines with
  | (none, c) => (0, c.world)
  | (some reason, c) => (1, c.world.complain (utf8 "cannot read input: " ++ reason))

end Conversation

end ThreeAddress
