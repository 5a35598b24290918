import ThreeAddress.Command.Batch
import ThreeAddress.Command.Conversation

namespace ThreeAddress.Command

def signature : Bytes := utf8 "PROGRAM to three-address code translator."

def explainUsage (w : World) : World :=
  (w.complain (utf8 "USAGE: tacc [-resolve] [-ext .tac] <input-file>...")).complain
    (utf8 "       tacc -i")

def explainFlags (w : World) (e : FlagError) : World :=
  { w with complaints := e.text :: w.complaints }

def run (arguments : List Bytes) (input : Source) (w : World) : Nat × World :=
  let w := w.complain signature
  match Options.parse {} arguments with
  | .error e => (2, explainFlags w e)
  | .ok (o, files) =>
    if o.interactive then Conversation.run input w
    else if files = [] then (2, explainUsage w)
    else Batch.run o files 0 w

end ThreeAddress.Command
