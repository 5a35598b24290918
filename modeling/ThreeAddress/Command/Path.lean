import ThreeAddress.Text.Split

namespace ThreeAddress

abbrev Path := Bytes

namespace Path

def slash : UInt8 := 47

def dot : UInt8 := 46

def here : Bytes := [dot]

def above : Bytes := [dot, dot]

def lastElement (path : Path) : Bytes := (path.reverse.takeWhile (· ≠ slash)).reverse

def extension (path : Path) : Bytes :=
  let last := lastElement path
  if dot ∈ last then dot :: (last.reverse.takeWhile (· ≠ dot)).reverse else []

def withoutExtension (path : Path) : Path := path.dropEnding (extension path)

def base (path : Path) : Bytes :=
  if path = [] then here
  else
    match lastElement (path.dropEndWhile (· = slash)) with
    | [] => [slash]
    | last => last

def elements (path : Path) : List Bytes := (cutAt slash path).filter fun element => element ≠ []

/-- Adds an element to those of a path, the last first. An element and two dots after it cancel. -/
def addElement (rooted : Bool) (seen : List Bytes) (element : Bytes) : List Bytes :=
  if element = here then seen
  else if element = above then
    match seen with
    | [] => if rooted then [] else [above]
    | last :: rest => if last = above then above :: seen else rest
  else element :: seen

/-- The shortest path that means the same in every tree without links. -/
def clean (path : Path) : Path :=
  let rooted := path.head? = some slash
  let kept := ((elements path).foldl (addElement rooted) []).reverse
  let joined := Bytes.join [slash] kept
  if rooted then slash :: joined else if kept = [] then here else joined

end Path

end ThreeAddress
