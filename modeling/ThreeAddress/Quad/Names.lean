import ThreeAddress.Text.Bytes

namespace ThreeAddress

structure Names where
  temporaries : Nat := 0
  labels : Nat := 0
  deriving DecidableEq

namespace Names

def temporaryName (n : Nat) : Bytes := utf8 "T" ++ decimal n

def labelName (n : Nat) : Bytes := utf8 "L" ++ decimal n

def temporary (names : Names) : Bytes × Names :=
  (temporaryName names.temporaries, { names with temporaries := names.temporaries + 1 })

def label (names : Names) : Bytes × Names :=
  (labelName names.labels, { names with labels := names.labels + 1 })

def releaseTemporaries (names : Names) : Names := { names with temporaries := 0 }

def releaseLabels (names : Names) : Names := { names with labels := 0 }

end Names

end ThreeAddress
