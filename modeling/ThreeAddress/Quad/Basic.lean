import ThreeAddress.Token.Kind

namespace ThreeAddress

/-- The operation of a quadruple. Operations are numbered from zero in a fixed order; a number
outside that order is an operation without a mnemonic. -/
inductive Opcode where
  /-- No instruction: the definition of a label. -/
  | label
  | mov
  | add
  | sub
  | mul
  /-- Real division. -/
  | dvd
  /-- Integer division. -/
  | div
  | mod
  | exp
  | pls
  | neg
  /-- A jump that depends on a comparison. -/
  | tst
  | jmp
  | halt
  | other (code : Int)
  deriving DecidableEq

namespace Opcode

def all : List Opcode :=
  [label, mov, add, sub, mul, dvd, div, mod, exp, pls, neg, tst, jmp, halt]

def ofCode (code : Int) : Opcode := ofNumber all other code

def code : Opcode → Int
  | label => 0
  | mov => 1
  | add => 2
  | sub => 3
  | mul => 4
  | dvd => 5
  | div => 6
  | mod => 7
  | exp => 8
  | pls => 9
  | neg => 10
  | tst => 11
  | jmp => 12
  | halt => 13
  | other code => code

def mnemonic : Opcode → Bytes
  | label => utf8 "LBL"
  | mov => utf8 "MOV"
  | add => utf8 "ADD"
  | sub => utf8 "SUB"
  | mul => utf8 "MUL"
  | dvd => utf8 "DVD"
  | div => utf8 "DIV"
  | mod => utf8 "MOD"
  | exp => utf8 "EXP"
  | pls => utf8 "PLS"
  | neg => utf8 "NEG"
  | tst => utf8 "TST"
  | jmp => utf8 "JMP"
  | halt => utf8 "HALT"
  | other _ => []

theorem code_ofCode (n : Int) : (ofCode n).code = n :=
  number_ofNumber (by decide) (fun _ => rfl) n

end Opcode

inductive Comparator where
  | equal
  | less
  | lessEqual
  | greater
  | greaterEqual
  | notEqual
  | other (code : Int)
  deriving DecidableEq

namespace Comparator

def all : List Comparator := [equal, less, lessEqual, greater, greaterEqual, notEqual]

def ofCode (code : Int) : Comparator := ofNumber all other code

def code : Comparator → Int
  | equal => 0
  | less => 1
  | lessEqual => 2
  | greater => 3
  | greaterEqual => 4
  | notEqual => 5
  | other code => code

def text (c : Comparator) : Bytes := signedDecimal c.code

def ofKind? : TokenKind → Option Comparator
  | .equal => some equal
  | .less => some less
  | .lessEqual => some lessEqual
  | .greater => some greater
  | .greaterEqual => some greaterEqual
  | .notEqual => some notEqual
  | _ => none

theorem code_ofCode (n : Int) : (ofCode n).code = n :=
  number_ofNumber (by decide) (fun _ => rfl) n

end Comparator

structure Quad where
  op : Opcode
  args : List Bytes
  deriving DecidableEq

namespace Quad

def binary (op : Opcode) (left right result : Bytes) : Quad := ⟨op, [left, right, result]⟩

def unary (op : Opcode) (operand result : Bytes) : Quad := ⟨op, [operand, result]⟩

def move (source target : Bytes) : Quad := ⟨.mov, [source, target]⟩

/-- Jumps to `label` if `left` stands in relation `c` to `right`. -/
def test (left right : Bytes) (c : Comparator) (label : Bytes) : Quad :=
  ⟨.tst, [left, right, c.text, label]⟩

def jump (label : Bytes) : Quad := ⟨.jmp, [label]⟩

def label (label : Bytes) : Quad := ⟨.label, [label]⟩

/-- The text of a quadruple: the definition of a label is only the label. -/
def text (q : Quad) : Bytes :=
  if q.op = .label then q.args.flatten else Bytes.join (utf8 ", ") (q.op.mnemonic :: q.args)

def line (q : Quad) : Bytes := q.text ++ [Bytes.newline]

end Quad

end ThreeAddress
