import ThreeAddress.Text.Bytes

namespace ThreeAddress

def replacement : Char := '\ufffd'

structure TextUnit where
  char : Char
  bytes : Bytes

namespace Utf8

def isContinuation (b : UInt8) : Bool := 0x80 ≤ b && b < 0xC0

def extend (high : Nat) (b : UInt8) : Nat := high * 64 + b.toNat % 64

/-- The character with number `n`, unless a shorter sequence (below `least`) should have been used
or no character has the number. -/
def scalar? (least n : Nat) : Option Char :=
  if least ≤ n ∧ n.isValidChar then some (Char.ofNat n) else none

def first? : Bytes → Option (Char × Nat)
  | [] => none
  | a :: rest =>
    if a < 0x80 then (scalar? 0 a.toNat).map (·, 0)
    else if a < 0xC0 then none
    else if a < 0xE0 then
      match rest with
      | b :: _ =>
        if isContinuation b then (scalar? 0x80 (extend (a.toNat % 32) b)).map (·, 1) else none
      | _ => none
    else if a < 0xF0 then
      match rest with
      | b :: c :: _ =>
        if isContinuation b && isContinuation c then
          (scalar? 0x800 (extend (extend (a.toNat % 16) b) c)).map (·, 2)
        else none
      | _ => none
    else if a < 0xF8 then
      match rest with
      | b :: c :: d :: _ =>
        if isContinuation b && isContinuation c && isContinuation d then
          (scalar? 0x10000 (extend (extend (extend (a.toNat % 8) b) c) d)).map (·, 3)
        else none
      | _ => none
    else none

/-- Puts the units of a text before `seen`, the last unit first. The number counts the bytes at
the front that belong to the unit already put there. -/
def unitsOnto (seen : List TextUnit) : Nat → Bytes → List TextUnit
  | _, [] => seen
  | skip + 1, _ :: rest => unitsOnto seen skip rest
  | 0, a :: rest =>
    match first? (a :: rest) with
    | some (c, more) => unitsOnto (⟨c, a :: rest.take more⟩ :: seen) more rest
    | none => unitsOnto (⟨replacement, [a]⟩ :: seen) 0 rest

end Utf8

/-- The units of a text. Each well-formed sequence is one, and every other byte is a unit of its own
and stands for U+FFFD. -/
def units (text : Bytes) : List TextUnit := (Utf8.unitsOnto [] 0 text).reverse

def decode (text : Bytes) : List Char := (units text).map TextUnit.char

end ThreeAddress
