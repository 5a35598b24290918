import ThreeAddress.Text.Printable
import ThreeAddress.Text.Utf8

namespace ThreeAddress

namespace Quoted

def hex (width n : Nat) : Bytes := encode ((Nat.toDigits 16 n).leftpad width '0')

def controlLetter? (c : Char) : Option Char :=
  match c.toNat with
  | 0x07 => some 'a'
  | 0x08 => some 'b'
  | 0x09 => some 't'
  | 0x0A => some 'n'
  | 0x0B => some 'v'
  | 0x0C => some 'f'
  | 0x0D => some 'r'
  | _ => none

def escape (quote c : Char) : Bytes :=
  if c = quote ∨ c = '\\' then encode ['\\', c]
  else if isPrintable c then encode [c]
  else
    match controlLetter? c with
    | some letter => encode ['\\', letter]
    | none =>
      if c.val < 0x80 then utf8 "\\x" ++ hex 2 c.toNat
      else if c.val < 0x10000 then utf8 "\\u" ++ hex 4 c.toNat
      else utf8 "\\U" ++ hex 8 c.toNat

/-- A unit of a text as it stands between two marks `quote`: a byte that is no character shows
its number. -/
def escapeUnit (quote : Char) (u : TextUnit) : Bytes :=
  match u.char == replacement, u.bytes with
  | true, [b] => utf8 "\\x" ++ hex 2 b.toNat
  | _, _ => escape quote u.char

end Quoted

def quotedChar (c : Char) : Bytes := utf8 "'" ++ Quoted.escape '\'' c ++ utf8 "'"

def quotedText (text : Bytes) : Bytes :=
  utf8 "\"" ++ (units text).flatMap (Quoted.escapeUnit '"') ++ utf8 "\""

end ThreeAddress
