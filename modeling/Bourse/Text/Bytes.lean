/-!
# Text from bytes

Bytes with the escapes `%XX` resolved, and bytes read as UTF-8. An escape that is cut short or not
hexadecimal stays as it is. Bytes that do not form a character are replaced: every longest beginning
of a character that is broken off, and every byte that begins none, becomes one replacement
character.
-/

namespace Bourse.Text

def hexByte? (b : UInt8) : Option UInt8 :=
  if 0x30 ≤ b && b ≤ 0x39 then some (b - 0x30)
  else if 0x41 ≤ b && b ≤ 0x46 then some (b - 0x41 + 10)
  else if 0x61 ≤ b && b ≤ 0x66 then some (b - 0x61 + 10)
  else none

def resolveEscapes : List UInt8 → List UInt8
  | 0x25 :: high :: low :: rest =>
    match hexByte? high, hexByte? low with
    | some h, some l => (h * 16 + l) :: resolveEscapes rest
    | _, _ => 0x25 :: resolveEscapes (high :: low :: rest)
  | b :: rest => b :: resolveEscapes rest
  | [] => []

def replacement : Char := Char.ofNat 0xFFFD

/-- The beginning of a character: the bits read, how many bytes are still to come, and the bounds
for the next one. -/
structure PartialChar where
  bits : Nat
  left : Nat
  low : Nat
  high : Nat

/-- What the first byte of a character gives: characters at once, or the beginning of one. -/
def firstByte (b : Nat) : List Char × Option PartialChar :=
  if b < 0x80 then ([Char.ofNat b], none)
  else if 0xC2 ≤ b && b ≤ 0xDF then ([], some ⟨b - 0xC0, 1, 0x80, 0xBF⟩)
  else if 0xE0 ≤ b && b ≤ 0xEF then
    ([], some ⟨b - 0xE0, 2, if b = 0xE0 then 0xA0 else 0x80, if b = 0xED then 0x9F else 0xBF⟩)
  else if 0xF0 ≤ b && b ≤ 0xF4 then
    ([], some ⟨b - 0xF0, 3, if b = 0xF0 then 0x90 else 0x80, if b = 0xF4 then 0x8F else 0xBF⟩)
  else ([replacement], none)

def decodeUtf8From : Option PartialChar → List UInt8 → List Char
  | none, [] => []
  | some _, [] => [replacement]
  | none, b :: rest =>
    let (cs, next) := firstByte b.toNat
    cs ++ decodeUtf8From next rest
  | some p, b :: rest =>
    let n := b.toNat
    if p.low ≤ n && n ≤ p.high then
      let bits := p.bits * 64 + (n - 0x80)
      if p.left = 1 then Char.ofNat bits :: decodeUtf8From none rest
      else decodeUtf8From (some ⟨bits, p.left - 1, 0x80, 0xBF⟩) rest
    else
      let (cs, next) := firstByte n
      replacement :: cs ++ decodeUtf8From next rest

def decodeUtf8 (bytes : List UInt8) : String :=
  String.ofList (decodeUtf8From none bytes)

end Bourse.Text
