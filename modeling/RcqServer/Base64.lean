import Mathlib.Data.List.DropRight
import Mathlib.Tactic.IntervalCases

/-!
# Base64

The standard alphabet, four characters for three bytes.  Decoding is strict about the alphabet and
about where padding stands, and silent about the bits of the last character that no byte uses, so
that one string of bytes has several texts.
-/

namespace Base64

/-- The six bits of a character. -/
def value (c : Char) : Option ℕ :=
  if 'A' ≤ c ∧ c ≤ 'Z' then some (c.toNat - 65)
  else if 'a' ≤ c ∧ c ≤ 'z' then some (c.toNat - 71)
  else if '0' ≤ c ∧ c ≤ '9' then some (c.toNat + 4)
  else if c = '+' then some 62
  else if c = '/' then some 63
  else none

/-- The character of six bits. -/
def digit (v : ℕ) : Char :=
  if v < 26 then Char.ofNat (v + 65)
  else if v < 52 then Char.ofNat (v + 71)
  else if v < 62 then Char.ofNat (v - 4)
  else if v = 62 then '+'
  else '/'

/-- The bytes of a padded text. -/
def decode : List Char → Option (List ℕ)
  | [] => some []
  | [a, b, '=', '='] => do
    let x ← value a
    let y ← value b
    return [x * 4 + y / 16]
  | [a, b, c, '='] => do
    let x ← value a
    let y ← value b
    let z ← value c
    return [x * 4 + y / 16, y % 16 * 16 + z / 4]
  | a :: b :: c :: d :: rest => do
    let x ← value a
    let y ← value b
    let z ← value c
    let w ← value d
    let bytes ← decode rest
    return (x * 4 + y / 16) :: (y % 16 * 16 + z / 4) :: (z % 4 * 64 + w) :: bytes
  | _ => none

/-- The loop of `binascii.a2b_base64` outside of its strict mode.  `quad` is the place in the group of
four, `left` are the bits of the last character that no byte has used, and `pads` counts the padding
just read. -/
def decodeLooseFrom (quad left pads : ℕ) : List Char → Option (List ℕ)
  | [] => if quad = 0 then some [] else none
  | c :: rest =>
    if c = '=' then
      -- padding that completes the group ends the text
      if 2 ≤ quad ∧ 4 ≤ quad + (pads + 1) then some []
      else decodeLooseFrom quad left (if 2 ≤ quad then pads + 1 else pads) rest
    else
      match value c with
      | none => decodeLooseFrom quad left pads rest
      | some v =>
        match quad with
        | 0 => decodeLooseFrom 1 v 0 rest
        | 1 => (decodeLooseFrom 2 (v % 16) 0 rest).map ((left * 4 + v / 16) :: ·)
        | 2 => (decodeLooseFrom 3 (v % 4) 0 rest).map ((left * 16 + v / 4) :: ·)
        | _ => (decodeLooseFrom 0 0 0 rest).map ((left * 64 + v) :: ·)

/-- `base64.b64decode`: what is not in the alphabet is passed over. -/
def decodeLoose (text : List Char) : Option (List ℕ) :=
  if text.all (·.toNat < 128) then decodeLooseFrom 0 0 0 text else none

/-- The padded text of some bytes. -/
def encode : List ℕ → List Char
  | [] => []
  | [x] => [digit (x / 4), digit (x % 4 * 16), '=', '=']
  | [x, y] => [digit (x / 4), digit (x % 4 * 16 + y / 16), digit (y % 16 * 4), '=']
  | x :: y :: z :: rest =>
    digit (x / 4) :: digit (x % 4 * 16 + y / 16) :: digit (y % 16 * 4 + z / 64) ::
      digit (z % 64) :: encode rest

/-- A text with the padding that its length asks for. -/
def pad (text : List Char) : List Char :=
  text ++ List.replicate ((4 - text.length % 4) % 4) '='

/-- A text without its padding. -/
def unpad (text : List Char) : List Char :=
  text.rdropWhile (· == '=')

end Base64
