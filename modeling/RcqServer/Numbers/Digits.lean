import RcqServer.Basic
import Mathlib.Data.List.Dedup

/-!
# The shape of a number

`is_reserved_uin` reads a number as the string of its digits.  The regular expressions of the
source are spelled out as conditions on that string.
-/

namespace RcqServer.Numbers

/-- `str(uin)`. -/
def digits (uin : Uin) : List Char := Nat.toDigits 10 uin

/-- `_length`. -/
def length (uin : Uin) : ℕ := (digits uin).length

def reservedMaxLen : ℕ := 6

/-- `len(set(s))`. -/
def distinct (s : List Char) : ℕ := s.dedup.length

/-- `^(\d{k})\1+$`: a block of `k` digits that is repeated and fills the string. -/
def repeats (k : ℕ) (s : List Char) : Bool :=
  2 * k ≤ s.length && s.length % k == 0 && s.drop k == s.take (s.length - k)

/-- `(\d)\1{3,}`: four equal digits in a row. -/
def hasRun : List Char → Bool
  | a :: b :: c :: d :: rest => a == b && b == c && c == d || hasRun (b :: c :: d :: rest)
  | _ => false

/-- `^0*123456789?$`. -/
def ladderUp (s : List Char) : Bool :=
  s.dropWhile (· == '0') ∈ ["12345678".toList, "123456789".toList]

/-- `^9?876543210*$`. -/
def ladderDown (s : List Char) : Bool :=
  let rest := if s.head? = some '9' then s.tail else s
  rest.take 8 == "87654321".toList && (rest.drop 8).all (· == '0')

/-- `\d0{4,}$`. -/
def trailingZeros (s : List Char) : Bool :=
  5 ≤ s.length && (s.drop (s.length - 4)).all (· == '0')

/-- Any of `_PATTERNS`. -/
def patterned (s : List Char) : Bool :=
  repeats 1 s || repeats 2 s || repeats 3 s || ladderUp s || ladderDown s || trailingZeros s

/-- `price_length`: the number of digits that a number is priced at. -/
def priceLength (uin : Uin) : ℕ :=
  let s := digits uin
  let tier :=
    if distinct s ≤ 2 then 3
    else if distinct s ≤ 3 || s == s.reverse || hasRun s || patterned s then 4
    else if distinct s ≤ 4 && s.length ≤ 7 then 5
    else s.length
  min s.length tier

/-- `is_reserved_uin`. -/
def isReservedUin (uin : Uin) : Bool :=
  if uin = 0 then false
  else
    let s := digits uin
    if s.length ≤ reservedMaxLen then true
    else if distinct s ≤ 3 then true
    else if distinct s ≤ 4 && s.length ≤ 7 then true
    else if s == s.reverse then true
    else if hasRun s then true
    else patterned s

-- the farmed numbers that the comments in the source list, and one that is ordinary
example : [777000777, 1001010, 3003030, 5005050, 101010100, 1000500, 1020102, 1030103,
    10200102, 911].all isReservedUin = true := by decide +kernel

example : isReservedUin 123456987 = false := by decide +kernel

end RcqServer.Numbers
