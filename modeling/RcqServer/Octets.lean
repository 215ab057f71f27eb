import Mathlib.Tactic.Ring
import Mathlib.Data.List.Induction

/-!
# Octet strings and the numbers they write

The numbers that octets write, the most significant octet first, and the octets of a number.  Both
go by the last octet, so the lemmas are proved by induction from the right.
-/

namespace Octets

open List

abbrev Byte := BitVec 8

/-- The number that some octets write. -/
def os2ip (bs : List Byte) : ℕ := bs.foldl (fun n b => 256 * n + b.toNat) 0

/-- The lowest `len` octets of a number. -/
def octets : ℕ → ℕ → List Byte
  | _, 0 => []
  | x, len + 1 => octets (x / 256) len ++ [BitVec.ofNat 8 x]

variable {bs : List Byte} {b : Byte} {x len : ℕ}

@[simp] theorem os2ip_concat : os2ip (bs ++ [b]) = 256 * os2ip bs + b.toNat := by
  simp [os2ip]

@[simp] theorem length_octets : (octets x len).length = len := by
  induction len generalizing x with
  | zero => rfl
  | succ len ih => simp [octets, ih]

theorem os2ip_lt (bs : List Byte) : os2ip bs < 256 ^ bs.length := by
  induction bs using reverseRecOn with
  | nil => simp [os2ip]
  | append_singleton bs b ih =>
    have hb : b.toNat < 256 := b.isLt
    simp only [os2ip_concat, length_append, length_singleton, pow_succ]
    omega

theorem os2ip_cons : os2ip (b :: bs) = b.toNat * 256 ^ bs.length + os2ip bs := by
  induction bs using reverseRecOn with
  | nil => simp [os2ip]
  | append_singleton bs c ih =>
    rw [← cons_append, os2ip_concat, ih, os2ip_concat, length_append,
      length_singleton, pow_succ]
    ring

theorem os2ip_octets : os2ip (octets x len) = x % 256 ^ len := by
  induction len generalizing x with
  | zero => simp [octets, os2ip, Nat.mod_one]
  | succ len ih =>
    rw [octets, os2ip_concat, ih, BitVec.toNat_ofNat, pow_succ' 256 len, Nat.mod_mul]
    omega

theorem octets_os2ip (bs : List Byte) : octets (os2ip bs) bs.length = bs := by
  induction bs using reverseRecOn with
  | nil => rfl
  | append_singleton bs b ih =>
    have hb : b.toNat < 256 := b.isLt
    have hdiv : (256 * os2ip bs + b.toNat) / 256 = os2ip bs := by omega
    have hlast : BitVec.ofNat 8 (256 * os2ip bs + b.toNat) = b := by
      refine BitVec.eq_of_toNat_eq ?_
      rw [BitVec.toNat_ofNat]
      omega
    rw [length_append, length_singleton, os2ip_concat, octets, hdiv, ih, hlast]

end Octets
