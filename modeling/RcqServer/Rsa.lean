import Mathlib.Data.Nat.ChineseRemainder
import Mathlib.FieldTheory.Finite.Basic

/-!
# RSA

A power modulo `p * q` is determined by what it is modulo `p` and modulo `q`, and modulo a prime an
exponent matters only up to `p - 1`.  Both the correctness of a key and the computation of a private
power from its two parts follow from this.
-/

namespace Rsa

/-- A private key with the parts for the Chinese remainder theorem (RFC 8017, 3.2). -/
structure Key where
  p : ℕ
  q : ℕ
  e : ℕ
  d : ℕ
  iqmp : ℕ
  prime_p : p.Prime
  prime_q : q.Prime
  odd_p : p ≠ 2
  odd_q : q ≠ 2
  distinct : p ≠ q
  inverse : e * d ≡ 1 [MOD Nat.lcm (p - 1) (q - 1)]
  iqmp_mul : iqmp * q ≡ 1 [MOD p]

/-- Modulo a prime an exponent matters only up to `p - 1`. -/
theorem pow_modEq_pow {p a b : ℕ} (hp : p.Prime) (ha : 0 < a) (hb : 0 < b)
    (hab : a ≡ b [MOD p - 1]) (x : ℕ) : x ^ a ≡ x ^ b [MOD p] := by
  have : Fact p.Prime := ⟨hp⟩
  rw [← ZMod.natCast_eq_natCast_iff, Nat.cast_pow, Nat.cast_pow]
  by_cases hx : (x : ZMod p) = 0
  · rw [hx, zero_pow ha.ne', zero_pow hb.ne']
  · exact pow_eq_pow_of_modEq hab (ZMod.pow_card_sub_one_eq_one hx)

namespace Key

variable (k : Key)

def n : ℕ := k.p * k.q

/-- The private exponent modulo `p - 1`. -/
def dmp1 : ℕ := k.d % (k.p - 1)

/-- The private exponent modulo `q - 1`. -/
def dmq1 : ℕ := k.d % (k.q - 1)

theorem two_le_p_sub : 2 ≤ k.p - 1 := by
  have := k.prime_p.two_le
  have := k.odd_p
  omega

theorem two_le_q_sub : 2 ≤ k.q - 1 := by
  have := k.prime_q.two_le
  have := k.odd_q
  omega

theorem one_lt_n : 1 < k.n :=
  Nat.one_lt_mul_iff.mpr ⟨k.prime_p.pos, k.prime_q.pos, .inl k.prime_p.one_lt⟩

theorem modEq_iff {a b : ℕ} : a ≡ b [MOD k.n] ↔ a ≡ b [MOD k.p] ∧ a ≡ b [MOD k.q] :=
  (Nat.modEq_and_modEq_iff_modEq_mul
    ((Nat.coprime_primes k.prime_p k.prime_q).mpr k.distinct)).symm

theorem inverse_p : k.e * k.d ≡ 1 [MOD k.p - 1] := k.inverse.of_dvd (Nat.dvd_lcm_left _ _)

theorem inverse_q : k.e * k.d ≡ 1 [MOD k.q - 1] := k.inverse.of_dvd (Nat.dvd_lcm_right _ _)

/-- What is inverted modulo `m` is not zero modulo `m`. -/
private theorem mod_pos {e d m : ℕ} (hm : 2 ≤ m) (h : e * d ≡ 1 [MOD m]) : 0 < d % m := by
  refine Nat.pos_of_ne_zero fun hzero => ?_
  have hzero : e * d ≡ 0 [MOD m] :=
    Nat.modEq_zero_iff_dvd.mpr ((Nat.dvd_of_mod_eq_zero hzero).mul_left e)
  have hone := h.symm.trans hzero
  rw [Nat.modEq_zero_iff_dvd, Nat.dvd_one] at hone
  omega

theorem dmp1_pos : 0 < k.dmp1 := mod_pos k.two_le_p_sub k.inverse_p

theorem dmq1_pos : 0 < k.dmq1 := mod_pos k.two_le_q_sub k.inverse_q

theorem d_pos : 0 < k.d := k.dmp1_pos.trans_le (Nat.mod_le _ _)

theorem e_pos : 0 < k.e :=
  (mod_pos k.two_le_p_sub (Nat.mul_comm k.e k.d ▸ k.inverse_p)).trans_le (Nat.mod_le _ _)

/-- **Correctness of RSA**: what is encrypted is decrypted, and what is signed verifies. -/
theorem pow_mul_modEq (x : ℕ) : x ^ (k.e * k.d) ≡ x [MOD k.n] := by
  have hpos : 0 < k.e * k.d := Nat.mul_pos k.e_pos k.d_pos
  refine k.modEq_iff.mpr ⟨?_, ?_⟩
  · simpa using pow_modEq_pow k.prime_p hpos Nat.one_pos k.inverse_p x
  · simpa using pow_modEq_pow k.prime_q hpos Nat.one_pos k.inverse_q x

/-- The private power from its residues `m₁` modulo `p` and `m₂` modulo `q`. -/
theorem crt_eq {x m₁ m₂ : ℕ} (h₁ : m₁ = (x % k.p) ^ k.dmp1 % k.p)
    (h₂ : m₂ = (x % k.q) ^ k.dmq1 % k.q) :
    (m₂ + (k.iqmp * ((m₁ : ℤ) - m₂) % k.p).toNat * k.q) % k.n = x ^ k.d % k.n := by
  have hm₁ : m₁ ≡ x ^ k.d [MOD k.p] := by
    rw [h₁]
    refine (Nat.mod_modEq _ _).trans (((Nat.mod_modEq _ _).pow _).trans ?_)
    exact pow_modEq_pow k.prime_p k.dmp1_pos k.d_pos (Nat.mod_modEq _ _) x
  have hm₂ : m₂ ≡ x ^ k.d [MOD k.q] := by
    rw [h₂]
    refine (Nat.mod_modEq _ _).trans (((Nat.mod_modEq _ _).pow _).trans ?_)
    exact pow_modEq_pow k.prime_q k.dmq1_pos k.d_pos (Nat.mod_modEq _ _) x
  refine k.modEq_iff.mpr ⟨Nat.ModEq.trans ?_ hm₁, Nat.ModEq.trans ?_ hm₂⟩
  · have hiqmp : (k.iqmp : ZMod k.p) * k.q = 1 := by
      exact_mod_cast (ZMod.natCast_eq_natCast_iff _ _ _).mpr k.iqmp_mul
    have hh : (((k.iqmp * ((m₁ : ℤ) - m₂) % k.p).toNat : ℕ) : ZMod k.p) =
        k.iqmp * (m₁ - m₂) := by
      have hnonneg : 0 ≤ k.iqmp * ((m₁ : ℤ) - m₂) % k.p :=
        Int.emod_nonneg _ (by exact_mod_cast k.prime_p.ne_zero)
      rw [← Int.cast_natCast, Int.toNat_of_nonneg hnonneg, ZMod.intCast_mod]
      push_cast
      ring
    rw [← ZMod.natCast_eq_natCast_iff]
    push_cast
    rw [hh]
    linear_combination ((m₁ : ZMod k.p) - m₂) * hiqmp
  · simp [Nat.ModEq]

end Key

end Rsa
