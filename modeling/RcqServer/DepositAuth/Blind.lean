import RcqServer.DepositAuth.Pss
import RcqServer.Rsa
import Mathlib.Data.Nat.Size
import Mathlib.NumberTheory.Bertrand

/-!
# Blind signatures

The client multiplies the encoding of its message with a power of a random factor, the issuer signs
the product, and the client takes the factor off again.  What is left is the plain signature of the
encoding.  A factor that has an inverse leads from any encoding with an inverse to any other, so the
issuer cannot tell such messages apart.  An encoding without an inverse stays one, whatever the
factor is.
-/

namespace RcqServer.DepositAuth

open Octets Option

variable (H : Digest)

/-- The octets of the modulus. -/
def modLen (n : ℕ) : ℕ := (n.size + 7) / 8

/-- `pow(r, -1, n)`, for `r` that has an inverse. -/
def invMod (r n : ℕ) : ℕ := (r.gcdA n % n).toNat

/-- The first draw of `secrets.randbelow(n - 1) + 1` that has an inverse. -/
def factor (n : ℕ) (draws : List ℕ) : Option ℕ :=
  (draws.map (· + 1)).find? fun r => r.gcd n = 1

/-- `blind`, with the salt and the draws of the factor.  It has no answer yet as long as no draw has
an inverse. -/
def blind (n e : ℕ) (prepared salt : List Byte) (draws : List ℕ) :
    Except CryptoError (Option (List Byte × ℕ)) := do
  let em ← emsaPssEncode H salt prepared (n.size - 1)
  let m := os2ip em
  if m ≥ n then
    .error (.valueError "encoded message not < modulus")
  else
    match factor n draws with
    | none => return none
    | some r =>
      let x := m * (r ^ e % n) % n
      let blinded ← i2osp x (modLen n)
      return some (blinded, invMod r n)

/-- `blind_sign`. -/
def blindSign (k : Rsa.Key) (blinded : List Byte) : Except CryptoError (List Byte) :=
  let x := os2ip blinded
  if ¬x < k.n then
    .error (.valueError "blinded value out of range")
  else
    let m₁ := (x % k.p) ^ k.dmp1 % k.p
    let m₂ := (x % k.q) ^ k.dmq1 % k.q
    let h := k.iqmp * ((m₁ : ℤ) - m₂) % k.p
    let y := (m₂ + h.toNat * k.q) % k.n
    i2osp y (modLen k.n)

/-- `verify`, which is RSASSA-PSS-VERIFY of RFC 8017, 8.1.2. -/
def verify (n e : ℕ) (prepared sig : List Byte) : Bool :=
  let emBits := n.size - 1
  let s := os2ip sig
  sig.length == modLen n && decide (s < n) &&
    match i2osp (s ^ e % n) ((emBits + 7) / 8) with
    | .ok em => emsaPssVerify H prepared em emBits
    | .error _ => false

/-- `finalize`. -/
def finalize (n e : ℕ) (blindSig : List Byte) (blindInv : ℕ) (prepared : List Byte) :
    Except CryptoError (List Byte) := do
  let y := os2ip blindSig
  let s := y * blindInv % n
  let sig ← i2osp s (modLen n)
  if verify H n e prepared sig = false then
    .error (.valueError "finalize produced an invalid signature")
  else
    return sig

/-! ## Lengths and inverses -/

variable {H} {n e r x : ℕ} {prepared salt em : List Byte} {emBits : ℕ} {draws : List ℕ}

/-- A residue has as many octets as the modulus. -/
theorem i2osp_mod (hn : 0 < n) (x : ℕ) : i2osp (x % n) (modLen n) = .ok (octets (x % n) (modLen n)) ∧
    os2ip (octets (x % n) (modLen n)) = x % n := by
  have hfits : x % n < 256 ^ modLen n := by
    calc x % n < n := Nat.mod_lt _ hn
      _ < 2 ^ n.size := Nat.lt_size_self n
      _ ≤ 2 ^ (8 * modLen n) := Nat.pow_le_pow_right (by omega) (by rw [modLen]; omega)
      _ = 256 ^ modLen n := pow_mul 2 8 _
  exact ⟨if_pos hfits, by rw [os2ip_octets, Nat.mod_eq_of_lt hfits]⟩

theorem mul_invMod (hn : 0 < n) (hr : r.gcd n = 1) : r * invMod r n ≡ 1 [MOD n] := by
  rw [← Int.natCast_modEq_iff]
  have hnonneg : 0 ≤ r.gcdA n % n := Int.emod_nonneg _ (by exact_mod_cast hn.ne')
  have hbezout : (1 : ℤ) = r * r.gcdA n + n * r.gcdB n := by
    rw [← Nat.gcd_eq_gcd_ab, hr]
    rfl
  push_cast
  rw [invMod, Int.toNat_of_nonneg hnonneg]
  calc (r : ℤ) * (r.gcdA n % n) ≡ r * r.gcdA n [ZMOD n] := (Int.mod_modEq _ _).mul_left _
    _ ≡ 1 [ZMOD n] := by
        rw [hbezout]
        exact (Int.modEq_add_fac_self).symm

theorem gcd_of_factor (hr : factor n draws = some r) : r.gcd n = 1 :=
  of_decide_eq_true (List.find?_some (p := fun r : ℕ => decide (r.gcd n = 1)) hr)

/-- What `_emsa_pss_encode` returns. -/
theorem eq_encoded (hem : emsaPssEncode H salt prepared emBits = .ok em) :
    em = encoded H salt prepared emBits ∧ 98 ≤ (emBits + 7) / 8 := by
  rw [emsaPssEncode_eq] at hem
  split at hem
  · cases hem
  · split at hem
    · exact ⟨(Except.ok.inj hem).symm, by omega⟩
    · cases hem

/-- An encoding for the length of a modulus is below it. -/
theorem encoded_lt_modulus (hsalt : salt.length = saltLen) (hsize : n.size = emBits + 1)
    (hem : emsaPssEncode H salt prepared emBits = .ok em) : os2ip em < n := by
  obtain ⟨rfl, hlen⟩ := eq_encoded hem
  refine (encoded_lt H prepared hsalt hlen).trans_le ?_
  exact Nat.lt_size.mp (by omega)

theorem size_pos_of_encoded (hem : emsaPssEncode H salt prepared (n.size - 1) = .ok em) :
    0 < n.size := by
  have := (eq_encoded hem).2
  omega

/-- What `blind` answers for an encoding. -/
theorem blind_eq (hsalt : salt.length = saltLen)
    (hem : emsaPssEncode H salt prepared (n.size - 1) = .ok em) (draws : List ℕ) :
    blind H n e prepared salt draws = .ok ((factor n draws).map fun r =>
      (octets (os2ip em * (r ^ e % n) % n) (modLen n), invMod r n)) := by
  have hsize := size_pos_of_encoded hem
  have hlt : os2ip em < n := encoded_lt_modulus hsalt (by omega) hem
  have hi2osp := fun x => (i2osp_mod (Nat.size_pos.mp hsize) x).1
  unfold blind
  rw [hem]
  refine (if_neg (Nat.not_le.mpr hlt)).trans ?_
  cases factor n draws with
  | none => rfl
  | some r =>
    simp only [hi2osp]
    rfl

/-- **The encoding is one of RFC 8017**, for every message and every length that the code accepts:
it is below the bound of its length and so below the modulus, which is what `blind` checks. -/
theorem emsaPssEncode_spec (H : Digest) (msg salt : List Byte) (hsalt : salt.length = saltLen)
    (emBits : ℕ) : ((∃ em, emsaPssEncode H salt msg emBits = .ok em) ↔
      hLen + saltLen + 2 ≤ (emBits + 7) / 8 ∧ (emBits + 7) / 8 - hLen - 1 ≤ hLen * 2 ^ 32) ∧
    (∀ em, emsaPssEncode H salt msg emBits = .ok em → os2ip em < 2 ^ emBits ∧
      emsaPssVerify H msg em emBits = true ∧ ∀ n, n.size = emBits + 1 → os2ip em < n) ∧
    ∀ n e draws, blind H n e msg salt draws ≠
      .error (.valueError "encoded message not < modulus") := by
  refine ⟨?_, fun em hem => ?_, fun n e draws hblind => ?_⟩
  · rw [emsaPssEncode_eq, hLen, saltLen]
    constructor
    · rintro ⟨em, hem⟩
      split at hem
      · cases hem
      · split at hem
        · omega
        · cases hem
    · rintro ⟨hmin, hmax⟩
      exact ⟨_, by rw [if_neg (by omega), if_pos (by omega)]⟩
  · have hlt := fun n hsize => encoded_lt_modulus (n := n) hsalt hsize hem
    obtain ⟨rfl, hlen⟩ := eq_encoded hem
    exact ⟨encoded_lt H msg hsalt hlen, encoded_verifies H msg hsalt hlen, hlt⟩
  · cases hem : emsaPssEncode H salt msg (n.size - 1) with
    | ok em =>
      rw [blind_eq hsalt hem] at hblind
      cases hblind
    | error failure =>
      have hfailure : blind H n e msg salt draws = .error failure := by
        unfold blind
        rw [hem]
        rfl
      obtain rfl := Except.error.inj (hfailure.symm.trans hblind)
      rw [emsaPssEncode_eq] at hem
      split at hem
      · simp at hem
      · split at hem
        · cases hem
        · cases hem

/-- A digest that is always zero. -/
def zeroDigest : Digest := ⟨fun _ => List.replicate 48 0, fun _ => List.length_replicate⟩

theorem emsaPssEncode_spec_zero : (List.replicate 48 (0 : Byte)).length = saltLen ∧
    ∃ em, emsaPssEncode zeroDigest (List.replicate 48 0) [] 785 = .ok em :=
  ⟨rfl, (emsaPssEncode_spec zeroDigest [] _ rfl 785).1.mpr (by decide)⟩

/-! ## Signing -/

variable {k : Rsa.Key}

/-- The issuer's answer is the private power of what it sees. -/
theorem blindSign_eq {x : ℕ} :
    blindSign k (octets (x % k.n) (modLen k.n)) = .ok (octets (x ^ k.d % k.n) (modLen k.n)) := by
  have hn : 0 < k.n := k.one_lt_n.le
  unfold blindSign
  rw [(i2osp_mod hn x).2, if_neg (not_not.mpr (Nat.mod_lt _ hn))]
  simp only [k.crt_eq rfl rfl]
  rw [(i2osp_mod hn _).1, ← Nat.pow_mod]

/-- The private power of an encoding is a signature of its message. -/
theorem verify_power (hsalt : salt.length = saltLen)
    (hem : emsaPssEncode H salt prepared (k.n.size - 1) = .ok em) :
    verify H k.n k.e prepared (octets (os2ip em ^ k.d % k.n) (modLen k.n)) = true := by
  have hn : 0 < k.n := k.one_lt_n.le
  have hsize := size_pos_of_encoded hem
  have hlt : os2ip em < k.n := encoded_lt_modulus hsalt (by omega) hem
  have hback : (os2ip em ^ k.d % k.n) ^ k.e % k.n = os2ip em := by
    rw [← Nat.pow_mod, ← pow_mul, Nat.mul_comm]
    exact Eq.trans (k.pow_mul_modEq _) (Nat.mod_eq_of_lt hlt)
  obtain ⟨rfl, hlen⟩ := eq_encoded hem
  have hlength := length_encoded H prepared hsalt hlen
  have hi2osp : i2osp (os2ip (encoded H salt prepared (k.n.size - 1))) ((k.n.size - 1 + 7) / 8) =
      .ok (encoded H salt prepared (k.n.size - 1)) := by
    rw [← hlength, i2osp, if_pos (os2ip_lt _), octets_os2ip]
  unfold verify
  simp only [(i2osp_mod hn _).2, hback, hi2osp, length_octets, beq_self_eq_true, Bool.true_and,
    Nat.mod_lt _ hn, decide_true]
  exact encoded_verifies H prepared hsalt hlen

/-- The factor comes off again. -/
theorem unblind {m : ℕ} (hr : r.gcd k.n = 1) :
    (m * (r ^ k.e % k.n)) ^ k.d % k.n * invMod r k.n % k.n = m ^ k.d % k.n := by
  have hn : 0 < k.n := k.one_lt_n.le
  have hpow : (m * (r ^ k.e % k.n)) ^ k.d ≡ m ^ k.d * r [MOD k.n] := by
    calc (m * (r ^ k.e % k.n)) ^ k.d ≡ (m * r ^ k.e) ^ k.d [MOD k.n] :=
          ((Nat.mod_modEq _ _).mul_left m).pow _
      _ = m ^ k.d * r ^ (k.e * k.d) := by rw [mul_pow, ← pow_mul]
      _ ≡ m ^ k.d * r [MOD k.n] := (k.pow_mul_modEq r).mul_left _
  calc (m * (r ^ k.e % k.n)) ^ k.d % k.n * invMod r k.n
      ≡ m ^ k.d * r * invMod r k.n [MOD k.n] := ((Nat.mod_modEq _ _).trans hpow).mul_right _
    _ = m ^ k.d * (r * invMod r k.n) := mul_assoc _ _ _
    _ ≡ m ^ k.d * 1 [MOD k.n] := (mul_invMod hn hr).mul_left _
    _ = m ^ k.d := mul_one _

/-- A product with the power of a factor that has an inverse has one if the rest has. -/
theorem coprime_blinded {m x : ℕ} (hr : r.gcd k.n = 1) (hx : m * (r ^ k.e % k.n) % k.n = x) :
    x.Coprime k.n ↔ m.Coprime k.n := by
  have hmod : x ≡ m * r ^ k.e [MOD k.n] := by
    rw [← hx]
    exact (Nat.mod_modEq _ _).trans ((Nat.mod_modEq _ _).mul_left m)
  have hpow : (r ^ k.e).Coprime k.n := Nat.Coprime.pow_left _ hr
  rw [Nat.Coprime, hmod.gcd_eq, hpow.gcd_mul_right_cancel m]

/-- Some factor leads from another encoding with an inverse to the same product. -/
theorem exists_factor {m m' : ℕ} (hm : m.Coprime k.n) (hm' : m'.Coprime k.n)
    (hr : r.Coprime k.n) : ∃ r' < k.n, r'.Coprime k.n ∧
      m' * (r' ^ k.e % k.n) % k.n = m * (r ^ k.e % k.n) % k.n := by
  have hn : 0 < k.n := k.one_lt_n.le
  have hinv := mul_invMod hn hm'
  have hunit : (m * invMod m' k.n).Coprime k.n := by
    refine hm.mul_left (Nat.Coprime.coprime_mul_left (k := m') ?_)
    rw [Nat.Coprime, hinv.gcd_eq, Nat.gcd_one_left]
  set u := m * invMod m' k.n
  have hmod : r * u ^ k.d % k.n ≡ r * u ^ k.d [MOD k.n] := Nat.mod_modEq _ _
  refine ⟨r * u ^ k.d % k.n, Nat.mod_lt _ hn, ?_, ?_⟩
  · rw [Nat.Coprime, hmod.gcd_eq]
    exact hr.mul_left (hunit.pow_left _)
  · calc m' * ((r * u ^ k.d % k.n) ^ k.e % k.n)
        ≡ m' * (r * u ^ k.d) ^ k.e [MOD k.n] :=
          ((Nat.mod_modEq _ _).trans (hmod.pow _)).mul_left m'
      _ = m' * r ^ k.e * u ^ (k.e * k.d) := by
          rw [mul_pow, ← pow_mul, Nat.mul_comm k.d, mul_assoc]
      _ ≡ m' * r ^ k.e * u [MOD k.n] := (k.pow_mul_modEq u).mul_left _
      _ = m * r ^ k.e * (m' * invMod m' k.n) := by ring
      _ ≡ m * r ^ k.e * 1 [MOD k.n] := hinv.mul_left _
      _ = m * r ^ k.e := mul_one _
      _ ≡ m * (r ^ k.e % k.n) [MOD k.n] := (Nat.mod_modEq _ _).symm.mul_left m

/-- The prime 3 and a large one. -/
private theorem exists_key : ∃ k : Rsa.Key, k.p = 3 ∧ 2 ^ 784 < k.q ∧
    (k.n.size - 1 = 785 ∨ k.n.size - 1 = 786) := by
  obtain ⟨q, hq, hlow, hhigh⟩ := Nat.exists_prime_lt_and_le_two_mul (2 ^ 784) (by norm_num)
  have hodd : ¬2 ∣ q := fun h => by
    have := (Nat.prime_dvd_prime_iff_eq Nat.prime_two hq).mp h
    omega
  have hthree : ¬3 ∣ q := fun h => by
    have := (Nat.prime_dvd_prime_iff_eq Nat.prime_three hq).mp h
    omega
  have hinverse : (q - 2) * (q - 2) ≡ 1 [MOD Nat.lcm 2 (q - 1)] := by
    rw [Nat.lcm_eq_right (by omega)]
    obtain ⟨t, rfl⟩ : ∃ t, q = t + 3 := ⟨q - 3, by omega⟩
    have hsquare : (t + 3 - 2) * (t + 3 - 2) = 1 + (t + 3 - 1) * t := by
      simp only [Nat.reduceSubDiff]
      ring
    rw [hsquare]
    exact Nat.modEq_zero_iff_dvd.mpr (Nat.dvd_mul_right _ _) |>.add_left 1
  have hiqmp : q % 3 * q ≡ 1 [MOD 3] := by
    rw [Nat.ModEq, Nat.mul_mod, Nat.mod_mod]
    rcases (by omega : q % 3 = 1 ∨ q % 3 = 2) with h | h
    · rw [h]
    · rw [h]
  have hle : (3 * q).size ≤ 787 := Nat.size_le.mpr (by omega)
  have hlt : 785 < (3 * q).size := Nat.lt_size.mpr (by omega)
  have hsize : (3 * q).size - 1 = 785 ∨ (3 * q).size - 1 = 786 := by omega
  exact ⟨⟨3, q, q - 2, q - 2, q % 3, Nat.prime_three, hq, by decide, by omega, by omega, hinverse,
    hiqmp⟩, rfl, hlow, hsize⟩

/-- Two encodings, of which only the first is divisible by 3. -/
private theorem zero_encodings {b : ℕ} (hb : b = 785 ∨ b = 786) :
    os2ip (encoded zeroDigest (List.replicate 48 0) [] b) % 3 = 0 ∧
      os2ip (encoded zeroDigest (1 :: List.replicate 47 0) [] b) % 3 = 1 ∧
      os2ip (encoded zeroDigest (1 :: List.replicate 47 0) [] b) < 2 ^ 784 := by
  rcases hb with rfl | rfl <;> decide +kernel

private theorem encode_zero {b : ℕ} (hb : b = 785 ∨ b = 786) (salt : List Byte) :
    emsaPssEncode zeroDigest salt [] b = .ok (encoded zeroDigest salt [] b) := by
  rw [emsaPssEncode_eq, if_neg (by omega), if_pos (by omega)]

private theorem factor_one {k : Rsa.Key} : factor k.n [0] = some 1 :=
  List.find?_cons_of_pos (decide_eq_true (Nat.gcd_one_left _))

end RcqServer.DepositAuth
