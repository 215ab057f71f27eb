import RcqServer.Octets
import Mathlib.Tactic.IntervalCases

/-!
# The encoding of a token's message

`_emsa_pss_encode` writes a message as a number that the issuer can sign.  RFC 8017 says which
numbers are encodings of a message: `emsaPssVerify` is its procedure, with `mgf` for the mask.  The
code's encodings pass it whatever the hash makes of the message, because unmasking gives back the
padding up to the bits that were cleared, and the padding has zeros there.
-/

namespace RcqServer.DepositAuth

open Octets List

/-- SHA-384, of which nothing matters here but the length of a digest. -/
structure Digest where
  hash : List Byte → List Byte
  length_hash : ∀ m, (hash m).length = 48

def hLen : ℕ := 48

def saltLen : ℕ := 48

/-- What the functions raise. -/
inductive CryptoError
  | valueError (message : String)
  | overflowError

/-- `_i2osp`. -/
def i2osp (x length : ℕ) : Except CryptoError (List Byte) :=
  if x < 256 ^ length then .ok (octets x length) else .error .overflowError

variable (H : Digest)

/-- The loop of `_mgf1`. -/
def mgf1Loop (seed : List Byte) (length : ℕ) (out : List Byte) (counter : ℕ) :
    Except CryptoError (List Byte) :=
  if out.length < length then
    match i2osp counter 4 with
    | .ok c => mgf1Loop seed length (out ++ H.hash (seed ++ c)) (counter + 1)
    | .error e => .error e
  else
    .ok (out.take length)
termination_by length - out.length
decreasing_by
  simp only [length_append, H.length_hash]
  omega

/-- `_mgf1`. -/
def mgf1 (seed : List Byte) (length : ℕ) : Except CryptoError (List Byte) :=
  mgf1Loop H seed length [] 0

/-- Clear the leftmost bits of the first octet. -/
def clearTop (clear : ℕ) : List Byte → List Byte
  | [] => []
  | b :: bs => (b &&& ((0xFF : Byte) >>> clear)) :: bs

/-- `_emsa_pss_encode`, with the salt that it draws. -/
def emsaPssEncode (salt msg : List Byte) (emBits : ℕ) : Except CryptoError (List Byte) :=
  let emLen := (emBits + 7) / 8
  let mHash := H.hash msg
  if emLen < hLen + saltLen + 2 then
    .error (.valueError "encoding error: modulus too small")
  else do
    let mPrime := replicate 8 0 ++ mHash ++ salt
    let h := H.hash mPrime
    let ps := replicate (emLen - saltLen - hLen - 2) 0
    let db := ps ++ [1] ++ salt
    let dbMask ← mgf1 H h (emLen - hLen - 1)
    let maskedDb := zipWith (· ^^^ ·) db dbMask
    let clear := 8 * emLen - emBits
    let maskedDb := if clear ≠ 0 then clearTop clear maskedDb else maskedDb
    return maskedDb ++ h ++ [0xbc]

/-! ## The standard -/

/-- The first blocks of the mask, each with its counter. -/
def blocks (seed : List Byte) (count : ℕ) : List Byte :=
  (range count).flatMap fun i => H.hash (seed ++ octets i 4)

/-- MGF1 of RFC 8017, B.2.1. -/
def mgf (seed : List Byte) (maskLen : ℕ) : List Byte :=
  (blocks H seed ((maskLen + (hLen - 1)) / hLen)).take maskLen

/-- EMSA-PSS-VERIFY of RFC 8017, 9.1.2. -/
def emsaPssVerify (msg em : List Byte) (emBits : ℕ) : Bool :=
  let emLen := (emBits + 7) / 8
  let clear := 8 * emLen - emBits
  let maskedDb := em.take (emLen - hLen - 1)
  let h := (em.drop (emLen - hLen - 1)).take hLen
  let dbMask := mgf H h (emLen - hLen - 1)
  let db := clearTop clear (zipWith (· ^^^ ·) maskedDb dbMask)
  let salt := db.drop (emLen - hLen - saltLen - 1)
  decide (hLen + saltLen + 2 ≤ emLen ∧ em.getLast? = some 0xbc ∧
    (∀ b ∈ maskedDb.head?, b >>> (8 - clear) = 0) ∧
    db.take (emLen - hLen - saltLen - 1) = replicate (emLen - hLen - saltLen - 2) 0 ++ [1] ∧
    H.hash (replicate 8 0 ++ H.hash msg ++ salt) = h)

/-! ## The mask -/

variable {H} {seed : List Byte} {length counter : ℕ}

theorem length_blocks : (blocks H seed counter).length = 48 * counter := by
  induction counter with
  | zero => rfl
  | succ counter ih =>
    rw [blocks, range_succ, flatMap_append, length_append]
    simp only [flatMap_singleton, H.length_hash, blocks] at ih ⊢
    omega

/-- The loop writes the blocks of the standard until it has enough or the counter overflows. -/
theorem mgf1Loop_eq (hcounter : counter ≤ 2 ^ 32) (hcount : counter ≤ (length + 47) / 48) :
    mgf1Loop H seed length (blocks H seed counter) counter =
      if length ≤ 48 * 2 ^ 32 then .ok (mgf H seed length) else .error .overflowError := by
  induction hk : (length + 47) / 48 - counter generalizing counter with
  | zero =>
    obtain rfl : counter = (length + 47) / 48 := by omega
    rw [mgf1Loop, length_blocks, if_neg (by omega), if_pos (by omega)]
    rfl
  | succ k ih =>
    rw [mgf1Loop, length_blocks, if_pos (by omega), i2osp]
    by_cases hfits : counter < 256 ^ 4
    · have hnext : blocks H seed counter ++ H.hash (seed ++ octets counter 4) =
          blocks H seed (counter + 1) := by
        simp [blocks, range_succ]
      rw [if_pos hfits]
      simp only [hnext]
      exact ih (by omega) (by omega) (by omega)
    · rw [if_neg hfits, if_neg (by omega)]

theorem mgf1_eq : mgf1 H seed length =
    if length ≤ 48 * 2 ^ 32 then .ok (mgf H seed length) else .error .overflowError :=
  mgf1Loop_eq (Nat.zero_le _) (Nat.zero_le _)

theorem length_mgf : (mgf H seed length).length = length := by
  rw [mgf, length_take, length_blocks, hLen]
  omega

/-! ## The padding -/

variable {d m c : Byte} {clear : ℕ} {xs ys : List Byte}

theorem unmask_and (d m b : Byte) : (((d ^^^ m) &&& b) ^^^ m) &&& b = d &&& b := by
  ext i hi
  simp only [BitVec.getElem_and, BitVec.getElem_xor]
  cases d[i] <;> cases m[i] <;> cases b[i] <;> rfl

theorem and_clear_lt (hclear : clear < 8) :
    (d &&& ((0xFF : Byte) >>> clear)).toNat < 2 ^ (8 - clear) := by
  rw [BitVec.toNat_and]
  refine Nat.lt_of_le_of_lt Nat.and_le_right ?_
  interval_cases clear <;> decide

@[simp] theorem clearTop_zero : clearTop 0 xs = xs := by
  cases xs with
  | nil => rfl
  | cons b bs => exact congrArg (· :: bs) BitVec.and_allOnes

@[simp] theorem length_clearTop : (clearTop clear xs).length = xs.length := by
  cases xs with
  | nil => rfl
  | cons b bs => rfl

theorem unmask (hlen : xs.length ≤ ys.length) :
    zipWith (· ^^^ ·) (zipWith (· ^^^ ·) xs ys) ys = xs := by
  induction xs generalizing ys with
  | nil => simp
  | cons x xs ih =>
    cases ys with
    | nil => simp at hlen
    | cons y ys => simp [ih (Nat.le_of_succ_le_succ hlen), BitVec.xor_assoc]

/-- Unmasking gives back what was masked, up to the bits that were cleared. -/
theorem clearTop_unmask (hlen : xs.length ≤ ys.length) :
    clearTop clear (zipWith (· ^^^ ·) (clearTop clear (zipWith (· ^^^ ·) xs ys)) ys) =
      clearTop clear xs := by
  cases xs with
  | nil => rfl
  | cons x xs =>
    cases ys with
    | nil => simp at hlen
    | cons y ys =>
      simp only [clearTop, zipWith_cons_cons, unmask_and, unmask (Nat.le_of_succ_le_succ hlen)]

/-- The padding before the salt. -/
def padding (zeros : ℕ) : List Byte := replicate zeros 0 ++ [1]

theorem clearTop_padding (hclear : clear < 8) (zeros : ℕ) (salt : List Byte) :
    clearTop clear (padding zeros ++ salt) = padding zeros ++ salt := by
  cases zeros with
  | zero =>
    have hone : (1 : Byte) &&& ((0xFF : Byte) >>> clear) = 1 := by interval_cases clear <;> decide
    exact congrArg (· :: salt) hone
  | succ k => simp [padding, clearTop, replicate_succ]

/-! ## The encoding -/

variable {msg salt em : List Byte} {emBits : ℕ}

/-- The digest that an encoding ends with. -/
def sealHash (H : Digest) (salt msg : List Byte) : List Byte :=
  H.hash (replicate 8 0 ++ H.hash msg ++ salt)

/-- What an encoding begins with. -/
def maskedDb (H : Digest) (salt msg : List Byte) (emBits : ℕ) : List Byte :=
  let emLen := (emBits + 7) / 8
  clearTop (8 * emLen - emBits) (zipWith (· ^^^ ·) (padding (emLen - 98) ++ salt)
    (mgf H (sealHash H salt msg) (emLen - 49)))

/-- What the code writes. -/
def encoded (H : Digest) (salt msg : List Byte) (emBits : ℕ) : List Byte :=
  maskedDb H salt msg emBits ++ sealHash H salt msg ++ [0xbc]

theorem emsaPssEncode_eq : emsaPssEncode H salt msg emBits =
    if (emBits + 7) / 8 < 98 then .error (.valueError "encoding error: modulus too small")
    else if (emBits + 7) / 8 - 49 ≤ 48 * 2 ^ 32 then .ok (encoded H salt msg emBits)
    else .error .overflowError := by
  have hclear : ∀ (clear : ℕ) (xs : List Byte),
      (if clear ≠ 0 then clearTop clear xs else xs) = clearTop clear xs := by
    intro clear xs
    split
    · rfl
    · rename_i hzero
      rw [not_not.mp hzero, clearTop_zero]
  unfold emsaPssEncode
  simp only [hclear, mgf1_eq, hLen, saltLen, Nat.sub_sub, Nat.reduceAdd]
  refine if_congr Iff.rfl rfl ?_
  split
  · rfl
  · rfl

section Padded

variable (H msg) (hsalt : salt.length = saltLen) (hlen : 98 ≤ (emBits + 7) / 8)

include hsalt hlen

theorem length_padded : (padding ((emBits + 7) / 8 - 98) ++ salt).length = (emBits + 7) / 8 - 49 := by
  simp only [padding, length_append, length_replicate, length_singleton, hsalt, saltLen]
  omega

theorem length_maskedDb : (maskedDb H salt msg emBits).length = (emBits + 7) / 8 - 49 := by
  rw [maskedDb, length_clearTop, length_zipWith, length_mgf, length_padded hsalt hlen, Nat.min_self]

theorem length_encoded : (encoded H salt msg emBits).length = (emBits + 7) / 8 := by
  rw [encoded, length_append, length_append, length_maskedDb H msg hsalt hlen, sealHash, H.length_hash,
    length_singleton]
  omega

/-- The first octet has the bits cleared that are to be. -/
theorem maskedDb_cons : ∃ b bs, maskedDb H salt msg emBits = b :: bs ∧
    b.toNat < 2 ^ (8 - (8 * ((emBits + 7) / 8) - emBits)) := by
  have hlength := length_maskedDb H msg hsalt hlen
  unfold maskedDb at hlength ⊢
  cases hdb : zipWith (· ^^^ ·) (padding ((emBits + 7) / 8 - 98) ++ salt)
      (mgf H (sealHash H salt msg) ((emBits + 7) / 8 - 49)) with
  | nil =>
    simp only [hdb, clearTop, length_nil] at hlength
    omega
  | cons b bs =>
    dsimp only
    rw [hdb]
    exact ⟨_, bs, rfl, and_clear_lt (by omega)⟩

/-- The encoding is below the bound that the cleared bits are for. -/
theorem encoded_lt : os2ip (encoded H salt msg emBits) < 2 ^ emBits := by
  obtain ⟨b, bs, hcons, hb⟩ := maskedDb_cons H msg hsalt hlen
  have hlength := length_encoded H msg hsalt hlen
  rw [encoded, hcons, cons_append, cons_append] at hlength ⊢
  set rest := bs ++ sealHash H salt msg ++ [0xbc]
  have hrest : rest.length = (emBits + 7) / 8 - 1 := by
    rw [length_cons] at hlength
    omega
  have hlow := os2ip_lt rest
  rw [hrest] at hlow
  have hpow : 2 ^ emBits = 2 ^ (8 - (8 * ((emBits + 7) / 8) - emBits)) *
      256 ^ ((emBits + 7) / 8 - 1) := by
    rw [show 256 = 2 ^ 8 from rfl, ← pow_mul, ← pow_add]
    congr 1
    omega
  calc os2ip (b :: rest) = b.toNat * 256 ^ ((emBits + 7) / 8 - 1) + os2ip rest := by
        rw [os2ip_cons, hrest]
    _ < (b.toNat + 1) * 256 ^ ((emBits + 7) / 8 - 1) := by
        rw [Nat.add_mul, one_mul]
        exact Nat.add_lt_add_left hlow _
    _ ≤ 2 ^ emBits := hpow ▸ Nat.mul_le_mul_right _ hb

/-- The encoding passes the procedure of the standard. -/
theorem encoded_verifies : emsaPssVerify H msg (encoded H salt msg emBits) emBits = true := by
  have hmasked := length_maskedDb H msg hsalt hlen
  have htake : (encoded H salt msg emBits).take ((emBits + 7) / 8 - 49) =
      maskedDb H salt msg emBits := by
    rw [encoded, append_assoc, take_left' hmasked]
  have hdrop : (encoded H salt msg emBits).drop ((emBits + 7) / 8 - 49) =
      sealHash H salt msg ++ [0xbc] := by
    rw [encoded, append_assoc, drop_left' hmasked]
  have hseal : (sealHash H salt msg ++ [0xbc]).take 48 = sealHash H salt msg :=
    take_left' (H.length_hash _)
  have hdb : clearTop (8 * ((emBits + 7) / 8) - emBits) (zipWith (· ^^^ ·)
      (maskedDb H salt msg emBits) (mgf H (sealHash H salt msg) ((emBits + 7) / 8 - 49))) =
      padding ((emBits + 7) / 8 - 98) ++ salt := by
    rw [maskedDb, clearTop_unmask, clearTop_padding (by omega)]
    rw [length_padded hsalt hlen, length_mgf]
  have hzeros : (padding ((emBits + 7) / 8 - 98)).length = (emBits + 7) / 8 - 97 := by
    simp only [padding, length_append, length_replicate, length_singleton]
    omega
  unfold emsaPssVerify
  simp only [hLen, saltLen, Nat.sub_sub, Nat.reduceAdd, htake, hdrop, hseal, hdb]
  refine decide_eq_true ⟨hlen, ?_, fun b hb => ?_, ?_, ?_⟩
  · rw [encoded, getLast?_append, getLast?_singleton]
    rfl
  · obtain ⟨c, bs, hcons, hc⟩ := maskedDb_cons H msg hsalt hlen
    rw [hcons, head?_cons, Option.mem_some] at hb
    subst hb
    refine BitVec.eq_of_toNat_eq ?_
    rw [BitVec.toNat_ushiftRight, Nat.shiftRight_eq_div_pow, Nat.div_eq_of_lt hc]
    rfl
  · rw [take_left' hzeros]
    rfl
  · rw [drop_left' hzeros]
    rfl

end Padded

end RcqServer.DepositAuth
