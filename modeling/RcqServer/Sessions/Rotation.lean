import RcqServer.Sessions.Devices

/-!
# Rotating an account's keys

`POST /auth/reissue`, with the proof by the old signing key (`services/reissue_proof.py`).  The
vault of the account, which the transaction empties, and the frames and counters after it are left
out.
-/

namespace RcqServer.Sessions

open ReadCommitted

/-! ## The proof -/

/-- `REISSUE_PROOF_SKEW_SECONDS`. -/
def reissueProofSkew : ℤ := 600

/-- `_NONCE_TTL_SECONDS`. -/
def nonceTtl : Time := 1800

/-- `reissue_proof.VERSION`. -/
def proofVersion : ℤ := 1

/-- The part of a host before its port, and the port.  An IPv6 literal keeps its brackets. -/
def splitPort (host : List Char) : List Char × List Char :=
  if host.head? = some '[' then
    match (host.dropWhile (· != ']')).tail with
    | ':' :: port => (host.takeWhile (· != ']') ++ [']'], port)
    | _ => (host, [])
  else if host.count ':' = 1 then
    (host.takeWhile (· != ':'), (host.dropWhile (· != ':')).tail)
  else (host, [])

/-- `canonical_host`. -/
def canonicalHost (value : List Char) : List Char :=
  let parts := splitPort ((strip value).map Char.toLower)
  let host := parts.1.rdropWhile (· == '.')
  if parts.2 = [] ∨ parts.2 = "443".toList then host else host ++ ':' :: parts.2

/-- `decode_nonce`: 16 bytes in 22 characters of base64url. -/
def decodeNonce (value : List Char) : Option (List ℕ) :=
  let raw := strip value
  if raw.length = 22 ∧ raw.all (fun c => c.isAlphanum || c == '-' || c == '_') then
    let standard := raw.map fun c => if c = '-' then '+' else if c = '_' then '/' else c
    (Base64.decode (standard ++ ['=', '='])).filter (·.length = 16)
  else none

/-- `decode_signature`. -/
def decodeSignature (value : List Char) : Option (List ℕ) :=
  (Base64.decode (Base64.pad (strip value))).filter (·.length = 64)

/-- `proof_bytes`, field by field in its canonical form. -/
structure ProofMessage where
  host : List Char
  uin : Uin
  oldKey : KeyBytes
  newIdentity : KeyBytes
  newSigning : KeyBytes
  ts : ℤ
  nonce : List ℕ

/-- `Ed25519PublicKey.verify`. -/
abbrev Verify := KeyBytes → ProofMessage → List ℕ → Bool

/-- The proof fields of the body, as they were sent. -/
structure ProofFields where
  proofV : Option ℤ
  host : Option (List Char)
  oldSigningKey : Option KeyText
  ts : Option ℤ
  nonce : Option (List Char)
  signature : Option (List Char)

/-- At least one of the fields was sent. -/
def ProofFields.offered (p : ProofFields) : Bool :=
  p.proofV.isSome || p.host.isSome || p.oldSigningKey.isSome || p.ts.isSome || p.nonce.isSome ||
    p.signature.isSome

/-- A proof whose fields are all there and decode. -/
structure Proof where
  version : ℤ
  host : List Char
  oldKey : KeyBytes
  ts : ℤ
  nonce : List ℕ
  signature : List ℕ

def ProofFields.decode (p : ProofFields) : Option Proof := do
  let version ← p.proofV
  let ts ← p.ts
  let host ← (p.host.map canonicalHost).filter (!·.isEmpty)
  let oldKey ← p.oldSigningKey.bind fun text => decodeKey32 (strip text)
  let nonce ← p.nonce.bind decodeNonce
  let signature ← p.signature.bind decodeSignature
  return ⟨version, host, oldKey, ts, nonce, signature⟩

/-! ## The request -/

structure ReissueIn where
  identityKey : KeyText
  signingKey : KeyText
  proof : ProofFields

structure ReissueEnv where
  /-- The setting `reissue_require_proof`. -/
  requireProof : Bool
  /-- The names of this island. -/
  hosts : List (List Char)
  /-- The database fails to commit. -/
  commitFails : Bool

/-- A rotation in the making. -/
structure Change where
  uin : Uin
  user : Account
  identityKey : KeyText
  signingKey : KeyText
  newIdentity : KeyBytes
  newSigning : KeyBytes

/-- The nonce of an accepted proof, and when it was claimed. -/
structure Claim where
  nonce : NonceKey
  ts : ℤ
  claimedAt : Time

/-- `_signing_key_taken_by`: other accounts whose signing key has one of the two usual spellings. -/
def Db.takenBy (db : Db) (key : KeyBytes) (uin : Uin) : List Uin :=
  (db.users.select fun u row => u != uin && (keySpellings key).contains row.signingKey).map Prod.fst

/-- `_claim_reissue_nonce`, `SET NX EX`. -/
def claimNonce (l : Label) (nonce : NonceKey) (ts : ℤ) : Handler (Option Claim) :=
  .stmt l (fun _ _ => [])
    (fun _ e => if (Expiring.read e.now (e.nonces.get nonce)).isNone then
      { e with nonces := e.nonces.set nonce (some ⟨(), some (e.now + nonceTtl)⟩) } else e)
    fun _ e => .ret (if (Expiring.read e.now (e.nonces.get nonce)).isNone then
      some ⟨nonce, ts, e.now⟩ else none)

/-- The one collision that is in order: the old key, which the caller has proved to hold, was
retired by an account that has the new key. -/
def refuseTaken (c : Change) (taken : List Uin) (old : KeyBytes) : Handler Unit :=
  if taken = [] then
    return ()
  else do
    let marker ← .read (.rotate c.uin c.newSigning .marker) fun db _ => db.retiredKeys.get old
    .raiseIf (¬∃ uin ∈ marker, uin ∈ taken) ⟨403, "key_proof_required"⟩

/-- A proof that was offered is judged, whether one is required or not. -/
def judgeProof (verify : Verify) (env : ReissueEnv) (c : Change) (taken : List Uin) (p : Proof) :
    Handler Claim := do
  let l := Label.rotate c.uin c.newSigning
  .raiseIf (p.version ≠ proofVersion) ⟨400, "reissue_proof_version"⟩
  .raiseIf (p.host ∉ env.hosts) ⟨400, "reissue_wrong_host"⟩
  .raiseIf (decodeKey32 c.user.signingKey ≠ some p.oldKey) ⟨409, "reissue_old_key_mismatch"⟩
  let now ← .read (l .clock) fun _ e => e.now
  .raiseIf (reissueProofSkew < |(now : ℤ) - p.ts|) ⟨400, "reissue_clock_skew"⟩
  let message : ProofMessage :=
    ⟨p.host, c.uin, p.oldKey, c.newIdentity, c.newSigning, p.ts, p.nonce⟩
  .raiseIf (verify p.oldKey message p.signature = false) ⟨403, "reissue_bad_signature"⟩
  refuseTaken c taken p.oldKey
  let claim ← claimNonce (l (.claim (p.oldKey, p.nonce) p.ts)) (p.oldKey, p.nonce) p.ts
  match claim with
  | none => .raise ⟨409, "reissue_replayed"⟩
  | some claim => return claim

/-- Whether the change is signed, and by which claim. -/
def judge (verify : Verify) (env : ReissueEnv) (c : Change) (taken : List Uin)
    (fields : ProofFields) : Handler (Option Claim) :=
  if fields.offered then
    match fields.decode with
    | none => .raise ⟨400, "reissue_proof_malformed"⟩
    | some p => do return some (← judgeProof verify env c taken p)
  else do
    .raiseIf (env.requireProof = true) ⟨403, "reissue_proof_required"⟩
    .raiseIf (taken ≠ []) ⟨403, "key_proof_required"⟩
    return none

/-- `_retire_signing_key`; not done if the `INSERT` has failed. -/
def retireSigningKey (c : Change) (old : KeyBytes) (signed : Bool) : Handler Bool := do
  let l := Label.rotate c.uin c.newSigning
  let row ← .read (l .getRetired) fun db _ => db.retiredKeys.get old
  match row with
  | none =>
    .write (l .writeRetired)
      (fun db _ => [.retired old (some ((db.retiredKeys.get old).getD c.uin))])
      fun db _ => (db.retiredKeys.get old).isNone
  | some owner =>
    if signed = true ∨ owner = c.uin then
      .write (l .writeRetired) (fun _ _ => [.retired old (some c.uin)]) fun _ _ => true
    else
      -- an unsigned change does not take the marker from another live account
      let alive ← .read (l .getAlive) fun db _ => (db.users.get owner).isSome
      .onlyIf (alive = false)
        (.write (l .writeRetired) (fun _ _ => [.retired old (some c.uin)]) fun _ _ => ())
      return true

/-- The old key is retired if it was a key and is another one than the new. -/
def retireOld (c : Change) (signed : Bool) : Handler Bool :=
  match decodeKey32 c.user.signingKey with
  | none => return true
  | some old => if old = c.newSigning then return true else retireSigningKey c old signed

/-- A signed change bumps the epoch; the outer `Option` is empty if that has failed. -/
def bumpIfSigned (c : Change) (signed : Bool) : Handler (Option (Option ℕ)) :=
  if signed then do
    let epoch ← bumpUinEpoch (some c.newSigning) c.uin
    return epoch.map some
  else return some none

/-- The transaction has failed: `_release_reissue_nonce`, and the exception. -/
def failRotation {α : Type} (c : Change) (claim : Option Claim) : Handler α :=
  .rollback <|
    match claim with
    | none => .raise internalError
    | some claim => do
      .effect (.rotate c.uin c.newSigning (.release claim.claimedAt)) fun _ e =>
        { e with nonces := e.nonces.set claim.nonce none }
      .raise internalError

/-- What the commit of a rotation puts on record. -/
def Ext.rotated (e : Ext) (c : Change) (taken : List Uin) (claim : Option Claim)
    (epoch : Option ℕ) : Ext :=
  { e with
    rotations := ⟨c.uin, c.newSigning, claim.isSome, taken ≠ [],
      claim.map fun claim => (claim.nonce, claim.ts), epoch, e.issued.map Issue.token⟩ :: e.rotations }

/-- After the commit: the write-through, and a token under the epoch that the change has produced. -/
def handOver (token : Token) (c : Change) (epoch : Option ℕ) : Handler Token :=
  match epoch with
  | some epoch => do
    cacheUinEpoch (some c.newSigning) c.uin epoch
    mint .mint (some token) fun now => issueToken now c.uin epoch token.device
  | none => do
    let epoch ← uinEpoch c.uin
    mint .mint (some token) fun now => issueToken now c.uin epoch token.device

/-- The new columns of the account. -/
def Change.apply (c : Change) (now : Time) (row : Account) : Account :=
  { row with
    identityKey := c.identityKey
    signingKey := c.signingKey
    keyUnprovenSince :=
      if c.user.guest ∧ decodeKey32 c.user.signingKey ≠ some c.newSigning then some now
      else row.keyUnprovenSince }

/-- The transaction of a rotation. -/
def applyChange (token : Token) (env : ReissueEnv) (c : Change) (taken : List Uin)
    (claim : Option Claim) : Handler Token := do
  let l := Label.rotate c.uin c.newSigning
  .write (l .writeUser)
    (fun db e => ((db.users.get c.uin).map fun row =>
      .user c.uin (some (c.apply e.now row))).toList) fun _ _ => ()
  let retired ← retireOld c claim.isSome
  if retired = false then
    failRotation c claim
  else
    let epoch ← bumpIfSigned c claim.isSome
    match epoch with
    | none => failRotation c claim
    | some epoch =>
      if env.commitFails then
        failRotation c claim
      else
        .commit (l (.commit claim.isSome)) (fun e => e.rotated c taken claim epoch) (.ret ())
        handOver token c epoch

/-- `POST /auth/reissue`. -/
def reissue (verify : Verify) (token : Token) (body : ReissueIn) (env : ReissueEnv) :
    Handler Token := do
  let uin ← authorizeSession token
  match decodeKey32 (strip body.identityKey), decodeKey32 (strip body.signingKey) with
  | some newIdentity, some newSigning =>
    let user ← .read .getUser fun db _ => db.users.get uin
    match user with
    | none => .raise ⟨404, "user_not_found"⟩
    | some user =>
      -- the same keys are not a rotation, however they are spelled
      if decodeKey32 user.identityKey = some newIdentity ∧
          decodeKey32 user.signingKey = some newSigning then
        if env.requireProof then
          return token
        else
          let epoch ← uinEpoch uin
          mint .mint (some token) fun now => issueToken now uin epoch token.device
      else
        let c : Change :=
          ⟨uin, user, strip body.identityKey, strip body.signingKey, newIdentity, newSigning⟩
        let taken ← .read .takenBy fun db _ => db.takenBy newSigning uin
        let claim ← judge verify env c taken body.proof
        applyChange token env c taken claim
  | _, _ => .raise ⟨400, "bad_key"⟩

end RcqServer.Sessions
