import RcqServer.Guests.Mirror
import RcqServer.ReadCommitted.Interleaving
import Mathlib.Data.List.Sort

/-!
# Guest copies

`POST /auth/guest`, `POST /groups/{id}/guests`, the settlement of a guest and the deletion of an
account, with the steps of `services/guest_accounts.py`.

What the requests ask of settings, rooms and budgets is given to them, as the refusal that it leads to.
Memberships, epochs and frames are left out.
-/

namespace RcqServer.Guests

open ReadCommitted

/-! ## Keys -/

/-- A key that is one, as bytes. -/
def checkKey (text : KeyText) (field : String) : Handler KeyBytes :=
  match pubkey32 text field, decodeKey32 text with
  | .error e, _ => .raise e
  | .ok _, none => .raise internalError
  | .ok _, some raw => return raw

structure KeyRow where
  uin : Uin
  guestStatus : Option Status
  identityKey : KeyText

/-- `first_claim_order`. -/
def claimedBefore (a b : Uin × User) : Prop :=
  a.2.claimedAt < b.2.claimedAt ∨ a.2.claimedAt = b.2.claimedAt ∧ a.1 ≤ b.1

instance : DecidableRel claimedBefore := fun a b =>
  inferInstanceAs (Decidable (a.2.claimedAt < b.2.claimedAt ∨ a.2.claimedAt = b.2.claimedAt ∧ _))

/-- `row_for_key`, over both canonical texts of the key. -/
def Db.rowForKey (db : Db) (raw : KeyBytes) : Option KeyRow :=
  let rows := db.users.select fun _ row => (keySpellings raw).contains row.signingKey
  (rows.insertionSort claimedBefore).head?.map fun r => ⟨r.1, r.2.guestStatus, r.2.identityKey⟩

def rowForKey (raw : KeyBytes) : Handler (Option KeyRow) :=
  .read .rowForKey fun db _ => db.rowForKey raw

/-- `_rotated_account`. -/
def rotatedAccount (raw : KeyBytes) : Handler (Option Uin) := do
  let row ← .read .retiredKey fun db _ => db.retiredKeys.get raw
  match row with
  | none => return none
  | some uin =>
    let alive ← .read .alive fun db _ => (db.users.get uin).isSome
    return if alive then some uin else none

/-! ## Single use and the create lock -/

/-- `CHALLENGE_GUARD_TTL_SECONDS`. -/
def challengeTtl : Time := 300

/-- `CREATE_LOCK_TTL_SECONDS`. -/
def createLockTtl : Time := 30

/-- `claim_challenge`. -/
def claimChallenge (challenge : Challenge) : Handler Unit :=
  .stmt .claimChallenge (fun _ _ => [])
    (fun _ e => if (Expiring.read e.now (e.challenges.get challenge)).isNone then
      { e with challenges := e.challenges.set challenge (some ⟨(), some (e.now + challengeTtl)⟩) }
      else e)
    fun _ e => .raiseIf (¬(Expiring.read e.now (e.challenges.get challenge)).isNone)
      ⟨409, "guest_replayed"⟩

/-- `release_key`. -/
def releaseKey (guard : Option Challenge) : Handler Unit :=
  match guard with
  | none => return ()
  | some challenge => .effect .releaseKey fun _ e =>
    { e with challenges := e.challenges.set challenge none }

structure CreateLock where
  key : KeyBytes
  token : ℕ
  expires : Time

/-- `acquire_create_lock`, `SET NX EX`. -/
def acquireCreateLock (raw : KeyBytes) : Handler CreateLock :=
  .stmt .lock (fun _ _ => [])
    (fun _ e => if (Expiring.read e.now (e.createLocks.get raw)).isNone then
      { e with
        createLocks := e.createLocks.set raw (some ⟨e.nextToken, some (e.now + createLockTtl)⟩)
        nextToken := e.nextToken + 1 } else e)
    fun _ e => if (Expiring.read e.now (e.createLocks.get raw)).isNone then
      .ret ⟨raw, e.nextToken, e.now + createLockTtl⟩ else .raise ⟨409, "guest_busy"⟩

/-- `release_create_lock`: only one's own. -/
def releaseCreateLock (lock : CreateLock) : Handler Unit :=
  .effect .unlock fun _ e =>
    if Expiring.read e.now (e.createLocks.get lock.key) = some lock.token then
      { e with createLocks := e.createLocks.set lock.key none }
    else e

/-! ## The mint -/

structure MintEnv where
  draw : ℕ → Uin
  /-- The number is reserved, owned, held or promised. -/
  spoken : Uin → Bool
  /-- Redis does not take the mark. -/
  markFails : Bool
  commitFails : Bool

/-- The tries of `allocate_uin` that are left. -/
def allocateFrom (env : MintEnv) : ℕ → Handler Uin
  | 0 => .raise internalError
  | tries + 1 =>
    if env.spoken (env.draw tries) then
      allocateFrom env tries
    else do
      let used ← .read .checkUin fun db _ => (db.users.get (env.draw tries)).isSome
      if used then allocateFrom env tries else return env.draw tries

/-- `allocate_uin`. -/
def allocateUin (env : MintEnv) : Handler Uin := allocateFrom env 100

/-- The `INSERT` of a guest, which waits for whoever has the number locked and fails on a row that is
there. -/
def insertGuest (uin : Uin) (identityKey signingKey : KeyText) (status : Status) : Handler Unit :=
  .stmt (.insertUser uin)
    (fun _ e => [.insert uin ⟨identityKey, signingKey, some status, e.now, false⟩])
    (fun _ e => e)
    fun db _ => if (db.users.get uin).isSome then .rollback (.raise internalError) else .ret ()

/-- A new guest, in one transaction with its first membership. -/
def mint (env : MintEnv) (identityKey signingKey : KeyText) (status : Status) (lock : CreateLock)
    (guard : Option Challenge) : Handler Uin := do
  let uin ← allocateUin env
  insertGuest uin identityKey signingKey status
  if env.markFails then
    .rollback do
      releaseKey guard
      .raise guestUnavailable
  else
    -- before the commit, and not best effort
    let markedAt ← markGuest uin
    if env.commitFails then
      .rollback do
        unmarkGuest uin
        releaseKey guard
        .raise internalError
    else
      .commit (.commitMint markedAt lock.expires) id (.ret uin)

/-! ## `POST /auth/guest` -/

structure GuestIn where
  version : ℤ
  identityKey : KeyText
  signingKey : KeyText
  challenge : Challenge

/-- What the handler learns from outside the tables. -/
structure GuestEnv extends MintEnv where
  signatureDecodes : Bool
  challengeValid : Bool
  hostKnown : Bool
  signatureValid : Bool
  deviceRevoked : Bool
  /-- The settings, the room or its budget refuse a new guest. -/
  refusal : Option HttpError

structure GuestOut where
  uin : Uin
  guest : Bool
  created : Bool
deriving DecidableEq

/-- An `UPDATE`, and whether it has found a row to change. -/
def update (l : Label) (uin : Uin) (change : Change) (p : User → Bool) : Handler Bool :=
  .write l (fun db _ => if (db.users.get uin).any p then [.update uin change] else [])
    fun db _ => (db.users.get uin).any p

/-- The claim of a seat that nobody has proven yet. -/
def claimSeat (env : GuestEnv) (row : KeyRow) (identityKey : KeyText) (guard : Option Challenge) :
    Handler Bool :=
  if row.guestStatus = some .added then
    if env.markFails then do
      releaseKey guard
      .raise guestUnavailable
    else do
      let _ ← markGuest row.uin
      update .claimSeat row.uin (.claim identityKey) (·.guestStatus == some .added)
  else return false

/-- The identity key of a guest is repaired if it is another one than the proven. -/
def repairKey (row : KeyRow) (identityKey : KeyText) (raw : KeyBytes) (claimed : Bool) :
    Handler Bool :=
  if claimed = false ∧ decodeKey32 row.identityKey ≠ some raw then
    update .repair row.uin (.repair identityKey) (·.guestStatus.isSome)
  else return claimed

/-- `_guest_existing_row`. -/
def guestExistingRow (env : GuestEnv) (row : KeyRow) (identityKey : KeyText) (raw : KeyBytes)
    (guard : Option Challenge) : Handler GuestOut := do
  .raiseIf (env.deviceRevoked = true) ⟨401, "device_revoked"⟩
  let unproven ← update .proveKey row.uin .proveKey (·.keyUnproven)
  .onlyIf (unproven = true) (.commitOnly .commit)
  if row.guestStatus = none then
    return ⟨row.uin, false, false⟩
  else
    let claimed ← claimSeat env row identityKey guard
    let changed ← repairKey row identityKey raw claimed
    .onlyIf (changed = true) (.commitOnly .commit)
    let guest ← .read .readBack fun db _ => db.guest row.uin
    return ⟨row.uin, guest, false⟩

/-- A request refuses as the settings or the room do. -/
def refuseAs (refusal : Option HttpError) : Handler Unit :=
  match refusal with
  | none => return ()
  | some e => .raise e

/-- A new guest under the create lock, unless there is a row by then. -/
def guestUnderLock (body : GuestIn) (env : GuestEnv) (rawIdentity raw : KeyBytes)
    (lock : CreateLock) : Handler GuestOut := do
  let existing ← rowForKey raw
  match existing with
  | some row => guestExistingRow env row body.identityKey rawIdentity (some body.challenge)
  | none =>
    let uin ← mint env.toMintEnv body.identityKey body.signingKey .proven lock
      (some body.challenge)
    return ⟨uin, true, true⟩

/-- `POST /auth/guest`. -/
def guestJoin (body : GuestIn) (env : GuestEnv) : Handler GuestOut := do
  .raiseIf (body.version ≠ 1) ⟨400, "guest_proof_version"⟩
  let rawIdentity ← checkKey body.identityKey "identity_key"
  let raw ← checkKey body.signingKey "signing_key"
  .raiseIf (env.signatureDecodes = false) ⟨400, "guest_proof_malformed"⟩
  .raiseIf (env.challengeValid = false) ⟨400, "invalid_challenge"⟩
  .raiseIf (env.hostKnown = false) ⟨400, "guest_wrong_host"⟩
  .raiseIf (env.signatureValid = false) ⟨401, "bad_signature"⟩
  claimChallenge body.challenge
  let existing ← rowForKey raw
  match existing with
  | some row => guestExistingRow env row body.identityKey rawIdentity (some body.challenge)
  | none =>
    let rotated ← rotatedAccount raw
    .raiseIf rotated.isSome ⟨404, "identity_rotated"⟩
    refuseAs env.refusal
    let lock ← acquireCreateLock raw
    let out ← (guestUnderLock body env rawIdentity raw lock).attempt
    releaseCreateLock lock
    .ofExcept out

/-! ## `POST /groups/{id}/guests` -/

structure GuestAddIn where
  identityKey : KeyText
  signingKey : KeyText
  nickname : String

structure GuestAddEnv extends MintEnv where
  cacheFails : Bool
  /-- The room, the settings or the ceiling refuse the caller. -/
  callerRefusal : Option HttpError
  /-- The room or its budgets refuse a new guest. -/
  roomRefusal : Option HttpError
  /-- The checks of a target that has a row. -/
  targetRefusal : Option HttpError
  /-- The target is in the room already. -/
  isMember : Bool

/-- The key has a row: it gets a membership. -/
def addExisting (env : GuestAddEnv) (row : KeyRow) : Handler GuestOut := do
  let guest ← .read .getUser fun db _ => db.guest row.uin
  refuseAs env.targetRefusal
  .onlyIf (env.isMember = false) (.commitOnly .commit)
  return ⟨row.uin, guest, false⟩

/-- A new seat under the create lock, unless there is a row by then. -/
def seatUnderLock (body : GuestAddIn) (env : GuestAddEnv) (raw : KeyBytes) (lock : CreateLock) :
    Handler GuestOut := do
  let row ← rowForKey raw
  match row with
  | some row => addExisting env row
  | none =>
    let uin ← mint env.toMintEnv body.identityKey body.signingKey .added lock none
    return ⟨uin, true, true⟩

/-- `POST /groups/{id}/guests`: no proof of the key. -/
def addGuest (me : Uin) (body : GuestAddIn) (env : GuestAddEnv) : Handler GuestOut := do
  let guest ← isGuest me env.cacheFails
  .raiseIf (guest = true) ⟨403, "guest_restricted"⟩
  let _ ← checkKey body.identityKey "identity_key"
  let raw ← checkKey body.signingKey "signing_key"
  .raiseIf (body.nickname = "") ⟨422, "nickname is empty"⟩
  refuseAs env.callerRefusal
  let row ← rowForKey raw
  match row with
  | some row => addExisting env row
  | none =>
    let rotated ← rotatedAccount raw
    .raiseIf rotated.isSome ⟨409, "guest_key_retired"⟩
    refuseAs env.roomRefusal
    let lock ← acquireCreateLock raw
    let out ← (seatUnderLock body env raw lock).attempt
    releaseCreateLock lock
    .ofExcept out

/-! ## The end of a guest -/

/-- `POST /auth/guest/settle`; `gate` is the refusal of the door, if it refuses. -/
def guestSettle (me : Uin) (gate : Option HttpError) : Handler Unit := do
  let row ← .read .getUser fun db _ => db.users.get me
  match row with
  | none => .raise ⟨404, "user_not_found"⟩
  | some row =>
    .raiseIf (row.guestStatus = none) ⟨409, "not_a_guest"⟩
    refuseAs gate
    let found ← update .settle me .settle fun _ => true
    .raiseIf (found = false) internalError
    .commit .commit (fun e => { e with retired := me :: e.retired }) (.ret ())
    unmarkGuest me

/-- `purge_account`, of the row and its mark. -/
def purgeAccount (uin : Uin) : Handler Unit := do
  let row ← .read .getUser fun db _ => db.users.get uin
  match row with
  | none => .raise ⟨404, "user not found"⟩
  | some row =>
    .write .delete (fun _ _ => [.delete uin]) fun _ _ => ()
    .commit .commit (fun e => { e with retired := uin :: e.retired, purged := uin :: e.purged })
      (.ret ())
    .onlyIf (row.guestStatus.isSome = true) (unmarkGuest uin)

/-! ## The requests -/

inductive Request
  | guestJoin (body : GuestIn) (env : GuestEnv)
  | addGuest (me : Uin) (body : GuestAddIn) (env : GuestAddEnv)
  | guestSettle (me : Uin) (gate : Option HttpError)
  | purgeAccount (uin : Uin)
  | isGuest (uin : Uin) (cacheFails : Bool)
  | background
  | tick (seconds : ℕ)

inductive Answer
  | guest (out : GuestOut)
  | isGuest (answer : Bool)
  | done
deriving DecidableEq

def handler : Request → Handler Answer
  | .guestJoin body env => do return .guest (← guestJoin body env)
  | .addGuest me body env => do return .guest (← addGuest me body env)
  | .guestSettle me gate => do
    guestSettle me gate
    return .done
  | .purgeAccount uin => do
    purgeAccount uin
    return .done
  | .isGuest uin cacheFails => do return .isGuest (← isGuest uin cacheFails)
  | .background => do
    background
    return .done
  | .tick seconds => do
    .effect .tick fun _ e => { e with now := e.now + seconds }
    return .done

abbrev World := ReadCommitted.World Db Ext Write Label HttpError Request Answer

end RcqServer.Guests
