import RcqServer.Sessions.Store

/-!
# Checking and minting tokens

`core/security.py`, the epoch mirror (`core/single_flight.RedisMirror`), and the routes of
`routers/auth.py` that hand out tokens.

A rebuild of the mirror reads the table in one statement and replaces the hash in a later one.  In
the background it runs whenever a request finds the marker gone; here it may run at any time.
-/

namespace RcqServer.Sessions

open ReadCommitted

/-! ## Labels -/

/-- The parts of `bump_uin_epoch` and of what follows it. -/
inductive BumpPart
  | read
  | flush
  | commit
  | cache

/-- The parts of a rotation, from the look for other holders of the new key on. -/
inductive RotatePart
  | clock
  | marker
  | claim (nonce : NonceKey) (ts : ℤ)
  | writeUser
  | getRetired
  | getAlive
  | writeRetired
  | commit (signed : Bool)
  | release (claimedAt : Time)

/-- What a statement is, where it matters to a scheduling condition or to a reader. -/
inductive Label
  | tick
  | decode (token : Token)
  | denylist (token : Token)
  | mintDenylist
  | ensure
  | loadEpochs
  | replaceEpochs
  | takeLock
  | dropLock
  | epochCheck (token : Token)
  | readEpoch
  | isSuspended
  | mint
  | mintLinked (born : Time)
  /-- A bump of a number's epoch, in a rotation onto a key or on its own. -/
  | bump (rotation : Option KeyBytes) (uin : Uin) (part : BumpPart)
  | countDevices
  | linkDevice
  | expireDevices (born : Time)
  | hexists
  | readSeen
  | clearPending
  | listDevices (uin : Uin)
  | sweep (uin : Uin) (device : DeviceId)
  | targetBorn
  | gate (token : Token)
  | dropRevoked (uin : Uin) (device : DeviceId)
  | deny (uin : Uin) (device : DeviceId)
  | expireDenylist (uin : Uin) (device : DeviceId)
  | getSlot
  | retireSlot
  | commitSlot
  | getUser
  | takenBy
  | rotate (uin : Uin) (key : KeyBytes) (part : RotatePart)

abbrev Handler := Prog Db Ext Write Label HttpError

/-! ## The epoch mirror -/

/-- `_load_epochs`: the read, and the pipeline that replaces the hash. -/
def loadEpochs : Handler Unit := do
  let rows ← .read .loadEpochs fun db _ => db.uinEpochs.select fun _ epoch => 0 < epoch
  .effect .replaceEpochs fun _ e =>
    { e with
      epochs := (∅ : Table Uin ℕ).setMany (rows.map fun r => (r.1, some r.2))
      epochsLoaded := some ⟨(), some (e.now + 300)⟩
      epochsBuilt := true }

/-- `RedisMirror.ensure`: a mirror that was never built is built at once. -/
def ensureEpochs : Handler Unit := do
  let missing ← .read .ensure fun _ e =>
    (Expiring.read e.now e.epochsLoaded).isNone && !e.epochsBuilt
  .onlyIf (missing = true) loadEpochs

/-- `RedisMirror._background`, one worker at a time. -/
def background : Handler Unit := do
  let taken ← .stmt .takeLock (fun _ _ => [])
    (fun _ e => if (Expiring.read e.now e.epochsLock).isNone then
      { e with epochsLock := some ⟨(), some (e.now + 30)⟩ } else e)
    fun _ e => .ret (Expiring.read e.now e.epochsLock).isNone
  .onlyIf (taken = true) do
    loadEpochs
    .effect .dropLock fun _ e => { e with epochsLock := none }

/-- `uin_epoch`. -/
def uinEpoch (uin : Uin) : Handler ℕ := do
  ensureEpochs
  .read .readEpoch fun _ e => e.cachedEpoch uin

/-- `bump_uin_epoch`: the new epoch, or nothing if the `INSERT` has failed.  The row is read first;
the `UPDATE` writes the number that was computed from it. -/
def bumpUinEpoch (rotation : Option KeyBytes) (uin : Uin) : Handler (Option ℕ) := do
  let row ← .read (.bump rotation uin .read) fun db _ => db.uinEpochs.get uin
  match row with
  | none =>
    .write (.bump rotation uin .flush)
      (fun db _ => [.epoch uin (some ((db.uinEpochs.get uin).getD 1))])
      fun db _ => if (db.uinEpochs.get uin).isSome then none else some 1
  | some epoch =>
    .write (.bump rotation uin .flush) (fun _ _ => [.epoch uin (some (epoch + 1))])
      fun _ _ => some (epoch + 1)

/-- `cache_uin_epoch`. -/
def cacheUinEpoch (rotation : Option KeyBytes) (uin : Uin) (epoch : ℕ) : Handler Unit :=
  .effect (.bump rotation uin .cache) fun _ e =>
    { e with epochs := e.epochs.set uin (some epoch), bumps := ⟨uin, epoch⟩ :: e.bumps }

/-- An exception that no handler expects. -/
def internalError : HttpError := ⟨500, "internal_error"⟩

/-- A number is released: of the transaction, the bump and the commit; then the write-through. -/
def burn (uin : Uin) : Handler Unit := do
  let epoch ← bumpUinEpoch none uin
  match epoch with
  | none => .rollback (.raise internalError)
  | some epoch =>
    .commit (.bump none uin .commit) id (.ret ())
    cacheUinEpoch none uin epoch

/-! ## Checking a token -/

/-- `_decode_session_payload`: the signature, and the expiry of a linked device's token. -/
def Ext.decodes (e : Ext) (token : Token) : Bool :=
  (e.issued.any (·.token = token)) && !token.expired e.now

def decodeSession (token : Token) : Handler Unit := do
  let ok ← .read (.decode token) fun _ e => e.decodes token
  .raiseIf (ok = false) ⟨401, "invalid token"⟩

/-- The device of the token is not on the denylist of its account. -/
def Ext.passesDevice (e : Ext) (token : Token) (device : DeviceId) : Bool :=
  !(e.denylist token.uin).contains device

/-- `device_is_revoked`, as `authorize_session` asks it. -/
def checkDevice (token : Token) : Handler Unit :=
  match token.device with
  | none => return ()
  | some device => do
    let ok ← .stmt (.denylist token) (fun _ _ => [])
      (fun _ e => if e.passesDevice token device then
        { e with devicePasses :=
            ⟨token, e.revocations, (e.deviceRow token.uin device).isSome⟩ :: e.devicePasses }
      else e)
      fun _ e => .ret (e.passesDevice token device)
    .raiseIf (ok = false) ⟨401, "device revoked"⟩

/-- The check of the epoch. -/
def checkEpoch (token : Token) : Handler Unit := do
  ensureEpochs
  let ok ← .stmt (.epochCheck token) (fun _ _ => [])
    (fun _ e => if token.epoch = e.cachedEpoch token.uin then
      { e with epochPasses := ⟨token, e.bumps⟩ :: e.epochPasses } else e)
    fun _ e => .ret (decide (token.epoch = e.cachedEpoch token.uin))
  .raiseIf (ok = false) ⟨401, "stale token"⟩

/-- `authorize_session`. -/
def authorizeSession (token : Token) : Handler Uin := do
  decodeSession token
  checkDevice token
  checkEpoch token
  let suspended ← .read .isSuspended fun _ e => decide (token.uin ∈ e.suspended)
  .raiseIf (suspended = true) ⟨403, "suspended"⟩
  return token.uin

/-! ## Minting a token -/

/-- The service signs a token. -/
def mint (l : Label) (bearer : Option Token) (make : Time → Token) : Handler Token :=
  .stmt l (fun _ _ => []) (fun _ e => { e with issued := ⟨make e.now, bearer⟩ :: e.issued })
    fun _ e => .ret (make e.now)

/-- `_refuse_revoked_device`. -/
def refuseRevokedDevice (uin : Uin) (device : Option DeviceId) : Handler Unit :=
  match device with
  | none => return ()
  | some device => do
    let revoked ← .read .mintDenylist fun _ e => (e.denylist uin).contains device
    .raiseIf (revoked = true) ⟨401, "device_revoked"⟩

/-- `POST /auth/refresh` and `POST /auth/recover`, once the proof of the key is accepted. -/
def login (uin : Uin) (device : Option DeviceId) : Handler Token := do
  refuseRevokedDevice uin device
  let epoch ← uinEpoch uin
  mint .mint none fun now => issueToken now uin epoch device

/-- `POST /auth/session`; `carry_device_id` keeps the name of the install. -/
def session (token : Token) : Handler Token := do
  let uin ← authorizeSession token
  let epoch ← uinEpoch uin
  mint .mint (some token) fun now => issueToken now uin epoch token.device

/-- `is_linked_device`. -/
def isLinkedDevice (uin : Uin) (device : Option DeviceId) : Handler Bool :=
  match device with
  | none => return false
  | some device => .read .hexists fun _ e => (e.deviceRow uin device).isSome

/-- `POST /auth/device`, without the queue cursor that it moves. -/
def claimDevice (token : Token) (device : DeviceId) : Handler Token := do
  let uin ← authorizeSession token
  refuseRevokedDevice uin (some device)
  let linked ← isLinkedDevice uin token.device
  .raiseIf (token.device ≠ some device ∧ linked = true) ⟨409, "linked_device_cannot_rename"⟩
  let epoch ← uinEpoch uin
  mint .mint (some token) fun now => issueToken now uin epoch (some device)

end RcqServer.Sessions
