import RcqServer.Expiring
import RcqServer.Keys.Text
import RcqServer.ReadCommitted.Adequacy
import RcqServer.ReadCommitted.Table

/-!
# Tokens, and where their validity is kept

A session token is a signed statement; three things outside of it decide whether it is still good:

| where | what |
| --- | --- |
| `uin_epochs` (database) | how often the number has changed hands, mirrored in a Redis hash |
| `dev:{account}` (Redis hash, 90 days) | the linked devices of the account |
| `devrv:{account}` (Redis set, 90 days) | its revoked devices |

Every Redis command is a statement of its own; what it does outside the transaction stays.  The
fields of `Log` are not part of the service.  They record what happened, for the statements about
the service to speak of.
-/

namespace RcqServer.Sessions

open ReadCommitted Expiring

/-! ## Tokens -/

/-- The claims of a session token. -/
structure Token where
  uin : Uin
  iat : Time
  exp : Time
  epoch : ℕ
  /-- `dev`: the install or the linked device. -/
  device : Option DeviceId
  /-- `k` is `"phone"`. -/
  phone : Bool
deriving DecidableEq

/-- `JWT_TTL_SECONDS`. -/
def jwtTtl : Time := days 30

/-- `DEVICE_TTL_SECONDS`, which is the life of a linked device's token too. -/
def deviceTtl : Time := days 90

/-- `issue_token`. -/
def issueToken (now : Time) (uin : Uin) (epoch : ℕ) (device : Option DeviceId) : Token :=
  ⟨uin, now, now + jwtTtl, epoch, device, device.isSome⟩

/-- `issue_device_token`. -/
def issueDeviceToken (now : Time) (uin : Uin) (device : DeviceId) (epoch : ℕ) : Token :=
  ⟨uin, now, now + deviceTtl, epoch, some device, false⟩

/-- The token of a linked device. -/
def Token.linked (t : Token) : Bool := t.device.isSome && !t.phone

/-- Only the token of a linked device expires. -/
def Token.expired (t : Token) (now : Time) : Bool := t.linked && t.exp ≤ now

/-! ## The database -/

/-- A row of `users`. -/
structure Account where
  identityKey : KeyText
  signingKey : KeyText
  /-- `guest_status` is not `NULL`. -/
  guest : Bool
  keyUnprovenSince : Option Time

/-- A row of `devices`: a key slot. -/
structure KeySlot where
  createdAt : Time
  authDeviceId : Option DeviceId
  revokedAt : Option Time

/-- The 32 bytes of a key. -/
abbrev KeyBytes := List ℕ

structure Db where
  uinEpochs : Table Uin ℕ
  users : Table Uin Account
  /-- `retired_signing_keys`, whose key is the SHA-256 of the key bytes, which only renames rows. -/
  retiredKeys : Table KeyBytes Uin
  keySlots : Table (Uin × ℕ) KeySlot

inductive Write
  | epoch (uin : Uin) (row : Option ℕ)
  | user (uin : Uin) (row : Option Account)
  | retired (key : KeyBytes) (row : Option Uin)
  | slot (key : Uin × ℕ) (row : Option KeySlot)

inductive RowKey
  | epoch (uin : Uin)
  | user (uin : Uin)
  | retired (key : KeyBytes)
  | slot (key : Uin × ℕ)
deriving DecidableEq

def Write.key : Write → RowKey
  | epoch uin _ => .epoch uin
  | user uin _ => .user uin
  | retired key _ => .retired key
  | slot key _ => .slot key

def Write.apply : Write → Db → Db
  | epoch uin row, db => { db with uinEpochs := db.uinEpochs.set uin row }
  | user uin row, db => { db with users := db.users.set uin row }
  | retired key row, db => { db with retiredKeys := db.retiredKeys.set key row }
  | slot key row, db => { db with keySlots := db.keySlots.set key row }

instance : Store Db Write RowKey where
  apply := Write.apply
  key := Write.key

theorem sets_uinEpochs : Sets Db.uinEpochs Write.epoch := {}

theorem sets_users : Sets Db.users Write.user := {}

/-- The epoch of a number; a number without a row has not changed hands. -/
def Db.epochOf (db : Db) (uin : Uin) : ℕ := (db.uinEpochs.get uin).getD 0

/-! ## Redis -/

/-- An entry of the registry of linked devices. -/
structure DeviceEntry where
  label : String
  createdAt : Time
  /-- The token has not been used yet. -/
  pending : Bool
deriving DecidableEq

/-- `rin:{old key}:{nonce}`. -/
abbrev NonceKey := KeyBytes × List ℕ

structure Redis where
  /-- The hash `uin_epochs`, a copy of the table. -/
  epochs : Table Uin ℕ
  /-- While this marker lives, the copy is trusted. -/
  epochsLoaded : Option (Entry Unit)
  epochsBuilt : Bool
  epochsLock : Option (Entry Unit)
  devices : Table Uin (Entry (Table DeviceId DeviceEntry))
  revoked : Table Uin (Entry (List DeviceId))
  suspended : List Uin
  nonces : Table NonceKey (Entry Unit)

/-! ## Records -/

/-- A token that carries the service's signature, and the bearer that it was minted for, unless it
was minted by a link or on a proof of the key. -/
structure Issue where
  token : Token
  bearer : Option Token
deriving DecidableEq

/-- A number's epoch was bumped, committed and written through. -/
structure Bump where
  uin : Uin
  epoch : ℕ
deriving DecidableEq

/-- A token has passed the check of its epoch, after these bumps. -/
structure EpochPass where
  token : Token
  bumps : List Bump

/-- A device was revoked. -/
structure Revocation where
  uin : Uin
  device : DeviceId
  at_ : Time
deriving DecidableEq

/-- A token has passed the check of its device. -/
structure DevicePass where
  token : Token
  /-- What had been revoked by then. -/
  revocations : List Revocation
  /-- Its device was in the registry. -/
  listed : Bool

/-- What is to be revoked: a device, or a key slot that was claimed at some time. -/
inductive Target
  | device (device : DeviceId)
  | slot (createdAt : Time)
deriving DecidableEq

/-- `revoker_gate` has let a session revoke something. -/
structure GatePass where
  token : Token
  target : Target
  at_ : Time

/-- A rotation of an account's keys was committed. -/
structure Rotation where
  uin : Uin
  /-- The new signing key. -/
  key : KeyBytes
  signed : Bool
  /-- Another account had the key, and the marker of the old one said that this is in order. -/
  cascade : Bool
  /-- The nonce of the proof and its timestamp. -/
  proof : Option (NonceKey × ℤ)
  epoch : Option ℕ
  /-- The tokens that had been issued by then. -/
  before : List Token

structure Log where
  issued : List Issue
  bumps : List Bump
  epochPasses : List EpochPass
  devicePasses : List DevicePass
  gatePasses : List GatePass
  revocations : List Revocation
  /-- When each linked device was registered. -/
  births : Table (Uin × DeviceId) Time
  /-- Devices whose registration has not set the expiry of the registry yet. -/
  linking : List (Uin × DeviceId)
  /-- Devices whose revocation has begun and is not complete. -/
  revoking : List (Uin × DeviceId)
  rotations : List Rotation

structure Ext extends Redis, Log where
  now : Time
  /-- The next `secrets.token_hex(8)`, which never comes twice. -/
  nextDevice : DeviceId

/-- A service that has just started, with nothing in Redis. -/
def Ext.initial (now : Time) : Ext where
  epochs := ∅
  epochsLoaded := none
  epochsBuilt := false
  epochsLock := none
  devices := ∅
  revoked := ∅
  suspended := []
  nonces := ∅
  issued := []
  bumps := []
  epochPasses := []
  devicePasses := []
  gatePasses := []
  revocations := []
  births := ∅
  linking := []
  revoking := []
  rotations := []
  now := now
  nextDevice := 0

abbrev State := Shared Db Ext

/-! ## Redis commands -/

/-- `HGET uin_epochs`. -/
def Ext.cachedEpoch (e : Ext) (uin : Uin) : ℕ := (e.epochs.get uin).getD 0

/-- `HGETALL` of the registry. -/
def Ext.registry (e : Ext) (uin : Uin) : Table DeviceId DeviceEntry :=
  (Expiring.read e.now (e.devices.get uin)).getD ∅

/-- `HGET` of the registry. -/
def Ext.deviceRow (e : Ext) (uin : Uin) (device : DeviceId) : Option DeviceEntry :=
  (e.registry uin).get device

/-- `SMEMBERS` of the denylist. -/
def Ext.denylist (e : Ext) (uin : Uin) : List DeviceId :=
  (Expiring.read e.now (e.revoked.get uin)).getD []

/-- A command on the registry of an account. -/
def Ext.onDevices (e : Ext) (uin : Uin)
    (f : Option (Entry (Table DeviceId DeviceEntry)) →
      Option (Entry (Table DeviceId DeviceEntry))) : Ext :=
  { e with devices := e.devices.set uin (f (e.devices.get uin)) }

/-- A command on the denylist of an account. -/
def Ext.onRevoked (e : Ext) (uin : Uin)
    (f : Option (Entry (List DeviceId)) → Option (Entry (List DeviceId))) : Ext :=
  { e with revoked := e.revoked.set uin (f (e.revoked.get uin)) }

/-- `HSET` of the registry. -/
def Ext.setDevice (e : Ext) (uin : Uin) (device : DeviceId) (entry : DeviceEntry) : Ext :=
  e.onDevices uin (Expiring.alter e.now fun rows => some ((rows.getD ∅).set device (some entry)))

/-- A hash without one of its fields; with none left it is gone. -/
def withoutField (device : DeviceId) (rows : Option (Table DeviceId DeviceEntry)) :
    Option (Table DeviceId DeviceEntry) :=
  (rows.map (·.set device none)).filter fun rows => !rows.rows.isEmpty

/-- `HDEL` of the registry. -/
def Ext.dropDevice (e : Ext) (uin : Uin) (device : DeviceId) : Ext :=
  e.onDevices uin (Expiring.alter e.now (withoutField device))

/-- `SADD` of the denylist. -/
def Ext.deny (e : Ext) (uin : Uin) (device : DeviceId) : Ext :=
  e.onRevoked uin (Expiring.alter e.now fun ids => some ((ids.getD []).insert device))

end RcqServer.Sessions
