import RcqServer.Sessions.Auth

/-!
# Linked devices

`routers/devices.py`, and the revocation of a key slot (`routers/keys.py`), which ends the session
that has claimed the slot.  Announcements and the closing of sockets are left out, and so are the
queue cursors and push rows that a revocation deletes.
-/

namespace RcqServer.Sessions

open ReadCommitted

/-- `_MAX_DEVICES`. -/
def maxDevices : ℕ := 5

/-- `_PENDING_TTL_SECONDS`. -/
def pendingTtl : Time := 15 * 60

structure Config where
  /-- `REVOKE_COOLDOWN_SECONDS`. -/
  revokeCooldown : Time

/-! ## Linking -/

/-- The `HSET` of a new entry.  The id is drawn and the time taken as it is written. -/
def Ext.link (e : Ext) (uin : Uin) (label : String) : Ext :=
  { e.setDevice uin e.nextDevice ⟨label, e.now, true⟩ with
    nextDevice := e.nextDevice + 1
    births := e.births.set (uin, e.nextDevice) (some e.now)
    linking := (uin, e.nextDevice) :: e.linking }

/-- The `EXPIRE` of the registry. -/
def Ext.renewDevices (e : Ext) (uin : Uin) (device : DeviceId) : Ext :=
  { e.onDevices uin (Expiring.expire e.now deviceTtl) with
    linking := e.linking.filter (· ≠ (uin, device)) }

/-- `POST /devices/link`. -/
def linkDevice (token : Token) (label : String) : Handler Token := do
  let uin ← authorizeSession token
  let n ← .read .countDevices fun _ e => (e.registry uin).rows.length
  .raiseIf (maxDevices ≤ n) ⟨409, "too_many_devices"⟩
  let (device, born) ← .stmt .linkDevice (fun _ _ => []) (fun _ e => e.link uin label)
    fun _ e => .ret (e.nextDevice, e.now)
  .effect (.expireDevices born) fun _ e => e.renewDevices uin device
  let epoch ← uinEpoch uin
  mint (.mintLinked born) none fun now => issueDeviceToken now uin device epoch

/-! ## Using and listing -/

/-- `mark_device_seen`, on the first use of the token. -/
def markDeviceSeen (token : Token) : Handler Unit := do
  let uin ← authorizeSession token
  match token.device with
  | none => return ()
  | some device =>
    let entry ← .read .readSeen fun _ e => e.deviceRow uin device
    match entry with
    | none => return ()
    | some entry =>
      .onlyIf (entry.pending = true)
        (.effect .clearPending fun _ e => e.setDevice uin device { entry with pending := false })

/-- A pending entry whose token was not used in time. -/
def DeviceEntry.stale (entry : DeviceEntry) (now : Time) : Bool :=
  entry.pending && decide (entry.createdAt + pendingTtl < now)

/-- The deletions of stale entries, one command each. -/
def sweep (uin : Uin) : List DeviceId → Handler Unit
  | [] => .ret ()
  | device :: rest => do
    .effect (.sweep uin device) fun _ e => e.dropDevice uin device
    sweep uin rest

/-- `GET /devices`. -/
def listDevices (token : Token) : Handler (List (DeviceId × DeviceEntry)) := do
  let uin ← authorizeSession token
  let (rows, now) ← .read (.listDevices uin) fun _ e => ((e.registry uin).rows, e.now)
  sweep uin ((rows.filter fun r => r.2.stale now).map Prod.fst)
  return rows.filter fun r => !r.2.stale now

/-! ## Revoking -/

/-- `_revoke`: three commands, in this order. -/
def revoke (uin : Uin) (device : DeviceId) : Handler Unit := do
  .effect (.dropRevoked uin device) fun _ e =>
    { e.dropDevice uin device with revoking := (uin, device) :: e.revoking }
  .effect (.deny uin device) fun _ e => e.deny uin device
  .effect (.expireDenylist uin device) fun _ e =>
    { e.onRevoked uin (Expiring.expire e.now deviceTtl) with
      revoking := e.revoking.filter (· ≠ (uin, device))
      revocations := ⟨uin, device, e.now⟩ :: e.revocations }

/-- `DELETE /devices/me`: only a device in the registry revokes itself. -/
def revokeOwnDevice (token : Token) : Handler Unit := do
  let uin ← authorizeSession token
  let linked ← isLinkedDevice uin token.device
  match token.device with
  | none => return ()
  | some device => .onlyIf (linked = true) (revoke uin device)

/-- What `revoker_gate` answers a session with a device: one that is not in the registry revokes
freely, one that is must be old enough or revoke something that is not older. -/
def Ext.mayRevoke (cfg : Config) (e : Ext) (uin : Uin) (device : DeviceId)
    (targetBorn : Option Time) : Bool :=
  match e.deviceRow uin device with
  | none => true
  | some entry =>
    decide (entry.createdAt + cfg.revokeCooldown ≤ e.now) ||
      targetBorn.any fun born => decide (entry.createdAt ≤ born)

/-- `revoker_gate`. -/
def revokerGate (cfg : Config) (token : Token) (target : Target) (targetBorn : Option Time) :
    Handler Unit :=
  match token.device with
  | none => return ()
  | some device => do
    let ok ← .stmt (.gate token) (fun _ _ => [])
      (fun _ e => if e.mayRevoke cfg token.uin device targetBorn then
        { e with gatePasses := ⟨token, target, e.now⟩ :: e.gatePasses } else e)
      fun _ e => .ret (e.mayRevoke cfg token.uin device targetBorn)
    .raiseIf (ok = false) ⟨403, "revoke_cooldown"⟩

/-- `DELETE /devices/{device_id}`. -/
def revokeDevice (cfg : Config) (token : Token) (device : DeviceId) : Handler Unit := do
  let uin ← authorizeSession token
  let born ← .read .targetBorn fun _ e => (e.deviceRow uin device).map DeviceEntry.createdAt
  revokerGate cfg token (.device device) born
  revoke uin device

/-- `PRIMARY_DEVICE_ID`. -/
def primaryDeviceId : ℕ := 1

/-- `POST /keys/devices/{device_id}/revoke`. -/
def revokeDeviceSlot (cfg : Config) (token : Token) (slot : ℕ) : Handler Unit := do
  let uin ← authorizeSession token
  .raiseIf (slot = primaryDeviceId) ⟨400, "primary_slot"⟩
  let row ← .read .getSlot fun db _ =>
    (db.keySlots.get (uin, slot)).filter (·.revokedAt.isNone)
  match row with
  | none => .raise ⟨404, "no such device"⟩
  | some row =>
    revokerGate cfg token (.slot row.createdAt) (some row.createdAt)
    -- the flush of the stripped row, then the end of the session that has claimed the slot
    .write .retireSlot (fun _ e => [.slot (uin, slot) (some ⟨e.now, none, some e.now⟩)])
      fun _ _ => ()
    .commit .commitSlot id (.ret ())
    match row.authDeviceId with
    | none => return ()
    | some device => .onlyIf (token.device ≠ some device) (revoke uin device)

end RcqServer.Sessions
