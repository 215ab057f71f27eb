import RcqServer.Basic
import RcqServer.ReadCommitted.Adequacy
import RcqServer.ReadCommitted.Table

/-!
# One-time prekeys

The owner of an account uploads one-time prekeys for each of its devices (`routers/keys.py`), and
whoever opens a session with a device is handed one of them.  A prekey that was handed out stays in
the table as a tombstone, against which later batches are deduplicated, until the sweep
(`services/prekey_sweep.py`) takes it away.

What the account, its devices, the door of the island and the deposit token say of a request is part
of the request (`Lookup`).  `FOR UPDATE SKIP LOCKED` passes over rows that others have locked: a fetch
is given the rows that it passes over, and waits for any other.

`Ext.handed` is not part of the service; it records the prekeys that a fetch has committed and
answered with.
-/

namespace RcqServer.Prekeys

open ReadCommitted

/-- The prekeys of one device; the primary device has no `device_id`. -/
structure Pool where
  uin : Uin
  deviceId : Option ℕ
deriving DecidableEq

/-- `OneTimePreKeyIn`. -/
structure PreKeyIn where
  id : ℤ
  pubkey : List Char
deriving DecidableEq

/-- A one-time prekey, wherever it is stored. -/
abbrev Key := Pool × PreKeyIn

/-- A row of `one_time_prekeys`. -/
structure OneTimePreKey where
  pool : Pool
  prekey : PreKeyIn
  consumed : Bool
  consumedAt : Option Time

def OneTimePreKey.key (row : OneTimePreKey) : Key := (row.pool, row.prekey)

/-- The row after it was handed out. -/
def OneTimePreKey.consume (row : OneTimePreKey) (now : Time) : OneTimePreKey :=
  { row with consumed := true, consumedAt := some now }

structure Db where
  prekeys : Table ℕ OneTimePreKey

/-- A write of one row. -/
structure Write where
  id : ℕ
  row : Option OneTimePreKey

instance : Store Db Write ℕ where
  apply w db := ⟨db.prekeys.set w.id w.row⟩
  key := Write.id

theorem sets_prekeys : Sets Db.prekeys Write.mk where
  set _ _ _ := rfl
  other w hw := absurd rfl (hw w.id w.row)

/-- A prekey that was handed out: the row, what it held and its `consumed_at`. -/
structure Handed where
  id : ℕ
  key : Key
  time : Time

structure Ext where
  now : Time
  /-- The sequence of the ids. -/
  nextId : ℕ
  handed : List Handed

/-- A commit that publishes prekeys names them, and the rows that the same transaction has deleted. -/
inductive Label
  | wipe (pool : Pool) | dedupe | insert | publish (wiped : List ℕ) (keys : List Key)
  | claim | handOut
  | cutoff | stamp | commitStamp | expired | reap | commitReap
  | tick

abbrev Handler := Prog Db Ext Write Label HttpError

/-! ## Publishing -/

/-- The rows of a pool. -/
def Db.ofPool (db : Db) (pool : Pool) : List (ℕ × OneTimePreKey) :=
  db.prekeys.select fun _ row => row.pool == pool

/-- The rows of a batch, with ids from `next` on. -/
def newRows (pool : Pool) : ℕ → List PreKeyIn → List Write
  | _, [] => []
  | next, pk :: batch => ⟨next, some ⟨pool, pk, false, none⟩⟩ :: newRows pool (next + 1) batch

/-- `db.add(OneTimePreKey(…))` for each of the batch, which `db.commit()` sends. -/
def publish (wiped : List ℕ) (pool : Pool) (batch : List PreKeyIn) : Handler Unit := do
  .stmt .insert (fun _ e => newRows pool e.nextId batch)
    (fun _ e => { e with nextId := e.nextId + batch.length }) fun _ _ => .ret ()
  .commitOnly (.publish wiped (batch.map (pool, ·)))

/-- `DELETE FROM one_time_prekeys` of a pool: the rows that it deletes. -/
def wipe (pool : Pool) : Handler (List ℕ) :=
  .write (.wipe pool) (fun db _ => (db.ofPool pool).map fun r => ⟨r.1, none⟩)
    fun db _ => (db.ofPool pool).map Prod.fst

/-- `POST /keys/bundle`. -/
def uploadBundle (uin : Uin) (known : Bool) (batch : List PreKeyIn) : Handler Unit := do
  .raiseIf (known = false) ⟨404, "user not found"⟩
  let wiped ← wipe ⟨uin, none⟩
  publish wiped ⟨uin, none⟩ batch

/-- Both replenish endpoints: what is in the pool already is skipped. -/
def replenish (pool : Pool) (batch : List PreKeyIn) : Handler Unit := do
  let existing ← .read .dedupe fun db _ => (db.ofPool pool).map fun r => r.2.prekey.id
  publish [] pool (batch.filter fun pk => pk.id ∉ existing)

/-- `POST /keys/prekeys`. -/
def replenishPrekeys (uin : Uin) (batch : List PreKeyIn) : Handler Unit :=
  replenish ⟨uin, none⟩ batch

/-- `POST /keys/devices/{device_id}/prekeys`. -/
def replenishDevicePrekeys (uin : Uin) (device : ℕ) (owned : Bool) (batch : List PreKeyIn) :
    Handler Unit := do
  .raiseIf (owned = false) ⟨404, "no such device"⟩
  replenish ⟨uin, some device⟩ batch

/-- `PRIMARY_DEVICE_ID`. -/
def primaryDeviceId : ℕ := 1

/-- `MAX_DEVICE_ID`. -/
def maxDeviceId : ℕ := 127

/-- `POST /keys/devices`, for an account with the devices `existing`: the new device. -/
def registerDevice (uin : Uin) (known : Bool) (existing : List ℕ) (batch : List PreKeyIn) :
    Handler ℕ := do
  .raiseIf (known = false) ⟨404, "user not found"⟩
  let next := existing.max?.getD primaryDeviceId + 1
  .raiseIf (maxDeviceId < next) ⟨409, "device limit reached"⟩
  publish [] ⟨uin, some next⟩ batch
  return next

/-! ## Handing out -/

/-- The free prekey with the least id, but for the rows `locked`. -/
def Db.nextFree (db : Db) (pool : Pool) (locked : List ℕ) : Option (ℕ × OneTimePreKey) :=
  let free := db.prekeys.select fun id row => row.pool == pool && !row.consumed && id ∉ locked
  free.find? fun r => free.all fun r' => r.1 ≤ r'.1

/-- `_claim_opk`. -/
def claimOpk (pool : Pool) (locked : List ℕ) : Handler (Option (ℕ × OneTimePreKey)) :=
  .write .claim
    (fun db e => (db.nextFree pool locked).toList.map fun r => ⟨r.1, some (r.2.consume e.now)⟩)
    fun db e => (db.nextFree pool locked).map fun r => (r.1, r.2.consume e.now)

/-- `db.commit()` of a claim. -/
def commitClaim (id : ℕ) (row : OneTimePreKey) : Handler Unit :=
  .commit .handOut
    (fun e => { e with handed := (row.consumedAt.map (⟨id, row.key, ·⟩)).toList ++ e.handed })
    (.ret ())

/-- What a fetch finds out before it comes to the prekeys. -/
structure Lookup where
  /-- There is such an account. -/
  user : Bool
  /-- The door lets the caller see its keys. -/
  admitted : Bool
  /-- `has_linked_devices`. -/
  linked : Bool
  /-- The account has uploaded a bundle. -/
  bundle : Bool
  /-- The account has the device, and it is not revoked. -/
  device : Bool
  /-- `_may_take_opk`. -/
  mayTakeOpk : Except HttpError Bool

/-- The prekey of a bundle. -/
def handOut (pool : Pool) (mayTakeOpk : Except HttpError Bool) (locked : List ℕ) :
    Handler (Option PreKeyIn) := do
  let withOpk ← .ofExcept mayTakeOpk
  if withOpk then
    let opk ← claimOpk pool locked
    match opk with
    | none => return none
    | some (id, row) =>
      commitClaim id row
      return some row.prekey
  else
    return none

/-- `_primary_bundle`. -/
def primaryBundle (uin : Uin) (l : Lookup) (locked : List ℕ) : Handler (Option PreKeyIn) := do
  .raiseIf (l.user = false) ⟨404, "no such user"⟩
  .raiseIf (l.bundle = false) ⟨404, "user has no signal bundle"⟩
  handOut ⟨uin, none⟩ l.mayTakeOpk locked

/-- `GET /keys/{uin}/bundle`. -/
def fetchBundle (uin : Uin) (l : Lookup) (locked : List ℕ) : Handler (Option PreKeyIn) := do
  .raiseIf (l.user = false) ⟨404, "no such user"⟩
  .raiseIf (l.admitted = false) ⟨404, "no such user"⟩
  .raiseIf (l.linked = true) ⟨404, "multi-device: v=1 only"⟩
  primaryBundle uin l locked

/-- `GET /keys/{uin}/devices/{device_id}/bundle`. -/
def fetchDeviceBundle (uin : Uin) (device : ℕ) (l : Lookup) (locked : List ℕ) :
    Handler (Option PreKeyIn) := do
  .raiseIf (l.admitted = false) ⟨404, "no such user"⟩
  if device = primaryDeviceId then
    primaryBundle uin l locked
  else
    .raiseIf (l.device = false) ⟨404, "no such device"⟩
    handOut ⟨uin, some device⟩ l.mayTakeOpk locked

/-! ## The sweep -/

/-- What the operator has set. -/
structure Settings where
  /-- `CONSUMED_MAX_AGE_DAYS`, in seconds. -/
  consumedMaxAge : Time
  /-- `MAX_DELETIONS_PER_CYCLE`. -/
  maxDeletionsPerCycle : ℕ
  /-- `DRY_RUN`. -/
  dryRun : Bool

/-- `_expired`. -/
def Db.expired (db : Db) (cutoff : ℤ) : List (ℕ × OneTimePreKey) :=
  db.prekeys.select fun _ row => row.consumed && row.consumedAt.any fun t => (t : ℤ) < cutoff

/-- The tombstones without a `consumed_at`. -/
def Db.unstamped (db : Db) : List (ℕ × OneTimePreKey) :=
  db.prekeys.select fun _ row => row.consumed && row.consumedAt.isNone

/-- `sweep_once`: how many tombstones went, or would have. -/
def sweepOnce (S : Settings) : Handler ℕ := do
  let cutoff ← .read .cutoff fun _ e => (e.now : ℤ) - S.consumedMaxAge
  if S.dryRun then
    .read .expired fun db _ => (db.expired cutoff).length
  else
    let stamped ← .write .stamp
      (fun db e => db.unstamped.map fun r => ⟨r.1, some { r.2 with consumedAt := some e.now }⟩)
      fun db _ => db.unstamped.length
    .onlyIf (stamped ≠ 0) (.commitOnly .commitStamp)
    let ids ← .read .expired fun db _ =>
      ((db.expired cutoff).map Prod.fst).take S.maxDeletionsPerCycle
    if ids.isEmpty then
      return 0
    else
      let n ← .write .reap
        (fun db _ => (ids.filter fun id => (db.prekeys.get id).isSome).map fun id => ⟨id, none⟩)
        fun db _ => (ids.filter fun id => (db.prekeys.get id).isSome).length
      .commitOnly .commitReap
      return n

/-! ## The system -/

inductive Request
  | uploadBundle (uin : Uin) (known : Bool) (batch : List PreKeyIn)
  | replenishPrekeys (uin : Uin) (batch : List PreKeyIn)
  | replenishDevicePrekeys (uin : Uin) (device : ℕ) (owned : Bool) (batch : List PreKeyIn)
  | registerDevice (uin : Uin) (known : Bool) (existing : List ℕ) (batch : List PreKeyIn)
  | fetchBundle (uin : Uin) (l : Lookup) (locked : List ℕ)
  | fetchDeviceBundle (uin : Uin) (device : ℕ) (l : Lookup) (locked : List ℕ)
  | sweep
  | tick (seconds : ℕ)

inductive Answer
  | noContent
  | device (id : ℕ)
  | bundle (opk : Option PreKeyIn)
  | swept (n : ℕ)
  | done
deriving DecidableEq

def handler (S : Settings) : Request → Handler Answer
  | .uploadBundle uin known batch => do
    uploadBundle uin known batch
    return .noContent
  | .replenishPrekeys uin batch => do
    replenishPrekeys uin batch
    return .noContent
  | .replenishDevicePrekeys uin device owned batch => do
    replenishDevicePrekeys uin device owned batch
    return .noContent
  | .registerDevice uin known existing batch => do
    return .device (← registerDevice uin known existing batch)
  | .fetchBundle uin l locked => do return .bundle (← fetchBundle uin l locked)
  | .fetchDeviceBundle uin device l locked => do
    return .bundle (← fetchDeviceBundle uin device l locked)
  | .sweep => do return .swept (← sweepOnce S)
  | .tick seconds => do
    .effect .tick fun _ e => { e with now := e.now + seconds }
    return .done

abbrev State := Shared Db Ext

abbrev World := ReadCommitted.World Db Ext Write Label HttpError Request Answer

/-- An island before the first upload. -/
def World.initial (now : Time) : World :=
  .fresh ⟨∅⟩ ⟨now, 0, []⟩

end RcqServer.Prekeys
