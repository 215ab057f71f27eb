import RcqServer.Basic
import RcqServer.Expiring
import RcqServer.ReadCommitted.Frame
import RcqServer.ReadCommitted.Table

/-!
# The gate of a closed island

Access tokens (`routers/gate.py`).  The operator hands out invites; a device redeems an invite for a
token of its own, and `/gate/check` is asked about the token of every request.  What the check reads
of a row it keeps in Redis for a while.

Rows that the operator has made go by their id, and rows of devices by the id of the device: there
is one for each device, no request deletes it, and the upsert of a redeem keeps its id.  A random
token is one that was never drawn before; its hash stands for itself.

`Ext.owners`, `Ext.admitted`, `Ext.revocations` and `Ext.admissions` are not part of the service.  They
record for whom each token was drawn, which redeems have succeeded, when the operator has revoked a
device, and which checks have let a request through.
-/

namespace RcqServer.Gate

open ReadCommitted

/-- `_CACHE_TTL`. -/
def cacheTtl : Time := 45

/-- `device_id`. -/
abbrev Dev := List Char

inductive Kind
  | invite | standing
deriving DecidableEq

/-- A row of `access_tokens` that the operator has made. -/
structure Issued where
  tokenHash : ℕ
  kind : Kind
  maxUses : Option ℕ
  uses : ℕ
  expiresAt : Option Time
  revoked : Bool
deriving DecidableEq

/-- A row of `access_tokens` of kind `device`. -/
structure Device where
  tokenHash : ℕ
  parentId : ℕ
  revoked : Bool

structure Db where
  issued : Table ℕ Issued
  devices : Table Dev Device

/-- A row, by its id. -/
inductive RowId
  | issued (id : ℕ)
  | device (dev : Dev)
deriving DecidableEq

inductive Write
  | issued (id : ℕ) (row : Option Issued)
  | device (dev : Dev) (row : Option Device)

instance : Store Db Write RowId where
  apply
    | .issued id row, db => { db with issued := db.issued.set id row }
    | .device dev row, db => { db with devices := db.devices.set dev row }
  key
    | .issued id _ => .issued id
    | .device dev _ => .device dev

theorem sets_issued : Sets Db.issued Write.issued := {}

theorem sets_devices : Sets Db.devices Write.device := {}

/-- `_meta_from_row`, of which what `_active` reads. -/
structure Meta where
  revoked : Bool
  expiresAt : Option Time
  maxUses : Option ℕ
  uses : ℕ

def Issued.meta (row : Issued) : Meta := ⟨row.revoked, row.expiresAt, row.maxUses, row.uses⟩

def Device.meta (row : Device) : Meta := ⟨row.revoked, none, none, 0⟩

/-- `_active`. -/
def Meta.active (m : Meta) (now : Time) : Bool :=
  !m.revoked && m.expiresAt.all (now < ·) && m.maxUses.all (m.uses < ·)

/-- For whom a token was drawn: for a device that redeems an invite, or for the operator. -/
inductive Owner
  | device (dev : Dev) (invite : ℕ)
  | operator
deriving DecidableEq

structure Revocation where
  dev : Dev
  time : Time
deriving DecidableEq

/-- A check that has let a request through, and when it had looked into the cache. -/
structure Admission where
  token : ℕ
  started : Time
deriving DecidableEq

structure Ext where
  now : Time
  /-- `gate:meta:<hash>`. -/
  metas : ℕ → Option (Expiring.Entry Meta)
  /-- The sequence of row ids. -/
  nextId : ℕ
  nextToken : ℕ
  owners : ℕ → Option Owner
  admitted : List (Dev × ℕ)
  revocations : List Revocation
  admissions : List Admission

inductive Label
  | lookup (token : ℕ)
  | rowOf (token : ℕ)
  | cache (token : ℕ) (m : Meta)
  | judge (token : ℕ)
  | draw
  | upsert (dev : Dev) (invite : ℕ)
  | consume (invite : ℕ)
  | commitRedeem (dev : Dev) (invite : ℕ)
  | getRow
  | revoke (row : RowId)
  | children
  | revokeChildren (invite : ℕ)
  | commitRevoke (row : RowId)
  | evict
  | insertIssued
  | commitIssued
  | tick

abbrev Handler := Prog Db Ext Write Label Empty

/-! ## Lookups -/

/-- A row found by its hash. -/
inductive Found
  | issued (id : ℕ) (row : Issued)
  | device (dev : Dev) (row : Device)

/-- `select(AccessToken).where(AccessToken.token_hash == h)`. -/
def Db.byHash (db : Db) (token : ℕ) : Option Found :=
  match (db.issued.select fun _ row => row.tokenHash == token).head? with
  | some (id, row) => some (.issued id row)
  | none => (db.devices.select fun _ row => row.tokenHash == token).head?.map fun r =>
    .device r.1 r.2

def Found.meta : Found → Meta
  | .issued _ row => row.meta
  | .device _ row => row.meta

/-- `secrets.token_urlsafe`. -/
def Ext.draw (e : Ext) (owner : Owner) : Ext :=
  { e with
    nextToken := e.nextToken + 1
    owners := Function.update e.owners e.nextToken (some owner) }

/-- A fresh token, and the time. -/
def draw (owner : Owner) : Handler (ℕ × Time) :=
  .stmt .draw (fun _ _ => []) (fun _ e => e.draw owner) fun _ e => .ret (e.nextToken, e.now)

/-- `SET gate:meta:<hash> … EX`. -/
def Ext.cache (e : Ext) (token : ℕ) (m : Meta) : Ext :=
  { e with metas := Function.update e.metas token (some ⟨m, some (e.now + cacheTtl)⟩) }

/-- The best-effort write into the cache. -/
def cache (down : Bool) (token : ℕ) (m : Meta) : Handler Unit :=
  .onlyIf (down = false) (.effect (.cache token m) fun _ e => e.cache token m)

/-! ## `GET /gate/check` -/

/-- What a request carries in `X-RCQ-Auth`: the operator's own secret, or a token. -/
inductive Credential
  | master
  | token (token : ℕ)

/-- The metadata of a token, from Redis or else from its row.  `down` says that Redis fails. -/
def metaOf (token : ℕ) (down : Bool) : Handler (Option Meta × Time) := do
  let (cached, started) ← .read (.lookup token) fun _ e =>
    (if down then none else Expiring.read e.now (e.metas token), e.now)
  match cached with
  | some m => return (some m, started)
  | none =>
    let row ← .read (.rowOf token) fun db _ => db.byHash token
    match row with
    | none => return (none, started)
    | some found =>
      cache down token found.meta
      return (some found.meta, started)

/-- `_active`, and the record of a check that has let a request through. -/
def judge (token : ℕ) (m : Meta) (started : Time) : Handler Bool :=
  .stmt (.judge token) (fun _ _ => [])
    (fun _ e => if m.active e.now then
      { e with admissions := ⟨token, started⟩ :: e.admissions } else e)
    fun _ e => .ret (m.active e.now)

/-- `gate_check`. -/
def gateCheck (auth : Option Credential) (down : Bool) : Handler Bool :=
  match auth with
  | none => return false
  | some .master => return true
  | some (.token token) => do
    let (found, started) ← metaOf token down
    match found with
    | none => return false
    | some m => judge token m started

/-! ## `POST /gate/redeem` -/

/-- 16 to 64 hexadecimal digits. -/
def validDev (dev : Dev) : Bool :=
  16 ≤ dev.length && dev.length ≤ 64 &&
    dev.all fun c => "0123456789abcdefABCDEF".toList.contains c

/-- The device row of a redeem: a new one, or the one that is there with a new token. -/
def Db.upserted (db : Db) (dev : Dev) (invite token : ℕ) : Device :=
  match db.devices.get dev with
  | some row => { row with tokenHash := token }
  | none => ⟨token, invite, false⟩

/-- `INSERT … ON CONFLICT (device_id) DO UPDATE`: whether the row is new. -/
def upsert (dev : Dev) (invite token : ℕ) : Handler Bool :=
  .write (.upsert dev invite) (fun db _ => [.device dev (some (db.upserted dev invite token))])
    fun db _ => (db.devices.get dev).isNone

/-- The condition of the `UPDATE` that consumes a use. -/
def Issued.consumable (row : Issued) (token : ℕ) (now : Time) : Bool :=
  row.tokenHash == token && row.kind == .invite && !row.revoked &&
    row.maxUses.any (row.uses < ·) && row.expiresAt.all (now < ·)

/-- `UPDATE access_tokens SET uses = uses + 1`. -/
def Db.consumes (db : Db) (invite token : ℕ) (now : Time) : List Write :=
  match db.issued.get invite with
  | some row => if row.consumable token now then
      [.issued invite (some { row with uses := row.uses + 1 })] else []
  | none => []

/-- One use of the invite; whether there was one. -/
def consume (invite token : ℕ) (now : Time) : Handler Bool :=
  .write (.consume invite) (fun db _ => db.consumes invite token now)
    fun db _ => (db.issued.get invite).any (·.consumable token now)

/-- The answer to a redeem: a token, or 401. -/
inductive RedeemOut
  | same
  | minted (token : ℕ)
  | denied
deriving DecidableEq

/-- The commit of a redeem, and the new token in the cache. -/
def finish (dev : Dev) (invite token : ℕ) (down : Bool) : Handler RedeemOut := do
  .commit (.commitRedeem dev invite) (fun e => { e with admitted := (dev, invite) :: e.admitted })
    (.ret ())
  cache down token ⟨false, none, none, 0⟩
  return .minted token

/-- A redeem of an invite that is neither revoked nor expired. -/
def mint (dev : Dev) (invite presented : ℕ) (down : Bool) : Handler RedeemOut := do
  let (token, now) ← draw (.device dev invite)
  let inserted ← upsert dev invite token
  if inserted then
    let consumed ← consume invite presented now
    if consumed then
      finish dev invite token down
    else
      .rollback (.ret .denied)
  else
    finish dev invite token down

/-- `gate_redeem`. -/
def gateRedeem (dev : Dev) (auth : Option Credential) (down : Bool) : Handler RedeemOut :=
  match auth with
  | none => return .denied
  | some credential =>
    if validDev dev = false then
      return .denied
    else
      match credential with
      | .master => return .same
      | .token presented => do
        let (row, now) ← .read (.rowOf presented) fun db e => (db.byHash presented, e.now)
        match row with
        | none => return .denied
        | some (.device _ row) => return if row.meta.active now then .same else .denied
        | some (.issued id row) =>
          if row.kind = .standing then
            return if row.meta.active now then .same else .denied
          else if row.revoked ∨ row.expiresAt.any (· ≤ now) then
            return .denied
          else
            mint dev id presented down

/-! ## The operator -/

/-- `_evict`. -/
def evict (tokens : List ℕ) (down : Bool) : Handler Unit :=
  .onlyIf (down = false) (.effect .evict fun _ e =>
    { e with metas := fun token => if tokens.contains token then none else e.metas token })

/-- `UPDATE access_tokens SET revoked WHERE id`. -/
def Db.revokes (db : Db) : RowId → List Write
  | .issued id =>
    match db.issued.get id with
    | some row => [.issued id (some { row with revoked := true })]
    | none => []
  | .device dev =>
    match db.devices.get dev with
    | some row => [.device dev (some { row with revoked := true })]
    | none => []

def revokeRow (row : RowId) : Handler Unit :=
  .write (.revoke row) (fun db _ => db.revokes row) fun _ _ => ()

/-- The devices that were minted from an invite. -/
def Db.childrenOf (db : Db) (invite : ℕ) : List (Dev × Device) :=
  db.devices.select fun _ row => row.parentId == invite

/-- `UPDATE access_tokens SET revoked WHERE parent_id`. -/
def Db.revokesChildren (db : Db) (invite : ℕ) : List Write :=
  (db.childrenOf invite).map fun r => .device r.1 (some { r.2 with revoked := true })

def revokeChildren (invite : ℕ) : Handler Unit :=
  .write (.revokeChildren invite) (fun db _ => db.revokesChildren invite) fun _ _ => ()

/-- `db.commit()` of a revocation. -/
def commitRevoke (row : RowId) : Handler Unit :=
  .commit (.commitRevoke row)
    (fun e => match row with
      | .issued _ => e
      | .device dev => { e with revocations := ⟨dev, e.now⟩ :: e.revocations })
    (.ret ())

/-- `POST /admin/access-tokens/{token_id}/revoke`: whether there is such a row. -/
def adminRevokeToken (target : RowId) (down : Bool) : Handler Bool :=
  match target with
  | .device dev => do
    let row ← .read .getRow fun db _ => db.devices.get dev
    match row with
    | none => return false
    | some row =>
      revokeRow (.device dev)
      commitRevoke (.device dev)
      evict [row.tokenHash] down
      return true
  | .issued id => do
    let row ← .read .getRow fun db _ => db.issued.get id
    match row with
    | none => return false
    | some row =>
      revokeRow (.issued id)
      if row.kind = .invite then
        let children ← .read .children fun db _ =>
          (db.childrenOf id).map fun r => r.2.tokenHash
        revokeChildren id
        commitRevoke (.issued id)
        evict (row.tokenHash :: children) down
        return true
      else
        commitRevoke (.issued id)
        evict [row.tokenHash] down
        return true

/-- `POST /admin/access-tokens`: the id and the token. -/
def adminCreateToken (kind : Kind) (maxUses : Option ℕ) (expiresInDays : Option ℕ) :
    Handler (ℕ × ℕ) := do
  let (token, now) ← draw .operator
  let row : Issued :=
    { tokenHash := token
      kind := kind
      maxUses := if kind = .invite then some 1 else maxUses
      uses := 0
      expiresAt := (expiresInDays.filter (0 < ·)).map fun n => now + days n
      revoked := false }
  let id ← .stmt .insertIssued (fun _ e => [.issued e.nextId (some row)])
    (fun _ e => { e with nextId := e.nextId + 1 }) fun _ e => .ret e.nextId
  .commitOnly .commitIssued
  return (id, token)

/-! ## The system -/

inductive Request
  | check (auth : Option Credential) (down : Bool)
  | redeem (dev : Dev) (auth : Option Credential) (down : Bool)
  | revoke (target : RowId) (down : Bool)
  | create (kind : Kind) (maxUses : Option ℕ) (expiresInDays : Option ℕ)
  | tick (seconds : ℕ)

inductive Answer
  | check (passes : Bool)
  | redeem (out : RedeemOut)
  | revoke (found : Bool)
  | create (id token : ℕ)
  | done
deriving DecidableEq

def handler : Request → Handler Answer
  | .check auth down => do return .check (← gateCheck auth down)
  | .redeem dev auth down => do return .redeem (← gateRedeem dev auth down)
  | .revoke target down => do return .revoke (← adminRevokeToken target down)
  | .create kind maxUses expiresInDays => do
    let (id, token) ← adminCreateToken kind maxUses expiresInDays
    return .create id token
  | .tick seconds => do
    .effect .tick fun _ e => { e with now := e.now + seconds }
    return .done

abbrev State := Shared Db Ext

abbrev World := ReadCommitted.World Db Ext Write Label Empty Request Answer

/-- An island before the first token. -/
def World.initial (now : Time) : World :=
  .fresh ⟨∅, ∅⟩ ⟨now, fun _ => none, 0, 0, fun _ => none, [], [], []⟩

end RcqServer.Gate
