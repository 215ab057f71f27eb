import RcqServer.Base64
import RcqServer.Basic
import RcqServer.Versioned
import RcqServer.ReadCommitted.Adequacy
import RcqServer.ReadCommitted.Table

/-!
# The vault

Opaque, versioned slots of an account (`routers/vault.py`).  A write names the version that its
author has read and is stored as the next one, or is refused as stale.  A delete keeps the row as a
tombstone, without a blob and with an advanced version.

`Ext.accepted` is not part of the service; it records the writes and deletes that were committed.
-/

namespace RcqServer.Vault

open ReadCommitted Versioned

/-- `_slot_path`. -/
structure SlotName where
  text : List Char
  length_eq : text.length = 32
  hex : ∀ c ∈ text, ('0' ≤ c ∧ c ≤ '9') ∨ ('a' ≤ c ∧ c ≤ 'f')
deriving DecidableEq

/-- The primary key of `vault_slots`. -/
abbrev SlotKey := Uin × SlotName

/-- Base64 text. -/
abbrev Blob := List Char

/-- A row of `vault_slots`; without a blob it is a tombstone. -/
structure VaultSlot where
  blob : Option Blob
  version : ℕ

structure Db where
  vaultSlots : Table SlotKey VaultSlot

/-- A write of one row. -/
structure Write where
  key : SlotKey
  row : Option VaultSlot

instance : Store Db Write SlotKey where
  apply w db := ⟨db.vaultSlots.set w.key w.row⟩
  key := Write.key

/-- A write or a delete that was committed. -/
structure Accepted where
  key : SlotKey
  update : Update VaultSlot

structure Ext where
  accepted : List Accepted

/-- The updates of one slot, newest first. -/
def Ext.updatesOf (e : Ext) (key : SlotKey) : List (Update VaultSlot) :=
  (e.accepted.filter (·.key = key)).map Accepted.update

inductive Label
  | count | current | insertSlot | updateSlot | getSlot | listSlots | commit

/-- `HTTPException`, with the `version` of its detail where it has one. -/
structure Refusal where
  error : HttpError
  version : Option ℕ

abbrev Handler := Prog Db Ext Write Label Refusal

/-! ## Limits -/

/-- `MAX_BLOB_BYTES`. -/
def maxBlobBytes : ℕ := 256 * 1024

/-- `MAX_BLOB_B64`. -/
def maxBlobB64 : ℕ := maxBlobBytes * 4 / 3 + 4

/-- `MAX_SLOTS`. -/
def maxSlots : ℕ := 32

/-- `MAX_VERSION`. -/
def maxVersion : ℕ := 2 ^ 62

/-- The body of a write. -/
structure VaultPutIn where
  blob : List Char
  /-- The version that the write is based on; `0` for a slot that has never existed. -/
  version : ℕ
  blob_le : blob.length ≤ maxBlobB64
  version_le : version ≤ maxVersion

/-! ## Blobs -/

/-- `[A-Za-z0-9+/]*={0,2}`, the whole text. -/
def looksLikeBase64 (text : List Char) : Bool :=
  (Base64.unpad text).all (fun c => (Base64.value c).isSome) &&
    text.length ≤ (Base64.unpad text).length + 2

/-- `_canonical_blob`: the text is decoded and encoded again. -/
def canonicalBlob (raw : List Char) : Except HttpError Blob :=
  let s := strip raw
  if s.isEmpty then .error ⟨400, "empty_blob"⟩
  else if maxBlobB64 < s.length then .error ⟨413, "blob_too_large"⟩
  else if looksLikeBase64 s = false then .error ⟨400, "bad_base64"⟩
  else
    match Base64.decode s with
    | none => .error ⟨400, "bad_base64"⟩
    | some data =>
      if data.isEmpty then .error ⟨400, "empty_blob"⟩
      else if maxBlobBytes < data.length then .error ⟨413, "blob_too_large"⟩
      else .ok (Base64.encode data)

/-! ## Statements -/

/-- `_current_version`. -/
def currentVersion (key : SlotKey) : Handler ℕ :=
  .read .current fun db _ => versionOf VaultSlot.version (db.vaultSlots.get key)

/-- `raise _stale(await _current_version(…))`. -/
def refuseStale {α : Type} (key : SlotKey) : Handler α := do
  let current ← currentVersion key
  .raise ⟨⟨409, "stale"⟩, some current⟩

/-- `db.add(VaultSlot(…))` in a savepoint of its own.  It waits for whoever has the key locked. -/
def insertSlot (key : SlotKey) (row : VaultSlot) : Handler Unit :=
  .stmt .insertSlot (fun db _ => [⟨key, some ((db.vaultSlots.get key).getD row)⟩]) (fun _ e => e)
    fun db _ => if (db.vaultSlots.get key).isSome then .rollback (refuseStale key) else .ret ()

/-- `UPDATE vault_slots … WHERE`: whether the row met the condition and now is `row`. -/
def updateSlot (key : SlotKey) (cond : VaultSlot → Bool) (row : VaultSlot) : Handler Bool :=
  .write .updateSlot (fun db _ => if (db.vaultSlots.get key).any cond then [⟨key, some row⟩] else [])
    fun db _ => (db.vaultSlots.get key).any cond

/-- `db.commit()` after a write on top of the version `based`. -/
def commitSlot (key : SlotKey) (based : ℕ) (row : VaultSlot) : Handler Unit :=
  .commit .commit (fun e => ⟨⟨key, ⟨based, row⟩⟩ :: e.accepted⟩) (.ret ())

/-! ## Requests -/

/-- The live slots of an account. -/
def Db.liveSlots (db : Db) (uin : Uin) : List (SlotKey × VaultSlot) :=
  db.vaultSlots.select fun key row => key.1 == uin && row.blob.isSome

/-- A write whose author believes that the slot has never existed. -/
def createSlot (key : SlotKey) (blob : Blob) : Handler ℕ := do
  let n ← .read .count fun db _ => (db.liveSlots key.1).length
  if maxSlots ≤ n then
    let current ← currentVersion key
    .raiseIf (current ≠ 0) ⟨⟨409, "stale"⟩, some current⟩
    .raise ⟨⟨400, "slot_limit"⟩, none⟩
  else
    insertSlot key ⟨some blob, 1⟩
    commitSlot key 0 ⟨some blob, 1⟩
    return 1

/-- A write on top of a version, which may be a tombstone's. -/
def rewriteSlot (key : SlotKey) (blob : Blob) (version : ℕ) : Handler ℕ := do
  let updated ← updateSlot key (·.version == version) ⟨some blob, version + 1⟩
  if updated then
    commitSlot key version ⟨some blob, version + 1⟩
    return version + 1
  else
    refuseStale key

/-- `PUT /vault/{slot}`.  `budget` is what the account may still write today, in bytes. -/
def putSlot (key : SlotKey) (body : VaultPutIn) (budget : ℕ) : Handler ℕ :=
  match canonicalBlob body.blob with
  | .error e => .raise ⟨e, none⟩
  | .ok blob => do
    .raiseIf (budget < blob.length * 3 / 4) ⟨⟨429, "fanout_budget_exhausted"⟩, none⟩
    if body.version = 0 then
      createSlot key blob
    else
      rewriteSlot key blob body.version

/-- `DELETE /vault/{slot}?version=N`.  Deleting what is gone already is not an error. -/
def deleteSlot (key : SlotKey) (version : ℕ) : Handler Unit := do
  let row ← .read .getSlot fun db _ => db.vaultSlots.get key
  match row.bind VaultSlot.blob with
  | none => return ()
  | some _ =>
    let updated ← updateSlot key (fun row => row.version == version && row.blob.isSome)
      ⟨none, version + 1⟩
    if updated then
      commitSlot key version ⟨none, version + 1⟩
    else
      refuseStale key

/-- `GET /vault/{slot}`. -/
def getSlot (key : SlotKey) : Handler VaultSlot := do
  let row ← .read .getSlot fun db _ => db.vaultSlots.get key
  match row with
  | some row =>
    .raiseIf (row.blob = none) ⟨⟨404, "no_slot"⟩, some row.version⟩
    return row
  | none => .raise ⟨⟨404, "no_slot"⟩, some 0⟩

/-- `GET /vault`: the live slots with their versions. -/
def listSlots (uin : Uin) : Handler (List (SlotName × ℕ)) :=
  .read .listSlots fun db _ => (db.liveSlots uin).map fun r => (r.1.2, r.2.version)

/-! ## The system -/

inductive Request
  | putSlot (key : SlotKey) (body : VaultPutIn) (budget : ℕ)
  | deleteSlot (key : SlotKey) (version : ℕ) (version_pos : 1 ≤ version)
      (version_le : version ≤ maxVersion)
  | getSlot (key : SlotKey)
  | listSlots (uin : Uin)

inductive Answer
  | version (v : ℕ)
  | noContent
  | slot (row : VaultSlot)
  | slots (slots : List (SlotName × ℕ))

def handler : Request → Handler Answer
  | .putSlot key body budget => do return .version (← putSlot key body budget)
  | .deleteSlot key version _ _ => do
    deleteSlot key version
    return .noContent
  | .getSlot key => do return .slot (← getSlot key)
  | .listSlots uin => do return .slots (← listSlots uin)

abbrev State := Shared Db Ext

abbrev World := ReadCommitted.World Db Ext Write Label Refusal Request Answer

end RcqServer.Vault
