import RcqServer.Guests.Store
import RcqServer.ReadCommitted.Outside
import RcqServer.ReadCommitted.Serial
import RcqServer.Sessions.Store
import Mathlib.Data.List.Sort

/-!
# Accounts that come and go

How a row of `users` comes to be and ceases to be, and who is given a token for its number meanwhile:
`register`, `guest_join`, `add_guest`, the proofs of a key and the renewals of a session in
`routers/auth.py`, `_perform_migration`, `services/account_delete.py`, `services/guest_sweep.py` and
`services/dead_account_sweep.py`.

Every transaction is one atomic statement here, and the copy of the epochs in Redis is the table
itself; all other statements of the requests interleave.  What the door, the rooms, the allocator and
the denylist say is given to the requests.  Rotations of keys are left out.
-/

namespace RcqServer.Holders

open ReadCommitted
open Sessions (Token issueToken issueDeviceToken)
open Guests (Status)

/-! ## The tables -/

/-- A row of `users`. -/
structure User where
  signingKey : KeyText
  /-- `NULL` for a native account. -/
  guestStatus : Option Status
  guestSince : Option Time
  createdAt : Time
  identityCreatedAt : Option Time
  lastSeen : ℤ
  /-- `resident_since` is not `NULL`. -/
  resident : Bool
deriving DecidableEq

/-- A token that carries the service's signature, and the key of the account that had its number when
it was signed.  The latter is not part of the service. -/
structure Issue where
  token : Token
  holder : Option KeyText
deriving DecidableEq

structure Ext where
  now : Time
  users : Table Uin User
  uinEpochs : Table Uin ℕ
  issued : List Issue

/-- An exception that no handler expects. -/
def internalError : HttpError := ⟨500, "internal_error"⟩

namespace Ext

variable (e : Ext)

/-- A number without a row has not changed hands. -/
def epochOf (uin : Uin) : ℕ := (e.uinEpochs.get uin).getD 0

/-- The signing key of whoever has the number. -/
def keyOf (uin : Uin) : Option KeyText := (e.users.get uin).map User.signingKey

def setUser (uin : Uin) (row : Option User) : Ext := { e with users := e.users.set uin row }

/-- `bump_uin_epoch`. -/
def bump (uin : Uin) : Ext :=
  { e with uinEpochs := e.uinEpochs.set uin (some (e.epochOf uin + 1)) }

/-- A token is signed. -/
def issue (token : Token) : Ext := { e with issued := ⟨token, e.keyOf token.uin⟩ :: e.issued }

/-! ## The transactions -/

/-- The `INSERT` of a new account. -/
def insertUser (uin : Uin) (row : User) : Except HttpError (Unit × Ext) :=
  if (e.users.get uin).isSome then .error internalError
  else .ok ((), e.setUser uin (some row))

/-- `UPDATE … WHERE`, and whether it has found the row. -/
def updateUser (uin : Uin) (p : User → Bool) (f : User → User) : Except HttpError (Bool × Ext) :=
  match (e.users.get uin).filter p with
  | none => .ok (false, e)
  | some row => .ok (true, e.setUser uin (some (f row)))

/-- The transaction of `_convert_guest_on_register`: whoever had a token for the guest has none for the
resident. -/
def convertGuest (uin : Uin) (resident : Bool) : Except HttpError (Unit × Ext) :=
  match e.users.get uin with
  | none => .error internalError
  | some row =>
    .ok ((), (e.bump uin).setUser uin (some
      { row with
        guestStatus := none
        guestSince := none
        resident := resident || row.resident
        lastSeen := e.now }))

/-- `purge_account`: whether there was a row. -/
def purgeAccount (uin : Uin) : Except HttpError (Bool × Ext) :=
  match e.users.get uin with
  | none => .ok (false, e)
  | some _ => .ok (true, (e.bump uin).setUser uin none)

/-- `_perform_migration`, with the row locked; `refusal` is of a suspension or the cooldown. -/
def performMigration (uin target : Uin) (refusal : Option HttpError) :
    Except HttpError (Unit × Ext) :=
  match e.users.get uin, refusal with
  | none, _ => .error ⟨404, "user not found"⟩
  | some _, some refused => .error refused
  | some row, none =>
    if (e.users.get target).isSome then .error ⟨409, "taken"⟩
    else
      let moved := e.setUser target (some
        { row with
          createdAt := e.now
          identityCreatedAt := some (row.identityCreatedAt.getD row.createdAt)
          lastSeen := e.now })
      .ok ((), (moved.bump uin).setUser uin none)

/-- Rows are deleted, and nothing else. -/
def deleteUsers (uins : List Uin) : Ext := uins.foldl (fun e uin => e.setUser uin none) e

end Ext

/-! ## Statements -/

inductive Label
  | decode | readEpoch | mint
  | keyTaken | rowForKey | readUser | candidates
  | insert | update | convert | purge | move
  /-- The dead-account sweep deletes these rows. -/
  | deleteDead (uins : List Uin)
  | tick

abbrev Handler := Prog Unit Ext Empty Label HttpError

abbrev State := Shared Unit Ext

/-- A transaction: it leaves what it comes to, or nothing if it fails. -/
def transaction {α : Type} (l : Label) (tx : Ext → Except HttpError (α × Ext)) : Handler α :=
  .stmt l (fun _ _ => []) (fun _ e => ((tx e).map Prod.snd).toOption.getD e)
    fun _ e => .ofExcept ((tx e).map Prod.fst)

/-- A request refuses as it is told. -/
def refuseAs : Option HttpError → Handler Unit
  | none => return ()
  | some e => .raise e

/-! ## Tokens -/

def uinEpoch (uin : Uin) : Handler ℕ := .read .readEpoch fun _ e => e.epochOf uin

/-- The current epoch of a number is read, and a token signed that carries it. -/
def mint (uin : Uin) (make : Time → ℕ → Token) : Handler Token := do
  let epoch ← uinEpoch uin
  .stmt .mint (fun _ _ => []) (fun _ e => e.issue (make e.now epoch))
    fun _ e => .ret (make e.now epoch)

/-- `issue_token`, under the current epoch. -/
def mintToken (uin : Uin) (device : Option DeviceId) : Handler Token :=
  mint uin fun now epoch => issueToken now uin epoch device

/-- What the denylist and the suspensions say of a session. -/
structure Check where
  revoked : Bool
  suspended : Bool

/-- `_decode_session_payload`: the signature, and the expiry of a linked device's token. -/
def Ext.decodes (e : Ext) (token : Token) : Bool :=
  e.issued.any (·.token = token) && !token.expired e.now

/-- `authorize_session`. -/
def authorizeSession (token : Token) (check : Check) : Handler Uin := do
  let ok ← .read .decode fun _ e => e.decodes token
  .raiseIf (ok = false) ⟨401, "invalid token"⟩
  .raiseIf (token.device.isSome = true ∧ check.revoked = true) ⟨401, "device revoked"⟩
  let epoch ← uinEpoch token.uin
  .raiseIf (token.epoch ≠ epoch) ⟨401, "stale token"⟩
  .raiseIf (check.suspended = true) ⟨403, "suspended"⟩
  return token.uin

/-! ## Registration -/

/-- When the key was claimed first. -/
def User.claimedAt (row : User) : Time := row.identityCreatedAt.getD row.createdAt

/-- `first_claim_order`. -/
def claimedBefore (a b : Uin × User) : Prop :=
  a.2.claimedAt < b.2.claimedAt ∨ a.2.claimedAt = b.2.claimedAt ∧ a.1 ≤ b.1

instance : DecidableRel claimedBefore := fun a b =>
  inferInstanceAs
    (Decidable (a.2.claimedAt < b.2.claimedAt ∨ a.2.claimedAt = b.2.claimedAt ∧ a.1 ≤ b.1))

/-- The first claim among the accounts that satisfy a condition. -/
def Ext.firstClaim (e : Ext) (p : User → Bool) : Option (Uin × User) :=
  ((e.users.select fun _ row => p row).insertionSort claimedBefore).head?

/-- `row_for_key`, over both canonical texts of the key. -/
def Ext.rowForKey (e : Ext) (key : KeyText) (guestsOnly : Bool) : Option (Uin × User) :=
  (decodeKey32 key).bind fun raw => e.firstClaim fun row =>
    (keySpellings raw).contains row.signingKey && (row.guestStatus.isSome || !guestsOnly)

structure RegisterIn where
  signingKey : KeyText
  /-- The signature under the challenge verifies. -/
  proven : Bool
  /-- An entry voucher was redeemed. -/
  resident : Bool
  /-- What the reservation, the wish or `allocate_uin` comes to. -/
  uin : Uin
  device : Option DeviceId
  /-- The keys, the proof or the door refuse. -/
  refusal : Option HttpError
  /-- The invite has a number of its own, or the device is revoked. -/
  convertRefusal : Option HttpError

/-- A key that is taken has to be proven. -/
def refuseTakenKey (body : RegisterIn) : Handler Unit :=
  if body.proven then return ()
  else do
    let taken ← .read .keyTaken fun _ e => (e.firstClaim (·.signingKey = body.signingKey)).isSome
    .raiseIf (taken = true) ⟨403, "key_proof_required"⟩

/-- The guest copy of a key that was proven. -/
def provenGuest (body : RegisterIn) : Handler (Option (Uin × User)) :=
  if body.proven then .read .rowForKey fun _ e => e.rowForKey body.signingKey true
  else return none

/-- `POST /auth/register`. -/
def register (body : RegisterIn) : Handler Token := do
  refuseTakenKey body
  refuseAs body.refusal
  let guest ← provenGuest body
  match guest with
  | some (uin, _) =>
    refuseAs body.convertRefusal
    transaction .convert fun e => e.convertGuest uin body.resident
    mintToken uin body.device
  | none =>
    transaction .insert fun e => e.insertUser body.uin
      ⟨body.signingKey, none, none, e.now, none, e.now, body.resident⟩
    mintToken body.uin body.device

/-! ## Guests -/

/-- `DORMANT_DAYS`. -/
def dormantDays : ℕ := 14

/-- `mint_backdate`. -/
def mintBackdate : Time := days (max (dormantDays - 1) 1)

/-- `added_backdate`. -/
def addedBackdate : Time := days (dormantDays + 16)

/-- `POLL_STAMP_LAG`. -/
def pollStampLag : Time := 3600

/-- A new guest copy. -/
def guestRow (now : Time) (signingKey : KeyText) (status : Status) (backdate : Time) : User :=
  ⟨signingKey, some status, some now, now, none, now - backdate, false⟩

structure GuestIn where
  signingKey : KeyText
  /-- What `allocate_uin` comes to. -/
  uin : Uin
  device : Option DeviceId
  deviceRevoked : Bool
  /-- The proof is refused. -/
  refusal : Option HttpError
  /-- The settings, the room or its budget refuse a new guest. -/
  roomRefusal : Option HttpError

/-- `claim_seat`. -/
def claimSeat (uin : Uin) : Handler Bool :=
  transaction .update fun e => e.updateUser uin (·.guestStatus == some .added) fun row =>
    { row with
      guestStatus := some .proven, guestSince := some e.now, lastSeen := e.now - pollStampLag }

/-- `_guest_existing_row`. -/
def guestExistingRow (body : GuestIn) (uin : Uin) (row : User) : Handler Token := do
  .raiseIf (body.deviceRevoked = true) ⟨401, "device_revoked"⟩
  .onlyIf (row.guestStatus = some .added) do
    let _ ← claimSeat uin
    return ()
  mintToken uin body.device

/-- `POST /auth/guest`; the second look is under the create lock. -/
def guestJoin (body : GuestIn) : Handler Token := do
  refuseAs body.refusal
  let existing ← .read .rowForKey fun _ e => e.rowForKey body.signingKey false
  match existing with
  | some (uin, row) => guestExistingRow body uin row
  | none =>
    refuseAs body.roomRefusal
    let existing ← .read .rowForKey fun _ e => e.rowForKey body.signingKey false
    match existing with
    | some (uin, row) => guestExistingRow body uin row
    | none =>
      transaction .insert fun e => e.insertUser body.uin
        (guestRow e.now body.signingKey .proven mintBackdate)
      mintToken body.uin body.device

/-- `POST /groups/{id}/guests`: a seat for a key that nobody has proven, and no token. -/
def addGuest (bearer : Token) (check : Check) (body : GuestIn) : Handler Unit := do
  let _ ← authorizeSession bearer check
  refuseAs body.refusal
  let existing ← .read .rowForKey fun _ e => e.rowForKey body.signingKey false
  .onlyIf (existing.isNone = true) do
    refuseAs body.roomRefusal
    let existing ← .read .rowForKey fun _ e => e.rowForKey body.signingKey false
    .onlyIf (existing.isNone = true)
      (transaction .insert fun e => e.insertUser body.uin
        (guestRow e.now body.signingKey .added addedBackdate))

/-- `POST /auth/guest/settle`; `gate` is the refusal of the door, if it refuses. -/
def guestSettle (bearer : Token) (check : Check) (gate : Option HttpError) (resident : Bool) :
    Handler Unit := do
  let uin ← authorizeSession bearer check
  let user ← .read .readUser fun _ e => e.users.get uin
  match user with
  | none => .raise ⟨404, "user_not_found"⟩
  | some row =>
    .raiseIf (row.guestStatus = none) ⟨409, "not_a_guest"⟩
    refuseAs gate
    let found ← transaction .update fun e => e.updateUser uin (fun _ => true) fun row =>
      { row with
        guestStatus := none, guestSince := none, resident := resident || row.resident }
    .raiseIf (found = false) internalError

/-! ## Sessions for an account that is there -/

/-- `_claim_seat_on_proof`. -/
def claimSeatOnProof (uin : Uin) : Handler Unit := do
  let status ← .read .readUser fun _ e => (e.users.get uin).bind User.guestStatus
  .onlyIf (status = some .added) do
    let _ ← claimSeat uin
    return ()

/-- What both proofs of a key come to. -/
def proofToken (uin : Uin) (device : Option DeviceId) (revoked : Bool) : Handler Token := do
  .raiseIf (device.isSome = true ∧ revoked = true) ⟨401, "device_revoked"⟩
  claimSeatOnProof uin
  mintToken uin device

/-- `POST /auth/recover`, once the proof is accepted. -/
def recover (signingKey : KeyText) (device : Option DeviceId) (revoked : Bool) : Handler Token := do
  let row ← .read .rowForKey fun _ e => e.firstClaim (·.signingKey = signingKey)
  match row with
  | none => .raise ⟨404, "identity_not_found"⟩
  | some (uin, _) => proofToken uin device revoked

/-- `POST /auth/refresh`, once the proof is accepted: the account may have moved. -/
def refresh (uin : Uin) (signingKey : KeyText) (device : Option DeviceId) (revoked : Bool) :
    Handler Token := do
  let key ← .read .readUser fun _ e => e.keyOf uin
  if key = some signingKey then
    proofToken uin device revoked
  else
    let stillThere ← .read .readUser fun _ e => (e.users.get uin).isSome
    .raiseIf (stillThere = true) ⟨404, "identity_not_found"⟩
    let candidates ← .read .rowForKey fun _ e =>
      e.users.select fun _ row => row.signingKey = signingKey
    match candidates with
    | [] => .raise ⟨404, "identity_not_found"⟩
    | [(owned, _)] => proofToken owned device revoked
    | _ :: _ :: _ => .raise ⟨404, "identity_ambiguous"⟩

/-- `POST /auth/session`; `carry_device_id` keeps the name of the install. -/
def session (bearer : Token) (check : Check) : Handler Token := do
  let uin ← authorizeSession bearer check
  mintToken uin bearer.device

/-- `POST /auth/device`; `refusal` is of a revoked device or of a linked one. -/
def claimDevice (bearer : Token) (check : Check) (device : DeviceId) (refusal : Option HttpError) :
    Handler Token := do
  let uin ← authorizeSession bearer check
  refuseAs refusal
  mintToken uin (some device)

/-- `POST /devices/link`, with the id that is drawn for the browser. -/
def linkDevice (bearer : Token) (check : Check) (device : DeviceId) (refusal : Option HttpError) :
    Handler Token := do
  let uin ← authorizeSession bearer check
  refuseAs refusal
  mint uin fun now epoch => issueDeviceToken now uin device epoch

/-! ## Numbers that are given up -/

/-- `POST /account/migrate`, and the switch of `routers/uin_shop.py`. -/
def migrate (bearer : Token) (check : Check) (target : Uin) (refusal : Option HttpError) :
    Handler Token := do
  let uin ← authorizeSession bearer check
  transaction .move fun e => e.performMigration uin target refusal
  mintToken target bearer.device

/-- `DELETE /auth/account`. -/
def deleteAccount (bearer : Token) (check : Check) : Handler Unit := do
  let uin ← authorizeSession bearer check
  let found ← transaction .purge fun e => e.purgeAccount uin
  .raiseIf (found = false) ⟨404, "user not found"⟩

/-! ## The guest sweep -/

/-- `guest_added_ttl_days` and `guest_idle_days`. -/
structure Limits where
  ttl : ℕ
  idle : ℕ

/-- `NEVER_POLLED_AFTER`. -/
def neverPolledAfter : Time := days 7

/-- `never_polled_gap`. -/
def neverPolledGap : Time := min (days 2) (mintBackdate / 2)

/-- `BATCH`, of either sweep. -/
def batch : ℕ := 500

inductive Kind
  | a | b | c

/-- `_eligible`. -/
def eligible (limits : Limits) (now : Time) (row : User) : Kind → Bool
  | .a => row.guestStatus = some .added &&
      row.guestSince.any fun since => since + days limits.ttl < now
  | .b => row.guestStatus = some .proven && row.guestSince.any fun since =>
    decide (since + neverPolledAfter < now) && decide (row.lastSeen < since - neverPolledGap)
  | .c => row.guestStatus = some .proven && decide (row.lastSeen < now - days limits.idle)

/-- The rows that `find_candidates` asks for, in their order. -/
def Ext.guestRows (e : Ext) (limits : Limits) (now : Time) : Kind → List (Uin × User)
  | .a => ((e.users.select fun _ row => eligible limits now row .a).insertionSort
      fun x y => x.2.guestSince.getD 0 ≤ y.2.guestSince.getD 0).take batch
  | .b => (e.users.select fun _ row => row.guestStatus = some .proven &&
        row.guestSince.any (fun since => since + neverPolledAfter < now) &&
        decide (row.lastSeen < now - neverPolledAfter)).insertionSort
      fun x y => x.2.guestSince.getD 0 ≤ y.2.guestSince.getD 0
  | .c => ((e.users.select fun _ row => eligible limits now row .c).insertionSort
      fun x y => x.2.lastSeen ≤ y.2.lastSeen).take batch

/-- The loop of `find_candidates` over the rows of one kind. -/
def addCandidates (limits : Limits) (now : Time) (kind : Kind) (rows : List (Uin × User))
    (out : List (Uin × Kind)) : List (Uin × Kind) :=
  rows.foldl (fun out r =>
    if batch ≤ out.length ∨ out.any (·.1 = r.1) = true ∨ eligible limits now r.2 kind = false then out
    else out ++ [(r.1, kind)]) out

/-- `find_candidates`. -/
def findCandidates (limits : Limits) : Handler (List (Uin × Kind)) := do
  let now ← .read .candidates fun _ e => e.now
  let seats ← .read .candidates fun _ e => e.guestRows limits now .a
  let silent ← .read .candidates fun _ e => e.guestRows limits now .b
  let idle ← .read .candidates fun _ e => e.guestRows limits now .c
  return addCandidates limits now .c idle (addCandidates limits now .b silent
    (addCandidates limits now .a seats []))

/-- The transaction of `purge_if_still_eligible`. -/
def Ext.purgeIfStillEligible (e : Ext) (limits : Limits) (uin : Uin) (kind : Kind) :
    Except HttpError (Bool × Ext) :=
  if (e.users.get uin).any (eligible limits e.now · kind) then e.purgeAccount uin else .ok (false, e)

/-- The loop of `sweep_once`. -/
def purgeGuests (limits : Limits) : List (Uin × Kind) → Handler Unit
  | [] => return ()
  | (uin, kind) :: rest => do
    let _ ← transaction .purge fun e => e.purgeIfStillEligible limits uin kind
    purgeGuests limits rest

/-- `guest_sweep.sweep_once`. -/
def guestSweep (limits : Limits) : Handler Unit := do
  let candidates ← findCandidates limits
  purgeGuests limits candidates

/-! ## The dead-account sweep -/

/-- `DEAD_AFTER_DAYS`. -/
def deadAfterDays : ℕ := 30

/-- `FIRST_HOUR_SECONDS`. -/
def firstHourSeconds : Time := 3600

/-- `_CANDIDATES`; `bare` says that the account has the nickname that the island has given it and no
avatar, device, push token, contact, room, site, number in a collection or report. -/
def Ext.deadRows (e : Ext) (bare : Uin → Bool) : List (Uin × User) :=
  ((e.users.select fun uin row => decide (row.createdAt + days deadAfterDays < e.now) &&
      !row.resident && row.guestStatus.isNone && bare uin).insertionSort
    fun x y => x.2.createdAt ≤ y.2.createdAt).take (batch * 4)

/-- `_never_came_back`. -/
def neverCameBack (row : User) : Bool := row.lastSeen - row.createdAt < firstHourSeconds

/-- The loop of `_sweep_once` over the accounts, with those deleted since the last commit. -/
def deleteDead : List Uin → List Uin → Handler Unit
  | [], deleted => transaction (.deleteDead deleted) fun e => .ok ((), e.deleteUsers deleted)
  | uin :: rest, deleted =>
    if (deleted.length + 1) % 100 = 0 then do
      transaction (.deleteDead (deleted ++ [uin])) fun e =>
        .ok ((), e.deleteUsers (deleted ++ [uin]))
      deleteDead rest []
    else
      deleteDead rest (deleted ++ [uin])

/-- `dead_account_sweep._sweep_once`. -/
def deadAccountSweep (bare : Uin → Bool) : Handler Unit := do
  let rows ← .read .candidates fun _ e => e.deadRows bare
  let uins := ((rows.filter fun r => neverCameBack r.2).map Prod.fst).take batch
  .onlyIf (uins ≠ []) (deleteDead uins [])

/-! ## The system -/

inductive Request
  | register (body : RegisterIn)
  | guestJoin (body : GuestIn)
  | addGuest (bearer : Token) (check : Check) (body : GuestIn)
  | guestSettle (bearer : Token) (check : Check) (gate : Option HttpError) (resident : Bool)
  | recover (signingKey : KeyText) (device : Option DeviceId) (revoked : Bool)
  | refresh (uin : Uin) (signingKey : KeyText) (device : Option DeviceId) (revoked : Bool)
  | session (bearer : Token) (check : Check)
  | claimDevice (bearer : Token) (check : Check) (device : DeviceId) (refusal : Option HttpError)
  | linkDevice (bearer : Token) (check : Check) (device : DeviceId) (refusal : Option HttpError)
  | migrate (bearer : Token) (check : Check) (target : Uin) (refusal : Option HttpError)
  | deleteAccount (bearer : Token) (check : Check)
  | guestSweep (limits : Limits)
  | deadAccountSweep (bare : Uin → Bool)
  /-- A heartbeat or a poll of the account. -/
  | seen (uin : Uin)
  /-- A request that asks for nothing but a session. -/
  | authorize (token : Token) (check : Check)
  | tick (seconds : ℕ)

inductive Answer
  | token (token : Token)
  | uin (uin : Uin)
  | done
deriving DecidableEq

def handler : Request → Handler Answer
  | .register body => do return .token (← register body)
  | .guestJoin body => do return .token (← guestJoin body)
  | .addGuest bearer check body => do
    addGuest bearer check body
    return .done
  | .guestSettle bearer check gate resident => do
    guestSettle bearer check gate resident
    return .done
  | .recover signingKey device revoked => do return .token (← recover signingKey device revoked)
  | .refresh uin signingKey device revoked => do
    return .token (← refresh uin signingKey device revoked)
  | .session bearer check => do return .token (← session bearer check)
  | .claimDevice bearer check device refusal => do
    return .token (← claimDevice bearer check device refusal)
  | .linkDevice bearer check device refusal => do
    return .token (← linkDevice bearer check device refusal)
  | .migrate bearer check target refusal => do
    return .token (← migrate bearer check target refusal)
  | .deleteAccount bearer check => do
    deleteAccount bearer check
    return .done
  | .guestSweep limits => do
    guestSweep limits
    return .done
  | .deadAccountSweep bare => do
    deadAccountSweep bare
    return .done
  | .seen uin => do
    let _ ← transaction .update fun e => e.updateUser uin (fun _ => true) fun row =>
      { row with lastSeen := e.now }
    return .done
  | .authorize token check => do return .uin (← authorizeSession token check)
  | .tick seconds => do
    .effect .tick fun _ e => { e with now := e.now + seconds }
    return .done

abbrev World := ReadCommitted.World Unit Ext Empty Label HttpError Request Answer

/-- An island on which nobody has been yet. -/
def World.initial (now : Time) : World := .fresh () ⟨now, ∅, ∅, []⟩

end RcqServer.Holders
