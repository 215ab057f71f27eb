import RcqServer.Guests.Store
import RcqServer.ReadCommitted.Serial
import RcqServer.ReadCommitted.Transaction
import Mathlib.Data.List.Sort

/-!
# The sweeps

Two sweeps delete accounts that nobody uses: `services/guest_sweep.py` takes unclaimed seats and
guests that have not come back, `services/dead_account_sweep.py` native accounts that were made and
never used.  Both read their candidates in one session and delete them in another.

The guest sweep infers from two columns whether a guest has ever asked for anything: a mint writes
`last_seen` a day or more before `guest_since`, and every sign of life writes it an hour before the
present at the earliest.  The columns are written by the mints, by the claim of a seat, by the stamp of
a poll and by the socket.

`User.settled` and `User.stamped` are not columns; they record that the account has become native, and
that somebody was there after its mint.  A request reads the clock in the statement that writes the
time down.
-/

namespace RcqServer.Sweeps

open ReadCommitted
open Guests (Status)

/-! ## The tables -/

/-- A row of `users`. -/
structure User where
  nickname : List Char
  avatarMediaId : Option String
  createdAt : ℤ
  lastSeen : ℤ
  residentSince : Option ℤ
  /-- `NULL` for a native account. -/
  guestStatus : Option Status
  guestSince : Option ℤ
  /-- A settle or a redeem of the account was committed. -/
  settled : Bool
  /-- A poll, a claim or a socket has stamped the account. -/
  stamped : Bool

/-- A row of another table that names accounts. -/
inductive Tie
  | device (id : ℕ) (uin : Uin)
  | deviceToken (id : ℕ) (uin : Uin)
  | contact (ownerUin contactUin : Uin)
  | groupMember (group : ℕ) (uin : Uin)
  | group (id : ℕ) (ownerUin : Uin)
  | site (name : String) (ownerUin : Uin)
  | ownedUin (uin ownerUin : Uin)
  | report (id : ℕ) (reporterUin targetUin : Uin)
deriving DecidableEq

/-- The row is one of those that keep an account from being dead. -/
def Tie.about (uin : Uin) : Tie → Bool
  | .device _ u | .deviceToken _ u | .groupMember _ u | .group _ u | .site _ u => u == uin
  | .contact u v | .ownedUin u v | .report _ u v => u == uin || v == uin

/-- The row is in the list of `purge_uin_rows`; a number held by another is not. -/
def Tie.purged (uin : Uin) : Tie → Bool
  | .device _ _ | .deviceToken _ _ => false
  | .ownedUin _ owner => owner == uin
  | .contact u v | .report _ u v => u == uin || v == uin
  | .groupMember _ u | .group _ u | .site _ u => u == uin

/-- The row goes with the row of `users`: `ON DELETE CASCADE`. -/
def Tie.cascades (uin : Uin) : Tie → Bool
  | .device _ u | .deviceToken _ u => u == uin
  | .contact _ _ | .groupMember _ _ | .group _ _ | .site _ _ | .ownedUin _ _ | .report _ _ _ => false

structure Db where
  users : Table Uin User
  ties : Table Tie Unit

/-- A write of one row; `none` deletes it. -/
inductive Write
  | user (uin : Uin) (row : Option User)
  | tie (t : Tie) (row : Option Unit)

/-- The row that a write locks. -/
inductive RowKey
  | user (uin : Uin)
  | tie (t : Tie)
deriving DecidableEq

def Write.key : Write → RowKey
  | user uin _ => .user uin
  | tie t _ => .tie t

def Write.apply : Write → Db → Db
  | user uin row, db => { db with users := db.users.set uin row }
  | tie t row, db => { db with ties := db.ties.set t row }

instance : Store Db Write RowKey where
  apply := Write.apply
  key := Write.key

theorem sets_users : Sets Db.users Write.user := {}

theorem sets_ties : Sets Db.ties Write.tie := {}

structure Ext where
  now : ℤ

/-- `"a"`, `"b"` and `"c"` of the guest sweep: unclaimed, never polled, idle. -/
inductive Kind
  | a | b | c
deriving DecidableEq

/-- The commit of a purge by the guest sweep names the row and its kind. -/
inductive Label
  | clock | getUser | insertUser | updateUser | link | unlink | commit
  | candidates (kind : Kind) | lockUser | dropTies | dropUser | purge (uin : Uin) (kind : Kind)
  | deadCandidates | deadTies | deadUser | deadCommit
deriving DecidableEq

abbrev Handler := Prog Db Ext Write Label HttpError

abbrev State := Shared Db Ext

/-- The settings of the process. -/
structure Config where
  /-- `DORMANT_DAYS`. -/
  dormantDays : ℤ
  /-- `DEAD_AFTER_DAYS`. -/
  deadAfterDays : ℤ
  /-- `BATCH` of the guest sweep. -/
  guestBatch : ℕ
  /-- `BATCH` of the dead-account sweep. -/
  deadBatch : ℕ

/-- A span of days. -/
def span (days : ℤ) : ℤ := days * 86400

/-- An exception that no handler expects. -/
def internalError : HttpError := ⟨500, "internal_error"⟩

/-! ## Statements -/

def clock (l : Label) : Handler ℤ := .read l fun _ e => e.now

def getUser (uin : Uin) : Handler (Option User) := .read .getUser fun db _ => db.users.get uin

/-- The `INSERT` of an account, which waits for whoever else writes the row. -/
def insertUser (uin : Uin) (row : ℤ → User) : Handler Unit :=
  .stmt .insertUser (fun db e => [.user uin (some ((db.users.get uin).getD (row e.now)))])
    (fun _ e => e) fun db _ => .raiseIf (db.users.get uin).isSome internalError

/-- `UPDATE … WHERE`, and whether it has found the row. -/
def updateUser (uin : Uin) (p : ℤ → User → Bool) (f : ℤ → User → User) : Handler Bool :=
  .write .updateUser
    (fun db e => (((db.users.get uin).filter (p e.now)).map fun row =>
      .user uin (some (f e.now row))).toList)
    fun db e => (db.users.get uin).any (p e.now)

/-- The `UPDATE` of a row that was loaded before; it fails if the row is gone. -/
def saveUser (uin : Uin) (f : ℤ → User → User) : Handler Unit := do
  let found ← updateUser uin (fun _ _ => true) f
  .raiseIf (found = false) internalError

/-- `SELECT … FOR UPDATE`. -/
def lockUser (uin : Uin) : Handler (Option User) :=
  .write .lockUser
    (fun db _ => ((db.users.get uin).map fun row => .user uin (some row)).toList)
    fun db _ => db.users.get uin

/-- The rows that `purge_uin_rows` deletes, with the members of the rooms among them. -/
def Db.purged (db : Db) (uin : Uin) (t : Tie) : Bool :=
  t.purged uin ||
    match t with
    | .groupMember group _ => (db.ties.get (.group group uin)).isSome
    | _ => false

/-- `purge_uin_rows`. -/
def purgeUinRows (l : Label) (uin : Uin) : Handler Unit :=
  .write l (fun db _ => (db.ties.select fun t _ => db.purged uin t).map fun r => .tie r.1 none)
    fun _ _ => ()

/-- `DELETE FROM users`. -/
def deleteUser (l : Label) (uin : Uin) : Handler Unit :=
  .write l
    (fun db _ => ((db.users.get uin).map fun _ => Write.user uin none).toList ++
      (db.ties.select fun t _ => t.cascades uin).map fun r => .tie r.1 none)
    fun _ _ => ()

/-- `purge_account`, up to its commit. -/
def purgeAccount (uin : Uin) : Handler Unit := do
  purgeUinRows .dropTies uin
  deleteUser .dropUser uin

/-- What a handler is refused for. -/
def refuseAs : Option HttpError → Handler Unit
  | none => return ()
  | some e => .raise e

/-! ## Arrivals -/

/-- A new native account; a voucher makes it a resident. -/
def register (uin : Uin) (nickname : List Char) (resident : Bool) : Handler Unit := do
  insertUser uin fun now =>
    ⟨nickname, none, now, now, if resident then some now else none, none, none, false, false⟩
  .commitOnly .commit

variable (cfg : Config)

/-- `mint_backdate`. -/
def mintBackdate : ℤ :=
  if 0 < cfg.dormantDays then span (max (cfg.dormantDays - 1) 1) else span 13

/-- `added_backdate`. -/
def addedBackdate : ℤ := span (max cfg.dormantDays 0 + 16)

/-- `POLL_STAMP_LAG`. -/
def pollStampLag : ℤ := 3600

/-- A new guest copy. -/
def guestRow (nickname : List Char) (status : Status) (backdate now : ℤ) : User :=
  ⟨nickname, none, now, now - backdate, none, some status, some now, false, false⟩

/-- `POST /auth/guest`, for a key without a row. -/
def guestJoin (uin : Uin) (nickname : List Char) : Handler Unit := do
  insertUser uin (guestRow nickname .proven (mintBackdate cfg))
  .commitOnly .commit

/-- `POST /groups/{id}/guests`, for a key without a row. -/
def addGuest (uin : Uin) (nickname : List Char) : Handler Unit := do
  insertUser uin (guestRow nickname .added (addedBackdate cfg))
  .commitOnly .commit

/-! ## Guests -/

/-- `claim_seat`, and the commit of its caller. -/
def claimSeat (uin : Uin) : Handler Unit := do
  let _ ← updateUser uin (fun _ row => row.guestStatus == some .added) fun now row =>
    { row with
      guestStatus := some .proven, guestSince := some now, lastSeen := now - pollStampLag
      stamped := true }
  .commitOnly .commit

/-- `clear_guest_columns`, on the row as it was loaded: what was `NULL` is not written. -/
def clearGuestColumns (loaded row : User) : User :=
  { row with
    guestStatus := if loaded.guestStatus.isSome then none else row.guestStatus
    guestSince := if loaded.guestSince.isSome then none else row.guestSince
    settled := true }

/-- `POST /auth/guest/settle`; the voucher, the invite or the policy may refuse. -/
def guestSettle (uin : Uin) (gate : Option HttpError) (resident : Bool) : Handler Unit := do
  let user ← getUser uin
  match user with
  | none => .raise ⟨404, "user_not_found"⟩
  | some loaded =>
    .raiseIf (loaded.guestStatus = none) ⟨409, "not_a_guest"⟩
    refuseAs gate
    saveUser uin fun now row =>
      { clearGuestColumns loaded row with
        residentSince := if resident then some now else row.residentSince }
    .commitOnly .commit

/-- `POST /residency/redeem`; `refusal` is of a suspension or the voucher. -/
def residencyRedeem (uin : Uin) (refusal : Option HttpError) : Handler Unit := do
  let user ← getUser uin
  match user with
  | none => .raise ⟨404, "user not found"⟩
  | some loaded =>
    .raiseIf loaded.residentSince.isSome ⟨409, "already_resident"⟩
    refuseAs refusal
    saveUser uin fun now row =>
      { clearGuestColumns loaded row with residentSince := some now }
    .commitOnly .commit

/-- `_convert_guest_on_register`, for the guest row of a proven key. -/
def convertGuest (uin : Uin) (refusal : Option HttpError) (resident : Bool) : Handler Unit := do
  refuseAs refusal
  let user ← getUser uin
  match user with
  | none => .raise internalError
  | some loaded =>
    saveUser uin fun now row =>
      { clearGuestColumns loaded row with
        residentSince := if resident then some now else row.residentSince
        lastSeen := now }
    .commitOnly .commit

/-! ## Signs of life -/

/-- The row of an account that is here now. -/
def User.seen (now : ℤ) (row : User) : User := { row with lastSeen := now, stamped := true }

/-- `touch_poll`; `due` says that the number is marked as a guest's and no stamp was written for it
in the last hours. -/
def touchPoll (uin : Uin) (due : Bool) : Handler Unit :=
  .onlyIf (due = true) do
    let _ ← updateUser uin
      (fun now row => row.guestStatus == some .proven && decide (row.lastSeen < now - pollStampLag))
      fun now row => { row with lastSeen := now - pollStampLag, stamped := true }
    .commitOnly .commit

/-- `_on_connect` and `_on_disconnect`. -/
def onSocket (uin : Uin) : Handler Unit := do
  let user ← getUser uin
  .onlyIf (user.isSome = true) do
    saveUser uin User.seen
    .commitOnly .commit

/-- The heartbeat of a socket. -/
def ping (uin : Uin) : Handler Unit := do
  let _ ← updateUser uin (fun _ _ => true) User.seen
  .commitOnly .commit

/-- `POST /presence/status`. -/
def setStatus (uin : Uin) : Handler Unit := do
  let user ← getUser uin
  .raiseIf (user = none) ⟨404, "user not found"⟩
  saveUser uin User.seen
  .commitOnly .commit

/-! ## The guest sweep -/

/-- `guest_added_ttl_days` and `guest_idle_days`. -/
structure Limits where
  ttl : ℤ
  idle : ℤ

/-- `NEVER_POLLED_AFTER`. -/
def neverPolledAfter : ℤ := span 7

/-- `never_polled_gap`. -/
def neverPolledGap : ℤ := min (span 2) (mintBackdate cfg / 2)

/-- `_eligible`. -/
def eligible (limits : Limits) (now : ℤ) (row : User) : Kind → Bool
  | .a => row.guestStatus == some .added &&
      row.guestSince.any fun since => since < now - span limits.ttl
  | .b => row.guestStatus == some .proven && row.guestSince.any fun since =>
    decide (since < now - neverPolledAfter) && decide (row.lastSeen < since - neverPolledGap cfg)
  | .c => row.guestStatus == some .proven && decide (row.lastSeen < now - span limits.idle)

/-- The rows that `find_candidates` asks for, in their order. -/
def Db.guestRows (db : Db) (limits : Limits) (now : ℤ) : Kind → List (Uin × User)
  | .a => ((db.users.select fun _ row => eligible cfg limits now row .a).insertionSort
      fun x y => x.2.guestSince.getD 0 ≤ y.2.guestSince.getD 0).take cfg.guestBatch
  | .b => (db.users.select fun _ row => row.guestStatus == some .proven &&
        row.guestSince.any (fun since => since < now - neverPolledAfter) &&
        decide (row.lastSeen < now - neverPolledAfter)).insertionSort
      fun x y => x.2.guestSince.getD 0 ≤ y.2.guestSince.getD 0
  | .c => ((db.users.select fun _ row => eligible cfg limits now row .c).insertionSort
      fun x y => x.2.lastSeen ≤ y.2.lastSeen).take cfg.guestBatch

/-- The loop of `find_candidates` over the rows of one kind. -/
def addCandidates (limits : Limits) (now : ℤ) (kind : Kind) (rows : List (Uin × User))
    (out : List (Uin × Kind)) : List (Uin × Kind) :=
  rows.foldl (fun out r =>
    if cfg.guestBatch ≤ out.length ∨ out.any (·.1 == r.1) = true ∨
      eligible cfg limits now r.2 kind = false then out
    else out ++ [(r.1, kind)]) out

/-- `find_candidates`. -/
def findCandidates (limits : Limits) : Handler (List (Uin × Kind)) := do
  let now ← clock .clock
  let seats ← .read (.candidates .a) fun db _ => db.guestRows cfg limits now .a
  let silent ← .read (.candidates .b) fun db _ => db.guestRows cfg limits now .b
  let idle ← .read (.candidates .c) fun db _ => db.guestRows cfg limits now .c
  return addCandidates cfg limits now .c idle (addCandidates cfg limits now .b silent
    (addCandidates cfg limits now .a seats []))

/-- `purge_if_still_eligible`. -/
def purgeIfStillEligible (limits : Limits) (uin : Uin) (kind : Kind) : Handler Unit := do
  let now ← clock .clock
  let user ← lockUser uin
  if user.any (eligible cfg limits now · kind) then
    purgeAccount uin
    .commitOnly (.purge uin kind)
  else
    .rollback (.ret ())

/-- The loop of `sweep_once`; the limits are asked for again for each row. -/
def purgeGuests (limits : Uin → Limits) : List (Uin × Kind) → Handler Unit
  | [] => return ()
  | (uin, kind) :: rest => do
    purgeIfStillEligible cfg (limits uin) uin kind
    purgeGuests limits rest

/-- `guest_sweep.sweep_once`. -/
def guestSweep (limits : Limits) (later : Uin → Limits) : Handler Unit := do
  let candidates ← findCandidates cfg limits
  purgeGuests cfg later candidates

end RcqServer.Sweeps
