import RcqServer.Expiring
import RcqServer.Keys.Text
import RcqServer.ReadCommitted.Table

/-!
# The store behind guest copies

A person whose account lives on another island takes part in a room here as a guest: a row of `users`
with a guest status, minted on a proof of its key (`POST /auth/guest`) or put in by a member of the
room (`POST /groups/{id}/guests`).  Every request asks whether its number is a guest's, so the numbers
of guests are mirrored in Redis.

`Ext.retired`, `Ext.purged` and `Ext.reports` are not part of the service; they record which rows have
ceased to be guests and what the mirror has been asked, for the statements about the service to speak
of.
-/

namespace RcqServer.Guests

open ReadCommitted Expiring

abbrev KeyBytes := List ℕ

abbrev Challenge := String

/-! ## The database -/

/-- `guest_status`. -/
inductive Status
  | added
  | proven
deriving DecidableEq

structure User where
  identityKey : KeyText
  signingKey : KeyText
  /-- `NULL` for a native account. -/
  guestStatus : Option Status
  /-- The first claim: `identity_created_at`, or `created_at`. -/
  claimedAt : Time
  /-- `key_unproven_since` is set: the key came by a rotation that nobody has proven since. -/
  keyUnproven : Bool

structure Db where
  users : Table Uin User
  /-- `retired_signing_keys`, whose key is the SHA-256 of the key bytes, which only renames rows. -/
  retiredKeys : Table KeyBytes Uin

/-- What an `UPDATE` does to a row. -/
inductive Change
  | proveKey
  /-- `claim_seat`, with the identity key that the proof covers. -/
  | claim (identityKey : KeyText)
  | repair (identityKey : KeyText)
  /-- `clear_guest_columns`. -/
  | settle

def Change.apply : Change → User → User
  | .proveKey, row => { row with keyUnproven := false }
  | .claim identityKey, row =>
    if row.guestStatus = some .added then
      { row with guestStatus := some .proven, identityKey := identityKey }
    else row
  | .repair identityKey, row =>
    if row.guestStatus.isSome then { row with identityKey := identityKey } else row
  | .settle, row => { row with guestStatus := none }

/-- The row has the same key and is not a guest's unless it was before. -/
structure User.Softer (row row' : User) : Prop where
  key : row'.signingKey = row.signingKey
  guest : row'.guestStatus.isSome → row.guestStatus.isSome

theorem Change.softer (change : Change) (row : User) : row.Softer (change.apply row) := by
  cases change with
  | proveKey => exact ⟨rfl, id⟩
  | claim identityKey =>
    by_cases hadded : row.guestStatus = some .added
    · rw [Change.apply, if_pos hadded]
      exact ⟨rfl, fun _ => by rw [hadded]; rfl⟩
    · rw [Change.apply, if_neg hadded]
      exact ⟨rfl, id⟩
  | repair identityKey =>
    by_cases hguest : row.guestStatus.isSome
    · rw [Change.apply, if_pos hguest]
      exact ⟨rfl, id⟩
    · rw [Change.apply, if_neg hguest]
      exact ⟨rfl, id⟩
  | settle => exact ⟨rfl, nofun⟩

/-- A write of one row of `users`.  An `UPDATE` stays one until the commit: the row is locked, so it
does not matter when it is carried out. -/
inductive Write
  | insert (uin : Uin) (row : User)
  | update (uin : Uin) (change : Change)
  | delete (uin : Uin)

def Write.uin : Write → Uin
  | insert uin _ => uin
  | update uin _ => uin
  | delete uin => uin

/-- The row that a write makes of a row. -/
def Write.onRow : Write → Option User → Option User
  | insert _ new, row => some (row.getD new)
  | update _ change, row => row.map change.apply
  | delete _, _ => none

instance : Store Db Write Uin where
  apply w db := { db with users := db.users.set w.uin (w.onRow (db.users.get w.uin)) }
  key := Write.uin

theorem get_apply (w : Write) (db : Db) (u : Uin) :
    (Store.apply w db).users.get u = if u = w.uin then w.onRow (db.users.get u) else db.users.get u := by
  refine (Table.get_set _ _ _ _).trans ?_
  split
  · subst u
    rfl
  · rfl

theorem get_apply_self (w : Write) (db : Db) :
    (applyAll [w] db).users.get w.uin = w.onRow (db.users.get w.uin) :=
  (get_apply w db w.uin).trans (if_pos rfl)

/-- A row that no write of the list is about. -/
theorem get_applyAll_of_notMem {ws : List Write} {u : Uin} (hu : u ∉ ws.map Write.uin) (db : Db) :
    (applyAll ws db).users.get u = db.users.get u := by
  refine applyAll_eq_of_forall (ω := Write) (fun d : Db => d.users.get u) db fun w hw d => ?_
  have hne : u ≠ w.uin := fun heq => hu (heq ▸ List.mem_map_of_mem hw)
  rw [get_apply, if_neg hne]

/-- A row is updated. -/
def Write.Updates (w : Write) : Prop := ∃ u change, w = .update u change

/-- Updates make no rows and no guests. -/
theorem softer_of_updates {ws : List Write} (hws : ∀ w ∈ ws, w.Updates) (db : Db) (v : Uin) :
    Option.Rel User.Softer (db.users.get v) ((applyAll ws db).users.get v) := by
  refine applyAll_inv (ω := Write) (P := fun d : Db =>
    Option.Rel User.Softer (db.users.get v) (d.users.get v)) ?_ ?_
  · cases db.users.get v with
    | none => exact .none
    | some row => exact .some ⟨rfl, id⟩
  · intro w hw d hd
    obtain ⟨u, change, rfl⟩ := hws w hw
    rw [get_apply]
    split
    · generalize db.users.get v = before, d.users.get v = now at hd
      cases hd with
      | none => exact .none
      | some h => exact .some ⟨(change.softer _).key.trans h.key, h.guest ∘ (change.softer _).guest⟩
    · exact hd

/-- The number is a guest's. -/
def Db.guest (db : Db) (u : Uin) : Bool := (db.users.get u).any (·.guestStatus.isSome)

theorem guest_eq {db db' : Db} {u : Uin} (h : db'.users.get u = db.users.get u) :
    db'.guest u = db.guest u := by
  rw [Db.guest, Db.guest, h]

theorem guest_of_softer {db db' : Db} {u : Uin}
    (h : Option.Rel User.Softer (db.users.get u) (db'.users.get u)) (hguest : db'.guest u) :
    db.guest u := by
  unfold Db.guest at hguest ⊢
  generalize db.users.get u = before, db'.users.get u = now at h hguest
  cases h with
  | none => exact hguest
  | some hrow => exact hrow.guest hguest

theorem isSome_of_softer {db db' : Db} {u : Uin}
    (h : Option.Rel User.Softer (db.users.get u) (db'.users.get u)) :
    (db'.users.get u).isSome = (db.users.get u).isSome := by
  generalize db.users.get u = before, db'.users.get u = now at h
  cases h with
  | none => rfl
  | some _ => rfl

/-! ## Redis -/

structure Redis where
  /-- The set `guest_uins`. -/
  guests : List Uin
  /-- `guest_uins:pending`: marks made recently. -/
  pending : Option (Entry (List Uin))
  loaded : Option (Entry Unit)
  built : Bool
  rebuildLock : Option (Entry Unit)
  /-- `gmk:{key}`, with the token of whoever has it. -/
  createLocks : Table KeyBytes (Entry ℕ)
  /-- `gch:{challenge}`. -/
  challenges : Table Challenge (Entry Unit)

/-- A number was reported as native. -/
structure Report where
  uin : Uin
  /-- Its row was a guest's then. -/
  guest : Bool
deriving DecidableEq

structure Ext extends Redis where
  now : Time
  /-- The next `secrets.token_hex(8)`, which never comes twice. -/
  nextToken : ℕ
  /-- Numbers whose row was settled or purged. -/
  retired : List Uin
  purged : List Uin
  reports : List Report

/-- A service that has just started, with nothing in Redis. -/
def Ext.initial (now : Time) : Ext where
  guests := []
  pending := none
  loaded := none
  built := false
  rebuildLock := none
  createLocks := ∅
  challenges := ∅
  now := now
  nextToken := 0
  retired := []
  purged := []
  reports := []

/-! ## Statements -/

inductive Label
  | tick
  | ensure | isMember | guestRow | readRows
  /-- The replacement of the set, with the rows that were read and when. -/
  | replace (rows : List Uin) (readAt : Time)
  | lockRebuild | unlockRebuild
  | claimChallenge | releaseKey | rowForKey | retiredKey | alive | lock | unlock
  | checkUin | insertUser (uin : Uin)
  | mark | unmark
  /-- The commit of a mint, with the time of its mark and the expiry of its lock. -/
  | commitMint (markedAt lockedUntil : Time)
  | proveKey | claimSeat | repair | readBack | getUser | settle | delete
  | commit

abbrev Handler := Prog Db Ext Write Label HttpError

abbrev State := Shared Db Ext

/-- An exception that no handler expects. -/
def internalError : HttpError := ⟨500, "internal_error"⟩

/-- `guest_unavailable_error`. -/
def guestUnavailable : HttpError := ⟨503, "guest_unavailable"⟩

end RcqServer.Guests
