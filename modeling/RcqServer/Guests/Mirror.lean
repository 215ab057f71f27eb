import RcqServer.Guests.Store

/-!
# The mirror of guests

`core/guest_policy.py`.  The set is rebuilt from the table when its marker has lapsed, in the
background, and at once when it has never been built.  A mark also lands beside the set for some time,
so that a rebuild which has read the table before the row was committed does not lose it.
-/

namespace RcqServer.Guests

open ReadCommitted

/-- `GUEST_TTL_SECONDS`. -/
def guestTtl : Time := 300

/-- `GUEST_PENDING_TTL_SECONDS`. -/
def pendingTtl : Time := 120

/-- `RedisMirror.lock_ttl`. -/
def rebuildLockTtl : Time := 30

/-- `SMEMBERS guest_uins:pending`. -/
def Ext.pendingMarks (e : Ext) : List Uin := (Expiring.read e.now e.pending).getD []

/-- `mark_guest`: the set, and the marks that are pending. -/
def Ext.mark (e : Ext) (uin : Uin) : Ext :=
  { e with
    guests := uin :: e.guests
    pending := Expiring.expire e.now pendingTtl
      (Expiring.alter e.now (fun marks => some (uin :: marks.getD [])) e.pending) }

/-- `unmark_guest`.  A set without members is gone. -/
def Ext.unmark (e : Ext) (uin : Uin) : Ext :=
  { e with
    guests := e.guests.filter (· != uin)
    pending := Expiring.alter e.now
      (fun marks => (marks.map (·.filter (· != uin))).filter (!·.isEmpty)) e.pending }

/-- The pipeline of `_rebuild`: the rows and the pending marks replace the set. -/
def Ext.replace (e : Ext) (rows : List Uin) : Ext :=
  { e with
    guests := rows ++ e.pendingMarks
    loaded := some ⟨(), some (e.now + guestTtl)⟩
    built := true }

/-- `_rebuild`. -/
def rebuild : Handler Unit := do
  let seen ← .read .readRows fun db e =>
    ((db.users.select fun _ row => row.guestStatus.isSome).map Prod.fst, e.now)
  .effect (.replace seen.1 seen.2) fun _ e => e.replace seen.1

/-- `RedisMirror.ensure`.  The rebuild behind a lapsed marker is a request of its own. -/
def ensure : Handler Unit := do
  let ready ← .read .ensure fun _ e => (Expiring.read e.now e.loaded).isSome || e.built
  .onlyIf (ready = false) rebuild

/-- `RedisMirror._background`. -/
def background : Handler Unit := do
  let got ← .stmt .lockRebuild (fun _ _ => [])
    (fun _ e => if (Expiring.read e.now e.rebuildLock).isNone then
      { e with rebuildLock := some ⟨(), some (e.now + rebuildLockTtl)⟩ } else e)
    fun _ e => .ret (Expiring.read e.now e.rebuildLock).isNone
  .onlyIf (got = true) do
    rebuild
    .effect .unlockRebuild fun _ e => { e with rebuildLock := none }

/-- The record of an answer. -/
def Ext.report (e : Ext) (uin : Uin) (answer guest : Bool) : Ext :=
  if answer then e else { e with reports := ⟨uin, guest⟩ :: e.reports }

/-- `is_guest`.  Where the cache fails, the row is read. -/
def isGuest (uin : Uin) (cacheFails : Bool) : Handler Bool :=
  if cacheFails then
    .stmt .guestRow (fun _ _ => []) (fun db e => e.report uin (db.guest uin) (db.guest uin))
      fun db _ => .ret (db.guest uin)
  else do
    ensure
    .stmt .isMember (fun _ _ => [])
      (fun db e => e.report uin (e.guests.contains uin) (db.guest uin))
      fun _ e => .ret (e.guests.contains uin)

/-- `mark_guest`, with the time of the mark. -/
def markGuest (uin : Uin) : Handler Time :=
  .stmt .mark (fun _ _ => []) (fun _ e => e.mark uin) fun _ e => .ret e.now

/-- `unmark_guest`. -/
def unmarkGuest (uin : Uin) : Handler Unit :=
  .effect .unmark fun _ e => e.unmark uin

end RcqServer.Guests
