import RcqServer.Messages.Schema
import Mathlib.Data.List.Sort

/-!
# Draining the offline queue

`services/queue_drain.py` and the queue half of `routers/messages.py`: where an install starts
reading, `GET /messages/queue`, `POST /messages/queue/ack`, and the reap that both trigger.

Every `await db.execute` of the source is one statement here, so that other requests may run
between any two of them.
-/

namespace RcqServer.Messages

open ReadCommitted

/-- The storage class of a kind (`_cls_for`): 2 critical, 0 ephemeral, 1 content. -/
def clsFor : EnvelopeType → ℕ
  | .skdm | .sknack => 2
  | .typing | .read | .visit | .presence | .nudge | .bounce => 0
  | _ => 1

/-! ## Where an install starts -/

/-- The cursors of an account. -/
def Db.cursorsOf (db : Db) (uin : Uin) : List ((Uin × DeviceId) × QueueCursor) :=
  db.queueCursors.select fun k _ => k.1 == uin

/-- The furthest mark of an account's installs on one axis, 0 if it has none. -/
def Db.watermark (db : Db) (uin : Uin) (ax : Axis) : ℕ :=
  ((db.cursorsOf uin).map fun r => r.2.mark ax).foldr max 0

/-- `account_watermark`. -/
def accountWatermark (l : Label) (uin : Uin) : Handler (ℕ × ℕ) :=
  .read l fun db _ => (db.watermark uin .direct, db.watermark uin .group)

/-- Where an install reads from, and its cursor if it has one. -/
structure Floor where
  direct : ℕ
  group : ℕ
  cursor : Option QueueCursor

def Floor.mark (floor : Floor) : Axis → ℕ
  | .direct => floor.direct
  | .group => floor.group

/-- `drain_floor`: an install's own marks, or the account's watermark if it has no cursor. -/
def drainFloor (uin : Uin) (device : DeviceId) : Handler Floor := do
  let cursor ← .read .getCursor fun db _ => db.queueCursors.get (uin, device)
  match cursor with
  | some c => return ⟨c.lastDirectId, c.lastGroupId, some c⟩
  | none => do
    let marks ← accountWatermark .floorWatermark uin
    return ⟨marks.1, marks.2, none⟩

/-- The row that `upsert_cursor` leaves: an existing one moves forward to `direct` and `group`,
and only a row that the statement creates takes the seeds. -/
def QueueCursor.upsert (old : Option QueueCursor)
    (direct group seedDirect seedGroup : ℕ) (now : Time) : QueueCursor :=
  match old with
  | some c => ⟨max c.lastDirectId direct, max c.lastGroupId group, some now⟩
  | none => ⟨max direct seedDirect, max group seedGroup, some now⟩

/-- `upsert_cursor`. -/
def upsertCursor (l : Label) (uin : Uin) (device : DeviceId)
    (direct group seedDirect seedGroup : ℕ) : Handler (ℕ × ℕ) := do
  let now ← clock
  let after (db : Db) :=
    QueueCursor.upsert (db.queueCursors.get (uin, device)) direct group seedDirect seedGroup now
  .write l (fun db _ => [.cursor uin device (some (after db))])
    fun db _ => ((after db).lastDirectId, (after db).lastGroupId)

/-! ## The reap -/

/-- `STALE_CURSOR_DAYS`. -/
def staleCursorDays : ℕ := 30

/-- `SUPERSEDED_CURSOR_DAYS`. -/
def supersededCursorDays : ℕ := 7

/-- Some cursor of the account was touched within the superseded window. -/
def freshSibling (now : Time) (cursors : List ((Uin × DeviceId) × QueueCursor)) : Bool :=
  cursors.any fun r => r.2.updatedAt.any fun t => now ≤ t + days supersededCursorDays

/-- `_drop`: a stamped cursor goes after 30 days, or after 7 if a sibling is fresh. -/
def dropCursor (now : Time) (cursors : List ((Uin × DeviceId) × QueueCursor))
    (c : QueueCursor) : Bool :=
  match c.updatedAt with
  | none => false
  | some t =>
    t + days staleCursorDays < now ||
      (freshSibling now cursors && t + days supersededCursorDays < now)

/-- The ids of an account's queued rows up to `floor`. -/
def Db.idsUpTo (db : Db) (ax : Axis) (uin : Uin) (floor : ℕ) : List ℕ :=
  ((db.queue ax).select fun id row => row.toUin == uin && id ≤ floor).map Prod.fst

/-- `DELETE … WHERE to_uin = uin AND id <= floor`, if the floor is positive. -/
def reapAxis (ax : Axis) (uin : Uin) (floor : ℕ) : Handler ℕ :=
  if 0 < floor then
    .write (.reap ax) (fun db _ => (db.idsUpTo ax uin floor).map fun id => .queued ax id none)
      fun db _ => (db.idsUpTo ax uin floor).length
  else pure 0

/-- The least mark of some cursors on one axis. -/
def minMark (ax : Axis) : List ((Uin × DeviceId) × QueueCursor) → ℕ
  | [] => 0
  | [r] => r.2.mark ax
  | r :: rest => min (r.2.mark ax) (minMark ax rest)

/-- `DELETE` of some cursors, as far as they are still there. -/
def deleteCursors (stale : List ((Uin × DeviceId) × QueueCursor)) : Handler Unit :=
  .write .dropStale
    (fun db _ => (stale.filter fun r => (db.queueCursors.get r.1).isSome).map fun r =>
      .cursor r.1.1 r.1.2 none)
    fun _ _ => ()

/-- The two deletes of the reap, for the cursors that are left. -/
def reapBelow (uin : Uin) (live : List ((Uin × DeviceId) × QueueCursor)) : Handler ℕ :=
  if live = [] then pure 0
  else do
    let direct ← reapAxis .direct uin (minMark .direct live)
    let group ← reapAxis .group uin (minMark .group live)
    return direct + group

/-- `_reap_below_min`. -/
def reapBelowMin (uin : Uin) : Handler ℕ := do
  let cursors ← .read .selectCursors fun db _ => db.cursorsOf uin
  let now ← clock
  let stale := cursors.filter fun r => dropCursor now cursors r.2
  .onlyIf (stale ≠ []) (deleteCursors stale)
  reapBelow uin (cursors.filter fun r => !dropCursor now cursors r.2)

/-! ## Moving a cursor -/

/-- A row that an install draining with `dev` is handed: one with no addressee, or with this
one.  Without `dev` nothing is withheld. -/
def QueuedRow.visibleTo (row : QueuedRow) (dev : Option ℕ) : Bool :=
  match dev, row.toDeviceId with
  | some d, some d' => d' == d
  | _, _ => true

/-- The rows of an account above `base` that an install draining with `dev` is handed. -/
def Db.rowsAbove (db : Db) (ax : Axis) (uin : Uin) (base : ℕ) (dev : Option ℕ) :
    List (ℕ × QueuedRow) :=
  (db.queue ax).select fun id row => row.toUin == uin && base < id && row.visibleTo dev

/-- How far a list of ids can be walked from `base` before the first one that is not acked. -/
def ackedEnd (acked : List ℕ) (base : ℕ) : List ℕ → ℕ
  | [] => base
  | i :: rest => if i ∈ acked then ackedEnd acked i rest else base

/-- `_acked_prefix`. -/
def ackedPrefix (ax : Axis) (uin : Uin) (base : ℕ) (acked : List ℕ) (dev : Option ℕ) :
    Handler ℕ :=
  if acked = [] then pure base
  else .read (.ackedPrefix ax) fun db _ =>
    ackedEnd acked base (((db.rowsAbove ax uin base dev).map Prod.fst).insertionSort (· ≤ ·))

/-- The seeds of `_advance_cursor`: the account's watermark if the install has no cursor, which
is looked up again unless the caller has it. -/
def seedMarks (uin : Uin) (device : DeviceId) : Option QueueCursor → Handler (ℕ × ℕ)
  | some _ => pure (0, 0)
  | none => do
    let cursor ← .read .getCursorAgain fun db _ => db.queueCursors.get (uin, device)
    match cursor with
    | some _ => pure (0, 0)
    | none => accountWatermark .seedWatermark uin

/-- `_advance_cursor`. -/
def advanceCursor (uin : Uin) (device : DeviceId) (maxDirect maxGroup : ℕ)
    (cursor : Option QueueCursor) : Handler ℕ := do
  let seeds ← seedMarks uin device cursor
  let _ ← upsertCursor .advanceCursor uin device maxDirect maxGroup seeds.1 seeds.2
  reapBelowMin uin

/-! ## The two endpoints -/

/-- A row as the drain serves it. -/
structure HistoryRow where
  id : ℕ
  envelopeType : EnvelopeType
  cls : ℕ
  payload : String
  receivedAt : Time
  groupId : Option GroupId
  seq : Option ℕ
  toDeviceId : Option ℕ
deriving DecidableEq

def QueuedRow.serve (id : ℕ) (row : QueuedRow) : HistoryRow where
  id := id
  envelopeType := row.envelopeType
  cls := row.cls.getD (clsFor row.envelopeType)
  payload := row.payload
  receivedAt := row.receivedAt
  groupId := row.groupId
  seq := row.seq
  toDeviceId := row.toDeviceId

/-- The rows of both queues in the order of the answer. -/
def queueAnswer (direct group : List (ℕ × QueuedRow)) : List HistoryRow :=
  ((direct ++ group).map fun r => r.2.serve r.1).insertionSort fun a b =>
    a.receivedAt ≤ b.receivedAt

/-- The history of handing an install the ids of both queues. -/
def queueEvents (uin : Uin) (device : DeviceId) (direct group : List ℕ) : List QueueEvent :=
  direct.map (⟨uin, device, .direct, ·⟩) ++ group.map (⟨uin, device, .group, ·⟩)

/-- The answer of a fetch leaves with rows that the cursor does not pass yet. -/
def Ext.hand (e : Ext) (rows : List QueueEvent) : Ext :=
  { e with handed := rows ++ e.handed }

/-- The answer of a fetch leaves together with the cursor that passes its rows. -/
def Ext.drain (e : Ext) (rows : List QueueEvent) : Ext :=
  { e with handed := rows ++ e.handed, drained := rows ++ e.drained }

/-- An ack that lists these rows has been applied. -/
def Ext.ack (e : Ext) (rows : List QueueEvent) : Ext :=
  { e with acked := rows ++ e.acked }

/-- A first fetch pins its floor as the install's cursor before it hands rows out. -/
def pinFloor (uin : Uin) (device : DeviceId) (floor : Floor) : Handler (ℕ × ℕ) :=
  match floor.cursor with
  | some _ => pure (floor.direct, floor.group)
  | none => do
    let marks ← upsertCursor .pinCursor uin device 0 0 floor.direct floor.group
    .commitOnly .commit
    return marks

/-- The end of a fetch.  With `ack` the cursor stays; the legacy drain moves it past everything
that is returned. -/
def finishFetch (uin : Uin) (device : DeviceId) (ack : Bool) (cursor : Option QueueCursor)
    (after : ℕ × ℕ) (direct group : List ℕ) : Handler Unit :=
  let events := queueEvents uin device direct group
  if ack then .rollback (.effect .answer fun _ e => e.hand events)
  else do
    let _ ← advanceCursor uin device (direct.foldr max after.1) (group.foldr max after.2) cursor
    .commit .commit (fun e => e.drain events) (pure ())

/-- `GET /messages/queue`. -/
def fetchQueue (uin : Uin) (device : DeviceId) (ack : Bool) (dev : ℕ) :
    Handler (List HistoryRow) := do
  let floor ← drainFloor uin device
  let after ← pinFloor uin device floor
  let direct ← .read (.selectRows .direct) fun db _ =>
    db.rowsAbove .direct uin after.1 (some dev)
  let group ← .read (.selectRows .group) fun db _ => db.rowsAbove .group uin after.2 none
  finishFetch uin device ack floor.cursor after (direct.map Prod.fst) (group.map Prod.fst)
  return queueAnswer direct group

/-- `AckIn`: the ids that the client has stored. -/
structure AckIn where
  directIds : List ℕ
  groupIds : List ℕ
deriving DecidableEq

def AckIn.ids (b : AckIn) : Axis → List ℕ
  | .direct => b.directIds
  | .group => b.groupIds

/-- `POST /messages/queue/ack`. -/
def ackQueue (uin : Uin) (device : DeviceId) (body : AckIn) (dev : ℕ) : Handler ℕ := do
  let floor ← drainFloor uin device
  let maxDirect ← ackedPrefix .direct uin floor.direct body.directIds (some dev)
  let maxGroup ← ackedPrefix .group uin floor.group body.groupIds none
  let reaped ← advanceCursor uin device maxDirect maxGroup floor.cursor
  .commit .commit (fun e => e.ack (queueEvents uin device body.directIds body.groupIds))
    (pure ())
  return reaped

end RcqServer.Messages
