import RcqServer.Messages.Server
import RcqServer.ReadCommitted.Frame

/-!
# What the queue owes an install, and the invariant that keeps it

Fix one of the two queues (`ax`) and say which of an account's rows each install is meant to
read (`lane`).  A row is **owed** to an install if the install had a cursor when the row became
visible and has had one ever since.  The development shows that under the scheduling conditions of
`outline` an owed row is never passed by the install's own cursor, nor deleted, before the
install has settled it: drained it with a legacy fetch, or acked it.

The invariant rests on one fact about the writers: **rows become visible in the order of their
ids**, account by account (`Guar.fresh`).  Then every mark, being the id of a visible row, lies
below whatever becomes visible later, and a statement about the rows below a mark stays true while
others step in between (`Passed.mono`).
-/

namespace RcqServer.Queue

open ReadCommitted Messages

/-- Which rows of an account an install is meant to read, by the addressee of the row. -/
abbrev Lane := Uin → DeviceId → Option ℕ → Prop

/-- A row of the account `u` is in the queue under `id`. -/
def Holds (ax : Axis) (db : Db) (u : Uin) (id : ℕ) : Prop :=
  ∃ row, (db.queue ax).get id = some row ∧ row.toUin = u

/-- A row that install `D` of account `u` is meant to read is in the queue under `id`. -/
def Tracks (ax : Axis) (lane : Lane) (db : Db) (u : Uin) (D : DeviceId) (id : ℕ) : Prop :=
  ∃ row, (db.queue ax).get id = some row ∧ row.toUin = u ∧ lane u D row.toDeviceId

/-- The install has a cursor. -/
def HasCursor (db : Db) (u : Uin) (D : DeviceId) : Prop :=
  ∃ c, db.queueCursors.get (u, D) = some c

/-- The row became visible while the install had a cursor, and the install has kept one since.
The last argument is the committed past, newest first. -/
inductive OwedIn (ax : Axis) (lane : Lane) (u : Uin) (D : DeviceId) (id : ℕ) : Db → List Db → Prop
  | appeared {db prev : Db} {past : List Db} (hcursor : HasCursor db u D)
      (hrow : Tracks ax lane db u D id) (hnew : ¬Holds ax prev u id)
      (hbefore : HasCursor prev u D) : OwedIn ax lane u D id db (prev :: past)
  | kept {db prev : Db} {past : List Db} (hcursor : HasCursor db u D)
      (hold : OwedIn ax lane u D id prev past) : OwedIn ax lane u D id db (prev :: past)

section

variable (ax : Axis) (lane : Lane)

def Owed (s : State) (u : Uin) (D : DeviceId) (id : ℕ) : Prop :=
  OwedIn ax lane u D id s.db s.hist

/-- The row has been visible at some time. -/
def Ever (s : State) (u : Uin) (id : ℕ) : Prop :=
  ∃ db ∈ s.db :: s.hist, Holds ax db u id

/-- The install was handed the row. -/
def Handed (e : Ext) (u : Uin) (D : DeviceId) (id : ℕ) : Prop :=
  ⟨u, D, ax, id⟩ ∈ e.handed

/-- The install has drained the row with a legacy fetch, or acked it. -/
def Settled (e : Ext) (u : Uin) (D : DeviceId) (id : ℕ) : Prop :=
  ⟨u, D, ax, id⟩ ∈ e.drained ∨ ⟨u, D, ax, id⟩ ∈ e.acked

/-- The mark `m` is not beyond what has been visible. -/
def Bounded (s : State) (u : Uin) (m : ℕ) : Prop :=
  m = 0 ∨ ∃ id, Ever ax s u id ∧ m ≤ id

/-! ## The outline -/

structure Inv (s : State) : Prop where
  start : 0 < s.ext.nextId ax
  fresh : ∀ u id, Ever ax s u id → 0 < id ∧ id < s.ext.nextId ax
  owner : ∀ u u' id, Ever ax s u id → Ever ax s u' id → u = u'
  honest : ∀ event ∈ s.ext.acked, event ∈ s.ext.handed
  drained : ∀ event ∈ s.ext.drained, event ∈ s.ext.handed
  marks : ∀ u D c, s.db.queueCursors.get (u, D) = some c → Bounded ax s u (c.mark ax)
  passed : ∀ u D c id, s.db.queueCursors.get (u, D) = some c → Owed ax lane s u D id →
    id ≤ c.mark ax → Settled ax s.ext u D id
  kept : ∀ u D id, Owed ax lane s u D id → ¬Holds ax s.db u id → Settled ax s.ext u D id
  /-- A row is never overwritten, so an owed row that is still there is still the install's. -/
  tracks : ∀ u D id, Owed ax lane s u D id → Holds ax s.db u id → Tracks ax lane s.db u D id

/-- What any step does to the past and to the history of answers. -/
structure Grows (s s' : State) : Prop where
  ever : ∀ u id, Ever ax s u id → Ever ax s' u id
  /-- Rows become visible in the order of their ids. -/
  fresh : ∀ u id, Ever ax s' u id → ¬Ever ax s u id → ∀ id', Ever ax s u id' → id' < id
  owed : ∀ u D id, Owed ax lane s' u D id → Owed ax lane s u D id ∨ ¬Ever ax s u id
  settled : ∀ u D id, Settled ax s.ext u D id → Settled ax s'.ext u D id
  handed : ∀ event ∈ s.ext.handed, event ∈ s'.ext.handed
  next : s.ext.nextId ax ≤ s'.ext.nextId ax

/-- What a request with pending writes `ws` may count on. -/
structure Rely (ws : List Write) (s s' : State) : Prop extends Grows ax lane s s' where
  /-- The mailbox lock of a deposit keeps other deposits out. -/
  mailbox : ax = .direct → ∀ u id, RowKey.mailboxSeq u ∈ lockedRows Db ws →
    Ever ax s' u id → Ever ax s u id
  /-- An id is handed out once. -/
  pending : ∀ id, RowKey.queued ax id ∈ lockedRows Db ws →
    ∀ u, Ever ax s' u id → Ever ax s u id
  /-- Group rows have no such lock; this is the condition that they commit in order. -/
  ahead : ax = .group → ∀ id row, Write.queued ax id (some row) ∈ ws →
    ∀ id', Ever ax s' row.toUin id' → Ever ax s row.toUin id' ∨ id' < id

/-- What a step that ends with, or commits, the writes `ws` does. -/
structure Guar (ws : List Write) (s s' : State) : Prop extends Grows ax lane s s' where
  still : s'.hist = s.hist → s'.db = s.db
  inserts : ∀ u id, Ever ax s' u id → ¬Ever ax s u id →
    ∃ row, Write.queued ax id (some row) ∈ ws ∧ row.toUin = u ∧
      (ax = .direct → RowKey.mailboxSeq u ∈ lockedRows Db ws)

/-- An install that asks as the libsignal device `dev` is shown its lane.  Group rows have no
addressee among the devices. -/
def Shown (u : Uin) (D : DeviceId) (dev : ℕ) : Prop :=
  ax = .direct → ∀ t, lane u D t → t = none ∨ t = some dev

/-- A request may start: an install asks for its lane, and acks only rows that it was handed. -/
def Start : Request → State → Prop
  | .fetchQueue u D _ dev, _ => Shown ax lane u D dev
  | .ackQueue u D body dev, s => Shown ax lane u D dev ∧
      ∀ event ∈ queueEvents u D body.directIds body.groupIds, event ∈ s.ext.handed
  | _, _ => True

/-- An ack that found no cursor reads the watermark only while there is none. -/
def Cond : Request → Label → State → Prop
  | .ackQueue u D _ _, .floorWatermark, s => ¬HasCursor s.db u D
  | _, _, _ => True

/-- Group rows of one account are committed in the order of their ids. -/
def Apart (ws ws' : List Write) : Prop :=
  ax = .group → ∀ id id' row row', Write.queued .group id (some row) ∈ ws →
    Write.queued .group id' (some row') ∈ ws' → row.toUin = row'.toUin → id < id'

def outline : Outline Db Ext Write Label Request where
  Inv := Inv ax lane
  Rely := fun _ _ => Rely ax lane
  Guar := fun _ _ => Guar ax lane
  Start := Start ax lane
  Cond := Cond
  Apart := fun _ ws _ ws' => Apart ax ws ws'

end

/-! ## Reading the tables through pending writes -/

section Tables

variable {ax : Axis}

theorem queue_get_applyAll (ws : List Write) (db : Db) (id : ℕ) :
    ((applyAll ws db).queue ax).get id = (db.queue ax).get id ∨
      Write.queued ax id (((applyAll ws db).queue ax).get id) ∈ ws :=
  (sets_queue ax).get_applyAll ws db id

theorem cursor_get_applyAll (ws : List Write) (db : Db) (u : Uin) (D : DeviceId) :
    (applyAll ws db).queueCursors.get (u, D) = db.queueCursors.get (u, D) ∨
      Write.cursor u D ((applyAll ws db).queueCursors.get (u, D)) ∈ ws :=
  sets_queueCursors.get_applyAll ws db (u, D)

theorem key_mem_lockedRows {w : Write} {ws : List Write} (hw : w ∈ ws) : w.key ∈ lockedRows Db ws :=
  List.mem_map.mpr ⟨w, hw, rfl⟩

end Tables

end RcqServer.Queue
