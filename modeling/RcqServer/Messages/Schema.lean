import RcqServer.Basic
import RcqServer.ReadCommitted.Table

/-!
# The message store

The tables behind `/messages`, row for row as the models have them, as far as a modelled handler
reads or writes a column:

| table | key | written by |
| --- | --- | --- |
| `mailbox_seq` | recipient | 1:1 deposits |
| `offline_messages`, `offline_group_messages` | row id | deposits, group posts, the reap |
| `queue_cursors` | account, install | queue fetches and acks |
| `group_seq`, `group_log` | room (and sequence) | group posts |
| `group_log_cursors` | room, account, install | log fetches and acks, joins |
| `group_log_readers` | account, install | log fetches and acks |

`Ext` is what no rollback takes back: the id sequences, the clock, and the history of what went
out to which install.  The history is not part of the service; it is what the statements about
the service speak of.
-/

namespace RcqServer.Messages

open ReadCommitted

abbrev GroupId := ℕ

/-! ## Rows -/

/-- `envelope_type`.  The kinds the server names are constructors; any other is carried as it
came. -/
inductive EnvelopeType
  | message | call | nudge | delete | system | read | reaction | bounce | visit | typing
  | presence | edit | carbon | homerec | secscreen | gmsg | skdm | sknack
  | other (name : String)
deriving DecidableEq

/-- The two per-account queues, `offline_messages` and `offline_group_messages`. -/
inductive Axis
  | direct
  | group
deriving DecidableEq

/-- A row of either queue.  A 1:1 row has a mailbox sequence and perhaps an addressed libsignal
device, a group row has a room. -/
structure QueuedRow where
  toUin : Uin
  envelopeType : EnvelopeType
  cls : Option ℕ
  payload : String
  receivedAt : Time
  seq : Option ℕ
  toDeviceId : Option ℕ
  groupId : Option GroupId
deriving DecidableEq

/-- A row of `queue_cursors`. -/
structure QueueCursor where
  lastDirectId : ℕ
  lastGroupId : ℕ
  updatedAt : Option Time
deriving DecidableEq

/-- A row of `group_log`, without its key. -/
structure LogRow where
  toUin : Option Uin
  envelopeType : EnvelopeType
  cls : ℕ
  payload : String
  receivedAt : Time
deriving DecidableEq

/-- A row of `group_log_cursors`. -/
structure LogCursor where
  lastSeq : ℤ
  updatedAt : Time
deriving DecidableEq

/-- A row of `group_log_readers`. -/
structure LogReader where
  firstSeen : Time
  lastSeen : Time

/-- The columns of `users` and `user_capabilities` that the handlers read. -/
structure UserRow where
  lastSeen : Option Time
  senderKeys : Bool

inductive PostPolicy
  | all
  | ownerOnly
deriving DecidableEq

/-- The columns of `groups` that the handlers read. -/
structure GroupRow where
  ownerUin : Uin
  postPolicy : PostPolicy

/-- The mark of a cursor on one of the two queues. -/
def QueueCursor.mark (c : QueueCursor) : Axis → ℕ
  | .direct => c.lastDirectId
  | .group => c.lastGroupId

/-! ## The database and its row writes -/

structure Db where
  users : Table Uin UserRow
  groups : Table GroupId GroupRow
  members : Table (GroupId × Uin) Unit
  mailboxSeq : Table Uin ℕ
  offlineMessages : Table ℕ QueuedRow
  offlineGroupMessages : Table ℕ QueuedRow
  queueCursors : Table (Uin × DeviceId) QueueCursor
  groupSeq : Table GroupId ℤ
  groupLog : Table (GroupId × ℤ) LogRow
  groupLogCursors : Table (GroupId × Uin × DeviceId) LogCursor
  groupLogReaders : Table (Uin × DeviceId) LogReader

/-- The queue of one axis. -/
def Db.queue (db : Db) : Axis → Table ℕ QueuedRow
  | .direct => db.offlineMessages
  | .group => db.offlineGroupMessages

/-- A write of one row; `none` deletes it. -/
inductive Write
  | user (uin : Uin) (row : Option UserRow)
  | member (gid : GroupId) (uin : Uin) (row : Option Unit)
  | mailboxSeq (uin : Uin) (next : Option ℕ)
  | queued (ax : Axis) (id : ℕ) (row : Option QueuedRow)
  | cursor (uin : Uin) (device : DeviceId) (row : Option QueueCursor)
  | groupSeq (gid : GroupId) (next : Option ℤ)
  | log (gid : GroupId) (seq : ℤ) (row : Option LogRow)
  | logCursor (gid : GroupId) (uin : Uin) (device : DeviceId) (row : Option LogCursor)
  | reader (uin : Uin) (device : DeviceId) (row : Option LogReader)

/-- The row that a write locks. -/
inductive RowKey
  | user (uin : Uin)
  | member (gid : GroupId) (uin : Uin)
  | mailboxSeq (uin : Uin)
  | queued (ax : Axis) (id : ℕ)
  | cursor (uin : Uin) (device : DeviceId)
  | groupSeq (gid : GroupId)
  | log (gid : GroupId) (seq : ℤ)
  | logCursor (gid : GroupId) (uin : Uin) (device : DeviceId)
  | reader (uin : Uin) (device : DeviceId)
deriving DecidableEq

def Write.key : Write → RowKey
  | user uin _ => .user uin
  | member gid uin _ => .member gid uin
  | mailboxSeq uin _ => .mailboxSeq uin
  | queued ax id _ => .queued ax id
  | cursor uin device _ => .cursor uin device
  | groupSeq gid _ => .groupSeq gid
  | log gid seq _ => .log gid seq
  | logCursor gid uin device _ => .logCursor gid uin device
  | reader uin device _ => .reader uin device

def Write.apply : Write → Db → Db
  | user uin row, db => { db with users := db.users.set uin row }
  | member gid uin row, db => { db with members := db.members.set (gid, uin) row }
  | mailboxSeq uin next, db => { db with mailboxSeq := db.mailboxSeq.set uin next }
  | queued .direct id row, db => { db with offlineMessages := db.offlineMessages.set id row }
  | queued .group id row, db =>
    { db with offlineGroupMessages := db.offlineGroupMessages.set id row }
  | cursor uin device row, db =>
    { db with queueCursors := db.queueCursors.set (uin, device) row }
  | groupSeq gid next, db => { db with groupSeq := db.groupSeq.set gid next }
  | log gid seq row, db => { db with groupLog := db.groupLog.set (gid, seq) row }
  | logCursor gid uin device row, db =>
    { db with groupLogCursors := db.groupLogCursors.set (gid, uin, device) row }
  | reader uin device row, db =>
    { db with groupLogReaders := db.groupLogReaders.set (uin, device) row }

instance : Store Db Write RowKey where
  apply := Write.apply
  key := Write.key

theorem sets_queue (ax : Axis) : Sets (fun db : Db => db.queue ax) (Write.queued ax) where
  set := by
    intro id row db
    cases ax <;> rfl
  other := by
    intro w hw db
    cases w with
    | queued ax' id row =>
      cases ax <;> cases ax' <;> first | rfl | exact absurd rfl (hw id row)
    | _ => cases ax <;> rfl

theorem sets_queueCursors : Sets Db.queueCursors fun k row => Write.cursor k.1 k.2 row where
  other := by
    intro w hw db
    cases w with
    | cursor u D row => exact absurd rfl (hw (u, D) row)
    | queued ax id row => cases ax <;> rfl
    | _ => rfl

theorem sets_groupSeq : Sets Db.groupSeq Write.groupSeq where
  other := by
    intro w hw db
    cases w with
    | groupSeq gid next => exact absurd rfl (hw gid next)
    | queued ax id row => cases ax <;> rfl
    | _ => rfl

theorem sets_groupLog : Sets Db.groupLog fun k row => Write.log k.1 k.2 row where
  other := by
    intro w hw db
    cases w with
    | log gid seq row => exact absurd rfl (hw (gid, seq) row)
    | queued ax id row => cases ax <;> rfl
    | _ => rfl

theorem sets_groupLogCursors :
    Sets Db.groupLogCursors fun k row => Write.logCursor k.1 k.2.1 k.2.2 row where
  other := by
    intro w hw db
    cases w with
    | logCursor gid u D row => exact absurd rfl (hw (gid, u, D) row)
    | queued ax id row => cases ax <;> rfl
    | _ => rfl

/-! ## Outside the transactions -/

/-- A queued row and the install it went out to, or that named it. -/
structure QueueEvent where
  uin : Uin
  device : DeviceId
  axis : Axis
  id : ℕ
deriving DecidableEq

/-- A room post that an install was handed, by a log fetch or as a live frame with a sequence. -/
structure LogEvent where
  uin : Uin
  device : DeviceId
  gid : GroupId
  seq : ℤ
  payload : String
deriving DecidableEq

structure Ext where
  now : Time
  nextDirectId : ℕ
  nextGroupId : ℕ
  /-- Rows that left in the answer of a queue fetch. -/
  handed : List QueueEvent
  /-- Those of them whose fetch also moved the cursor (`ack=false`). -/
  drained : List QueueEvent
  /-- Rows that an install has listed in an ack. -/
  acked : List QueueEvent
  /-- Room posts that an install was handed. -/
  logHanded : List LogEvent
  /-- The heads at which a first log fetch has started an install in a room. -/
  seeded : List (GroupId × Uin × DeviceId × ℤ)

/-- The next id of the sequence behind a queue. -/
def Ext.nextId (e : Ext) : Axis → ℕ
  | .direct => e.nextDirectId
  | .group => e.nextGroupId

/-- Take `n` ids from a sequence. -/
def Ext.allocate (e : Ext) (n : ℕ) : Axis → Ext
  | .direct => { e with nextDirectId := e.nextDirectId + n }
  | .group => { e with nextGroupId := e.nextGroupId + n }

/-- Nothing queued, nothing logged, nothing sent, with the given users, rooms and members. -/
def Db.empty (users : Table Uin UserRow) (groups : Table GroupId GroupRow)
    (members : Table (GroupId × Uin) Unit) : Db where
  users := users
  groups := groups
  members := members
  mailboxSeq := ∅
  offlineMessages := ∅
  offlineGroupMessages := ∅
  queueCursors := ∅
  groupSeq := ∅
  groupLog := ∅
  groupLogCursors := ∅
  groupLogReaders := ∅

/-- The outside state of an empty store.  Both id sequences start at 1. -/
def Ext.initial (now : Time) : Ext where
  now := now
  nextDirectId := 1
  nextGroupId := 1
  handed := []
  drained := []
  acked := []
  logHanded := []
  seeded := []

/-! ## Statements -/

/-- What a statement is, where it matters to a scheduling condition or to a reader. -/
inductive Label
  | clock | getUser | getGroup | getSeat | getMembers | getReaders | getBlocked
  | publish | nextMailboxSeq | insertMessage | nextGroupSeq | insertLog | insertGroupMessages
  | getCursor | floorWatermark | pinCursor | selectRows (ax : Axis)
  | getCursorAgain | seedWatermark | advanceCursor | selectCursors | dropStale | reap (ax : Axis)
  | ackedPrefix (ax : Axis) | answer
  | getMemberRooms | getLogCursors | roomHead | upsertLogCursor | logChunk | markReader
  | insertMember | touchUser | commit
deriving DecidableEq

abbrev Handler := Prog Db Ext Write Label HttpError

/-- `datetime.now(timezone.utc)`. -/
def clock : Handler Time :=
  .read .clock fun _ e => e.now

/-- The settings that the handlers read. -/
structure Config where
  /-- `OFFLINE_GROUP_DORMANT_DAYS`; 0 switches the rule off. -/
  dormantDays : ℕ
  /-- `DEPOSIT_AUTH_REQUIRED`. -/
  depositAuthRequired : Bool

end RcqServer.Messages
