import RcqServer.Messages.Queue

/-!
# Deposits and room posts

`POST /messages/sealed`, `/messages/group-sealed` and `/messages/group-broadcast`, with the
helpers of `services/group_log.py` that the writers use.

What the surroundings of a request decide is part of the request: the verdict of the limiters
(slowmode, account age, budgets), which accounts are online, which sockets take a live frame, and
which accounts have a push endpoint.  The wakes that follow a commit touch no table and are not
modelled.
-/

namespace RcqServer.Messages

open ReadCommitted

/-! ## Sequences -/

/-- `_next_mailbox_seq`: one upsert, whose row lock lasts until the transaction ends. -/
def nextMailboxSeq (uin : Uin) : Handler ℕ :=
  .write .nextMailboxSeq
    (fun db _ => [.mailboxSeq uin (some ((db.mailboxSeq.get uin).getD 0 + 1))])
    fun db _ => (db.mailboxSeq.get uin).getD 0 + 1

/-- The last sequence awarded in a room (`room_head`); 0 before the first. -/
def Db.head (db : Db) (gid : GroupId) : ℤ := (db.groupSeq.get gid).getD 0

/-- The `count` sequences above `head`, lowest first. -/
def seqsAbove (head : ℤ) (count : ℕ) : List ℤ :=
  (List.range count).map fun i : ℕ => head + i + 1

/-- `_next_group_seqs`: a block of sequences in one upsert, nothing for an empty block. -/
def nextGroupSeqs (gid : GroupId) (count : ℕ) : Handler (List ℤ) :=
  if count = 0 then pure []
  else .write .nextGroupSeq (fun db _ => [.groupSeq gid (some (db.head gid + count))])
    fun db _ => seqsAbove (db.head gid) count

/-- `_next_group_seq`. -/
def nextGroupSeq (gid : GroupId) : Handler ℤ :=
  .write .nextGroupSeq (fun db _ => [.groupSeq gid (some (db.head gid + 1))])
    fun db _ => db.head gid + 1

/-! ## Inserting rows -/

/-- The row writes of an `INSERT` whose ids come from a sequence at `next`. -/
def queuedFrom (ax : Axis) (next : ℕ) : List QueuedRow → List Write
  | [] => []
  | row :: rows => .queued ax next (some row) :: queuedFrom ax (next + 1) rows

/-- `INSERT` into the group queue.  The ids are taken when the statement runs. -/
def insertGroupMessages (rows : List QueuedRow) : Handler Unit :=
  if rows = [] then pure ()
  else .stmt .insertGroupMessages (fun _ e => queuedFrom .group e.nextGroupId rows)
    (fun _ e => e.allocate rows.length .group) fun _ _ => pure ()

/-- What an unhandled constraint violation answers. -/
def internalError : HttpError := ⟨500, "internal_error"⟩

/-- `INSERT` into a room's log. -/
def insertLog (gid : GroupId) (rows : List (ℤ × LogRow)) : Handler Unit :=
  if rows = [] then pure ()
  else .stmt .insertLog
    (fun db _ => if rows.any fun r => (db.groupLog.get (gid, r.1)).isSome then []
      else rows.map fun r => .log gid r.1 (some r.2))
    (fun _ e => e)
    fun db _ => if rows.any fun r => (db.groupLog.get (gid, r.1)).isSome
      then .raise internalError else pure ()

/-! ## 1:1 deposits -/

structure SealedSendIn where
  toUin : Uin
  envelopeType : EnvelopeType
  cls : Option ℕ
  payload : String
  /-- The deposit token, if there is one: whether it verifies and was not spent. -/
  depositToken : Option Bool
  toDeviceId : Option ℕ
deriving DecidableEq

/-- The class that a new client sends, if it is one, or the class of the kind. -/
def SealedSendIn.storageClass (body : SealedSendIn) : ℕ :=
  match body.cls with
  | some c => if c ≤ 2 then c else clsFor body.envelopeType
  | none => clsFor body.envelopeType

structure SendOut where
  delivered : Bool
  queued : Bool
  serverTime : Time
deriving DecidableEq

/-- `(to_uin, seq)` is unique in `offline_messages`. -/
def Db.seqTaken (db : Db) (uin : Uin) (seq : ℕ) : Bool :=
  db.offlineMessages.rows.any fun r => r.2.toUin == uin && r.2.seq == some seq

/-- `INSERT` of a 1:1 row and the handling of its unique index. -/
def insertMessage (row : QueuedRow) (seq : ℕ) : Handler Unit :=
  .stmt .insertMessage
    (fun db e => if db.seqTaken row.toUin seq then []
      else [.queued .direct e.nextDirectId (some row)])
    (fun _ e => e.allocate 1 .direct)
    fun db _ => if db.seqTaken row.toUin seq
      then .rollback (.raise ⟨503, "seq allocation collided, retry"⟩) else pure ()

/-- `POST /messages/sealed`.  `online` is what the connection manager answers. -/
def sendSealed (cfg : Config) (body : SealedSendIn) (online : Bool) : Handler SendOut := do
  let target ← .read .getUser fun db _ => db.users.get body.toUin
  .raiseIf (target = none) ⟨404, "no such user"⟩
  .raiseIf (body.depositToken = some false) ⟨403, "invalid or spent deposit token"⟩
  .raiseIf (cfg.depositAuthRequired ∧ body.depositToken = none)
    ⟨402, "a deposit token is required"⟩
  let now ← clock
  .effect .publish fun _ e => e
  let seq ← nextMailboxSeq body.toUin
  insertMessage ⟨body.toUin, body.envelopeType, some body.storageClass, body.payload, now,
    some seq, body.toDeviceId, none⟩ seq
  .commitOnly .commit
  return ⟨online, true, now⟩

/-! ## Who gets a legacy row -/

/-- `dormant_cutoff`: an account seen at `seen` is kept at `now`. -/
def Config.awake (cfg : Config) (now : Time) (seen : Option Time) : Bool :=
  cfg.dormantDays == 0 || seen.any fun t => now ≤ t + days cfg.dormantDays

/-- `_queueable`. -/
def queueable (cfg : Config) (now : Time) (rows : List (Uin × Option Time)) : List Uin :=
  (rows.filter fun r => cfg.awake now r.2).map Prod.fst

/-- `_keep_for`: key material for every recipient, anything else for those who are around or
are woken. -/
def keepFor (recipients queueable : List Uin) (cls : ℕ) (wake : List Uin) (kind : EnvelopeType) :
    List Uin :=
  if cls = 2 ∧ kind ≠ .sknack then recipients else queueable ++ wake

/-- Accounts with at least one install that reads the room logs. -/
def Db.hasReader (db : Db) (uins : List Uin) : List Uin :=
  uins.filter fun u => db.groupLogReaders.rows.any fun r => r.1.1 == u

/-- Accounts with an install that drains the legacy queue and has no reader mark. -/
def Db.blocked (db : Db) (uins : List Uin) : List Uin :=
  uins.filter fun u => db.queueCursors.rows.any fun r =>
    r.1.1 == u && (db.groupLogReaders.get r.1).isNone

/-- `log_readers`: the accounts that need no legacy row any more. -/
def logReaders (uins : List Uin) : Handler (List Uin) :=
  if uins = [] then pure []
  else do
    let hasReader ← .read .getReaders fun db _ => db.hasReader uins
    if hasReader = [] then return []
    else
      let blocked ← .read .getBlocked fun db _ => db.blocked hasReader
      return hasReader.filter fun u => u ∉ blocked

/-! ## Room posts -/

/-- What the surroundings of a room post decide. -/
structure PostEnv where
  /-- The refusal of the recovery-request limiter, if it refuses. -/
  sknackLimit : Option HttpError
  /-- The refusal of slowmode or of the account-age floor. -/
  roomLimit : Option HttpError
  /-- The refusal of the fan-out budget. -/
  budget : Option HttpError
  online : List Uin
  /-- The sockets that take a live frame. -/
  sockets : List (Uin × DeviceId)
  /-- Accounts with a push endpoint that have not muted the room. -/
  endpoints : List Uin
deriving DecidableEq

def refuse : Option HttpError → Handler Unit
  | some e => .raise e
  | none => pure ()

/-- The accounts of a room. -/
def Db.membersOf (db : Db) (gid : GroupId) : List Uin :=
  (db.members.select fun k _ => k.1 == gid).map fun r => r.1.2

/-- The accounts of a room with the time they were last seen. -/
def Db.memberRows (db : Db) (gid : GroupId) : List (Uin × Option Time) :=
  (db.membersOf gid).map fun u => (u, (db.users.get u).bind UserRow.lastSeen)

structure GroupPayload where
  toUin : Uin
  payload : String
deriving DecidableEq

structure GroupSealedSendIn where
  groupId : GroupId
  envelopeType : EnvelopeType
  payloads : List GroupPayload
deriving DecidableEq

/-- The accounts that are woken: offline, not the caller, with an endpoint.  Only content
wakes. -/
def wakeFor (cls : ℕ) (recipients : List Uin) (caller : Option Uin) (env : PostEnv) : List Uin :=
  if cls = 1 then
    recipients.filter fun u => u ∉ env.online ∧ some u ≠ caller ∧ u ∈ env.endpoints
  else []

/-- `POST /messages/group-sealed`: one ciphertext per member. -/
def sendGroupSealed (cfg : Config) (body : GroupSealedSendIn) (caller : Option Uin)
    (env : PostEnv) : Handler SendOut := do
  .onlyIf (body.envelopeType = .sknack) (refuse env.sknackLimit)
  let g ← .read .getGroup fun db _ => db.groups.get body.groupId
  .raiseIf (body.envelopeType = .message ∧
      g.any fun g => g.postPolicy = .ownerOnly ∧ caller.any fun c => c ≠ g.ownerUin)
    ⟨403, "owner_only: only the group owner may post"⟩
  let memberRows ← .read .getMembers fun db _ => db.memberRows body.groupId
  .raiseIf (memberRows = []) ⟨404, "group has no members"⟩
  let recent ← clock
  let queueable := queueable cfg recent memberRows
  refuse env.roomLimit
  let now ← clock
  let cls := clsFor body.envelopeType
  let entries := body.payloads.filter fun e => e.toUin ∈ memberRows.map Prod.fst
  refuse env.budget
  -- the live frames of this path carry no sequence
  .effect .publish fun _ e => e
  let wake := wakeFor cls (entries.map GroupPayload.toUin) caller env
  let readers ← logReaders (entries.map GroupPayload.toUin)
  let addressed := entries.filter fun e => e.toUin ∈ readers
  let seqs ← nextGroupSeqs body.groupId addressed.length
  insertLog body.groupId <| (seqs.zip addressed).map fun r =>
    (r.1, ⟨some r.2.toUin, body.envelopeType, cls, r.2.payload, now⟩)
  let keep := keepFor ((entries.map GroupPayload.toUin).filter fun u => u ∉ readers) queueable
    cls wake body.envelopeType
  insertGroupMessages <| (entries.filter fun e => e.toUin ∈ keep ∧ e.toUin ∉ readers).map fun e =>
    ⟨e.toUin, body.envelopeType, some cls, e.payload, now, none, none, some body.groupId⟩
  .commitOnly .commit
  return ⟨entries.any fun e => e.toUin ∈ env.online, true, now⟩

structure GroupBroadcastIn where
  groupId : GroupId
  envelopeType : EnvelopeType
  payload : String
deriving DecidableEq

/-- The members of a room whose client reads broadcasts, with the time they were last seen. -/
def Db.capableRows (db : Db) (gid : GroupId) : List (Uin × Option Time) :=
  (db.memberRows gid).filter fun r => (db.users.get r.1).any UserRow.senderKeys

/-- The live frame of a broadcast reaches the sockets of the online recipients. -/
def Ext.publish (e : Ext) (recipients : List Uin) (env : PostEnv) (gid : GroupId) (seq : ℤ)
    (payload : String) : Ext :=
  { e with logHanded :=
      ((env.sockets.filter fun s => s.1 ∈ recipients ∧ s.1 ∈ env.online).map fun s =>
        ⟨s.1, s.2, gid, seq, payload⟩) ++ e.logHanded }

/-- The one row of a broadcast in the room's log, if anybody reads the log. -/
def logBroadcast (gid : GroupId) (readers : List Uin) (row : LogRow) : Handler (Option ℤ) :=
  if readers = [] then pure none
  else do
    let seq ← nextGroupSeq gid
    insertLog gid [(seq, row)]
    return some seq

/-- The live frame of a broadcast.  One without a sequence cannot be acked and leaves no mark. -/
def publishBroadcast (recipients : List Uin) (env : PostEnv) (gid : GroupId) (seq : Option ℤ)
    (payload : String) : Handler Unit :=
  .effect .publish fun _ e => match seq with
    | none => e
    | some seq => e.publish recipients env gid seq payload

/-- `POST /messages/group-broadcast`: one ciphertext for the room.  The live frame, with the
sequence in it, goes out before the commit. -/
def sendGroupBroadcast (cfg : Config) (body : GroupBroadcastIn) (caller : Option Uin)
    (env : PostEnv) : Handler SendOut := do
  match caller with
  | none => .raise ⟨401, "group-broadcast requires authentication"⟩
  | some caller =>
    let g ← .read .getGroup fun db _ => db.groups.get body.groupId
    match g with
    | none => .raise ⟨404, "no such group"⟩
    | some g =>
      let seat ← .read .getSeat fun db _ => db.members.get (body.groupId, caller)
      .raiseIf (seat = none) ⟨403, "not_a_member: only a member may post to this room"⟩
      .raiseIf (body.envelopeType = .message ∧ g.postPolicy = .ownerOnly ∧ caller ≠ g.ownerUin)
        ⟨403, "owner_only: only the group owner may post"⟩
      refuse env.roomLimit
      let recipientRows ← .read .getMembers fun db _ => db.capableRows body.groupId
      let recipients := recipientRows.map Prod.fst
      .raiseIf (recipients = []) ⟨404, "no broadcast-capable members"⟩
      refuse env.budget
      let now ← clock
      let queueable := queueable cfg now recipientRows
      let cls := clsFor body.envelopeType
      let readers ← logReaders recipients
      let seq ← logBroadcast body.groupId readers ⟨none, .gmsg, cls, body.payload, now⟩
      publishBroadcast recipients env body.groupId seq body.payload
      let wake := wakeFor cls recipients (some caller) env
      let keep := keepFor (recipients.filter fun u => u ∉ readers) queueable cls wake .gmsg
      insertGroupMessages <| (recipients.filter fun u => u ∈ keep ∧ u ∉ readers).map fun u =>
        ⟨u, .gmsg, some cls, body.payload, now, none, none, some body.groupId⟩
      .commitOnly .commit
      return ⟨recipients.any fun u => u ∈ env.online, true, now⟩

end RcqServer.Messages
