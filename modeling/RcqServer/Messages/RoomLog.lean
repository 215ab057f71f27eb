import RcqServer.Messages.Posts

/-!
# Reading the room logs

`POST /messages/group-log/fetch` and `/messages/group-log/ack`, the page builder behind the
first, and the cursor seeding of a join.

The page builder keeps its rooms in one list, in answering order.  The heap of the source holds
`(given, order, gid)` for the rooms that still get turns; here a room carries the flag `turn`, and
`leastTurn` is what the heap pops: the fewest bytes given so far, the earlier room on a tie.
-/

namespace RcqServer.Messages

open ReadCommitted

/-! ## Cursors and reader marks -/

/-- The row that `upsert_log_cursor` leaves: an existing one moves forward to `seq`, and only a
row that the statement creates takes the seed. -/
def LogCursor.upsert (old : Option LogCursor) (seq seed : ℤ) (now : Time) : LogCursor :=
  match old with
  | some c => ⟨max c.lastSeq seq, if c.lastSeq < seq then now else c.updatedAt⟩
  | none => ⟨max seq seed, now⟩

/-- `upsert_log_cursor`.  Beside the position it says whether the row is new. -/
def upsertLogCursor (gid : GroupId) (uin : Uin) (device : DeviceId) (seq seed : ℤ) :
    Handler (ℤ × Bool) := do
  let now ← clock
  let old (db : Db) := db.groupLogCursors.get (gid, uin, device)
  .write .upsertLogCursor
    (fun db _ => [.logCursor gid uin device (some (.upsert (old db) seq seed now))])
    fun db _ => ((LogCursor.upsert (old db) seq seed now).lastSeq, (old db).isNone)

/-- `mark_reader`. -/
def markReader (uin : Uin) (device : DeviceId) : Handler Unit := do
  let now ← clock
  .write .markReader
    (fun db _ => [.reader uin device (some (match db.groupLogReaders.get (uin, device) with
      | some r => { r with lastSeen := now }
      | none => ⟨now, now⟩))])
    fun _ _ => ()

/-- `room_head`. -/
def roomHead (gid : GroupId) : Handler ℤ :=
  .read .roomHead fun db _ => db.head gid

/-! ## One page of room-log rows -/

/-- `GROUP_LOG_PAGE_BYTES`. -/
def groupLogPageBytes : ℕ := 128 * 1024

/-- `GROUP_LOG_ROOM_CHUNK_MIN`. -/
def groupLogRoomChunkMin : ℕ := 8

/-- `GROUP_LOG_ROOM_CHUNK_MAX`. -/
def groupLogRoomChunkMax : ℕ := 128

/-- What the page builder knows of one room. -/
structure Room where
  gid : GroupId
  /-- Rows read and not picked yet. -/
  buf : List (ℤ × LogRow)
  /-- Where the next read begins. -/
  readTo : ℤ
  /-- The last read came back full, or there was none yet. -/
  unread : Bool
  picked : List (ℤ × LogRow)
  given : ℕ
  /-- The room is in the heap of turns. -/
  turn : Bool

structure Page where
  rooms : List Room
  rowsLeft : ℕ
  bytesLeft : ℕ
  /-- Positions of the rooms whose next row did not fit. -/
  tooBig : List ℕ
  stretched : Bool

/-- The position, and the bytes given so far, of the room whose turn it is. -/
def leastTurn : List Room → Option (ℕ × ℕ)
  | [] => none
  | room :: rest =>
    match leastTurn rest with
    | none => if room.turn then some (0, room.given) else none
    | some (i, given) =>
      if room.turn ∧ room.given ≤ given then some (0, room.given) else some (i + 1, given)

/-- The next row of a room goes into the page; the room gets another turn. -/
def Room.pick (room : Room) : Room :=
  match room.buf with
  | [] => room
  | row :: rest =>
    { room with
      buf := rest
      picked := room.picked ++ [row]
      given := room.given + row.2.payload.length
      turn := true }

/-- A read of the room came back with `got`. -/
def Room.refill (room : Room) (chunk : ℕ) (got : List (ℤ × LogRow)) : Room :=
  { room with
    buf := room.buf ++ got
    readTo := (got.getLast?.map Prod.fst).getD room.readTo
    unread := got.length == chunk }

/-- One round of the loop, for the room at position `i` after its read. -/
def Page.serve (page : Page) (i : ℕ) (room : Room) : Page :=
  match room.buf with
  | [] => { page with rooms := page.rooms.set i { room with turn := false } }
  | row :: _ =>
    let size := row.2.payload.length
    if page.bytesLeft < size then
      if room.given ≠ 0 ∨ page.stretched ∨ groupLogPageBytes < size then
        { page with
          rooms := page.rooms.set i { room with turn := false }
          tooBig := page.tooBig ++ [i] }
      else
        -- a first row that would fit an empty page goes in uncharged, once
        { page with
          rooms := page.rooms.set i room.pick
          rowsLeft := page.rowsLeft - 1
          stretched := true }
    else
      { page with
        rooms := page.rooms.set i room.pick
        rowsLeft := page.rowsLeft - 1
        bytesLeft := page.bytesLeft - size }

/-- The rows of a room above `start` that `uin` is served, in order. -/
def Db.visibleRows (db : Db) (uin : Uin) (gid : GroupId) (start : ℤ) : List (ℤ × LogRow) :=
  ((db.groupLog.select fun k row =>
      k.1 == gid && start < k.2 && row.toUin.all (· == uin)).map
    fun r => (r.1.2, r.2)).insertionSort fun a b => a.1 ≤ b.1

/-- The room at its turn, after a read if its buffer is empty and there may be more. -/
def Room.load (uin : Uin) (chunk : ℕ) (room : Room) : Handler Room :=
  if room.buf = [] ∧ room.unread then do
    let got ← .read .logChunk fun db _ =>
      (db.visibleRows uin room.gid room.readTo).take chunk
    return room.refill chunk got
  else pure room

/-- The loop of `_fair_log_page`.  Every round ends a room's turns or spends a row, so rounds
beyond `limit` plus the number of rooms never happen. -/
def pageLoop (uin : Uin) (chunk : ℕ) : ℕ → Page → Handler Page
  | 0, page => pure page
  | fuel + 1, page =>
    if page.rowsLeft = 0 then pure page
    else match leastTurn page.rooms with
      | none => pure page
      | some (i, _) =>
        match page.rooms[i]? with
        | none => pure page
        | some room => do
          let room ← room.load uin chunk
          pageLoop uin chunk fuel (page.serve i room)

/-- Bytes of the next row of the room at position `i`. -/
def Page.nextSize (page : Page) (i : ℕ) : ℕ :=
  match page.rooms[i]? with
  | some room => (room.buf.head?.map fun row => row.2.payload.length).getD 0
  | none => 0

/-- The room with the smallest row among those whose next row did not fit. -/
def Page.smallest (page : Page) : Option ℕ :=
  page.tooBig.foldl (fun best i => match best with
    | none => some i
    | some j =>
      if page.nextSize i < page.nextSize j ∨ (page.nextSize i = page.nextSize j ∧ i < j)
      then some i else some j) none

/-- A row bigger than the budget goes out alone, if nothing else does. -/
def Page.alone (page : Page) : Page :=
  if page.rooms.all fun room => room.picked.isEmpty then
    match page.smallest with
    | none => page
    | some i => match page.rooms[i]? with
      | none => page
      | some room => { page with rooms := page.rooms.set i room.pick }
  else page

/-- Rows read from one room at a time. -/
def chunkFor (limit rooms : ℕ) : ℕ :=
  min limit (max groupLogRoomChunkMin ((min limit groupLogRoomChunkMax + rooms - 1) / rooms))

/-- The page before its first round. -/
def Page.initial (starts : List (GroupId × ℤ)) (limit : ℕ) : Page where
  rooms := starts.map fun s => ⟨s.1, [], s.2, true, [], 0, true⟩
  rowsLeft := limit
  bytesLeft := groupLogPageBytes
  tooBig := []
  stretched := false

/-- The rows picked for each room, and whether anything is left. -/
def Page.result (page : Page) : List (GroupId × List (ℤ × LogRow)) × Bool :=
  (page.rooms.map fun room => (room.gid, room.picked),
    page.rooms.any fun room => !room.buf.isEmpty || room.unread)

/-- `_fair_log_page`. -/
def fairLogPage (uin : Uin) (starts : List (GroupId × ℤ)) (limit : ℕ) :
    Handler (List (GroupId × List (ℤ × LogRow)) × Bool) :=
  if starts = [] then pure ([], false)
  else do
    let page ← pageLoop uin (chunkFor limit starts.length) (limit + starts.length)
      (.initial starts limit)
    return page.alone.result

/-! ## The two endpoints -/

/-- The rooms of an account. -/
def Db.roomsOf (db : Db) (uin : Uin) : List GroupId :=
  (db.members.select fun k _ => k.2 == uin).map fun r => r.1.1

structure GroupLogFetchIn where
  /-- The rooms asked for, each with the position to read from; `none` asks for every room. -/
  rooms : Option (List (GroupId × Option ℤ))
  limit : ℕ
deriving DecidableEq

structure GroupLogRow where
  gid : GroupId
  seq : ℤ
  envelopeType : EnvelopeType
  cls : ℕ
  payload : String
  receivedAt : Time
deriving DecidableEq

structure GroupLogFetchOut where
  rows : List GroupLogRow
  heads : List (GroupId × ℤ)
  cursors : List (GroupId × ℤ)
  more : Bool
deriving DecidableEq

/-- Dictionary assignment. -/
def assign (d : List (GroupId × ℤ)) (gid : GroupId) (v : ℤ) : List (GroupId × ℤ) :=
  if d.any fun r => r.1 == gid then d.map fun r => if r.1 = gid then (gid, v) else r
  else d ++ [(gid, v)]

/-- The state of the loop over the rooms of a fetch.  `seeds` are the heads at which it has
created cursors. -/
structure RoomScan where
  cursors : List (GroupId × ℤ)
  heads : List (GroupId × ℤ)
  pos : List (GroupId × ℤ)
  starts : List (GroupId × ℤ)
  seeds : List (GroupId × ℤ)

/-- One more room: its head, and the position `pos` that the install has or was given. -/
def RoomScan.add (scan : RoomScan) (gid : GroupId) (after : Option ℤ) (head pos : ℤ)
    (isNew : Bool) : RoomScan :=
  let start := after.getD pos
  -- a room listed twice is read once, from its last position
  let others := scan.starts.filter fun s => s.1 ≠ gid
  { cursors := assign scan.cursors gid pos
    heads := assign scan.heads gid head
    pos := assign scan.pos gid pos
    starts := if start < head then others ++ [(gid, start)] else others
    seeds := if isNew then scan.seeds ++ [(gid, head)] else scan.seeds }

/-- The position of an install in a room; a first read starts at the head. -/
def logPosition (uin : Uin) (device : DeviceId) (gid : GroupId) (head : ℤ) :
    Option ℤ → Handler (ℤ × Bool)
  | some pos => pure (pos, false)
  | none => upsertLogCursor gid uin device 0 head

/-- The answer to one room: its head, and the position the install has or is given. -/
def scanRoom (uin : Uin) (device : DeviceId) (scan : RoomScan) (gid : GroupId)
    (after : Option ℤ) : Handler RoomScan := do
  let head ← roomHead gid
  let found ← logPosition uin device gid head (scan.cursors.lookup gid)
  return scan.add gid after head found.1 found.2

def scanRooms (uin : Uin) (device : DeviceId) :
    List (GroupId × Option ℤ) → RoomScan → Handler RoomScan
  | [], scan => pure scan
  | (gid, after) :: rest, scan => do
    let scan ← scanRoom uin device scan gid after
    scanRooms uin device rest scan

/-- The rooms a fetch is about: those asked for that the account is in, or all of them. -/
def wantedRooms (asked : Option (List (GroupId × Option ℤ))) (memberOf : List GroupId) :
    List (GroupId × Option ℤ) :=
  match asked with
  | none => (memberOf.insertionSort (· ≤ ·)).map fun g => (g, none)
  | some rooms => rooms.filter fun r => r.1 ∈ memberOf

/-- The positions of an install in some rooms. -/
def Db.logPositions (db : Db) (uin : Uin) (device : DeviceId) (gids : List GroupId) :
    List (GroupId × ℤ) :=
  (db.groupLogCursors.select fun k _ => k.2.1 == uin && k.2.2 == device && k.1 ∈ gids).map
    fun r => (r.1.1, r.2.lastSeq)

/-- The rows of a page as they are served. -/
def servedRows (picked : List (GroupId × List (ℤ × LogRow))) : List GroupLogRow :=
  picked.flatMap fun p => p.2.map fun r =>
    ⟨p.1, r.1, r.2.envelopeType, r.2.cls, r.2.payload, r.2.receivedAt⟩

/-- The answer of a log fetch leaves with the cursors it has created. -/
def Ext.handLog (e : Ext) (uin : Uin) (device : DeviceId) (rows : List GroupLogRow)
    (seeds : List (GroupId × ℤ)) : Ext :=
  { e with
    logHanded := rows.map (fun r => ⟨uin, device, r.gid, r.seq, r.payload⟩) ++ e.logHanded
    seeded := seeds.map (fun s => (s.1, uin, device, s.2)) ++ e.seeded }

/-- `POST /messages/group-log/fetch`. -/
def fetchGroupLog (uin : Uin) (device : DeviceId) (body : GroupLogFetchIn) :
    Handler GroupLogFetchOut := do
  let memberOf ← .read .getMemberRooms fun db _ => db.roomsOf uin
  let wanted := wantedRooms body.rooms memberOf
  let cursors ← .read .getLogCursors fun db _ =>
    db.logPositions uin device (wanted.map Prod.fst)
  let scan ← scanRooms uin device wanted ⟨cursors, [], [], [], []⟩
  let page ← fairLogPage uin scan.starts body.limit
  let rows := servedRows page.1
  .onlyIf (rows = []) (markReader uin device)
  .commit .commit (fun e => e.handLog uin device rows scan.seeds) (pure ())
  return ⟨rows, scan.heads, scan.pos, page.2⟩

/-- The loop of `ack_group_log` over the rooms, in order of their ids. -/
def ackRooms (uin : Uin) (device : DeviceId) :
    List (GroupId × ℤ) → List (GroupId × ℤ) → ℕ → Handler ℕ
  | [], _, moved => pure moved
  | (gid, upto) :: rest, known, moved =>
    if (known.lookup gid).any fun pos => upto ≤ pos then ackRooms uin device rest known moved
    else do
      let found ← upsertLogCursor gid uin device upto upto
      ackRooms uin device rest (assign known gid found.1) (moved + 1)

/-- `POST /messages/group-log/ack`. -/
def ackGroupLog (uin : Uin) (device : DeviceId) (rooms : List (GroupId × ℤ)) : Handler ℕ := do
  let known ← .read .getLogCursors fun db _ =>
    db.logPositions uin device (rooms.map Prod.fst)
  let moved ← ackRooms uin device (rooms.insertionSort fun a b => a.1 ≤ b.1) known 0
  .onlyIf (moved ≠ 0) (markReader uin device)
  .commitOnly .commit
  return moved

/-! ## Joining a room -/

/-- The installs of an account that read the room logs. -/
def Db.readersOf (db : Db) (uin : Uin) : List DeviceId :=
  (db.groupLogReaders.select fun k _ => k.1 == uin).map fun r => r.1.2

def seedDevices (gid : GroupId) (uin : Uin) (head : ℤ) :
    List DeviceId → List (DeviceId × ℤ) → Handler (List (DeviceId × ℤ))
  | [], seeds => pure seeds
  | device :: rest, seeds => do
    let found ← upsertLogCursor gid uin device 0 head
    seedDevices gid uin head rest (if found.2 then seeds ++ [(device, head)] else seeds)

/-- `seed_cursors_on_join`: every reading install of a new member starts at the room's head. -/
def seedCursorsOnJoin (gid : GroupId) (uin : Uin) : Handler (List (DeviceId × ℤ)) := do
  let devices ← .read .getReaders fun db _ => db.readersOf uin
  if devices = [] then return []
  else
    let head ← roomHead gid
    seedDevices gid uin head devices []

/-- A join, as every way into a room ends: the member row, the seeds, one commit.  `refusal` is
the answer of the room's own rules. -/
def joinGroup (gid : GroupId) (uin : Uin) (refusal : Option HttpError) : Handler Unit := do
  let seat ← .read .getSeat fun db _ => db.members.get (gid, uin)
  if seat ≠ none then return ()
  else
    refuse refusal
    .write .insertMember (fun _ _ => [.member gid uin (some ())]) fun _ _ => ()
    let seeds ← seedCursorsOnJoin gid uin
    .commit .commit
      (fun e => { e with seeded := seeds.map (fun s => (gid, uin, s.1, s.2)) ++ e.seeded })
      (pure ())

end RcqServer.Messages
