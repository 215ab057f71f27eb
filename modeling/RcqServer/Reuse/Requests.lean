import RcqServer.Messages.Queue
import RcqServer.Reuse.Rows
import RcqServer.Sessions.Devices
import RcqServer.Vault.Slots

/-!
# Requests about a number

What the service answers about one number: the requests of its holder and those of others that ask
for it.  They read and write the rows that name the number, and two keys of Redis, the registry of
linked devices and the denylist of revoked ones, which are kept under the number for
`DEVICE_TTL_SECONDS`.

All of it together is the `Dossier` of the number, and a request is a function of it.  What a
request checks elsewhere (the door, a budget, the rows of other accounts) is given with it as the
refusal that it meets; identifiers that the service draws are given with it too.
-/

namespace RcqServer.Reuse

open ReadCommitted
open Messages (staleCursorDays supersededCursorDays)
open Sessions (DeviceEntry deviceTtl maxDevices withoutField)

/-! ## Reading rows -/

namespace Row

/-- The row belongs to an install: its cursor or its push token. -/
def ofDevice (device : DeviceId) : Row → Bool
  | .queueCursor _ d _ _ => d == device
  | .deviceToken _ d => d == device
  | _ => false

/-- The install of a queue cursor. -/
def cursorOf : Row → Option DeviceId
  | .queueCursor _ d _ _ => some d
  | _ => none

/-- The mark of a queue cursor. -/
def mark : Row → ℕ
  | .queueCursor _ _ k _ => k
  | _ => 0

/-- When a queue cursor was touched. -/
def touched : Row → Option Time
  | .queueCursor _ _ _ t => some t
  | _ => none

/-- The id of a queued message. -/
def messageId : Row → Option ℕ
  | .offlineMessage id _ _ _ => some id
  | _ => none

/-- The name of a slot with its blob and version. -/
def slot : Row → Option (String × Option String × ℕ)
  | .vaultSlot _ s b v => some (s, b, v)
  | _ => none

/-- The hash of a guest card that has not been revoked. -/
def openCard : Row → Option String
  | .guestCard h _ false => some h
  | _ => none

/-- The name of a site. -/
def siteName : Row → Option SiteName
  | .site name _ _ _ _ => some name
  | _ => none

/-- The key that a site is signed with. -/
def siteKey : Row → Option String
  | .site _ _ key _ _ => some key
  | _ => none

/-- The version of a slot or of a site. -/
def version : Row → ℕ
  | .vaultSlot _ _ _ v => v
  | .site _ _ _ v _ => v
  | _ => 0

end Row

/-! ## The dossier -/

/-- What the island keeps about one number. -/
structure Dossier where
  /-- The rows that name it. -/
  rows : Finset Row
  /-- `dev:{uin}`. -/
  devices : Option (Expiring.Entry (Table DeviceId DeviceEntry))
  /-- `devrv:{uin}`. -/
  revoked : Option (Expiring.Entry (List DeviceId))

inductive Answer
  | done
  /-- A refusal, with the version of its detail where it has one. -/
  | refused (error : HttpError) (version : Option ℕ)
  | flag (value : Bool)
  | number (value : ℕ)
  | devices (entries : List (DeviceId × DeviceEntry))
  | rows (rows : Finset Row)
deriving DecidableEq

namespace Dossier

/-- A request that only reads. -/
def answer (d : Dossier) (a : Answer) : Answer × Dossier := (a, d)

def refuse (d : Dossier) (status : ℕ) (detail : String) : Answer × Dossier :=
  (.refused ⟨status, detail⟩ none, d)

/-! ## Devices (`routers/devices.py`) -/

/-- `HGETALL` of the registry. -/
def registry (d : Dossier) (now : Time) : Table DeviceId DeviceEntry :=
  (Expiring.read now d.devices).getD ∅

/-- `HSET` of the registry. -/
def setDevice (d : Dossier) (now : Time) (device : DeviceId) (entry : DeviceEntry) : Dossier :=
  { d with
    devices := Expiring.alter now (fun rows => some ((rows.getD ∅).set device (some entry)))
      d.devices }

/-- `HDEL` of the registry. -/
def dropDevice (now : Time) (d : Dossier) (device : DeviceId) : Dossier :=
  { d with devices := Expiring.alter now (withoutField device) d.devices }

/-- `has_linked_devices`. -/
def hasLinkedDevices (now : Time) (d : Dossier) : Answer × Dossier :=
  d.answer (.flag (Expiring.read now d.devices).isSome)

/-- `POST /devices/link`. -/
def linkDevice (now : Time) (device : DeviceId) (label : String) (d : Dossier) : Answer × Dossier :=
  if maxDevices ≤ (d.registry now).rows.length then d.refuse 409 "too_many_devices"
  else
    let linked := d.setDevice now device ⟨label, now, true⟩
    (.done, { linked with devices := Expiring.expire now deviceTtl linked.devices })

/-- `mark_device_seen`. -/
def markDeviceSeen (now : Time) (device : DeviceId) (d : Dossier) : Answer × Dossier :=
  match (d.registry now).get device with
  | none => d.answer .done
  | some entry =>
    if entry.pending then (.done, d.setDevice now device { entry with pending := false })
    else d.answer .done

/-- `GET /devices`: entries that are pending for too long are deleted on the way. -/
def listDevices (now : Time) (d : Dossier) : Answer × Dossier :=
  let rows := (d.registry now).rows
  (.devices (rows.filter fun r => !r.2.stale now),
    ((rows.filter fun r => r.2.stale now).map Prod.fst).foldl (dropDevice now) d)

/-- `revoker_gate`: a linked session revokes what is not older than itself, or waits. -/
def mayRevoke (cfg : Sessions.Config) (now : Time) (registry : Table DeviceId DeviceEntry)
    (caller : Option DeviceId) (device : DeviceId) : Bool :=
  match caller.bind registry.get with
  | none => true
  | some own =>
    decide (own.createdAt + cfg.revokeCooldown ≤ now) ||
      (registry.get device).any fun entry => decide (own.createdAt ≤ entry.createdAt)

/-- `DELETE /devices/{device_id}`.  The cursor and the push tokens of the install go with it. -/
def revokeDevice (cfg : Sessions.Config) (now : Time) (caller : Option DeviceId) (device : DeviceId)
    (d : Dossier) : Answer × Dossier :=
  if mayRevoke cfg now (d.registry now) caller device then
    let denied := Expiring.alter now (fun ids => some ((ids.getD []).insert device)) d.revoked
    (.done,
      { d.dropDevice now device with
        revoked := Expiring.expire now deviceTtl denied
        rows := d.rows.filter fun r => !r.ofDevice device })
  else d.refuse 403 "revoke_cooldown"

/-- `device_is_revoked`. -/
def deviceIsRevoked (now : Time) (device : DeviceId) (d : Dossier) : Answer × Dossier :=
  d.answer (.flag (((Expiring.read now d.revoked).getD []).contains device))

end Dossier

/-! ## Answering from rows -/

def reply (a : Answer) (rows : Finset Row) : Answer × Finset Row := (a, rows)

def refuse (status : ℕ) (detail : String) (version : Option ℕ) (rows : Finset Row) :
    Answer × Finset Row :=
  (.refused ⟨status, detail⟩ version, rows)

/-! ## The queue (`routers/messages.py`, `services/queue_drain.py`) -/

/-- `POST /messages`, as far as the mailbox is concerned. -/
def postMessage (uin : Uin) (id : ℕ) (payload : String) (rows : Finset Row) : Answer × Finset Row :=
  if Row.user uin ∈ rows then
    let seq := rows.sup Row.counter + 1
    reply (.number seq) ((rows.filter fun r => ¬r.Holds .mailboxSeqTo uin) ∪
      {.mailboxSeq uin seq, .offlineMessage id uin seq payload})
  else refuse 404 "no such user" none rows

/-- `drain_floor`: the mark of the install, or the furthest mark of the account. -/
def drainFloor (device : DeviceId) (rows : Finset Row) : ℕ :=
  if ∃ r ∈ rows, r.cursorOf = some device then
    (rows.filter fun r => r.cursorOf = some device).sup Row.mark
  else rows.sup Row.mark

/-- Some cursor was touched within the superseded window. -/
def freshSibling (now : Time) (rows : Finset Row) : Bool :=
  decide (∃ r ∈ rows, r.touched.any fun t => decide (now ≤ t + days supersededCursorDays))

/-- `_drop`: a cursor goes after 30 days, or after 7 if a sibling is fresh. -/
def dropsCursor (now : Time) (rows : Finset Row) (r : Row) : Bool :=
  r.touched.any fun t =>
    decide (t + days staleCursorDays < now) ||
      (freshSibling now rows && decide (t + days supersededCursorDays < now))

/-- `_reap_below_min`: messages that every cursor has passed are deleted. -/
def reapBelowMin (now : Time) (rows : Finset Row) : Finset Row :=
  let live := rows.filter fun r => r.cursorOf.isSome ∧ dropsCursor now rows r = false
  rows.filter fun r => dropsCursor now rows r = false ∧
    ¬(live.Nonempty ∧ ∃ id ∈ r.messageId, ∀ c ∈ live, 0 < c.mark ∧ id ≤ c.mark)

/-- `_advance_cursor`. -/
def advanceCursor (now : Time) (uin : Uin) (device : DeviceId) (upTo : ℕ) (rows : Finset Row) :
    Finset Row :=
  let moved := insert (.queueCursor uin device (max (drainFloor device rows) upTo) now)
    (rows.filter fun r => r.cursorOf ≠ some device)
  reapBelowMin now moved

/-- `GET /messages/queue`.  The first fetch of an install pins its cursor; without `ack` the cursor
moves past what is returned. -/
def fetchQueue (now : Time) (uin : Uin) (device : DeviceId) (ack : Bool) (rows : Finset Row) :
    Answer × Finset Row :=
  let floor := drainFloor device rows
  let served := rows.filter fun r => ∃ id ∈ r.messageId, floor < id
  let pinned := if ∃ r ∈ rows, r.cursorOf = some device then rows
    else insert (.queueCursor uin device floor now) rows
  reply (.rows served) <|
    if ack then pinned
    else advanceCursor now uin device (served.sup fun r => r.messageId.getD 0) pinned

/-- `_acked_prefix`: as far as everything above the floor is acked. -/
def ackedPrefix (floor : ℕ) (acked : Finset ℕ) (rows : Finset Row) : ℕ :=
  (rows.filter fun r => ∃ id ∈ r.messageId, floor < id ∧
    ∀ r' ∈ rows, ∀ id' ∈ r'.messageId, floor < id' → id' ≤ id → id' ∈ acked).sup
    fun r => r.messageId.getD 0

/-- `POST /messages/queue/ack`: how many messages were deleted. -/
def ackQueue (now : Time) (uin : Uin) (device : DeviceId) (acked : Finset ℕ) (rows : Finset Row) :
    Answer × Finset Row :=
  let floor := drainFloor device rows
  let kept := advanceCursor now uin device (max floor (ackedPrefix floor acked rows)) rows
  let queued (rows : Finset Row) := (rows.filter fun r => r.messageId.isSome).card
  reply (.number (queued rows - queued kept)) kept

/-! ## Contacts (`routers/contacts.py`, `services/contact_source.py`) -/

/-- One account has the other in its list. -/
def inList (owner contact : Uin) (rows : Finset Row) : Bool :=
  decide (Row.contact owner contact true ∈ rows ∨ Row.contact owner contact false ∈ rows)

/-- `add_edges`; with a guest on either side it writes nothing. -/
def addEdges (a b : Uin) (guest : Bool) (rows : Finset Row) : Finset Row :=
  let add (rows : Finset Row) (edge : Uin × Uin) :=
    if inList edge.1 edge.2 rows then rows else insert (.contact edge.1 edge.2 false) rows
  if a = b ∨ guest = true then rows else [(a, b), (b, a)].foldl add rows

/-- The request of `a` to `b` is left in this state, or deleted. -/
def setRequest (a b : Uin) (state : Option RequestState) (rows : Finset Row) : Finset Row :=
  (rows.filter fun r => ¬(r.Holds .requestFrom a ∧ r.Holds .requestTo b)) ∪
    state.elim ∅ fun st => {.contactRequest a b st}

/-- `POST /contacts/request` of `a` to `b`. -/
def sendRequest (uin a b : Uin) (guest : Bool) (rows : Finset Row) : Answer × Finset Row :=
  if a = b then refuse 400 "cannot add yourself" none rows
  else if b = uin ∧ Row.user b ∉ rows then refuse 404 "no such user" none rows
  else if inList a b rows then refuse 409 "already in your contact list" none rows
  else if Row.contactRequest b a .pending ∈ rows then
    reply .done (addEdges b a guest (setRequest b a (some .accepted) rows))
  else reply .done (setRequest a b (some .pending) rows)

/-- `POST /contacts/respond` of `b` to the request of `a`. -/
def respondContact (a b : Uin) (accept guest : Bool) (rows : Finset Row) : Answer × Finset Row :=
  if Row.contactRequest a b .pending ∈ rows then
    if accept then reply .done (addEdges a b guest (setRequest a b (some .accepted) rows))
    else reply .done (setRequest a b (some .declined) rows)
  else refuse 404 "no such request" none rows

/-- `DELETE /contacts/outgoing/{to_uin}` of `a`, or `DELETE /contacts/pending/{request_id}` of
`b`. -/
def cancelRequest (a b : Uin) (rows : Finset Row) : Answer × Finset Row :=
  if ∃ r ∈ rows, r.Holds .requestFrom a ∧ r.Holds .requestTo b then
    reply .done (setRequest a b none rows)
  else refuse 404 "no such request" none rows

/-- The requests that the account has sent or been sent. -/
def listRequests (uin : Uin) (rows : Finset Row) : Answer :=
  .rows (rows.filter fun r => r.Holds .requestFrom uin ∨ r.Holds .requestTo uin)

/-- `GET /contacts`. -/
def listContacts (uin : Uin) (rows : Finset Row) : Answer :=
  .rows (rows.filter fun r => r.Holds .contactOwner uin)

/-- Whether another account's `GET /contacts` has the number in it. -/
def listedBy (uin other : Uin) (rows : Finset Row) : Answer :=
  .flag (inList other uin rows)

/-- `DELETE /contacts/{contact_uin}` of `a`. -/
def removeContact (a b : Uin) (rows : Finset Row) : Answer × Finset Row :=
  if inList a b rows then
    reply .done (rows.filter fun r =>
      ¬(r.Holds .contactOwner a ∧ r.Holds .contactContact b) ∧
        ¬(r.Holds .contactOwner b ∧ r.Holds .contactContact a))
  else refuse 404 "not in list" none rows

/-- `POST /contacts/{contact_uin}/block` of `a`. -/
def blockContact (a b : Uin) (wanted : Option Bool) (rows : Finset Row) : Answer × Finset Row :=
  if inList a b rows then
    let blocked := wanted.getD !decide (Row.contact a b true ∈ rows)
    reply (.flag blocked) (insert (.contact a b blocked)
      (rows.filter fun r => ¬(r.Holds .contactOwner a ∧ r.Holds .contactContact b)))
  else refuse 404 "not in list" none rows

/-! ## Rooms (`routers/groups.py`) -/

/-- `POST /groups`. -/
def createGroup (uin : Uin) (g : ℕ) (rows : Finset Row) : Answer × Finset Row :=
  reply .done (rows ∪ {.group g uin, .groupMember g uin "owner"})

/-- The account comes into a room, by joining or by being added. -/
def joinGroup (uin : Uin) (g : ℕ) (rows : Finset Row) : Answer × Finset Row :=
  if ∃ r ∈ rows, r.Holds .memberUin uin ∧ r.room = some g then reply .done rows
  else reply .done (insert (.groupMember g uin "member") rows)

/-- The account leaves a room or is removed from it. -/
def leaveGroup (uin : Uin) (g : ℕ) (rows : Finset Row) : Answer × Finset Row :=
  reply .done (rows.filter fun r => ¬(r.Holds .memberUin uin ∧ r.room = some g))

/-- `GET /groups`. -/
def listGroups (uin : Uin) (rows : Finset Row) : Answer :=
  .rows (rows.filter fun r => r.Holds .memberUin uin ∨ r.Holds .groupOwner uin)

/-- Whether the roster of a room has the number in it. -/
def inRoster (uin : Uin) (g : ℕ) (rows : Finset Row) : Answer :=
  .flag (decide (∃ r ∈ rows, r.Holds .memberUin uin ∧ r.room = some g))

/-! ## The vault (`routers/vault.py`) -/

/-- The rows of one slot. -/
def slotRows (slot : String) (rows : Finset Row) : Finset Row :=
  rows.filter fun r => ∃ s ∈ r.slot, s.1 = slot

/-- The slots that have a blob. -/
def liveSlots (rows : Finset Row) : Finset Row :=
  rows.filter fun r => ∃ s ∈ r.slot, s.2.1.isSome = true

/-- `_current_version`. -/
def currentVersion (slot : String) (rows : Finset Row) : ℕ := (slotRows slot rows).sup Row.version

/-- `GET /vault`. -/
def listSlots (rows : Finset Row) : Answer := .rows (liveSlots rows)

/-- `GET /vault/{slot}`. -/
def getSlot (slot : String) (rows : Finset Row) : Answer :=
  let live := slotRows slot (liveSlots rows)
  if live.Nonempty then .rows live
  else .refused ⟨404, "no_slot"⟩ (some (currentVersion slot rows))

/-- The slot gets this blob and version. -/
def writeSlot (uin : Uin) (slot : String) (blob : Option String) (version : ℕ) (rows : Finset Row) :
    Finset Row :=
  insert (.vaultSlot uin slot blob version) (rows \ slotRows slot rows)

/-- `PUT /vault/{slot}`. -/
def putSlot (uin : Uin) (slot blob : String) (version : ℕ) (rows : Finset Row) :
    Answer × Finset Row :=
  let current := currentVersion slot rows
  let present := (slotRows slot rows).Nonempty
  if version = 0 then
    if Vault.maxSlots ≤ (liveSlots rows).card ∧ current = 0 then refuse 400 "slot_limit" none rows
    else if present then refuse 409 "stale" (some current) rows
    else reply (.number 1) (writeSlot uin slot (some blob) 1 rows)
  else if present ∧ current = version then
    reply (.number (version + 1)) (writeSlot uin slot (some blob) (version + 1) rows)
  else refuse 409 "stale" (some current) rows

/-- `DELETE /vault/{slot}`. -/
def deleteSlot (uin : Uin) (slot : String) (version : ℕ) (rows : Finset Row) :
    Answer × Finset Row :=
  if (slotRows slot (liveSlots rows)).Nonempty then
    if currentVersion slot rows = version then
      reply .done (writeSlot uin slot none (version + 1) rows)
    else refuse 409 "stale" (some (currentVersion slot rows)) rows
  else reply .done rows

/-! ## Guest cards (`routers/guest_cards.py`, `services/door.py`) -/

/-- `MAX_CARDS`. -/
def maxCards : ℕ := 200

/-- `POST /guest-cards`. -/
def addCard (uin : Uin) (cardHash : String) (rows : Finset Row) : Answer × Finset Row :=
  if maxCards ≤ (rows.filter fun r => r.openCard.isSome).card then
    refuse 409 "too many cards; revoke one first" none rows
  else if .guestCard cardHash uin true ∈ rows ∨ .guestCard cardHash uin false ∈ rows then
    reply .done rows
  else reply .done (insert (.guestCard cardHash uin false) rows)

/-- `GET /guest-cards`. -/
def listCards (uin : Uin) (rows : Finset Row) : Answer :=
  .rows (rows.filter fun r => r.Holds .cardOwner uin)

/-- `DELETE /guest-cards/{card_hash}`. -/
def revokeCard (uin : Uin) (cardHash : String) (rows : Finset Row) : Answer × Finset Row :=
  if .guestCard cardHash uin true ∈ rows ∨ .guestCard cardHash uin false ∈ rows then
    reply .done (insert (.guestCard cardHash uin true)
      (rows.erase (.guestCard cardHash uin false)))
  else refuse 404 "no such card" none rows

/-- `redeem_card`: whether the card opens the door of the number. -/
def redeemCard (uin : Uin) (cardHash : String) (rows : Finset Row) : Answer :=
  .flag (decide (Row.guestCard cardHash uin false ∈ rows))

/-! ## Sites (`routers/sites.py`) -/

/-- `MAX_SITES_PER_UIN`. -/
def maxSitesPerUin : ℕ := 1

/-- The rows of one site. -/
def siteRows (name : SiteName) (rows : Finset Row) : Finset Row :=
  rows.filter fun r => r.siteName = some name

/-- The name reads as another number. -/
def reservedFor (uin : Uin) : SiteName → Bool
  | .digits _ value => value != uin
  | .word _ => false

/-- The account's sites. -/
def ownSites (uin : Uin) (rows : Finset Row) : Finset Row :=
  rows.filter fun r => r.Holds .siteOwner uin

/-- `PUT /sites/{name}`. -/
def putSite (uin : Uin) (name : SiteName) (key manifest : String) (version : ℕ)
    (rows : Finset Row) : Answer × Finset Row :=
  let existing := siteRows name rows
  let expected := existing.sup Row.version + 1
  if reservedFor uin name then refuse 403 "reserved_for_uin" none rows
  else if version ≠ expected then refuse 409 "bad_version" (some expected) rows
  else if ∃ r ∈ existing, ¬r.Holds .siteOwner uin then refuse 409 "taken" none rows
  else if ¬existing.Nonempty ∧ maxSitesPerUin ≤ (ownSites uin rows).card then
    refuse 409 "too_many_sites" none rows
  else if ∃ r ∈ existing, r.siteKey ≠ some key then refuse 409 "key_changed" none rows
  else reply (.number expected) (insert (.site name uin key expected manifest)
    (rows \ existing))

/-- `GET /sites/mine`. -/
def mySites (uin : Uin) (rows : Finset Row) : Answer := .rows (ownSites uin rows)

/-- `GET /sites/{name}/manifest.json`, of a name that reads as the number. -/
def manifest (uin : Uin) (zeros : ℕ) (rows : Finset Row) : Answer :=
  let site := siteRows (.digits zeros uin) rows
  if site.Nonempty then .rows site else .refused ⟨404, "no_site"⟩ none

/-- `DELETE /sites/{name}`. -/
def deleteSite (uin : Uin) (name : SiteName) (rows : Finset Row) : Answer × Finset Row :=
  let existing := siteRows name rows
  if existing.Nonempty then
    if ∃ r ∈ existing, ¬r.Holds .siteOwner uin then refuse 403 "not_owner" none rows
    else reply .done (rows \ existing)
  else refuse 404 "no_site" none rows

/-! ## All of them -/

/-- A request that reads and writes rows. -/
inductive RowRequest
  /-- Somebody registers under the number. -/
  | arrive
  | postMessage (id : ℕ) (payload : String)
  | fetchQueue (device : DeviceId) (ack : Bool)
  | ackQueue (device : DeviceId) (acked : Finset ℕ)
  | sendRequest (other : Uin) (incoming guest : Bool)
  | respondContact (other : Uin) (incoming accept guest : Bool)
  | cancelRequest (other : Uin) (incoming : Bool)
  | listRequests
  | listContacts
  | listedBy (other : Uin)
  | removeContact (other : Uin) (incoming : Bool)
  | blockContact (other : Uin) (incoming : Bool) (wanted : Option Bool)
  | createGroup (g : ℕ)
  | joinGroup (g : ℕ)
  | leaveGroup (g : ℕ)
  | listGroups
  | inRoster (g : ℕ)
  | listSlots
  | getSlot (slot : String)
  | putSlot (slot blob : String) (version : ℕ)
  | deleteSlot (slot : String) (version : ℕ)
  | addCard (cardHash : String)
  | listCards
  | revokeCard (cardHash : String)
  | redeemCard (cardHash : String)
  | putSite (name : SiteName) (key manifest : String) (version : ℕ)
  | mySites
  | manifest (zeros : ℕ)
  | deleteSite (name : SiteName)

/-- A request about the linked devices. -/
inductive DeviceRequest
  | hasLinkedDevices
  | linkDevice (device : DeviceId) (label : String)
  | markDeviceSeen (device : DeviceId)
  | listDevices
  | revokeDevice (caller : Option DeviceId) (device : DeviceId)
  | deviceIsRevoked (device : DeviceId)

/-- The two accounts of a request about contacts: who asks, and whom it is about. -/
def parties (uin other : Uin) (incoming : Bool) : Uin × Uin :=
  if incoming then (other, uin) else (uin, other)

/-- What a request does with the rows that name the number. -/
def respondRows (now : Time) (uin : Uin) (rows : Finset Row) :
    RowRequest → Answer × Finset Row
  | .arrive =>
    if Row.user uin ∈ rows then refuse 409 "taken" none rows
    else reply .done (insert (.user uin) rows)
  | .postMessage id payload => postMessage uin id payload rows
  | .fetchQueue device ack => fetchQueue now uin device ack rows
  | .ackQueue device acked => ackQueue now uin device acked rows
  | .sendRequest other incoming guest =>
    let p := parties uin other incoming
    sendRequest uin p.1 p.2 guest rows
  | .respondContact other incoming accept guest =>
    let p := parties uin other incoming
    respondContact p.1 p.2 accept guest rows
  | .cancelRequest other incoming =>
    let p := parties uin other incoming
    cancelRequest p.1 p.2 rows
  | .listRequests => reply (listRequests uin rows) rows
  | .listContacts => reply (listContacts uin rows) rows
  | .listedBy other => reply (listedBy uin other rows) rows
  | .removeContact other incoming =>
    let p := parties uin other incoming
    removeContact p.1 p.2 rows
  | .blockContact other incoming wanted =>
    let p := parties uin other incoming
    blockContact p.1 p.2 wanted rows
  | .createGroup g => createGroup uin g rows
  | .joinGroup g => joinGroup uin g rows
  | .leaveGroup g => leaveGroup uin g rows
  | .listGroups => reply (listGroups uin rows) rows
  | .inRoster g => reply (inRoster uin g rows) rows
  | .listSlots => reply (listSlots rows) rows
  | .getSlot slot => reply (getSlot slot rows) rows
  | .putSlot slot blob version => putSlot uin slot blob version rows
  | .deleteSlot slot version => deleteSlot uin slot version rows
  | .addCard cardHash => addCard uin cardHash rows
  | .listCards => reply (listCards uin rows) rows
  | .revokeCard cardHash => revokeCard uin cardHash rows
  | .redeemCard cardHash => reply (redeemCard uin cardHash rows) rows
  | .putSite name key manifest version => putSite uin name key manifest version rows
  | .mySites => reply (mySites uin rows) rows
  | .manifest zeros => reply (manifest uin zeros rows) rows
  | .deleteSite name => deleteSite uin name rows

/-- What a request does with the registry and the denylist. -/
def respondDevice (cfg : Sessions.Config) (now : Time) (d : Dossier) :
    DeviceRequest → Answer × Dossier
  | .hasLinkedDevices => d.hasLinkedDevices now
  | .linkDevice device label => d.linkDevice now device label
  | .markDeviceSeen device => d.markDeviceSeen now device
  | .listDevices => d.listDevices now
  | .revokeDevice caller device => d.revokeDevice cfg now caller device
  | .deviceIsRevoked device => d.deviceIsRevoked now device

/-- A request about one number. -/
inductive Request
  | row (r : RowRequest)
  | device (r : DeviceRequest)

/-- What the service does about the request. -/
def Request.respond (cfg : Sessions.Config) (now : Time) (uin : Uin) (d : Dossier) :
    Request → Answer × Dossier
  | .row r =>
    let done := respondRows now uin d.rows r
    (done.1, { d with rows := done.2 })
  | .device r => respondDevice cfg now d r

end RcqServer.Reuse
