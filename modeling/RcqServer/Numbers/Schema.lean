import RcqServer.Keys.Text
import RcqServer.Numbers.Digits
import RcqServer.ReadCommitted.Table

/-!
# The store behind the numbers

Who answers as a number, who owns it, who sells it, who is paying for it:

| table | key | a row says |
| --- | --- | --- |
| `users` | number | an account answers as it |
| `owned_uins` | number | an account owns it (its deed) |
| `uin_listings` | number | its owner sells it |
| `uin_holds` | number | somebody is paying for it |
| `spent_vouchers` | nonce | the voucher has been redeemed |
| `invites` | code | the code admits somebody, and may promise a number |

Each row has the columns that a modelled handler reads or writes and that decide something.
`Ext.handed`, `Ext.grants` and `Ext.quotes` are not part of the service; they record which free
numbers and which vouchers the commits have turned into something, and what the till has been told,
for the statements about the service to speak of.
-/

namespace RcqServer.Numbers

open ReadCommitted

abbrev Nonce := String

/-- The code that is presented.  The column holds its SHA-256, which only renames the rows. -/
abbrev InviteCode := String

/-! ## Rows -/

/-- `users.guest_status`, if the row is a guest copy. -/
inductive GuestStatus
  | added
  | proven
deriving DecidableEq

structure UserRow where
  identityKey : KeyText
  signingKey : KeyText
  isSuspended : Bool
  guestStatus : Option GuestStatus
  residentSince : Option Time
  createdAt : Time
  identityCreatedAt : Option Time
deriving DecidableEq

/-- `owned_uins.source`. -/
inductive Source
  | purchase
  | claimed
  | activate
  | granted
  | migrated
deriving DecidableEq

/-- A row of `owned_uins`. -/
structure Deed where
  ownerUin : Uin
  source : Source
  acquiredAt : Time
deriving DecidableEq

/-- A row of `uin_listings`. -/
structure Listing where
  sellerUin : Uin
  listingId : String
  priceCents : ℕ
  payout : List (String × String)
  createdAt : Time

/-- A row of `uin_holds`. -/
structure Hold where
  holdId : String
  expiresAt : Time

/-- A row of `invites`. -/
structure Invite where
  uin : Option Uin
  usedCount : ℕ
  maxUses : ℕ
  expiresAt : Option Time
  spentAt : Option Time

/-- `invite_is_live`. -/
def Invite.live (i : Invite) (now : Time) : Bool :=
  i.usedCount < i.maxUses && i.expiresAt.all (now < ·)

/-! ## The database and its row writes -/

structure Db where
  users : Table Uin UserRow
  ownedUins : Table Uin Deed
  uinListings : Table Uin Listing
  uinHolds : Table Uin Hold
  spentVouchers : Table Nonce Time
  invites : Table InviteCode Invite

/-- A write of one row; `none` deletes it. -/
inductive Write
  | user (uin : Uin) (row : Option UserRow)
  | deed (uin : Uin) (row : Option Deed)
  | listing (uin : Uin) (row : Option Listing)
  | hold (uin : Uin) (row : Option Hold)
  | spent (nonce : Nonce) (row : Option Time)
  | invite (code : InviteCode) (row : Option Invite)

/-- The row that a write locks. -/
inductive RowKey
  | user (uin : Uin)
  | deed (uin : Uin)
  | listing (uin : Uin)
  | hold (uin : Uin)
  | spent (nonce : Nonce)
  | invite (code : InviteCode)
deriving DecidableEq

def Write.key : Write → RowKey
  | user uin _ => .user uin
  | deed uin _ => .deed uin
  | listing uin _ => .listing uin
  | hold uin _ => .hold uin
  | spent nonce _ => .spent nonce
  | invite code _ => .invite code

def Write.apply : Write → Db → Db
  | user uin row, db => { db with users := db.users.set uin row }
  | deed uin row, db => { db with ownedUins := db.ownedUins.set uin row }
  | listing uin row, db => { db with uinListings := db.uinListings.set uin row }
  | hold uin row, db => { db with uinHolds := db.uinHolds.set uin row }
  | spent nonce row, db => { db with spentVouchers := db.spentVouchers.set nonce row }
  | invite code row, db => { db with invites := db.invites.set code row }

instance : Store Db Write RowKey where
  apply := Write.apply
  key := Write.key

theorem sets_users : Sets Db.users Write.user := {}

theorem sets_ownedUins : Sets Db.ownedUins Write.deed := {}

theorem sets_uinListings : Sets Db.uinListings Write.listing := {}

theorem sets_uinHolds : Sets Db.uinHolds Write.hold := {}

theorem sets_invites : Sets Db.invites Write.invite := {}

theorem sets_spentVouchers : Sets Db.spentVouchers Write.spent := {}

/-! ## Outside the transactions -/

/-- What a request wants a number for: to answer as it (`users`), to own it (`deeds`), to keep it
for a buyer (`hold`), or to say where to pay for it (`quote`). -/
inductive Door
  | users
  | deeds
  | hold
  | quote
deriving DecidableEq

/-- A free number that a commit has handed out. -/
structure Handout where
  uin : Uin
  door : Door

inductive GrantKind
  | number
  | resale
  | entry
deriving DecidableEq

/-- What a commit has given for a voucher. -/
structure Grant where
  nonce : Nonce
  kind : GrantKind
deriving DecidableEq

/-- The till has been told where to pay for a number. -/
structure Quote where
  uin : Uin
  /-- The sale that asked, by the id of the hold that it places. -/
  sale : String
  /-- Another sale had a live hold on the number. -/
  held : Bool

structure Ext where
  now : Time
  handed : List Handout
  grants : List Grant
  quotes : List Quote

/-- Nothing has been given out yet. -/
def Ext.initial (now : Time) : Ext := ⟨now, [], [], []⟩

def Ext.hand (e : Ext) (uin : Uin) (door : Door) : Ext :=
  { e with handed := ⟨uin, door⟩ :: e.handed }

def Ext.grant (e : Ext) (nonce : Nonce) (kind : GrantKind) : Ext :=
  { e with grants := ⟨nonce, kind⟩ :: e.grants }

def Ext.quote (e : Ext) (uin : Uin) (sale : String) (held : Bool) : Ext :=
  { e with quotes := ⟨uin, sale, held⟩ :: e.quotes }

/-! ## Statements -/

/-- The tables that `uin_is_taken` asks, in its order, and the one that `payout_target` asks
before. -/
inductive CheckPart
  | user
  | deed
  | hold
  | invite
  | listing
deriving DecidableEq

/-- What a request does between finding a number free and committing it. -/
inductive TakePart
  | clock | getUser | getHold | getStale | ownedUins | countHeld | spend
  | insertUser | insertDeed | moveDeed | dropListing | dropHold
  | lockUser | rekeyDeeds | rekeyListings | stampStale | dropUser | commit
deriving DecidableEq

/-- What a statement is, where it matters to a scheduling condition or to a reader. -/
inductive Label
  | check (door : Door) (uin : Uin) (part : CheckPart)
  | take (door : Door) (uin : Uin) (part : TakePart)
  | clock | getUser | lockUser | getKey | getGuest | getInvite | getListing | getDeed | getHold
  | spend | useInvite | updateUser | insertListing | updateListing | dropListing
  | dropDeed | dropDeeds | dropListings | dropUser | ownedUins | commit
  | extendHold (uin : Uin) | insertHold (uin : Uin) | dropHold (uin : Uin)
  | commitHold (uin : Uin) | quote (uin : Uin)
deriving DecidableEq

abbrev Handler := Prog Db Ext Write Label HttpError

/-- `datetime.now(timezone.utc)`. -/
def clock (l : Label) : Handler Time :=
  .read l fun _ e => e.now

/-- `db.add(row)` and the flush: an `INSERT`, with the defaults that are times.  It waits for
whoever has the key locked, and fails on a row that is there. -/
def insert {ν : Type} (l : Label) (get : Db → Option ν) (mk : Option ν → Write) (row : Time → ν)
    (conflict : HttpError) : Handler Unit :=
  .stmt l (fun db e => [mk (some ((get db).getD (row e.now)))]) (fun _ e => e) fun db _ =>
    if (get db).isSome then .rollback (.raise conflict) else .ret ()

/-- `db.delete(row)` and the flush.  A row that is gone by then is no error. -/
def drop {ν : Type} (l : Label) (get : Db → Option ν) (mk : Option ν → Write) : Handler Unit :=
  .write l (fun db _ => ((get db).map fun _ => mk none).toList) fun _ _ => ()

/-- An exception that no handler expects. -/
def internalError : HttpError := ⟨500, "internal_error"⟩

/-- The flush of changed columns of an account.  A row that is gone by then is a
`StaleDataError`. -/
def updateUser (uin : Uin) (f : Time → UserRow → UserRow) : Handler Unit :=
  .stmt .updateUser
    (fun db e => ((db.users.get uin).map fun row => .user uin (some (f e.now row))).toList)
    (fun _ e => e)
    fun db _ => if (db.users.get uin).isSome then .ret () else .raise internalError

end RcqServer.Numbers
