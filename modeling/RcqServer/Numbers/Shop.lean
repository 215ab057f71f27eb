import RcqServer.Numbers.Doors

/-!
# The shop and the move

`_perform_migration` moves an account from one number to another; everything in the shop that ends
with the caller answering as a new number goes through it.  The rest of the shop changes who owns a
number (`owned_uins`) and who sells it (`uin_listings`).
-/

namespace RcqServer.Numbers

open ReadCommitted

def minLen : ℕ := 3

def maxLen : ℕ := 9

def maxOwnedUins : ℕ := 10

def minSaleLen : ℕ := 4

/-! ## The move -/

/-- The part of `rekey_uin_rows` that is about deeds. -/
def rekeyDeeds (l : Label) (oldUin newUin : Uin) : Handler Unit :=
  .write l
    (fun db _ => (db.ownedUins.changes fun _ deed =>
        if deed.ownerUin = oldUin then some (some { deed with ownerUin := newUin }) else none).map
      fun change => .deed change.1 change.2)
    fun _ _ => ()

/-- The part of `rekey_uin_rows` that is about listings. -/
def rekeyListings (l : Label) (oldUin newUin : Uin) : Handler Unit :=
  .write l
    (fun db _ => (db.uinListings.changes fun _ listing =>
        if listing.sellerUin = oldUin then some (some { listing with sellerUin := newUin })
        else none).map
      fun change => .listing change.1 change.2)
    fun _ _ => ()

/-- `SELECT … FOR UPDATE` of an account. -/
def lockUser (l : Label) (uin : Uin) : Handler (Option UserRow) :=
  .write l (fun db _ => ((db.users.get uin).map fun row => .user uin (some row)).toList)
    fun db _ => db.users.get uin

/-- Step 2b of the move: what becomes of the number that is left. -/
def keepVacated (l : TakePart → Label) (oldUin targetUin : Uin) : Handler Unit := do
  let stale ← .read (l .getStale) fun db _ => db.ownedUins.get oldUin
  match stale with
  -- somebody else's deed is left alone, and the caller's own has been re-keyed already
  | some _ => return ()
  | none =>
    .onlyIf (isReservedUin oldUin) <|
      insert (l .stampStale) (·.ownedUins.get oldUin) (.deed oldUin)
        (fun now => ⟨targetUin, .migrated, now⟩) internalError

/-- `_perform_migration`.  `user` is the row as the caller has read it, and `x` records what the
commit gives. -/
def performMigration (door : Door) (user : UserRow) (oldUin targetUin : Uin) (x : Ext → Ext) :
    Handler Uin := do
  let l := Label.take door targetUin
  let locked ← lockUser (l .lockUser) oldUin
  .raiseIf (locked = none) ⟨404, "user not found"⟩
  insert (l .insertUser) (·.users.get targetUin) (.user targetUin)
    (fun now => { user with
      createdAt := now
      identityCreatedAt := some (user.identityCreatedAt.getD user.createdAt) })
    ⟨409, "taken"⟩
  rekeyDeeds (l .rekeyDeeds) oldUin targetUin
  rekeyListings (l .rekeyListings) oldUin targetUin
  keepVacated l oldUin targetUin
  drop (l .dropUser) (·.users.get oldUin) (.user oldUin)
  .commit (l .commit) x (.ret targetUin)

/-- What `_perform_migration` does before it commits. -/
def moveRows (door : Door) (user : UserRow) (oldUin targetUin : Uin) : Handler Unit := do
  let l := Label.take door targetUin
  let locked ← lockUser (l .lockUser) oldUin
  .raiseIf (locked = none) ⟨404, "user not found"⟩
  insert (l .insertUser) (·.users.get targetUin) (.user targetUin)
    (fun now => { user with
      createdAt := now
      identityCreatedAt := some (user.identityCreatedAt.getD user.createdAt) })
    ⟨409, "taken"⟩
  rekeyDeeds (l .rekeyDeeds) oldUin targetUin
  rekeyListings (l .rekeyListings) oldUin targetUin
  keepVacated l oldUin targetUin
  drop (l .dropUser) (·.users.get oldUin) (.user oldUin)

theorem performMigration_eq (door : Door) (user : UserRow) (oldUin targetUin : Uin)
    (x : Ext → Ext) : performMigration door user oldUin targetUin x =
      (moveRows door user oldUin targetUin).bind fun _ =>
        .commit (.take door targetUin .commit) x (.ret targetUin) := by
  simp only [performMigration, moveRows, Prog.bind_eq, Prog.bind_assoc]

/-- `POST /account/migrate`. -/
def migrate (cfg : Config) (me : Uin) (cooldown : Bool) (draw : ℕ → ℕ) : Handler Uin := do
  let user ← lockUser .lockUser me
  match user with
  | none => .raise ⟨404, "user not found"⟩
  | some row =>
    .raiseIf row.isSuspended ⟨403, "suspended"⟩
    .raiseIf cooldown ⟨429, "cooldown"⟩
    let target ← allocateUin cfg draw
    performMigration .users row me target (·.hand target .users)

/-! ## Taking a number -/

/-- `_owned_uins`. -/
def ownedUins (l : Label) (owner : Uin) : Handler (List Uin) :=
  .read l fun db _ =>
    ((db.ownedUins.select fun uin deed => deed.ownerUin == owner && uin != owner).map
      Prod.fst).insertionSort (· ≤ ·)

/-- `PurchaseOut`, without the token. -/
structure PurchaseOut where
  newUin : Option Uin
  switched : Bool
  owned : List Uin

/-- `_take`.  `x` records what its commit gives. -/
def take (door : Door) (user : UserRow) (owner target : Uin) (switch : Bool) (source : Source)
    (x : Ext → Ext) : Handler PurchaseOut := do
  if switch then
    let newUin ← performMigration door user owner target x
    let owned ← ownedUins .ownedUins newUin
    return ⟨some newUin, true, owned⟩
  else
    let held ← ownedUins (.take door target .countHeld) owner
    .raiseIf (maxOwnedUins ≤ held.length) ⟨409, "collection_full"⟩
    insert (.take door target .insertDeed) (·.ownedUins.get target) (.deed target)
      (fun now => ⟨owner, source, now⟩) internalError
    .commit (.take door target .commit) x (.ret ())
    let owned ← ownedUins .ownedUins owner
    return ⟨some owner, false, owned⟩

/-- The account that a request comes from, unless it is gone or suspended. -/
def activeUser (l : Label) (me : Uin) : Handler UserRow := do
  let user ← .read l fun db _ => db.users.get me
  match user with
  | none => .raise ⟨404, "user not found"⟩
  | some row =>
    .raiseIf row.isSuspended ⟨403, "suspended"⟩
    return row

/-- A full collection takes nothing more. -/
def refuseFull (l : Label) (me : Uin) : Handler Unit := do
  let held ← ownedUins l me
  .raiseIf (maxOwnedUins ≤ held.length) ⟨409, "too_many_uins"⟩

structure ClaimIn where
  uin : Uin
  switch : Bool

/-- The table that a claim writes the number into. -/
def ClaimIn.door (body : ClaimIn) : Door :=
  if body.switch then .users else .deeds

/-- The checks on a number that `claim` and `redeem` make before they ask any table. -/
def checkTarget (shopEnabled : Bool) (me uin : Uin) : Handler Unit := do
  .raiseIf (shopEnabled = false) ⟨404, "uin shop is disabled"⟩
  .raiseIf (length uin < minLen ∨ maxLen < length uin) ⟨400, "invalid_length"⟩
  .raiseIf (uin = me) ⟨400, "self_target"⟩

/-- `POST /uin/purchase`. -/
def claim (me : Uin) (body : ClaimIn) (shopEnabled : Bool) : Handler PurchaseOut := do
  checkTarget shopEnabled me body.uin
  .raiseIf (isReservedUin body.uin) ⟨403, "reserved"⟩
  let taken ← uinIsTaken body.door body.uin none false
  .raiseIf (taken = true) ⟨409, "taken"⟩
  let user ← activeUser (.take body.door body.uin .getUser) me
  .onlyIf (body.switch = false) (refuseFull (.take body.door body.uin .ownedUins) me)
  take body.door user me body.uin body.switch .claimed (·.hand body.uin body.door)

/-- `POST /uin/activate`. -/
def activate (me uin : Uin) : Handler PurchaseOut := do
  let listed ← .read .getListing fun db _ => (db.uinListings.get uin).isSome
  .raiseIf (listed = true) ⟨409, "listed"⟩
  let held ← .read .getDeed fun db _ => db.ownedUins.get uin
  .raiseIf (held.all (·.ownerUin != me)) ⟨404, "not_owned"⟩
  let user ← activeUser .getUser me
  take .users user me uin true .activate id

/-! ## Redeeming a voucher -/

structure RedeemIn where
  uin : Uin
  voucher : String
  switch : Bool

/-- The deed changes hands if the seller still has it, in one conditional `UPDATE`. -/
def moveDeed (l : Label) (uin seller buyer : Uin) : Handler Bool :=
  .write l
    (fun db _ => (((db.ownedUins.get uin).filter (·.ownerUin == seller)).map fun deed =>
      .deed uin (some { deed with ownerUin := buyer, source := .purchase })).toList)
    fun db _ => (db.ownedUins.get uin).any (·.ownerUin == seller)

/-- `_redeem_resale`, for the listing as `redeem` has read it. -/
def redeemResale (till : Till) (user : UserRow) (me : Uin) (listing : Listing) (body : RedeemIn) :
    Handler PurchaseOut := do
  let l := Label.take .deeds body.uin
  .raiseIf (listing.sellerUin = me) ⟨400, "own_listing"⟩
  .onlyIf (body.switch = false) (refuseFull .ownedUins me)
  let now ← clock .clock
  match till.verifyResale now body.voucher body.uin with
  | .error e => .raise (voucherRefusal e)
  | .ok (nonce, listingId, priceCents) =>
    .raiseIf (listingId ≠ listing.listingId) ⟨409, "offer_changed"⟩
    .raiseIf (priceCents ≠ listing.priceCents) ⟨409, "price_changed"⟩
    spendVoucher .spend nonce
    let moved ← moveDeed (l .moveDeed) body.uin listing.sellerUin me
    .raiseIf (moved = false) ⟨409, "seller_gone"⟩
    drop (l .dropListing) (·.uinListings.get body.uin) (.listing body.uin)
    drop (l .dropHold) (·.uinHolds.get body.uin) (.hold body.uin)
    if body.switch then
      let out ← take .deeds user me body.uin true .purchase (·.grant nonce .resale)
      .commitOnly .commit
      return out
    else
      .commit (l .commit) (·.grant nonce .resale) (.ret ())
      let owned ← ownedUins .ownedUins me
      return ⟨none, false, owned⟩

/-- `POST /uin/redeem`. -/
def redeem (till : Till) (me : Uin) (body : RedeemIn) (shopEnabled resaleEnabled : Bool) :
    Handler PurchaseOut := do
  let l := Label.take .deeds body.uin
  checkTarget shopEnabled me body.uin
  let user ← activeUser .getUser me
  let listing ← .read .getListing fun db _ => db.uinListings.get body.uin
  match listing.filter fun _ => resaleEnabled with
  | some listing => redeemResale till user me listing body
  | none =>
    let now ← clock .clock
    match till.verify now body.voucher body.uin with
    | .error e => .raise (voucherRefusal e)
    | .ok nonce =>
      let taken ← uinIsTaken .deeds body.uin none true
      .raiseIf (taken = true) ⟨409, "taken"⟩
      spendVoucher (l .spend) nonce
      drop (l .dropHold) (·.uinHolds.get body.uin) (.hold body.uin)
      .onlyIf (body.switch = true) <|
        insert (l .insertDeed) (·.ownedUins.get body.uin) (.deed body.uin)
          (fun now => ⟨me, .purchase, now⟩) internalError
      let out ← take .deeds user me body.uin body.switch .purchase
        fun e => (e.grant nonce .number).hand body.uin .deeds
      .commitOnly .commit
      return out

/-! ## Selling, giving back, leaving -/

structure ListingIn where
  uin : Uin
  priceCents : ℕ
  /-- Address by chain, the addresses stripped. -/
  payout : List (String × String)

/-- `_listing_held`. -/
def listingHeld (uin : Uin) : Handler Bool :=
  .read .getHold fun db e => (db.uinHolds.get uin).any fun hold => e.now < hold.expiresAt

/-- The changed columns of an offer; a changed offer gets a new name. -/
def Listing.reprice (row existing : Listing) (body : ListingIn) (listingId : String) : Listing :=
  let samePrice := body.priceCents == existing.priceCents
  let samePayout := body.payout.isPerm existing.payout
  { row with
    priceCents := if samePrice then row.priceCents else body.priceCents
    payout := if samePayout then row.payout else body.payout
    listingId := if samePrice && samePayout then row.listingId else listingId }

/-- `POST /uin/listings`; `listingId` is the fresh token. -/
def createListing (me : Uin) (body : ListingIn) (listingId : String)
    (shopEnabled resaleEnabled : Bool) : Handler Unit := do
  .raiseIf (shopEnabled = false) ⟨404, "uin shop is disabled"⟩
  .raiseIf (resaleEnabled = false) ⟨404, "resale is not open yet"⟩
  .raiseIf (body.uin = me) ⟨400, "in_use"⟩
  .raiseIf (body.payout.isEmpty || body.payout.any (·.2 == "")) ⟨400, "no_payout"⟩
  .raiseIf (length body.uin < minSaleLen) ⟨400, "not_for_sale"⟩
  let deed ← .read .getDeed fun db _ => db.ownedUins.get body.uin
  .raiseIf (deed.all (·.ownerUin != me)) ⟨404, "not_owned"⟩
  let existing ← .read .getListing fun db _ => db.uinListings.get body.uin
  match existing with
  | some existing =>
    let held ← listingHeld body.uin
    .raiseIf (held = true) ⟨409, "being_paid"⟩
    let found ← .write .updateListing
      (fun db _ => ((db.uinListings.get body.uin).map fun row =>
        .listing body.uin (some (row.reprice existing body listingId))).toList)
      fun db _ => (db.uinListings.get body.uin).isSome
    .raiseIf (found = false) internalError
    .commitOnly .commit
  | none =>
    insert .insertListing (·.uinListings.get body.uin) (.listing body.uin)
      (fun now => ⟨me, listingId, body.priceCents, body.payout, now⟩) internalError
    .commitOnly .commit

/-- `DELETE /uin/listings/{uin}`. -/
def deleteListing (me uin : Uin) : Handler Unit := do
  let row ← .read .getListing fun db _ => db.uinListings.get uin
  .raiseIf (row.all (·.sellerUin != me)) ⟨404, "not_listed"⟩
  let held ← listingHeld uin
  .raiseIf (held = true) ⟨409, "being_paid"⟩
  drop .dropListing (·.uinListings.get uin) (.listing uin)
  .commitOnly .commit

/-- `DELETE /uin/mine/{uin}`. -/
def release (me uin : Uin) : Handler (List Uin) := do
  let listed ← .read .getListing fun db _ => (db.uinListings.get uin).isSome
  .raiseIf (listed = true) ⟨409, "listed"⟩
  .raiseIf (uin = me) ⟨400, "uin_in_use"⟩
  let held ← .read .getDeed fun db _ => db.ownedUins.get uin
  .raiseIf (held.all (·.ownerUin != me)) ⟨404, "not_owned"⟩
  drop .dropDeed (·.ownedUins.get uin) (.deed uin)
  .commitOnly .commit
  ownedUins .ownedUins me

/-- The part of `purge_uin_rows` that is about deeds. -/
def dropDeeds (me : Uin) : Handler Unit :=
  .write .dropDeeds
    (fun db _ => (db.ownedUins.changes fun _ deed =>
      if deed.ownerUin = me then some none else none).map fun change => .deed change.1 change.2)
    fun _ _ => ()

/-- The part of `purge_uin_rows` that is about listings. -/
def dropListings (me : Uin) : Handler Unit :=
  .write .dropListings
    (fun db _ => (db.uinListings.changes fun _ listing =>
      if listing.sellerUin = me then some none else none).map
        fun change => .listing change.1 change.2)
    fun _ _ => ()

/-- `DELETE /auth/account`: what `purge_account` does to these tables. -/
def burn (me : Uin) : Handler Unit := do
  let known ← .read .getUser fun db _ => (db.users.get me).isSome
  .raiseIf (known = false) ⟨404, "user not found"⟩
  dropDeeds me
  dropListings me
  drop .dropUser (·.users.get me) (.user me)
  .commitOnly .commit

end RcqServer.Numbers
