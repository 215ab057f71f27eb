import RcqServer.Numbers.Shop

/-!
# The till

What the till asks of the island while somebody pays: where to pay (`/uin/payout-target`), and to
keep a number off the shelf meanwhile (`/uin/hold`).
-/

namespace RcqServer.Numbers

open ReadCommitted

/-- `HOLD_MINUTES`, in seconds. -/
def holdSeconds : ℕ := 120 * 60

/-! ## Holding a number -/

/-- Letting a number go: only under the id that the hold was placed with. -/
def releaseHold (uin : Uin) (holdId : String) (existing : Option Hold) : Handler Unit :=
  .onlyIf (existing.any (·.holdId == holdId)) do
    drop (.dropHold uin) (·.uinHolds.get uin) (.hold uin)
    .commitOnly (.commitHold uin)

/-- Re-placing one's own hold extends it. -/
def extendHold (uin : Uin) : Handler Unit := do
  let found ← .write (.extendHold uin)
    (fun db e => ((db.uinHolds.get uin).map fun hold =>
      .hold uin (some { hold with expiresAt := e.now + holdSeconds })).toList)
    fun db _ => (db.uinHolds.get uin).isSome
  .raiseIf (found = false) internalError
  .commitOnly (.commitHold uin)

/-- `POST /uin/hold`. -/
def tillHold (till : Till) (request : String) (shopEnabled : Bool) : Handler Bool := do
  .raiseIf (shopEnabled = false) ⟨404, "uin shop is disabled"⟩
  let now ← clock .clock
  match till.verifyHold now request with
  | .error e => .raise (voucherRefusal e)
  | .ok (place, uin, holdId) =>
    let existing ← .read .getHold fun db _ => db.uinHolds.get uin
    if place = false then
      releaseHold uin holdId existing
      return false
    else
      .raiseIf (length uin < minLen ∨ maxLen < length uin) ⟨400, "invalid_length"⟩
      if existing.any (·.holdId == holdId) then
        extendHold uin
        return true
      else
        let listed ← .read .getListing fun db _ => (db.uinListings.get uin).isSome
        .onlyIf (listed = false) do
          let taken ← uinIsTaken .hold uin none false
          .raiseIf (taken = true) ⟨409, "taken"⟩
        insert (.insertHold uin) (·.uinHolds.get uin) (.hold uin)
          (fun now => ⟨holdId, now + holdSeconds⟩) internalError
        .commitOnly (.commitHold uin)
        return true

/-! ## Where to pay -/

inductive PayoutKind
  | island
  | resale
deriving DecidableEq

structure PayoutTargetOut where
  uin : Uin
  kind : PayoutKind
  priceCents : ℕ
  addresses : List (String × String)
  listingId : Option String
  sellerUin : Option Uin

/-- What the handler learns from the settings. -/
structure PayoutEnv where
  shopEnabled : Bool
  resaleEnabled : Bool
  /-- `_prices`, by length. -/
  prices : ℕ → Option ℕ
  /-- `operator_addresses`. -/
  addresses : List (String × String)

/-- Another sale has a live hold on the number. -/
def Db.heldByOther (db : Db) (uin : Uin) (sale : String) (now : Time) : Bool :=
  (db.uinHolds.get uin).any fun hold => now < hold.expiresAt && hold.holdId != sale

/-- The answer goes out. -/
def answerQuote (out : PayoutTargetOut) (sale : String) : Handler PayoutTargetOut := do
  .effect (.quote out.uin) fun db e => e.quote out.uin sale (db.heldByOther out.uin sale e.now)
  return out

/-- The answer for a number that its owner sells.  It does not look at the holds. -/
def quoteListing (uin : Uin) (listing : Listing) (sale : String) : Handler PayoutTargetOut := do
  let addresses := listing.payout.filter (·.2 != "")
  .raiseIf addresses.isEmpty ⟨409, "no_payout"⟩
  answerQuote ⟨uin, .resale, listing.priceCents, addresses, some listing.listingId,
    some listing.sellerUin⟩ sale

/-- The answer for a number of the island's own stock. -/
def quoteStock (uin : Uin) (env : PayoutEnv) (sale : String) : Handler PayoutTargetOut :=
  match env.prices (priceLength uin) with
  | none => .raise ⟨409, "not_for_sale"⟩
  | some cents => do
    .raiseIf (length uin < minSaleLen ∨ isReservedUin uin = false) ⟨409, "not_for_sale"⟩
    let taken ← uinIsTaken .quote uin none false
    .raiseIf (taken = true) ⟨409, "taken"⟩
    .raiseIf env.addresses.isEmpty ⟨409, "no_payout"⟩
    answerQuote ⟨uin, .island, cents, env.addresses, none, none⟩ sale

/-- `POST /uin/payout-target`, asked on behalf of the given sale. -/
def payoutTarget (till : Till) (request : String) (sale : String) (env : PayoutEnv) :
    Handler PayoutTargetOut := do
  .raiseIf (env.shopEnabled = false) ⟨404, "uin shop is disabled"⟩
  let now ← clock .clock
  match till.verifyPayout now request with
  | .error e => .raise ⟨403, e⟩
  | .ok uin =>
    let listing ← .read (.check .quote uin .listing) fun db _ => db.uinListings.get uin
    match listing.filter fun _ => env.resaleEnabled with
    | some listing => quoteListing uin listing sale
    | none => quoteStock uin env sale

end RcqServer.Numbers
