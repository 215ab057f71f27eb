import RcqServer.Numbers.Till
import RcqServer.ReadCommitted.Serial

/-!
# The doors, the shop and the till as a system of requests
-/

namespace RcqServer.Numbers

open ReadCommitted

/-- Everything that can arrive.  `tick` lets time pass. -/
inductive Request
  | register (body : RegisterIn) (env : RegisterEnv)
  | guestSettle (me : Uin) (code : String) (policy : Option Policy)
  | residencyRedeem (me : Uin) (voucher : String)
  | grantUin (body : GrantUinIn)
  | claim (me : Uin) (body : ClaimIn) (shopEnabled : Bool)
  | redeem (me : Uin) (body : RedeemIn) (shopEnabled resaleEnabled : Bool)
  | activate (me uin : Uin)
  | migrate (me : Uin) (cooldown : Bool) (draw : ℕ → ℕ)
  | createListing (me : Uin) (body : ListingIn) (listingId : String)
      (shopEnabled resaleEnabled : Bool)
  | deleteListing (me uin : Uin)
  | release (me uin : Uin)
  | burn (me : Uin)
  | tillHold (request : String) (shopEnabled : Bool)
  | payoutTarget (request sale : String) (env : PayoutEnv)
  | tick (seconds : ℕ)

inductive Answer
  | number (uin : Uin)
  | purchase (out : PurchaseOut)
  | owned (uins : List Uin)
  | held (held : Bool)
  | payout (out : PayoutTargetOut)
  | done

def handler (cfg : Config) (till : Till) : Request → Handler Answer
  | .register body env => do return .number (← register cfg till body env)
  | .guestSettle me code policy => do
    guestSettle till me code policy
    return .done
  | .residencyRedeem me voucher => do
    residencyRedeem till me voucher
    return .done
  | .grantUin body => do return .owned (← grantUin body)
  | .claim me body shopEnabled => do return .purchase (← claim me body shopEnabled)
  | .redeem me body shopEnabled resaleEnabled => do
    return .purchase (← redeem till me body shopEnabled resaleEnabled)
  | .activate me uin => do return .purchase (← activate me uin)
  | .migrate me cooldown draw => do return .number (← migrate cfg me cooldown draw)
  | .createListing me body listingId shopEnabled resaleEnabled => do
    createListing me body listingId shopEnabled resaleEnabled
    return .done
  | .deleteListing me uin => do
    deleteListing me uin
    return .done
  | .release me uin => do return .owned (← release me uin)
  | .burn me => do
    burn me
    return .done
  | .tillHold request shopEnabled => do return .held (← tillHold till request shopEnabled)
  | .payoutTarget request sale env => do
    return .payout (← payoutTarget till request sale env)
  | .tick seconds => do
    .effect .clock fun _ e => { e with now := e.now + seconds }
    return .done

abbrev State := Shared Db Ext

abbrev World := ReadCommitted.World Db Ext Write Label HttpError Request Answer

end RcqServer.Numbers
