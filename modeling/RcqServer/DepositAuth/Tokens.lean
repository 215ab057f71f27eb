import RcqServer.Base64
import RcqServer.Basic
import RcqServer.Expiring
import RcqServer.ReadCommitted.Outside

/-!
# Deposit tokens

Anonymous tokens, one for each sealed deposit (`core/deposit_auth_store.py`).  The island signs a
blinded value against a proof of work; the sender unblinds the signature and spends it with a
deposit, and the island then knows that it has signed the token and not for whom.  What is spent
leaves a mark in Redis.

The cryptography is a parameter.  `Ext.accepted` is not part of the service; it records the tokens
that were accepted, and when.
-/

namespace RcqServer.DepositAuth

open ReadCommitted

abbrev Bytes := List ℕ

/-- `core/deposit_auth.py`. -/
structure Crypto (Key : Type) where
  epochId : Key → String
  /-- RSA-PSS over the prepared message. -/
  verify : Key → Bytes → Bytes → Bool
  /-- `None` where the blinded value is out of range. -/
  blindSign : Key → Bytes → Option Bytes
  verifyPow : String → String → ℕ → Bool
  /-- `hexdigest`. -/
  sha256 : Bytes → String

variable {Key : Type}

/-- `token_id`. -/
def Crypto.tokenId (crypto : Crypto Key) (prepared sig : Bytes) : String :=
  crypto.sha256 (prepared ++ sig)

/-- `SPENT_TTL`. -/
def spentTtl : Time := days 14

/-- A token under the key that has signed it. -/
structure Token (Key : Type) where
  key : Key
  prepared : Bytes
  sig : Bytes
deriving DecidableEq

/-- A token that was accepted. -/
structure Acceptance (Key : Type) where
  token : Token Key
  time : Time

structure Ext (Key : Type) where
  /-- `depauth:issuer:privkey:v1`. -/
  issuer : Option Key
  /-- `depauth:spent:<epoch>:<token id>`. -/
  spent : String × String → Option (Expiring.Entry Unit)
  now : Time
  accepted : List (Acceptance Key)

inductive Label (Key : Type)
  | getIssuer
  | setIssuer
  | spend (token : Token Key)
  | rotate
  | tick

/-- What no handler of its own answers. -/
inductive Failure
  | internalError

abbrev Handler (Key : Type) := Prog Unit (Ext Key) Empty (Label Key) Failure

/-- `issuer_key`; `generated` is the key that it generates if there is none. -/
def issuerKey (generated : Key) : Handler Key Key := do
  let pem ← .read .getIssuer fun _ e => e.issuer
  match pem with
  | some key => return key
  | none =>
    let won ← .stmt .setIssuer (fun _ _ => [])
      (fun _ e => { e with issuer := some (e.issuer.getD generated) })
      fun _ e => .ret e.issuer.isNone
    if won then
      return generated
    else
      let pem ← .read .getIssuer fun _ e => e.issuer
      match pem with
      | some key => return key
      | none => .raise .internalError

/-- `current_params`, of which the epoch. -/
def currentParams (crypto : Crypto Key) (generated : Key) : Handler Key String := do
  let key ← issuerKey generated
  return crypto.epochId key

/-- `sign_blinded`. -/
def signBlinded (crypto : Crypto Key) (generated : Key) (epochId : String) (blinded : List Char)
    (powNonce : String) (powBits : ℕ) : Handler Key (Except String Bytes) := do
  let key ← issuerKey generated
  if epochId ≠ crypto.epochId key then
    return .error "stale_epoch"
  else
    match Base64.decodeLoose blinded with
    | none => return .error "bad_base64"
    | some bytes =>
      if crypto.verifyPow (epochId ++ ":" ++ String.ofList blinded) powNonce powBits = false then
        return .error "low_pow"
      else
        match crypto.blindSign key bytes with
        | none => return .error "malformed"
        | some signed => return .ok signed

/-- The `deposit_token` of a deposit.  A field is absent where it is missing or not a text. -/
structure TokenIn where
  epochId : Option String
  prepared : Option (List Char)
  sig : Option (List Char)

/-- The mark that a token leaves. -/
def Crypto.mark (crypto : Crypto Key) (token : Token Key) : String × String :=
  (crypto.epochId token.key, crypto.tokenId token.prepared token.sig)

/-- Nothing marks the token as spent. -/
def Ext.unspent (crypto : Crypto Key) (e : Ext Key) (token : Token Key) : Bool :=
  (Expiring.read e.now (e.spent (crypto.mark token))).isNone

/-- `SET … NX EX`. -/
def Ext.spend (crypto : Crypto Key) (e : Ext Key) (token : Token Key) : Ext Key :=
  if e.unspent crypto token then
    { e with
      spent := Function.update e.spent (crypto.mark token) (some ⟨(), some (e.now + spentTtl)⟩)
      accepted := ⟨token, e.now⟩ :: e.accepted }
  else e

/-- `verify_and_consume_token`. -/
def verifyAndConsumeToken (crypto : Crypto Key) (generated : Key) (token : TokenIn) :
    Handler Key Bool :=
  match token.epochId, token.prepared.bind Base64.decodeLoose,
      token.sig.bind Base64.decodeLoose with
  | some epoch, some prepared, some sig => do
    let key ← issuerKey generated
    if epoch ≠ crypto.epochId key then
      return false
    else if crypto.verify key prepared sig = false then
      return false
    else
      .stmt (.spend ⟨key, prepared, sig⟩) (fun _ _ => [])
        (fun _ e => e.spend crypto ⟨key, prepared, sig⟩)
        fun _ e => .ret (e.unspent crypto ⟨key, prepared, sig⟩)
  | _, _, _ => return false

/-! ## The system -/

/-- A request, with the key that it generates if it has to. -/
inductive Request (Key : Type)
  | params (generated : Key)
  | issue (generated : Key) (epochId : String) (blinded : List Char) (powNonce : String)
      (powBits : ℕ)
  | deposit (generated : Key) (token : TokenIn)
  /-- `DEL` of the issuer's key. -/
  | rotate
  | tick (seconds : ℕ)

inductive Answer
  | epoch (id : String)
  | signed (out : Except String Bytes)
  | accepted (yes : Bool)
  | done

def handler (crypto : Crypto Key) : Request Key → Handler Key Answer
  | .params generated => do return .epoch (← currentParams crypto generated)
  | .issue generated epochId blinded powNonce powBits => do
    return .signed (← signBlinded crypto generated epochId blinded powNonce powBits)
  | .deposit generated token => do
    return .accepted (← verifyAndConsumeToken crypto generated token)
  | .rotate => do
    .effect .rotate fun _ e => { e with issuer := none }
    return .done
  | .tick seconds => do
    .effect .tick fun _ e => { e with now := e.now + seconds }
    return .done

abbrev World (Key : Type) :=
  ReadCommitted.World Unit (Ext Key) Empty (Label Key) Failure (Request Key) Answer

end RcqServer.DepositAuth
