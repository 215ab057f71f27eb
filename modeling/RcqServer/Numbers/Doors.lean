import RcqServer.Numbers.Schema
import Mathlib.Data.List.Sort

/-!
# The doors

How an account comes in (`/auth/register`, `/auth/guest/settle`, `/residency/redeem`), and the
question that every door asks about a number, `uin_is_taken`.

The till's signatures are checked by functions that are given (`Till`); what each of them answers
is all that the handlers use.
-/

namespace RcqServer.Numbers

open ReadCommitted

structure Config where
  uinMin : ℕ
  uinMax : ℕ

/-- `services/uin_voucher`: the nonce of a voucher that the till has signed, or the code of the
refusal, at a given time. -/
structure Till where
  verify : Time → String → Uin → Except String Nonce
  /-- Also the listing and the price that were paid for. -/
  verifyResale : Time → String → Uin → Except String (Nonce × String × ℕ)
  verifyEntry : Time → String → Except String Nonce
  /-- Whether a hold is to be placed, on which number, and the id of the hold. -/
  verifyHold : Time → String → Except String (Bool × Uin × String)
  verifyPayout : Time → String → Except String Uin

/-! ## Is a number spoken for? -/

/-- A live invite other than `exceptInvite` promises the number. -/
def Db.promised (db : Db) (uin : Uin) (exceptInvite : Option InviteCode) (now : Time) : Bool :=
  !(db.invites.select fun code i =>
    i.uin == some uin && i.live now && exceptInvite.all (· != code)).isEmpty

/-- A live hold on the number, unless holds are to be ignored. -/
def liveHold (door : Door) (uin : Uin) (ignoreHolds : Bool) : Handler Bool :=
  if ignoreHolds then
    return false
  else
    .read (.check door uin .hold) fun db e =>
      (db.uinHolds.get uin).any fun hold => e.now < hold.expiresAt

/-- `uin_is_taken`. -/
def uinIsTaken (door : Door) (uin : Uin) (exceptInvite : Option InviteCode) (ignoreHolds : Bool) :
    Handler Bool := do
  let used ← .read (.check door uin .user) fun db _ => (db.users.get uin).isSome
  if used then
    return true
  else
    let owned ← .read (.check door uin .deed) fun db _ => (db.ownedUins.get uin).isSome
    if owned then
      return true
    else
      let held ← liveHold door uin ignoreHolds
      if held then
        return true
      else
        .read (.check door uin .invite) fun db e => db.promised uin exceptInvite e.now

/-- The tries of `allocate_uin` that are left; `draw` are the random numbers. -/
def allocateFrom (cfg : Config) (draw : ℕ → ℕ) : ℕ → Handler Uin
  | 0 => .raise internalError
  | tries + 1 => do
    let candidate := draw tries % (cfg.uinMax - cfg.uinMin) + cfg.uinMin
    if isReservedUin candidate then
      allocateFrom cfg draw tries
    else
      let taken ← uinIsTaken .users candidate none false
      if taken then allocateFrom cfg draw tries else return candidate

/-- `allocate_uin`. -/
def allocateUin (cfg : Config) (draw : ℕ → ℕ) : Handler Uin :=
  allocateFrom cfg draw 100

/-! ## Vouchers and invites -/

/-- One row in `spent_vouchers`, whose key is what makes a second redemption impossible. -/
def spendVoucher (l : Label) (nonce : Nonce) : Handler Unit :=
  insert l (·.spentVouchers.get nonce) (.spent nonce) id ⟨409, "voucher_spent"⟩

/-- The entry voucher in the invite field of `register` and `guest_settle`, if it is one. -/
def redeemEntry (till : Till) (code : String) : Handler (Option Nonce) :=
  if code = "" then
    pure none
  else do
    let now ← clock .clock
    match till.verifyEntry now code with
    | .ok nonce => do
      spendVoucher .spend nonce
      return some nonce
    | .error e =>
      if e = "voucher_other_island" ∨ e = "voucher_expired" then .raise ⟨403, e⟩ else pure none

/-- An invite that `_invite_gates` lets through, and that has a number if one is asked for. -/
def Db.usableInvite (db : Db) (code : InviteCode) (needsUin : Bool) (now : Time) : Option Invite :=
  (db.invites.get code).filter fun i => i.live now && (!needsUin || i.uin.isSome)

/-- Spend one use of an invite, in one conditional `UPDATE`. -/
def consumeInvite (code : InviteCode) (needsUin : Bool) : Handler Bool :=
  .write .useInvite
    (fun db e => ((db.usableInvite code needsUin e.now).map fun i => .invite code (some
      { i with
        usedCount := i.usedCount + 1
        spentAt := if i.maxUses ≤ i.usedCount + 1 then some e.now else i.spentAt })).toList)
    fun db e => (db.usableInvite code needsUin e.now).isSome

/-- The number that an invite promises. -/
def inviteUin (code : InviteCode) : Handler (Option Uin) :=
  .read .getInvite fun db _ => (db.invites.get code).bind Invite.uin

inductive Policy
  | openIsland
  | invite
  | paid
deriving DecidableEq

/-- The refusal of somebody who shows nothing at a closed door. -/
def Policy.refusal : Policy → HttpError
  | .invite => ⟨403, "invite_required"⟩
  | _ => ⟨403, "entry_required"⟩

/-! ## Registration -/

structure RegisterIn where
  identityKey : KeyText
  signingKey : KeyText
  /-- The invite field, stripped; empty if there is none. -/
  invite : String
  desiredUin : Option Uin

/-- What became of the challenge and the signature, if the request has them. -/
inductive KeyProof
  | absent
  | invalidChallenge
  | badSignature
  | valid
deriving DecidableEq

/-- What the handler learns from outside its transaction. -/
structure RegisterEnv where
  proof : KeyProof
  /-- `registration_policy`; `none` if the settings cannot be read. -/
  policy : Option Policy
  /-- `reserved_tenure.holds_elsewhere`. -/
  tenure : Bool
  /-- `device_is_revoked`. -/
  deviceRevoked : Bool
  draw : ℕ → ℕ

/-- A reserved number is granted on request only to whoever holds it on a trusted island, which is
not even asked if the door is going to refuse. -/
def tenureProven (cfg : Config) (body : RegisterIn) (env : RegisterEnv) (policy : Policy) : Bool :=
  env.proof == .valid &&
    body.desiredUin.any (fun n => 0 < n && n ≤ cfg.uinMax && isReservedUin n) &&
    !(policy != .openIsland && body.invite == "") && env.tenure

/-- A key that is not one is refused. -/
def checkKey (text : KeyText) (field : String) : Handler Unit :=
  match pubkey32 text field with
  | .ok _ => return ()
  | .error e => .raise e

/-- An unproven key that an account already carries is refused. -/
def refuseTakenKey (proven : Bool) (key : KeyText) : Handler Unit :=
  if proven then
    pure ()
  else do
    let taken ← .read .getKey fun db _ => !(db.users.select fun _ u => u.signingKey == key).isEmpty
    .raiseIf (taken = true) ⟨403, "key_proof_required"⟩

/-- The invite gate: the number that a consumed invite promises. -/
def passGate (policy : Policy) (code : InviteCode) (resident : Bool) : Handler (Option Uin) :=
  if policy ≠ .openIsland ∧ resident = false then
    if code = "" then
      .raise policy.refusal
    else do
      let consumed ← consumeInvite code false
      if consumed then inviteUin code else .raise ⟨403, "invite_invalid"⟩
  else if code = "" then
    pure none
  else do
    let consumed ← consumeInvite code true
    if consumed then inviteUin code else pure none

/-- First claim first: `first_claim_order`. -/
def claimedBefore (a b : Uin × UserRow) : Prop :=
  let at' := fun r : Uin × UserRow => r.2.identityCreatedAt.getD r.2.createdAt
  at' a < at' b ∨ at' a = at' b ∧ a.1 ≤ b.1

instance : DecidableRel claimedBefore := fun a b => by
  unfold claimedBefore
  infer_instance

/-- `guest_accounts.row_for_key` with `guests_only`, over both canonical texts of the key. -/
def Db.guestForKey (db : Db) (raw : List ℕ) : Option Uin :=
  let guests := db.users.select fun _ u =>
    decide (u.signingKey ∈ keySpellings raw) && u.guestStatus.isSome
  (guests.insertionSort claimedBefore).head?.map Prod.fst

/-- The guest row that a proven registration becomes, if its key has one. -/
def guestToConvert (proof : KeyProof) (key : KeyText) : Handler (Option Uin) :=
  if proof = .valid then
    .read .getGuest fun db _ => (decodeKey32 key).bind db.guestForKey
  else
    return none

/-- The effect of a commit that turns a voucher, if there is one, into entry. -/
def Ext.grantEntry (e : Ext) : Option Nonce → Ext
  | some nonce => e.grant nonce .entry
  | none => e

/-- `_convert_guest_on_register`. -/
def convertGuest (uin : Uin) (identityKey : KeyText) (voucher : Option Nonce) (reserved : Option Uin)
    (deviceRevoked : Bool) : Handler Uin := do
  .raiseIf reserved.isSome ⟨409, "invite_has_number"⟩
  .raiseIf deviceRevoked ⟨401, "device_revoked"⟩
  updateUser uin fun now row =>
    { row with
      guestStatus := none
      identityKey := identityKey
      residentSince := if voucher.isSome then some now else row.residentSince }
  .commit .commit (·.grantEntry voucher) (.ret uin)

/-- The number that a consumed invite promises, unless it is gone. -/
def promisedUin (code : InviteCode) (reserved : Option Uin) : Handler (Option Uin) :=
  match reserved with
  | some n => do
    let taken ← uinIsTaken .users n (some code) false
    return if taken then none else some n
  | none => return none

/-- The desired number, if it may be had. -/
def desiredUin (cfg : Config) (body : RegisterIn) (env : RegisterEnv) (tenure : Bool) :
    Handler (Option Uin) :=
  match body.desiredUin with
  | some n =>
    if env.proof = .valid ∧ 0 < n ∧ n ≤ cfg.uinMax then do
      let taken ← uinIsTaken .users n none false
      return if !taken && (!isReservedUin n || tenure) then some n else none
    else return none
  | none => return none

/-- The number of a new account: the one its invite promises, or the desired one, or any. -/
def chooseUin (cfg : Config) (body : RegisterIn) (env : RegisterEnv) (reserved : Option Uin)
    (tenure : Bool) : Handler Uin := do
  let promised ← promisedUin body.invite reserved
  match promised with
  | some n => return n
  | none =>
    let desired ← desiredUin cfg body env tenure
    match desired with
    | some n => return n
    | none => allocateUin cfg env.draw

/-- `POST /auth/register`, up to the commit of the account. -/
def register (cfg : Config) (till : Till) (body : RegisterIn) (env : RegisterEnv) :
    Handler Uin := do
  checkKey body.identityKey "identity_key"
  checkKey body.signingKey "signing_key"
  .raiseIf (env.proof = .invalidChallenge) ⟨400, "invalid_challenge"⟩
  .raiseIf (env.proof = .badSignature) ⟨401, "bad_signature"⟩
  match env.policy with
  | none => .raise ⟨503, "island_busy"⟩
  | some policy =>
    refuseTakenKey (env.proof == .valid) body.signingKey
    let voucher ← redeemEntry till body.invite
    let reserved ← passGate policy (if voucher.isSome then "" else body.invite) voucher.isSome
    let guest ← guestToConvert env.proof body.signingKey
    match guest with
    | some uin => convertGuest uin body.identityKey voucher reserved env.deviceRevoked
    | none =>
      let uin ← chooseUin cfg body env reserved (tenureProven cfg body env policy)
      insert (.take .users uin .insertUser) (·.users.get uin) (.user uin)
        (fun now => ⟨body.identityKey, body.signingKey, false, none,
          if voucher.isSome then some now else none, now, some now⟩)
        internalError
      .commit (.take .users uin .commit) (fun e => (e.grantEntry voucher).hand uin .users)
        (.ret uin)

/-! ## The operator's grant -/

structure GrantUinIn where
  uin : Uin
  toUin : Uin

/-- `POST /admin/uin/grant`.  It does not ask about holds, and refuses with a code for each
table. -/
def grantUin (body : GrantUinIn) : Handler (List Uin) := do
  let used ← .read (.check .deeds body.uin .user) fun db _ => (db.users.get body.uin).isSome
  .raiseIf (used = true) ⟨409, "in_use"⟩
  let held ← .read (.check .deeds body.uin .deed) fun db _ => (db.ownedUins.get body.uin).isSome
  .raiseIf (held = true) ⟨409, "already_held"⟩
  let reserved ← .read (.check .deeds body.uin .invite) fun db e =>
    db.promised body.uin none e.now
  .raiseIf (reserved = true) ⟨409, "uin_reserved"⟩
  let known ← .read (.take .deeds body.uin .getUser) fun db _ => (db.users.get body.toUin).isSome
  .raiseIf (known = false) ⟨404, "no_such_user"⟩
  insert (.take .deeds body.uin .insertDeed) (·.ownedUins.get body.uin) (.deed body.uin)
    (fun now => ⟨body.toUin, .granted, now⟩) internalError
  .commit (.take .deeds body.uin .commit) (·.hand body.uin .deeds) (.ret ())
  .read .ownedUins fun db _ =>
    ((db.ownedUins.select fun _ d => d.ownerUin == body.toUin).map Prod.fst).insertionSort (· ≤ ·)

/-! ## Settling and residency -/

/-- What a guest without a voucher settles with: an invite, or an open island. -/
def settleGate (code : InviteCode) (policy : Option Policy) : Handler Unit :=
  if code ≠ "" then do
    let number ← inviteUin code
    .raiseIf number.isSome ⟨409, "invite_has_number"⟩
    let consumed ← consumeInvite code false
    .raiseIf (consumed = false) ⟨403, "invite_invalid"⟩
  else
    match policy with
    | none => .raise ⟨503, "guest_unavailable"⟩
    | some policy => .raiseIf (policy ≠ .openIsland) policy.refusal

/-- `POST /auth/guest/settle`. -/
def guestSettle (till : Till) (me : Uin) (code : String) (policy : Option Policy) :
    Handler Unit := do
  let user ← .read .getUser fun db _ => db.users.get me
  match user with
  | none => .raise ⟨404, "user_not_found"⟩
  | some row =>
    .raiseIf (row.guestStatus = none) ⟨409, "not_a_guest"⟩
    let voucher ← redeemEntry till code
    .onlyIf (voucher = none) (settleGate code policy)
    updateUser me fun now row =>
      { row with
        guestStatus := none
        residentSince := if voucher.isSome then some now else row.residentSince }
    .commit .commit (·.grantEntry voucher) (.ret ())

/-- The refusal of a voucher. -/
def voucherRefusal (code : String) : HttpError :=
  ⟨if code = "sales_disabled" then 404 else 403, code⟩

/-- `POST /residency/redeem`. -/
def residencyRedeem (till : Till) (me : Uin) (voucher : String) : Handler Unit := do
  let user ← .read .getUser fun db _ => db.users.get me
  match user with
  | none => .raise ⟨404, "user not found"⟩
  | some row =>
    .raiseIf row.isSuspended ⟨403, "suspended"⟩
    .raiseIf row.residentSince.isSome ⟨409, "already_resident"⟩
    let now ← clock .clock
    match till.verifyEntry now voucher with
    | .error e => .raise (voucherRefusal e)
    | .ok nonce =>
      spendVoucher .spend nonce
      updateUser me fun now row => { row with guestStatus := none, residentSince := some now }
      .commit .commit (·.grant nonce .entry) (.ret ())

end RcqServer.Numbers
