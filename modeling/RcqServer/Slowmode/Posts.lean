import RcqServer.Basic
import RcqServer.Expiring
import RcqServer.RateLimit.Limiter
import RcqServer.ReadCommitted.Outside

/-!
# Slowmode

`_enforce_group_slowmode` of `routers/messages.py`.  A member who is not a moderator buys a slot for
every post, one in a window.  A post that goes out on two paths buys one slot, and the half that has
bought it arms a pass for the other.  The items of an album share a token: the first one buys a slot
and the others ride the token.

Three things are not part of the service and record what happens: `Ext.firsts`, what became of the
first item of the token in its present life, `Ext.rides`, the posts that rode a token, and
`Ext.bought` and `Ext.freed`, the slots that were bought and the passes that were taken.  A pass, which
is a `1` in Redis, is here the number of the purchase that has armed it.
-/

namespace RcqServer.Slowmode

open ReadCommitted RateLimit Function

/-- `_SLOWMODE_PAIR_GRACE_SEC`. -/
def pairGrace : Time := 30

/-- `_SLOWMODE_BATCH_GRACE_SEC`. -/
def batchGrace : Time := 300

/-- The endpoint that a post comes in on. -/
inductive Path
  | sealed | broadcast
deriving DecidableEq

def Path.other : Path → Path
  | .sealed => .broadcast
  | .broadcast => .sealed

/-- `_slowmode_identity`: a group and a member. -/
abbrev Slot := ℕ × Uin

/-- The key of an album's token. -/
abbrev BatchKey := Slot × String

/-- What became of the first item of a token. -/
inductive First
  | undecided | paid
deriving DecidableEq

/-- A post that rode a token, and what had become of the token's first item by then. -/
structure Ride where
  token : BatchKey
  first : Option First

/-- A slot that was bought. -/
structure Purchase where
  number : ℕ
  path : Path
  slot : Slot

/-- A pass that was taken, and the purchase that had armed it. -/
structure Free where
  path : Path
  slot : Slot
  number : ℕ

structure Ext where
  /-- The time of Redis. -/
  clock : Time
  /-- `rl:group_slowmode:…`. -/
  buckets : Slot → Option Bucket
  /-- `gslowbatch:…`. -/
  batches : BatchKey → Option (Expiring.Entry ℕ)
  /-- `gslowfree:…`. -/
  passes : Path × Slot → Option (Expiring.Entry ℕ)
  firsts : BatchKey → Option First
  rides : List Ride
  bought : List Purchase
  freed : List Free

inductive Label
  | incr (token : BatchKey) (batchSize : ℕ)
  | expire (token : BatchKey)
  | buy (path : Path) (slot : Slot) (token : Option BatchKey)
  | drop (token : BatchKey)
  | arm (path : Path) (slot : Slot) (number : ℕ)
  | takePass (path : Path) (slot : Slot)
  | tick

/-- `HTTPException`, with its `retry_after`. -/
structure Refusal where
  error : HttpError
  retryAfter : ℤ

abbrev Handler := Prog Unit Ext Empty Label Refusal

/-! ## Commands -/

/-- `INCR` of a token. -/
def Ext.counter (e : Ext) (token : BatchKey) : ℕ :=
  (Expiring.read e.clock (e.batches token)).getD 0 + 1

def Ext.incr (e : Ext) (token : BatchKey) (batchSize : ℕ) : Ext :=
  { e with
    batches := update e.batches token
      (Expiring.alter e.clock (fun n => some (n.getD 0 + 1)) (e.batches token))
    firsts := if e.counter token = 1 then update e.firsts token (some .undecided)
      else e.firsts
    rides := if 2 ≤ e.counter token ∧ e.counter token ≤ 2 * batchSize then
      ⟨token, e.firsts token⟩ :: e.rides else e.rides }

def incr (token : BatchKey) (batchSize : ℕ) : Handler ℕ :=
  .stmt (.incr token batchSize) (fun _ _ => []) (fun _ e => e.incr token batchSize)
    fun _ e => .ret (e.counter token)

def expire (token : BatchKey) : Handler Unit :=
  .effect (.expire token) fun _ e =>
    { e with
      batches := update e.batches token
        (Expiring.expire e.clock batchGrace (e.batches token)) }

/-- `DEL` of a token. -/
def drop (token : BatchKey) : Handler Unit :=
  .effect (.drop token) fun _ e =>
    { e with
      batches := update e.batches token none
      firsts := update e.firsts token none }

/-- The verdict of the limiter on a post. -/
def Ext.verdict (e : Ext) (slot : Slot) (window : ℕ) (now : Instant) : Verdict :=
  (script 1 window ⟨now, e.clock⟩ (e.buckets slot)).1

/-- The limiter's script, and the purchase if it accepts the post. -/
def Ext.buy (e : Ext) (path : Path) (slot : Slot) (window : ℕ) (now : Instant)
    (token : Option BatchKey) : Ext :=
  let e' := { e with
    buckets := update e.buckets slot
      (script 1 window ⟨now, e.clock⟩ (e.buckets slot)).2 }
  if (e.verdict slot window now).accepted then
    { e' with
      bought := ⟨e.bought.length, path, slot⟩ :: e.bought
      firsts := token.elim e.firsts fun token => update e.firsts token (some .paid) }
  else e'

/-- `enforce_rate_limit`: the verdict, and the number of the purchase. -/
def buy (path : Path) (slot : Slot) (window : ℕ) (now : Instant) (token : Option BatchKey) :
    Handler (Verdict × ℕ) :=
  .stmt (.buy path slot token) (fun _ _ => []) (fun _ e => e.buy path slot window now token)
    fun _ e => .ret (e.verdict slot window now, e.bought.length)

/-- `SET` of the pass. -/
def arm (path : Path) (slot : Slot) (number : ℕ) : Handler Unit :=
  .effect (.arm path slot number) fun _ e =>
    { e with
      passes := update e.passes (path, slot) (some ⟨number, some (e.clock + pairGrace)⟩) }

def Ext.takePass (e : Ext) (path : Path) (slot : Slot) : Ext :=
  match Expiring.read e.clock (e.passes (path, slot)) with
  | some number =>
    { e with
      passes := update e.passes (path, slot) none
      freed := ⟨path, slot, number⟩ :: e.freed }
  | none => e

/-- `GETDEL` of the pass. -/
def takePass (path : Path) (slot : Slot) : Handler Bool :=
  .stmt (.takePass path slot) (fun _ _ => []) (fun _ e => e.takePass path slot)
    fun _ e => .ret (Expiring.read e.clock (e.passes (path, slot))).isSome

/-! ## `_enforce_group_slowmode` -/

structure Group where
  id : ℕ
  ownerUin : Uin
  slowmodeSec : Option ℕ

/-- A post, with what the handler has read about the group and about the caller's membership. -/
structure Post where
  group : Option Group
  caller : Option Uin
  envelopeType : String
  /-- The role and the permissions of the caller in the group. -/
  membership : Option (String × Option (List Char))
  path : Path
  batch : Option String
  batchSize : ℕ
  /-- `time.time()` of the worker. -/
  now : Instant

/-- The slot that the post has to buy, and the window, unless it is exempt. -/
def Post.charge (post : Post) : Option (Slot × ℕ) :=
  match post.group, post.caller, post.membership with
  | some g, some caller, some (role, permissions) =>
    if post.envelopeType ≠ "message" ∨ g.slowmodeSec.getD 0 = 0 ∨ caller = g.ownerUin then none
    else if role = "admin" ∨ strip (permissions.getD []) ≠ [] then none
    else some ((g.id, caller), g.slowmodeSec.getD 0)
  | _, _, _ => none

/-- The token of the post, if it is an item of an album. -/
def Post.token (post : Post) (slot : Slot) : Option BatchKey :=
  (post.batch.filter fun batch => batch ≠ "" ∧ 1 < post.batchSize).map fun batch => (slot, batch)

/-- The 429 of `enforce_rate_limit`. -/
def rateLimited (v : Verdict) : Refusal := ⟨⟨429, "rate_limited"⟩, v.retryAfter⟩

/-- A post that no token carries. -/
def enforceAlone (post : Post) (slot : Slot) (window : ℕ) : Handler Unit := do
  let free ← takePass post.path slot
  if free then
    return ()
  else
    let (v, number) ← buy post.path slot window post.now none
    if v.accepted then
      arm post.path.other slot number
    else
      .raise (rateLimited v)

/-- The first item of an album. -/
def enforceFirst (post : Post) (slot : Slot) (window : ℕ) (token : BatchKey) : Handler Unit := do
  expire token
  let (v, number) ← buy post.path slot window post.now (some token)
  if v.accepted then
    arm post.path.other slot number
  else
    drop token
    .raise (rateLimited v)

/-- `_enforce_group_slowmode`. -/
def enforceGroupSlowmode (post : Post) : Handler Unit :=
  match post.charge with
  | none => return ()
  | some (slot, window) =>
    match post.token slot with
    | none => enforceAlone post slot window
    | some token => do
      let n ← incr token post.batchSize
      if n = 1 then
        enforceFirst post slot window token
      else if n ≤ 2 * post.batchSize then
        return ()
      else
        enforceAlone post slot window

/-! ## The system -/

inductive Request
  | post (post : Post)
  | tick (seconds : ℕ)

def handler : Request → Handler Unit
  | .post post => enforceGroupSlowmode post
  | .tick seconds => .effect .tick fun _ e => { e with clock := e.clock + seconds }

abbrev World := ReadCommitted.World Unit Ext Empty Label Refusal Request Unit

/-- Redis without a token and without a pass. -/
def Ext.initial (clock : Time) (buckets : Slot → Option Bucket) : Ext :=
  ⟨clock, buckets, fun _ => none, fun _ => none, fun _ => none, [], [], []⟩

end RcqServer.Slowmode
