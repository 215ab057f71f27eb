import RcqServer.SortedSet
import Mathlib.Data.Rat.Floor

/-!
# The rate limiter

`core/rate_limit.py`.  A key of Redis holds the timestamps of the requests that were accepted, as
scores and as members of a sorted set, and a script removes those that have left the window, counts
the rest and adds the new one if there is room.  The timestamps come from the workers; the expiry of
the key goes by the clock of Redis.
-/

namespace RcqServer.RateLimit

/-- A time in seconds. -/
abbrev Instant := ℚ

/-- The timestamps under the key of a rule and an identity. -/
structure Bucket where
  hits : SortedSet Instant Instant
  expires : Instant

/-- One evaluation of the script. -/
structure Eval where
  /-- `time.time()` of the worker. -/
  now : Instant
  /-- The time of Redis when the script runs. -/
  clock : Instant

/-- What the script returns. -/
structure Verdict where
  accepted : Bool
  retryAfter : ℤ
deriving DecidableEq

/-- The key, unless it has expired. -/
def live (clock : Instant) (key : Option Bucket) : Option Bucket := key.filter (clock < ·.expires)

/-- The timestamps that are left after `ZREMRANGEBYSCORE`. -/
def swept (window : ℕ) (e : Eval) (key : Option Bucket) : SortedSet Instant Instant :=
  (((live e.clock key).map Bucket.hits).getD .empty).removeUpTo (e.now - window)

/-- When there is room again, at the earliest. -/
def retryAfter (window : ℕ) (e : Eval) (hits : SortedSet Instant Instant) : ℤ :=
  match hits.lowest with
  | some oldest => max 1 (⌊oldest + window - e.now⌋ + 1)
  | none => 1

/-- `_LIMITER_SCRIPT`. -/
def script (limit window : ℕ) (e : Eval) (key : Option Bucket) : Verdict × Option Bucket :=
  let hits := swept window e key
  if limit ≤ hits.card then
    (⟨false, retryAfter window e hits⟩, (live e.clock key).map fun b => { b with hits := hits })
  else
    (⟨true, 0⟩, some ⟨hits.add e.now e.now, e.clock + (window + 5)⟩)

/-- The key after some evaluations, and those that were accepted; the newest come first. -/
def history (limit window : ℕ) : List Eval → Option Bucket × List Eval
  | [] => (none, [])
  | e :: before =>
    let (key, accepted) := history limit window before
    let (verdict, key') := script limit window e key
    (key', if verdict.accepted then e :: accepted else accepted)

end RcqServer.RateLimit
