import RcqServer.Numbers.InOrder

/-!
# Holding a number while somebody pays

A hold that has run out holds nothing: `uin_is_taken` passes it by.  Its row stays in the table
though, one row for each number, and `/uin/hold` inserts.  So the number cannot be held for the next
payer until somebody takes the row away.  For a number on sale `uin_is_taken` is not asked, and the
row of a hold that is still good ends the request in the same way, with no word of a conflict.
-/

namespace RcqServer.Numbers

open ReadCommitted Prog

variable {till : Till} {request : String} {s : State} {uin : Uin} {holdId : String}

/-- Somebody has a hold on the number and has not run out of time. -/
def Db.liveHold (db : Db) (uin : Uin) (now : Time) : Bool :=
  (db.uinHolds.get uin).any fun hold => now < hold.expiresAt

/-- What `uin_is_taken` answers. -/
def Db.taken (db : Db) (uin : Uin) (now : Time) : Bool :=
  (db.users.get uin).isSome || (db.ownedUins.get uin).isSome || db.liveHold uin now ||
    db.promised uin none now

theorem run_uinIsTaken (door : Door) (uin : Uin) (ws : List Write) (s : State) :
    (uinIsTaken door uin none false).run ws s = (.ok ((s.view ws).taken uin s.ext.now, ws), s) := by
  have hlive : liveHold door uin false = read (.check door uin .hold)
      fun db e => db.liveHold uin e.now := rfl
  simp only [uinIsTaken, hlive, bind_eq, pure_eq, run_read_bind, Db.taken]
  cases hused : ((s.view ws).users.get uin).isSome with
  | true => simp [run]
  | false =>
    cases howned : ((s.view ws).ownedUins.get uin).isSome with
    | true => simp [run_read_bind, howned, run]
    | false =>
      cases hheld : (s.view ws).liveHold uin s.ext.now with
      | true => simp [run_read_bind, howned, hheld, run]
      | false => simp [run_read_bind, howned, hheld, run_read]

/-- The part of `/uin/hold` that places a hold, from what it has read. -/
private def placeHold (uin : Uin) (holdId : String) (existing : Option Hold) : Handler Bool := do
  if existing.any (·.holdId == holdId) then
    extendHold uin
    return true
  else
    let listed ← .read .getListing fun db _ => (db.uinListings.get uin).isSome
    .onlyIf (listed = false) do
      let taken ← uinIsTaken .hold uin none false
      .raiseIf (taken = true) ⟨409, "taken"⟩
    insert (.insertHold uin) (·.uinHolds.get uin) (.hold uin)
      (fun now => ⟨holdId, now + holdSeconds⟩) internalError
    .commitOnly (.commitHold uin)
    return true

private theorem run_tillHold
    (hverify : till.verifyHold s.ext.now request = .ok (true, uin, holdId)) :
    (tillHold till request true).run [] s =
      if length uin < minLen ∨ maxLen < length uin then (.error ⟨400, "invalid_length"⟩, s)
      else (placeHold uin holdId (s.db.uinHolds.get uin)).run [] s := by
  refine run_raiseIf_bind.trans ?_
  rw [if_neg Bool.true_eq_false_eq_False]
  refine run_read_bind.trans ?_
  rw [hverify]
  exact run_read_bind.trans run_raiseIf_bind

/-- The question whether the number is free is only asked if it is not on sale. -/
private theorem run_refuseTaken (uin : Uin) (listed : Bool) (s : State) :
    (onlyIf (listed = false) do
      let taken ← uinIsTaken .hold uin none false
      (raiseIf (taken = true) ⟨409, "taken"⟩ : Handler Unit)).run [] s =
      if listed = false ∧ s.db.taken uin s.ext.now = true then (.error ⟨409, "taken"⟩, s)
      else (.ok ((), []), s) := by
  unfold onlyIf
  cases listed with
  | true => simp [run]
  | false =>
    simp only [if_true, bind_eq, run_bind, run_uinIsTaken, Shared.view_nil, true_and]
    cases s.db.taken uin s.ext.now with
    | true => rfl
    | false => rfl

private theorem run_placeHold (uin : Uin) (holdId : String) (s : State) :
    (placeHold uin holdId (s.db.uinHolds.get uin)).run [] s =
      if (s.db.uinHolds.get uin).any (·.holdId == holdId) then
        (.ok (true, []), s.commit [Write.hold uin (some ⟨holdId, s.ext.now + holdSeconds⟩)] s.ext)
      else if (s.db.uinListings.get uin).isSome = false ∧ s.db.taken uin s.ext.now = true then
        (.error ⟨409, "taken"⟩, s)
      else if (s.db.uinHolds.get uin).isSome then (.error internalError, s) else (.ok (true, []),
        s.commit [Write.hold uin (some ⟨holdId, s.ext.now + holdSeconds⟩)] s.ext) := by
  unfold placeHold
  by_cases hown : (s.db.uinHolds.get uin).any (·.holdId == holdId) = true
  · obtain ⟨hold, hhold, hid⟩ := (Option.any_eq_true _ _).mp hown
    obtain rfl : hold.holdId = holdId := by simpa using hid
    rw [if_pos hown, if_pos hown]
    simp [extendHold, run_bind, write, run, hhold, raiseIf, commitOnly]
  · rw [if_neg hown, if_neg hown]
    refine run_read_bind.trans ?_
    rw [bind_eq, run_bind]
    rw [run_refuseTaken, Shared.view_nil]
    by_cases hblocked : (s.db.uinListings.get uin).isSome = false ∧
        s.db.taken uin s.ext.now = true
    · rw [if_pos hblocked, if_pos hblocked]
    · rw [if_neg hblocked, if_neg hblocked]
      cases hhold : s.db.uinHolds.get uin with
      | none => simp [insert, run_bind, run, hhold, commitOnly]
      | some hold => simp [insert, run_bind, run, hhold]

/-- What a request to hold a number is to come to: a free number is held under the id that was
asked for, and a number that somebody else holds is refused. -/
structure Answered (s : State) (uin : Uin) (holdId : String) (out : Except HttpError Bool × State) :
    Prop where
  free : s.db.taken uin s.ext.now = false → out.1 = .ok true ∧ out.2.db =
    { s.db with uinHolds := s.db.uinHolds.set uin (some ⟨holdId, s.ext.now + holdSeconds⟩) }
  held : ∀ hold, s.db.uinHolds.get uin = some hold → s.ext.now < hold.expiresAt →
    hold.holdId ≠ holdId → out.1 = .error ⟨409, "taken"⟩ ∧ out.2.db = s.db

/-- A free number has no hold under another id left on it, and a number that somebody else holds is
not on sale. -/
structure Holdable (s : State) (uin : Uin) (holdId : String) : Prop where
  free : s.db.taken uin s.ext.now = false → (minLen ≤ length uin ∧ length uin ≤ maxLen) ∧
    ∀ hold, s.db.uinHolds.get uin = some hold → hold.holdId = holdId
  held : ∀ hold, s.db.uinHolds.get uin = some hold → s.ext.now < hold.expiresAt →
    hold.holdId ≠ holdId → (minLen ≤ length uin ∧ length uin ≤ maxLen) ∧
      s.db.uinListings.get uin = none

theorem taken_of_live {hold : Hold} (hhold : s.db.uinHolds.get uin = some hold)
    (hlive : s.ext.now < hold.expiresAt) : s.db.taken uin s.ext.now = true := by
  simp [Db.taken, Db.liveHold, hhold, hlive]

/-- **Holding a number.** -/
theorem hold_request_answered_iff
    (hverify : till.verifyHold s.ext.now request = .ok (true, uin, holdId)) :
    Answered s uin holdId ((tillHold till request true).exec s) ↔ Holdable s uin holdId := by
  rw [exec, run_tillHold hverify, run_placeHold]
  by_cases hlen : length uin < minLen ∨ maxLen < length uin
  · -- nobody holds a number of that length
    rw [if_pos hlen]
    constructor
    · intro h
      refine ⟨fun hfree => ?_, fun hold hhold hlive hother => ?_⟩
      · cases (h.free hfree).1
      · cases (h.held hold hhold hlive hother).1
    · intro h
      refine ⟨fun hfree => ?_, fun hold hhold hlive hother => ?_⟩
      · have := (h.free hfree).1
        omega
      · have := (h.held hold hhold hlive hother).1
        omega
  have hlen' : minLen ≤ length uin ∧ length uin ≤ maxLen := by omega
  rw [if_neg hlen]
  cases hrow : s.db.uinHolds.get uin with
  | none =>
    refine iff_of_true ⟨fun hfree => ?_, fun _ h => ?_⟩ ⟨fun _ => ⟨hlen', fun _ h => ?_⟩, fun _ h => ?_⟩
    · rw [if_neg (by simp), if_neg (by simp [hfree]), if_neg (by simp)]
      exact ⟨rfl, rfl⟩
    all_goals cases hrow.symm.trans h
  | some hold =>
    have honly : ∀ other, s.db.uinHolds.get uin = some other → other = hold :=
      fun other h => Option.some.inj (h.symm.trans hrow)
    by_cases hid : hold.holdId = holdId
    · -- one's own hold is extended
      rw [if_pos (by simp [hid])]
      refine iff_of_true ⟨fun _ => ⟨rfl, rfl⟩, fun other h _ hne => ?_⟩
        ⟨fun _ => ⟨hlen', fun other h => honly other h ▸ hid⟩, fun other h _ hne => ?_⟩
      all_goals exact absurd (honly other h ▸ hid) hne
    rw [if_neg (by simp [hid])]
    by_cases hlive : s.ext.now < hold.expiresAt
    · have htaken := taken_of_live hrow hlive
      have hbusy : ∀ {p : Prop}, s.db.taken uin s.ext.now = false → p := by simp [htaken]
      constructor
      · intro h
        refine ⟨hbusy, fun _ _ _ _ => ⟨hlen', ?_⟩⟩
        have hout := (h.held hold hrow hlive hid).1
        split at hout
        · rename_i hblocked
          simpa using hblocked.1
        · cases hout
      · intro h
        have hlisted := (h.held hold hrow hlive hid).2
        refine ⟨hbusy, fun _ _ _ _ => ?_⟩
        rw [if_pos ⟨by simp [hlisted], htaken⟩]
        exact ⟨rfl, rfl⟩
    · -- the row of a hold that has run out is in the way
      have hexpired : ∀ {p : Hold → Prop} other, s.db.uinHolds.get uin = some other →
          s.ext.now < other.expiresAt → p other :=
        fun other h hlt => absurd (honly other h ▸ hlt) hlive
      constructor
      · intro h
        refine ⟨fun hfree => ?_, hexpired⟩
        have hout := (h.free hfree).1
        rw [if_neg (by simp [hfree])] at hout
        cases hout
      · intro h
        exact ⟨fun hfree => absurd ((h.free hfree).2 hold hrow) hid, hexpired⟩

/-- A till that holds the number 777 for whoever asks, under the id that the request gives. -/
def lendingTill : Till := { closedTill with verifyHold := fun _ request => .ok (true, 777, request) }

/-- The number was held for one payer, who has run out of time. -/
def expiredHold : State :=
  serve (handler defaults lendingTill) ⟨emptyDb, .initial 0, []⟩
    [.tillHold "one" true, .tick (holdSeconds + 1)]

/-- The number is free, and nobody else can hold it. -/
theorem expired_hold_in_the_way : expiredHold.db.taken 777 expiredHold.ext.now = false ∧
    ¬Answered expiredHold 777 "another" ((tillHold lendingTill "another" true).exec expiredHold) := by
  have hfree : expiredHold.db.taken 777 expiredHold.ext.now = false := by decide +kernel
  refine ⟨hfree, fun h => ?_⟩
  have hout := (h.free hfree).1
  revert hout
  decide +kernel

theorem hold_request_answered_first : Answered ⟨emptyDb, .initial 0, []⟩ 777 "one"
      ((tillHold lendingTill "one" true).exec ⟨emptyDb, .initial 0, []⟩) :=
  (hold_request_answered_iff rfl).mpr
    ⟨fun _ => ⟨by decide, nofun⟩, nofun⟩

end RcqServer.Numbers
