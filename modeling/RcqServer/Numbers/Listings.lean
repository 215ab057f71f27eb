import RcqServer.Numbers.Collections

/-!
# A number on sale and its deed

`release` and `activate` refuse a number that is on the market, and `create_listing` refuses one
that the seller does not hold.  Each of them looks at the other's table, locks nothing and then
writes its own, so the two checks can pass each other.  They hold what they promise as long as no
request commits while another one is in flight.
-/

namespace RcqServer.Numbers

open ReadCommitted Prog World

/-- The requests that put a number on the market or let go of one. -/
def OfListings : Request → Prop
  | .createListing .. | .release .. | .activate .. => True
  | _ => False

instance : DecidablePred OfListings := by
  intro r
  rcases r with _ | _ <;> unfold OfListings <;> infer_instance

/-- Every number on sale belongs to the seller. -/
def Db.ListingsOwned (db : Db) : Prop :=
  ∀ n listing, db.uinListings.get n = some listing → ∃ deed,
    db.ownedUins.get n = some deed ∧ deed.ownerUin = listing.sellerUin

/-! ## The market -/

variable {cfg : Config} {till : Till}

/-- **A number on sale is its seller's**, as long as no request commits beside another one. -/
theorem listings_owned (db : Db) (ext : Ext) (w : World) (hdb : db.InOrder)
    (hrun : Run (handler cfg till) (fun w a => a.Starts OfListings ∧ w.CommitsAlone a)
      (.fresh db ext) w) : w.shared.db.ListingsOwned := by
  have hbooks : w.shared.db.InOrder :=
    inv_of_alone (handler_safe cfg till)
      (fun r _ _ hd h => inOrder_iff.mpr (h.deal.sound (inOrder_iff.mp hd))) hdb
      (Run.mono (fun _ _ h => h.2) hrun)
  intro n listing hlisting
  obtain ⟨deed, hdeed, howner, -⟩ := hbooks.listed n listing hlisting
  exact ⟨deed, hdeed, howner⟩

/-! ### Two races -/

/-- The collector asks a dollar for 50505. -/
private def sale : Request := .createListing 123456987 ⟨50505, 100, [("btc", "q")]⟩ "a" true true

private abbrev market (schedule : List (Action Request)) : World :=
  play (handler defaults closedTill)
    (.fresh (collector 123456987 [50505]).db (.initial 0)) schedule

private theorem collector_inOrder : (collector 123456987 [50505]).db.InOrder := by
  refine ⟨fun n user deed huser hdeed => ?_, fun n listing hlisting => by cases hlisting⟩
  simp only [collector, List.foldl_cons, List.foldl_nil, Table.get_set] at huser hdeed
  split at huser
  · next h => simp [h] at hdeed
  · cases huser

/-- The number is put on the market and cannot be released any more. -/
theorem listings_owned_kept :
    let w := market (.start sale :: steps 0 5 ++ .start (.release 123456987 50505) :: steps 1 5)
    (w.shared.db.uinListings.get 50505).isSome ∧ w.shared.db.ListingsOwned := by
  refine ⟨by decide +kernel, ?_⟩
  exact listings_owned _ _ _ collector_inOrder (.of_play _ (by decide +kernel))

private theorem not_listingsOwned {db : Db} {n : Uin} (h : (db.uinListings.get n).any fun listing =>
      (db.ownedUins.get n).all (·.ownerUin != listing.sellerUin)) : ¬db.ListingsOwned := by
  intro howned
  cases hlisting : db.uinListings.get n with
  | none => simp [hlisting] at h
  | some listing =>
    obtain ⟨deed, hdeed, howner⟩ := howned n listing hlisting
    simp [hlisting, hdeed, howner] at h

/-- The number is put on the market when request `0` has made `k` statements. -/
private def race (k : ℕ) (r : Request) : List (Action Request) :=
  .start r :: steps 0 k ++ .start sale :: steps 1 5 ++ steps 0 12

/-- The number is released after it was found off the market, and it is activated after the
listings were moved: either way it is sold by somebody who does not have it. -/
theorem listing_without_deed : (collector 123456987 [50505]).db.InOrder ∧
      ∀ schedule ∈ [race 2 (.release 123456987 50505), race 8 (.activate 123456987 50505)],
        Run (handler defaults closedTill) (fun _ a => a.Starts OfListings)
          (.fresh (collector 123456987 [50505]).db (.initial 0)) (market schedule) ∧
        ¬(market schedule).shared.db.ListingsOwned := by
  refine ⟨collector_inOrder, fun schedule hschedule => ⟨.of_play _ ?_, ?_⟩⟩
  · revert schedule
    decide +kernel
  · refine not_listingsOwned (n := 50505) ?_
    revert schedule
    decide +kernel

end RcqServer.Numbers
