import RcqServer.Numbers.Deals

/-!
# The books stay in order

A number that an account answers as is nobody else's property, a number on sale belongs to whoever
sells it, and a scarce number that somebody has goes back to the pool only when its owner releases
it or burns the account.  Each holds of every deal, and so of every history of requests that are
served one after the other.  Besides, nobody takes a number from its owner.
-/

namespace RcqServer.Numbers

open ReadCommitted Prog Option Function

variable {R R' : Registry Uin} {r : Request} {n : Uin}

theorem Deal.sound (hdeal : Deal r R R') (h : R.Sound) : R'.Sound := by
  cases hdeal with
  | nothing => exact h
  | register body env hfree => exact h.enter hfree
  | grant body hfree hto => exact h.give hfree.1 (h.seller_of_free hfree)
  | claim shop hfree hme hroom hswitch => exact h.give hfree.1 (h.seller_of_free hfree)
  | claimSwitch shop hfree hme hswitch =>
    exact h.move hme hfree.1 (h.seller_of_free hfree) (.inl hfree.2)
  | redeem shop resale hfree hme hroom hswitch => exact h.give hfree.1 (h.seller_of_free hfree)
  | redeemSwitch shop resale hfree hme hswitch =>
    refine (h.give hfree.1 (h.seller_of_free hfree)).move hme hfree.1 (h.seller_of_free hfree)
      (.inr ?_)
    simp [Registry.give]
  | resale shop resale hseller howner hme hroom hswitch =>
    refine h.sell fun hused => ?_
    rw [h.seller_of_inUse hused] at hseller
    cases hseller
  | resaleSwitch shop resale hseller howner hme hfresh hswitch =>
    refine (h.sell hfresh).move hme hfresh ?_ (.inr ?_)
    · simp [Registry.sell, Registry.withdraw]
    · simp [Registry.sell, Registry.withdraw, Registry.give]
  | activate hseller howner hme hfresh => exact h.move hme hfresh hseller (.inr howner)
  | migrate cooldown draw hfree hme =>
    exact h.move hme hfree.1 (h.seller_of_free hfree) (.inl hfree.2)
  | list listingId shop resale howner hne => exact h.offer howner hne
  | unlist me m => exact h.withdraw
  | release hseller => exact h.release hseller
  | burn me => exact h.leave

/-- Only a release of the number itself or a burn lets go of a scarce number. -/
theorem Deal.keeps_scarce (hdeal : Deal r R R') (hn : Scarce n) (hheld : ¬R.Free n) :
    ¬R'.Free n ∨ (∃ me, r = .release me n) ∨ ∃ me, r = .burn me := by
  cases hdeal with
  | nothing => exact .inl hheld
  | register body env hfree => exact .inl (Registry.not_free_enter hheld)
  | grant body hfree hto => exact .inl (Registry.not_free_give hheld)
  | claim shop hfree hme hroom hswitch => exact .inl (Registry.not_free_give hheld)
  | claimSwitch shop hfree hme hswitch => exact .inl (Registry.not_free_move hn hheld)
  | redeem shop resale hfree hme hroom hswitch => exact .inl (Registry.not_free_give hheld)
  | redeemSwitch shop resale hfree hme hswitch =>
    exact .inl (Registry.not_free_move hn (Registry.not_free_give hheld))
  | resale shop resale hseller howner hme hroom hswitch => exact .inl (Registry.not_free_give hheld)
  | resaleSwitch shop resale hseller howner hme hfresh hswitch =>
    exact .inl (Registry.not_free_move hn (Registry.not_free_give hheld))
  | activate hseller howner hme hfresh => exact .inl (Registry.not_free_move hn hheld)
  | migrate cooldown draw hfree hme => exact .inl (Registry.not_free_move hn hheld)
  | list listingId shop resale howner hne => exact .inl hheld
  | unlist me m => exact .inl hheld
  | @release _ me m hseller =>
    by_cases hnm : n = m
    · exact .inr (.inl ⟨me, by rw [hnm]⟩)
    · refine .inl fun hfree => hheld ⟨hfree.1, ?_⟩
      simpa [Registry.release, hnm] using hfree.2
  | burn me => exact .inr (.inr ⟨me, rfl⟩)

/-! ## In the words of the tables -/

variable {db : Db} {s s' : State}

/-- What the shop counts on. -/
structure Db.InOrder (db : Db) : Prop where
  /-- The deed of a number that an account answers as is its own. -/
  active : ∀ n user deed, db.users.get n = some user → db.ownedUins.get n = some deed →
    deed.ownerUin = n
  /-- A number on sale is owned by the seller, who answers as another. -/
  listed : ∀ n listing, db.uinListings.get n = some listing → ∃ deed,
    db.ownedUins.get n = some deed ∧ deed.ownerUin = listing.sellerUin ∧ listing.sellerUin ≠ n

/-- Somebody has the number. -/
def Db.Held (db : Db) (n : Uin) : Prop :=
  (db.users.get n).isSome ∨ (db.ownedUins.get n).isSome

theorem inOrder_iff : db.InOrder ↔ db.books.Sound := by
  constructor
  · intro h
    refine ⟨fun n hn a ha => ?_, fun n a ha => ?_⟩
    · obtain ⟨user, huser⟩ := isSome_iff_exists.mp (mem_inUse.mp hn)
      obtain ⟨deed, hdeed, rfl⟩ := map_eq_some_iff.mp ha
      exact h.active n user deed huser hdeed
    · obtain ⟨listing, hlisting, rfl⟩ := map_eq_some_iff.mp ha
      obtain ⟨deed, hdeed, howner, hne⟩ := h.listed n listing hlisting
      refine ⟨?_, hne⟩
      rw [owner_eq, hdeed, map_some, howner]
  · intro h
    refine ⟨fun n user deed huser hdeed => ?_, fun n listing hlisting => ?_⟩
    · refine h.active n (mem_inUse.mpr (by rw [huser]; rfl)) _ ?_
      rw [owner_eq, hdeed, map_some]
    · obtain ⟨howner, hne⟩ := h.offered n listing.sellerUin (by
        rw [seller_eq, hlisting, map_some])
      obtain ⟨deed, hdeed, heq⟩ := map_eq_some_iff.mp howner
      exact ⟨deed, hdeed, heq, hne⟩

theorem held_iff : db.Held n ↔ ¬db.books.Free n := by
  rw [Registry.not_free_iff, mem_inUse, ne_eq, owner_eq_none]
  simp [Db.Held, isSome_iff_ne_none]

theorem sound_of_serial {cfg : Config} {till : Till} {ok : State → Request → Prop}
    (hrun : Serial (handler cfg till) ok s s') (hs : s.db.books.Sound) : s'.db.books.Sound :=
  hrun.inv (P := fun s => s.db.books.Sound) hs fun s r h _ => (deal_exec cfg till r s).sound h

/-- **The books stay in order**, whatever is asked for and in whatever order, and a scarce number
that somebody has becomes free only through a release or a burn. -/
theorem in_order_of_serial (cfg : Config) (till : Till)
    (hrun : Serial (handler cfg till) (fun _ _ => True) s s') (hs : s.db.InOrder) :
    s'.db.InOrder ∧ ∀ r n, isReservedUin n = true → s'.db.Held n →
      ¬((handler cfg till r).exec s').2.db.Held n →
      (∃ me, r = .release me n) ∨ ∃ me, r = .burn me := by
  refine ⟨inOrder_iff.mpr (sound_of_serial hrun (inOrder_iff.mp hs)), ?_⟩
  intro r n hn hheld hfree
  rw [held_iff] at hheld hfree
  exact ((deal_exec cfg till r s').keeps_scarce hn hheld).resolve_left hfree

/-! ### A history -/

/-- A till that has signed nothing. -/
def closedTill : Till where
  verify _ _ _ := .error "sales_disabled"
  verifyResale _ _ _ := .error "sales_disabled"
  verifyEntry _ _ := .error "sales_disabled"
  verifyHold _ _ := .error "sales_disabled"
  verifyPayout _ _ := .error "sales_disabled"

/-- The default settings. -/
def defaults : Config := ⟨100000, 999999999⟩

def emptyDb : Db := ⟨∅, ∅, ∅, ∅, ∅, ∅⟩

/-- The text of a key of 32 zero bytes. -/
def zeroKey : KeyText := List.replicate 43 'A'

/-- A registration without proof on an open island, with a constant for the random numbers. -/
def walkIn (draw : ℕ) : Request :=
  .register ⟨zeroKey, zeroKey, "", none⟩ ⟨.absent, some .openIsland, false, false, fun _ => draw⟩

theorem in_order_of_serial_walkIn :
    let s' := serve (handler defaults closedTill) ⟨emptyDb, .initial 0, []⟩
      [walkIn 123456987, .migrate 123556987 false fun _ => 987654120]
    s'.db.InOrder ∧ s'.db.Held 987754120 ∧ ¬s'.db.Held 123556987 := by
  have hok : ServedOk (handler defaults closedTill) (fun _ _ => True) ⟨emptyDb, .initial 0, []⟩
      [walkIn 123456987, .migrate 123556987 false fun _ => 987654120] :=
    ⟨trivial, trivial, trivial⟩
  refine ⟨?_, ?_, ?_⟩
  · refine (in_order_of_serial defaults closedTill (.of_serve hok) ?_).1
    exact ⟨nofun, nofun⟩
  · exact .inl (by decide +kernel)
  · unfold Db.Held
    decide +kernel

/-! ## Nobody takes a number from its owner -/

/-- Who asks for a number or gives one up. -/
def Request.asker : Request → Option Uin
  | .claim me _ _ | .redeem me _ _ _ | .activate me _ | .migrate me _ _
  | .createListing me _ _ _ _ | .release me _ | .burn me => some me
  | _ => none

/-- The account owns the number and has not put it up for sale. -/
structure Keeps (R : Registry Uin) (a n : Uin) : Prop where
  owner : R.owner n = some a
  seller : R.seller n = none

section Keeps

variable {a b m : Uin} (h : Keeps R a n)
include h

theorem Keeps.give (hne : n ≠ m) : Keeps (R.give m b) a n :=
  ⟨(update_of_ne hne _ _).trans h.owner, h.seller⟩

theorem Keeps.give_free (hfree : R.Free m) : Keeps (R.give m b) a n := by
  refine h.give ?_
  rintro rfl
  cases h.owner.symm.trans hfree.2

theorem Keeps.withdraw : Keeps (R.withdraw m) a n :=
  ⟨h.owner, by simp [Registry.withdraw, update_apply, h.seller]⟩

theorem Keeps.move (hne : a ≠ m) : Keeps (R.move Scarce m b) a n where
  owner := by simp [Registry.move, h.owner, Registry.rekey_ne hne]
  seller := by simp [Registry.move, h.seller]

theorem Deal.keeps (hdeal : Deal r R R') (hask : r.asker ≠ some a)
    (hrelease : ∀ me, r ≠ .release me n) : Keeps R' a n := by
  have hne : ∀ {me}, r.asker = some me → a ≠ me := fun hme heq => hask (heq ▸ hme)
  cases hdeal with
  | nothing => exact h
  | register body env hfree => exact ⟨h.owner, h.seller⟩
  | grant body hfree hto => exact h.give_free hfree
  | claim shop hfree hme hroom hswitch => exact h.give_free hfree
  | claimSwitch shop hfree hme hswitch => exact h.move (hne rfl)
  | redeem shop resale hfree hme hroom hswitch => exact h.give_free hfree
  | redeemSwitch shop resale hfree hme hswitch => exact (h.give_free hfree).move (hne rfl)
  | resale shop resale hseller howner hme hroom hswitch =>
    exact (h.give (Registry.ne_of_seller h.seller hseller).symm).withdraw
  | resaleSwitch shop resale hseller howner hme hfresh hswitch =>
    exact (h.give (Registry.ne_of_seller h.seller hseller).symm).withdraw.move (hne rfl)
  | activate hseller howner hme hfresh => exact h.move (hne rfl)
  | migrate cooldown draw hfree hme => exact h.move (hne rfl)
  | list listingId shop resale howner hother =>
    refine ⟨h.owner, (update_of_ne ?_ _ _).trans h.seller⟩
    rintro rfl
    exact hne rfl (some.inj (h.owner.symm.trans howner))
  | unlist me m => exact h.withdraw
  | release hseller =>
    refine ⟨(update_of_ne ?_ _ _).trans h.owner, h.seller⟩
    rintro rfl
    exact hrelease _ rfl
  | burn me =>
    exact ⟨by simpa [Registry.leave, h.owner] using hne rfl, by simp [Registry.leave, h.seller]⟩

end Keeps

/-- Only the owner releases a number. -/
theorem release_of_ne (cfg : Config) (till : Till) {me : Uin}
    (hne : s.db.books.owner n ≠ some me) : ((handler cfg till (.release me n)).exec s).2 = s := by
  refine exec_inv (P := (· = s)) (wlp_bind.mpr (wlp_read_bind ?_))
  refine wlp_raiseIf_bind (fun _ => rfl) fun _ => wlp_raiseIf_bind (fun _ => rfl) fun _ => ?_
  refine wlp_read_bind (wlp_raiseIf_bind (fun _ => rfl) fun hheld => ?_)
  exact absurd (owner_of_held (.start s) hheld) hne

/-- **Nobody takes a number from its owner.**  An account that asks for none keeps every number
that it owns and has not put up for sale, whatever the others ask for. -/
theorem bystander_keeps_number (cfg : Config) (till : Till) {a : Uin}
    (hrun : Serial (handler cfg till) (fun _ r => r.asker ≠ some a) s s')
    (h : Keeps s.db.books a n) : Keeps s'.db.books a n := by
  refine hrun.inv (P := fun s => Keeps s.db.books a n) h fun s r h hask => ?_
  by_cases hrelease : ∃ me, r = .release me n
  · obtain ⟨me, rfl⟩ := hrelease
    rwa [release_of_ne]
    exact h.owner ▸ hask.symm
  · exact (deal_exec cfg till r s).keeps h hask (not_exists.mp hrelease)

/-- An account has been granted 777777; another one tries to release it. -/
theorem bystander_keeps_number_granted :
    let s := serve (handler defaults closedTill) ⟨emptyDb, .initial 0, []⟩
      [walkIn 123456987, walkIn 987654120, .grantUin ⟨777777, 123556987⟩]
    Keeps (serve (handler defaults closedTill) s [.release 987754120 777777]).db.books
      123556987 777777 := by
  refine bystander_keeps_number defaults closedTill (.of_serve (by decide +kernel)) ?_
  exact ⟨by decide +kernel, by decide +kernel⟩

end RcqServer.Numbers
