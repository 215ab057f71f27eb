import RcqServer.Numbers.InOrder

/-!
# The cap on collections

An account may hold `MAX_OWNED_UINS` numbers beside the one it answers as.  Whoever takes a number
into the collection is counted first, and whoever activates a number of the collection makes room
for the one that is left.  A move onto a number from outside is not counted: if the collection is
full and the number that is left is kept, because it is scarce or owned, there is one too many.
-/

namespace RcqServer.Numbers

open ReadCommitted Prog Option

variable {R R' : Registry Uin} {r : Request} {me : Uin} {s s' : State}

/-! ## Deals -/

theorem Deal.peopled (hdeal : Deal r R R') (h : R.Peopled) : R'.Peopled := by
  have hmove : ∀ {R : Registry Uin} {a b : Uin}, R.Peopled → a ∈ R.inUse → b ∉ R.inUse →
      (R.move Scarce a b).Peopled :=
    fun h ha hb => h.move fun heq => hb (heq ▸ ha)
  cases hdeal with
  | nothing => exact h
  | register body env hfree => exact h.enter
  | grant body hfree hto => exact h.give hto
  | claim shop hfree hme hroom hswitch => exact h.give hme
  | claimSwitch shop hfree hme hswitch => exact hmove h hme hfree.1
  | redeem shop resale hfree hme hroom hswitch => exact h.give hme
  | redeemSwitch shop resale hfree hme hswitch => exact hmove (h.give hme) hme hfree.1
  | resale shop resale hseller howner hme hroom hswitch => exact h.give hme
  | resaleSwitch shop resale hseller howner hme hfresh hswitch =>
    exact hmove (R := R.sell _ _) (h.give hme) hme hfresh
  | activate hseller howner hme hfresh => exact hmove h hme hfresh
  | migrate cooldown draw hfree hme => exact hmove h hme hfree.1
  | list listingId shop resale howner hne => exact h
  | unlist me m => exact h
  | release hseller => exact h.release
  | burn me => exact h.leave

/-- The requests that take, buy, activate or change a number. -/
def Collects : Request → Prop
  | .claim _ _ _ | .redeem _ _ _ _ | .activate _ _ | .migrate _ _ _ | .tick _ => True
  | _ => False

/-- Who moves onto a number from outside the collection, if anybody does. -/
def movesAbroad : Request → Option Uin
  | .claim me body _ => if body.switch then some me else none
  | .redeem me body _ _ => if body.switch then some me else none
  | .migrate me _ _ => some me
  | _ => none

/-- The account has room for one more number, or leaves one that is not kept. -/
def Roomy (R : Registry Uin) (me : Uin) : Prop :=
  (R.holdings me).encard < maxOwnedUins ∨ ¬Scarce me ∧ R.owner me = none

/-- A move onto a number from outside, after the number may have been given to the account. -/
private theorem capped_abroad {n : Uin} {R₁ : Registry Uin} (hcap : R.Capped maxOwnedUins)
    (hothers : ∀ c, c ≠ me → R₁.holdings c ⊆ R.holdings c) (hpeopled : R₁.Peopled)
    (hroomy : Roomy R me) (hn : n ∉ R₁.inUse)
    (howner : R₁.owner me = R.owner me) (hown : R₁.holdings me ⊆ {n} ∪ R.holdings me) :
    (R₁.move Scarce me n).Capped maxOwnedUins := by
  have hle : (R₁.holdings me \ {n}).encard ≤ (R.holdings me).encard := by
    refine Set.encard_le_encard ?_
    rintro m ⟨hm, hmn⟩
    exact (hown hm).resolve_left hmn
  refine Registry.Capped.of_move (fun c hc => (Set.encard_le_encard (hothers c hc)).trans (hcap c))
    hpeopled hn ?_
  rcases hroomy with hlt | ⟨hordinary, hnone⟩
  · exact .inl (hle.trans_lt hlt)
  · exact .inr ⟨⟨hordinary, howner.trans hnone⟩, hle.trans (hcap me)⟩

theorem Deal.capped (hdeal : Deal r R R') (hcollects : Collects r)
    (hroomy : ∀ me ∈ movesAbroad r, Roomy R me) (hpeopled : R.Peopled)
    (hcap : R.Capped maxOwnedUins) : R'.Capped maxOwnedUins := by
  -- what a gift of a number that is not in use does to the books before a move
  have hgiven : ∀ {me n : Uin}, me ∈ R.inUse → n ∉ R.inUse → Roomy R me →
      ((R.give n me).move Scarce me n).Capped maxOwnedUins := by
    intro me n hme hn hroomy
    have hne : me ≠ n := fun heq => hn (heq ▸ hme)
    refine capped_abroad hcap (fun c hc => Registry.holdings_give_ne hc) (hpeopled.give hme) hroomy
      hn ?_ Registry.holdings_give_self
    simp [Registry.give, hne]
  cases hdeal with
  | nothing => exact hcap
  | claim shop hfree hme hroom hswitch => exact hcap.give hroom
  | claimSwitch shop hfree hme hswitch =>
    exact capped_abroad hcap (fun _ _ => subset_rfl) hpeopled (hroomy _ (by simp [movesAbroad,
      hswitch])) hfree.1 rfl Set.subset_union_right
  | redeem shop resale hfree hme hroom hswitch => exact hcap.give hroom
  | redeemSwitch shop resale hfree hme hswitch =>
    exact hgiven hme hfree.1 (hroomy _ (by simp [movesAbroad, hswitch]))
  | resale shop resale hseller howner hme hroom hswitch => exact hcap.give (n := _) hroom
  | resaleSwitch shop resale hseller howner hme hfresh hswitch =>
    exact hgiven hme hfresh (hroomy _ (by simp [movesAbroad, hswitch]))
  | @activate _ me n hseller howner hme hfresh =>
    -- the number that is moved to leaves the collection
    have hne : me ≠ n := fun heq => hfresh (heq ▸ hme)
    refine Registry.Capped.of_move (fun c _ => hcap c) hpeopled hfresh (.inl ?_)
    have hcount : (R.holdings me \ {n}).encard + 1 = (R.holdings me).encard :=
      Set.encard_sdiff_singleton_add_one ⟨howner, Ne.symm hne⟩
    have hle : (R.holdings me \ {n}).encard + 1 ≤ maxOwnedUins := hcount.le.trans (hcap me)
    have hfinite : (R.holdings me \ {n}).encard ≠ ⊤ := by
      intro htop
      rw [htop] at hle
      exact absurd hle (by simp)
    exact (ENat.add_one_le_iff hfinite).mp hle
  | migrate cooldown draw hfree hme =>
    exact capped_abroad hcap (fun _ _ => subset_rfl) hpeopled (hroomy _ rfl) hfree.1 rfl
      Set.subset_union_right
  | register body env hfree => exact hcollects.elim
  | grant body hfree hto => exact hcollects.elim
  | list listingId shop resale howner hne => exact hcollects.elim
  | unlist me m => exact hcollects.elim
  | release hseller => exact hcollects.elim
  | burn me => exact hcollects.elim

/-! ## Histories -/

/-- The numbers that an account holds beside the one it answers as. -/
def Db.collection (db : Db) (a : Uin) : Finset Uin :=
  db.ownedUins.keysWhere fun n deed => deed.ownerUin == a && n != a

/-- Every deed belongs to an account. -/
def Db.Peopled (db : Db) : Prop :=
  ∀ n deed, db.ownedUins.get n = some deed → (db.users.get deed.ownerUin).isSome

/-- The account has a full collection and would keep the number that it answers as. -/
def Db.Stuffed (db : Db) (me : Uin) : Prop :=
  maxOwnedUins ≤ (db.collection me).card ∧ (isReservedUin me = true ∨ (db.ownedUins.get me).isSome)

theorem holdings_eq (db : Db) (a : Uin) : db.books.holdings a = db.collection a := by
  ext n
  simp only [Registry.holdings, Set.mem_ofPred_eq, owner_eq, map_eq_some_iff,
    Db.collection, Finset.mem_coe, Table.mem_keysWhere, Bool.and_eq_true, beq_iff_eq, bne_iff_ne]
  constructor
  · rintro ⟨⟨deed, hget, howner⟩, hne⟩
    exact ⟨deed, hget, howner, hne⟩
  · rintro ⟨deed, hget, howner, hne⟩
    exact ⟨⟨deed, hget, howner⟩, hne⟩

theorem encard_holdings (db : Db) (a : Uin) :
    (db.books.holdings a).encard = (db.collection a).card := by
  rw [holdings_eq, Set.encard_coe_eq_coe_finsetCard]

theorem capped_iff {db : Db} :
    db.books.Capped maxOwnedUins ↔ ∀ a, (db.collection a).card ≤ maxOwnedUins := by
  simp only [Registry.Capped, encard_holdings, Nat.cast_le]

theorem peopled_iff {db : Db} : db.Peopled ↔ db.books.Peopled := by
  constructor
  · intro h n a ha
    obtain ⟨deed, hdeed, rfl⟩ := map_eq_some_iff.mp ha
    exact h n deed hdeed
  · intro h n deed hdeed
    refine h n deed.ownerUin ?_
    rw [owner_eq, hdeed, map_some]

theorem roomy_of_not_stuffed {db : Db} (h : ¬db.Stuffed me) : Roomy db.books me := by
  unfold Roomy
  rw [encard_holdings, Nat.cast_lt, owner_eq_none]
  by_cases hfull : maxOwnedUins ≤ (db.collection me).card
  · right
    refine ⟨fun hscarce => h ⟨hfull, .inl hscarce⟩, ?_⟩
    rw [← not_isSome_iff_eq_none]
    exact fun hdeed => h ⟨hfull, .inr hdeed⟩
  · exact .inl (Nat.lt_of_not_le hfull)

private def account : UserRow := ⟨zeroKey, zeroKey, false, none, none, 0, some 0⟩

/-- An account with some numbers beside its own. -/
def collector (me : Uin) (held : List Uin) : State where
  db := { emptyDb with
    users := (∅ : Table Uin UserRow).set me (some account)
    ownedUins := held.foldl (fun t n => t.set n (some ⟨me, .claimed, 0⟩)) ∅ }
  ext := .initial 0
  hist := []

/-- Ten ordinary numbers. -/
def tenNumbers : List Uin := (List.range 10).map (123456900 + ·)

private theorem collector_deed {held : List Uin} {n : Uin} {deed : Deed}
    (h : (collector me held).db.ownedUins.get n = some deed) : deed.ownerUin = me := by
  have hfold : ∀ (held : List Uin) (t : Table Uin Deed),
      (∀ m d, t.get m = some d → d.ownerUin = me) → ∀ m d,
      (held.foldl (fun t n => t.set n (some ⟨me, .claimed, 0⟩)) t).get m = some d →
        d.ownerUin = me := by
    intro held
    induction held with
    | nil => exact fun t ht => ht
    | cons k held ih =>
      refine fun t ht => ih _ fun m d hd => ?_
      rw [Table.get_set] at hd
      split at hd
      · cases hd
        rfl
      · exact ht m d hd
  exact hfold held ∅ (fun _ _ h => (by cases h)) n deed h

theorem collector_peopled (held : List Uin) : (collector me held).db.Peopled := by
  intro n deed hdeed
  rw [collector_deed hdeed]
  simp [collector]

theorem collector_capped {held : List Uin}
    (hme : ((collector me held).db.collection me).card ≤ maxOwnedUins) (a : Uin) :
    ((collector me held).db.collection a).card ≤ maxOwnedUins := by
  by_cases ha : a = me
  · exact ha ▸ hme
  · have hempty : (collector me held).db.collection a = ∅ := by
      refine Finset.eq_empty_of_forall_notMem fun n hn => ha ?_
      obtain ⟨deed, hdeed, hcond⟩ := Table.mem_keysWhere.mp hn
      simp only [Bool.and_eq_true, beq_iff_eq] at hcond
      exact hcond.1.symm.trans (collector_deed hdeed)
    simp [hempty]

end RcqServer.Numbers
