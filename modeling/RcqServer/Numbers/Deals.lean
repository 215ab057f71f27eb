import RcqServer.Numbers.Moves

/-!
# What a request does to the books

`Deal r R R'` lists all that the request `r` can make of the books `R` if nobody commits beside it:
nothing, or the one change it is for, with everything that its handler has made sure of before it
commits.  A `Change` says besides who is behind the numbers, and what has been shown for a scarce
one.  `handler_makes` shows that the handlers keep to the list, so that what holds of every deal
holds of the service.
-/

namespace RcqServer.Numbers

open ReadCommitted Prog Outline Function Option List Bool

/-- What a request may make of the books. -/
inductive Deal : Request → Registry Uin → Registry Uin → Prop
  | nothing (r : Request) (R : Registry Uin) : Deal r R R
  | register {R : Registry Uin} {n : Uin} (body : RegisterIn) (env : RegisterEnv)
      (hfree : R.Free n) : Deal (.register body env) R (R.enter n)
  | grant {R : Registry Uin} (body : GrantUinIn) (hfree : R.Free body.uin)
      (hto : body.toUin ∈ R.inUse) : Deal (.grantUin body) R (R.give body.uin body.toUin)
  | claim {R : Registry Uin} {me : Uin} {body : ClaimIn} (shop : Bool) (hfree : R.Free body.uin)
      (hme : me ∈ R.inUse) (hroom : (R.holdings me).encard < maxOwnedUins)
      (hswitch : body.switch = false) : Deal (.claim me body shop) R (R.give body.uin me)
  | claimSwitch {R : Registry Uin} {me : Uin} {body : ClaimIn} (shop : Bool)
      (hfree : R.Free body.uin) (hme : me ∈ R.inUse) (hswitch : body.switch = true) :
      Deal (.claim me body shop) R (R.move Scarce me body.uin)
  | redeem {R : Registry Uin} {me : Uin} {body : RedeemIn} (shop resale : Bool)
      (hfree : R.Free body.uin) (hme : me ∈ R.inUse)
      (hroom : (R.holdings me).encard < maxOwnedUins) (hswitch : body.switch = false) :
      Deal (.redeem me body shop resale) R (R.give body.uin me)
  | redeemSwitch {R : Registry Uin} {me : Uin} {body : RedeemIn} (shop resale : Bool)
      (hfree : R.Free body.uin) (hme : me ∈ R.inUse) (hswitch : body.switch = true) :
      Deal (.redeem me body shop resale) R ((R.give body.uin me).move Scarce me body.uin)
  | resale {R : Registry Uin} {me a : Uin} {body : RedeemIn} (shop resale : Bool)
      (hseller : R.seller body.uin = some a) (howner : R.owner body.uin = some a)
      (hme : me ∈ R.inUse) (hroom : (R.holdings me).encard < maxOwnedUins)
      (hswitch : body.switch = false) :
      Deal (.redeem me body shop resale) R (R.sell body.uin me)
  | resaleSwitch {R : Registry Uin} {me a : Uin} {body : RedeemIn} (shop resale : Bool)
      (hseller : R.seller body.uin = some a) (howner : R.owner body.uin = some a)
      (hme : me ∈ R.inUse) (hfresh : body.uin ∉ R.inUse) (hswitch : body.switch = true) :
      Deal (.redeem me body shop resale) R ((R.sell body.uin me).move Scarce me body.uin)
  | activate {R : Registry Uin} {me n : Uin} (hseller : R.seller n = none)
      (howner : R.owner n = some me) (hme : me ∈ R.inUse) (hfresh : n ∉ R.inUse) :
      Deal (.activate me n) R (R.move Scarce me n)
  | migrate {R : Registry Uin} {me n : Uin} (cooldown : Bool) (draw : ℕ → ℕ) (hfree : R.Free n)
      (hme : me ∈ R.inUse) : Deal (.migrate me cooldown draw) R (R.move Scarce me n)
  | list {R : Registry Uin} {me : Uin} {body : ListingIn} (listingId : String)
      (shop resale : Bool) (howner : R.owner body.uin = some me) (hne : me ≠ body.uin) :
      Deal (.createListing me body listingId shop resale) R (R.offer body.uin me)
  | unlist {R : Registry Uin} (me n : Uin) : Deal (.deleteListing me n) R (R.withdraw n)
  | release {R : Registry Uin} {me n : Uin} (hseller : R.seller n = none) :
      Deal (.release me n) R (R.release n)
  | burn {R : Registry Uin} (me : Uin) : Deal (.burn me) R (R.leave me)

/-! ## Changes -/

/-- Who comes to answer as a number that was not in use. -/
def Request.newcomer (db : Db) : Request → Option (List ℕ)
  | .register body _ => decodeKey32 body.signingKey
  | .claim me _ _ | .redeem me _ _ _ | .activate me _ | .migrate me _ _ => db.identityAt me
  | _ => none

/-- A live invite promises the number. -/
def Promised (db : Db) (code : InviteCode) (n : Uin) : Prop :=
  ∃ i t, db.invites.get code = some i ∧ i.live t = true ∧ i.uin = some n

/-- What a request that makes the books `R` has shown for a scarce number that it takes. -/
def Shown (till : Till) (db : Db) (R : Registry Uin) : Request → Prop
  | .register body env => ∀ n ∈ R.inUse, n ∉ db.books.inUse → Scarce n →
      Promised db body.invite n ∨ env.proof = .valid ∧ body.desiredUin = some n ∧ env.tenure = true
  | .migrate _ _ _ => ∀ n ∈ R.inUse, n ∉ db.books.inUse → ¬Scarce n
  | .claim _ body _ => ¬Scarce body.uin
  | .redeem _ body _ _ => ∃ t, (∃ nonce, till.verify t body.voucher body.uin = .ok nonce) ∨
      ∃ paid, till.verifyResale t body.voucher body.uin = .ok paid
  | _ => True

/-- What a request may commit. -/
structure Change (till : Till) (r : Request) (db db' : Db) : Prop where
  deal : Deal r db.books db'.books
  people : db.books.Follows db'.books db.identityAt db'.identityAt (r.newcomer db)
  shown : Shown till db db'.books r

variable {till : Till} {r : Request} {db : Db} {R : Registry Uin} {I : Uin → Option (List ℕ)}
  {ws : List Write} {s s' : State} {me n a b : Uin} {l : Label} {x : Ext → Ext} {α β : Type}
  {Q : α → List Write → State → Prop} {k : Handler α}

/-- The request has made a deal. -/
def Made (r : Request) (db : Db) (s : State) : Prop := Deal r db.books s.db.books

/-- The handler commits what the request may commit, and that is a deal. -/
abbrev Makes (till : Till) (r : Request) (db : Db) (p : Handler α) : List Write → State → Prop :=
  (alone (Change till)).wp r p fun _ _ => Made r db

theorem Made.stable (h : Made r db s) (hdb : s'.db = s.db) : Made r db s' := by
  unfold Made
  rw [hdb]
  exact h

theorem wp_settle (h : Seen db R I ws s) (hdeal : Deal r db.books R)
    (hpeople : db.books.Follows R db.identityAt I (r.newcomer db)) (hshown : Shown till db R r)
    (hk : ∀ s, Made r db s → (alone (Change till)).wp r k Q [] s) :
    (alone (Change till)).wp r (.commit l x k) Q ws s := by
  intro s' hrely _ _
  obtain ⟨hdb, rfl, rfl⟩ := h.stable (hrely (some_ne_none l))
  subst hdb
  exact ⟨⟨trivial, .inr ⟨cons_ne_self _ _, hdeal, hpeople, hshown⟩⟩, hk _ hdeal⟩

/-- Nobody comes and nobody goes. -/
theorem follows_same {new : Option (List ℕ)} :
    db.books.Follows db.books db.identityAt db.identityAt new :=
  .refl fun _ _ => mem_inUse_of_identityAt

/-- A commit of a request that takes no number. -/
theorem makes_plain (h : Seen db R db.identityAt ws s) (hin : R.inUse = db.books.inUse)
    (hdeal : Deal r db.books R) (hshown : Shown till db R r)
    (hk : ∀ s, Made r db s → (alone (Change till)).wp r k Q [] s) :
    (alone (Change till)).wp r (.commit l x k) Q ws s := by
  refine wp_settle h hdeal (fun m i hm => ?_) hshown hk
  rw [hin]
  exact follows_same m i hm

theorem makes_read {q : Db → Ext → α} (h : Made r db s) :
    Makes till r db (read l q : Handler α) ws s :=
  wp_read alone_coherent fun _ hrely _ _ => h.stable (hrely (some_ne_none l))

theorem makes_map {p : Handler α} {f : α → β} (hp : Makes till r db p ws s) :
    Makes till r db (p.bind fun a => .ret (f a)) ws s :=
  wp_seq hp fun _ _ _ h => h

/-! ## Accounts -/

/-- An account whose columns change has the identity that it had. -/
theorem makes_restate (h : Seen db db.books db.identityAt ws s) {f : Time → UserRow → UserRow}
    (hf : ∀ t row, (f t row).identity = row.identity) (hshown : Shown till db db.books r) (a : α) :
    Makes till r db ((updateUser n f).bind fun _ => .commit l x (.ret a)) ws s :=
  wp_seq (wp_updateUser h hf) fun _ _ _ h =>
    makes_plain h rfl (.nothing _ _) hshown fun _ h => h

theorem guestSettle_makes {code : String} {policy : Option Policy} (s : State) :
    Makes till (.guestSettle me code policy) s.db (guestSettle till me code policy) [] s := by
  refine wp_ask (.start s) fun s₁ h => ?_
  split
  · exact trivial
  refine wp_raiseIf_bind fun _ => ?_
  refine wp_aside (by simp [Aside.eq_def]) h fun voucher ws s₁ h => ?_
  refine wp_aside (by simp [Aside.eq_def]) h fun _ ws s₁ h => ?_
  exact makes_restate h (fun _ _ => by rfl) (by trivial) _

theorem residencyRedeem_makes {voucher : String} (s : State) :
    Makes till (.residencyRedeem me voucher) s.db (residencyRedeem till me voucher) [] s := by
  refine wp_ask (.start s) fun s₁ h => ?_
  split
  · exact trivial
  refine wp_raiseIf_bind fun _ => wp_raiseIf_bind fun _ => wp_ask h fun s₁ h => ?_
  split
  · exact trivial
  refine wp_aside (by simp [Aside.eq_def]) h fun _ ws s₁ h => ?_
  exact makes_restate h (fun _ _ => by rfl) (by trivial) _

/-! ## Registration -/

section Registration

variable {code : InviteCode}

/-- Besides `Seen`: the invite `code` is as committed. -/
structure Unused (db : Db) (code : InviteCode) (ws : List Write) (s : State) : Prop
    extends Seen db db.books db.identityAt ws s where
  invite : (s.view ws).invites.get code = db.invites.get code

theorem Unused.stable (h : Unused db code ws s) (hdb : s'.db = s.db) : Unused db code ws s' := by
  refine ⟨h.toSeen.stable hdb, ?_⟩
  rw [Shared.view, hdb]
  exact h.invite

theorem unused_carried : (alone (Change till)).Carried r (fun _ : Label => True)
    (fun o => Aside o ∧ ∀ row, o ≠ .invite code row) (Unused db code) where
  stable l ws s s' _ h hrely _ := h.stable (hrely (some_ne_none l))
  write ws s new h hinv hnew := by
    refine ⟨(seen_carried (T := Change till) (v := r)).write ws s new h.toSeen hinv fun o ho =>
      (hnew o ho).1, ?_⟩
    rw [Shared.view, applyAll_append,
      sets_invites.get_applyAll_of_notMem fun row hrow => (hnew _ hrow).2 row rfl]
    exact h.invite

/-- A part of a registration before the gate. -/
theorem wp_beforeGate {p : Handler β} {f : β → Handler α}
    (hp : p.Part (fun o => Aside o ∧ ∀ row, o ≠ .invite code row) (fun _ => True))
    (h : Unused db code ws s)
    (hf : ∀ a ws s, Unused db code ws s → (alone (Change till)).wp r (f a) Q ws s) :
    (alone (Change till)).wp r (p.bind f) Q ws s :=
  wp_part_bind alone_coherent unused_carried hp h hf

/-- The gate has been passed, and what it reserves is promised. -/
def Gated (db : Db) (code : InviteCode) (reserved : Option Uin) (ws : List Write) (s : State) :
    Prop :=
  Seen db db.books db.identityAt ws s ∧ ∀ n ∈ reserved, Promised db code n

/-- An invite that is used up now is live. -/
theorem wp_useInvite {needsUin : Bool} {other : Handler (Option Uin)} (h : Unused db code ws s)
    (hother : ∀ ws s, Seen db db.books db.identityAt ws s →
      (alone (Change till)).wp r other (Gated db code) ws s) :
    (alone (Change till)).wp r ((consumeInvite code needsUin).bind fun consumed =>
      if consumed then inviteUin code else other) (Gated db code) ws s := by
  intro s' hrely hinv _
  have hnow := h.stable (hrely (some_ne_none _))
  rw [Shared.tell_same]
  refine ⟨⟨hinv, .inl rfl⟩, ?_⟩
  cases husable : (s'.view ws).usableInvite code needsUin s'.ext.now with
  | none =>
    simp only [husable, map_none, toList_none, append_nil]
    exact hother ws s' hnow.toSeen
  | some i =>
    obtain ⟨hi, hlive⟩ := filter_eq_some_iff.mp husable
    rw [hnow.invite] at hi
    simp only [husable, map_some, toList_some]
    have hseen : ∀ row, Seen db db.books db.identityAt (ws ++ [.invite code row]) s' :=
      fun row => hnow.put hnow.books (by simp)
    refine wp_read alone_coherent fun s'' hrely' _ _ => ?_
    have hdb : s''.db = s'.db := hrely' (some_ne_none _)
    refine ⟨(hseen _).stable hdb, fun n hn => ⟨i, s'.ext.now, hi, ?_, ?_⟩⟩
    · exact (and_eq_true_iff.mp hlive).1
    · rw [Shared.view, applyAll_concat] at hn
      exact (congrArg (bind · Invite.uin) (Table.get_set_self _ _ _)).symm.trans hn

theorem wp_passGate {policy : Policy} {resident : Bool} (h : Unused db code ws s) :
    (alone (Change till)).wp r (passGate policy code resident) (Gated db code) ws s := by
  unfold passGate
  split
  · split
    · exact trivial
    · exact wp_useInvite h fun _ _ _ => trivial
  · split
    · exact ⟨h.toSeen, nofun⟩
    · exact wp_useInvite h fun _ _ h => ⟨h, nofun⟩

theorem register_makes (cfg : Config) {body : RegisterIn} {env : RegisterEnv} (s : State) :
    Makes till (.register body env) s.db (register cfg till body env) [] s := by
  have hstart : Unused s.db body.invite [] s := ⟨.start s, rfl⟩
  refine wp_beforeGate (by simp) hstart fun _ ws s₁ h => ?_
  refine wp_beforeGate (by simp) h fun _ ws s₁ h => ?_
  refine wp_raiseIf_bind fun _ => wp_raiseIf_bind fun _ => ?_
  split
  · exact trivial
  rename_i policy hpolicy
  refine wp_beforeGate (by simp) h fun _ ws s₁ h => ?_
  refine wp_beforeGate (by simp [Aside.eq_def]) h fun voucher ws s₁ h => ?_
  -- an entry voucher is not an invite
  have hgate : (alone (Change till)).wp (.register body env)
      (passGate policy (if voucher.isSome then "" else body.invite) voucher.isSome)
      (Gated s.db body.invite) ws s₁ := by
    cases voucher with
    | none => exact wp_passGate h
    | some nonce =>
      have hnone : passGate policy "" true = pure none := by simp [passGate]
      rw [isSome_some, if_pos rfl, hnone]
      exact ⟨h.toSeen, nofun⟩
  refine wp_seq hgate ?_
  rintro reserved ws s₁ ⟨h, hreserved⟩
  refine wp_aside (by simp) h fun guest ws s₁ h => ?_
  cases guest with
  | some uin =>
    refine wp_raiseIf_bind fun _ => wp_raiseIf_bind fun _ => ?_
    refine makes_restate h (fun _ _ => ?_) ?_ _
    · rfl
    · exact fun n hn hfresh => absurd hn hfresh
  | none =>
    refine wp_seq (wp_chooseUin_of wp_uinIsTaken_free cfg h) ?_
    rintro n ws s₁ ⟨⟨h, hfree⟩, hn⟩
    refine wp_seq (wp_insertUser h (decodeKey32 body.signingKey) fun _ => rfl) ?_
    rintro _ ws s₁ ⟨-, h⟩
    refine wp_settle h (.register body env hfree) (follows_same.enter hfree.1) ?_ fun _ h => h
    intro m hm hfresh hscarce
    obtain rfl : m = n := hm.resolve_right hfresh
    refine (hn hscarce).imp (hreserved m) fun ⟨hproof, hdesired, htenure⟩ =>
      ⟨hproof, hdesired, (and_eq_true_iff.mp htenure).2⟩

end Registration

/-! ## Grants and claims -/

/-- The answer of `_take`. -/
private theorem wp_rest {owner : Uin} {f : List Uin → α} (h : Made r db s)
    (hQ : ∀ out s, Made r db s → Q (f out) [] s) :
    (alone (Change till)).wp r ((ownedUins l owner).bind fun owned => .ret (f owned)) Q [] s :=
  wp_bind.mpr (wp_read alone_coherent fun s' hrely _ _ =>
    hQ _ s' (h.stable (hrely (some_ne_none l))))

/-- `_take` with a move: the account answers as the number. -/
theorem wp_switch {door : Door} {user : UserRow} {source : Source}
    {Q : PurchaseOut → List Write → State → Prop}
    (h : Seen db R db.identityAt ws s) (hin : R.inUse = db.books.inUse)
    (huser : db.identityAt me = user.identity) (hnew : r.newcomer db = db.identityAt me)
    (hdeal : me ∈ R.inUse → n ∉ R.inUse → Deal r db.books (R.move Scarce me n))
    (hshown : Shown till db (R.move Scarce me n) r) (hQ : ∀ out s, Made r db s → Q out [] s) :
    (alone (Change till)).wp r (take door user me n true source x) Q ws s := by
  unfold take
  rw [if_pos rfl, performMigration_eq]
  refine wp_bind.mpr (wp_seq (wp_moveRows h door user) ?_)
  rintro _ ws s ⟨hme, hn, h⟩
  refine wp_settle h (hdeal hme hn) ?_ hshown fun _ h => wp_rest h fun _ => hQ _
  have hpeople : R.Follows (R.move Scarce me n) db.identityAt _ user.identity :=
    ((Registry.Follows.refl fun _ _ hm => hin ▸ mem_inUse_of_identityAt hm).enter hn).drop
  rw [hnew, huser]
  unfold Registry.Follows at hpeople ⊢
  rwa [← hin]

/-- `_take` without a move: the account has the deed of the number. -/
theorem wp_hold {door : Door} {user : UserRow} {source : Source}
    {Q : PurchaseOut → List Write → State → Prop}
    (h : Seen db db.books db.identityAt ws s) (hshown : Shown till db (db.books.give n me) r)
    (hdeal : (db.books.holdings me).encard < maxOwnedUins → Deal r db.books (db.books.give n me))
    (hQ : ∀ out s, Made r db s → Q out [] s) :
    (alone (Change till)).wp r (take door user me n false source x) Q ws s := by
  unfold take
  rw [if_neg Bool.false_ne_true]
  refine wp_seq (wp_ownedUins h) ?_
  rintro held ws s ⟨h, hroom⟩
  refine wp_raiseIf_bind fun hfull => ?_
  refine wp_seq (wp_insertDeed h fun _ => rfl) fun _ ws s h => ?_
  exact makes_plain h rfl (hdeal (hroom hfull)) hshown fun _ h => wp_rest h fun _ => hQ _

theorem grantUin_makes {body : GrantUinIn} (s : State) :
    Makes till (.grantUin body) s.db (grantUin body) [] s := by
  refine wp_ask (.start s) fun s₁ h => wp_raiseIf_bind fun hused => ?_
  rw [← mem_inUse, h.books] at hused
  refine wp_ask h fun s₁ h => wp_raiseIf_bind fun hheld => ?_
  have hfree : s.db.books.Free body.uin :=
    ⟨hused, h.books ▸ owner_eq_none.mpr (by simpa using hheld)⟩
  refine wp_ask h fun s₁ h => wp_raiseIf_bind fun _ => ?_
  refine wp_ask h fun s₁ h => wp_raiseIf_bind fun hknown => ?_
  rw [not_eq_false, ← mem_inUse, h.books] at hknown
  refine wp_seq (wp_insertDeed h fun _ => rfl) fun _ ws s₁ h => ?_
  exact makes_plain h rfl (.grant body hfree hknown) trivial fun _ h => makes_read h

theorem claim_makes {body : ClaimIn} {shop : Bool} (s : State) :
    Makes till (.claim me body shop) s.db (claim me body shop) [] s := by
  refine wp_aside (by simp) (.start s) fun _ ws s₁ h => wp_raiseIf_bind fun hordinary => ?_
  refine wp_seq (wp_uinIsTaken h _ _ _) ?_
  rintro taken ws s₁ ⟨h, hfree⟩
  refine wp_raiseIf_bind fun htaken => wp_seq (wp_activeUser h) ?_
  have hfree : s.db.books.Free body.uin := hfree (by simpa using htaken)
  rintro user ws s₁ ⟨h, hme, huser⟩
  refine wp_aside (by simp) h fun _ ws s₁ h => ?_
  cases hswitch : body.switch with
  | true =>
    exact wp_switch h rfl huser rfl (fun _ _ => .claimSwitch shop hfree hme hswitch) hordinary
      fun _ _ h => h
  | false =>
    exact wp_hold h hordinary (fun hroom => .claim shop hfree hme hroom hswitch) fun _ _ h => h

/-- The account has the number. -/
theorem owner_of_held {ws : List Write} (h : Seen db R I ws s)
    (hheld : ¬((s.view ws).ownedUins.get n).all (·.ownerUin != me) = true) :
    R.owner n = some me := by
  rw [← h.books, owner_eq]
  cases hget : (s.view ws).ownedUins.get n with
  | none => simp [hget] at hheld
  | some deed => simpa [hget] using hheld

theorem activate_makes (s : State) : Makes till (.activate me n) s.db (activate me n) [] s := by
  refine wp_ask (.start s) fun s₁ h => wp_raiseIf_bind fun hlisted => ?_
  have hseller : s.db.books.seller n = none :=
    h.books ▸ seller_eq_none.mpr (by simpa using hlisted)
  refine wp_ask h fun s₁ h => wp_raiseIf_bind fun hheld => ?_
  have howner := owner_of_held h hheld
  refine wp_seq (wp_activeUser h) ?_
  rintro user ws s₁ ⟨h, hme, huser⟩
  exact wp_switch h rfl huser rfl (fun _ => .activate hseller howner hme) trivial fun _ _ h => h

theorem migrate_makes (cfg : Config) {cooldown : Bool} {draw : ℕ → ℕ} (s : State) :
    Makes till (.migrate me cooldown draw) s.db (migrate cfg me cooldown draw) [] s := by
  refine wp_seq (wp_lockUser (.start s)) ?_
  rintro (_ | row) ws s₁ ⟨h, hrow⟩
  · exact trivial
  refine wp_raiseIf_bind fun _ => wp_raiseIf_bind fun _ => ?_
  refine wp_seq (wp_allocateUin h cfg draw) ?_
  rintro target ws s₁ ⟨⟨h, hfree⟩, hordinary⟩
  rw [performMigration_eq]
  refine wp_seq (wp_moveRows h _ _) ?_
  rintro _ ws s₁ ⟨hme, hb, h⟩
  refine wp_settle h (.migrate cooldown draw hfree hme) ?_ ?_ fun _ h => h
  · rw [Request.newcomer, (hrow row rfl).2]
    exact (follows_same.enter hb).drop
  · rintro m ⟨hm, -⟩ hfresh
    obtain rfl : m = target := hm.resolve_right hfresh
    exact hordinary

/-! ## Vouchers -/

/-- A commit with nothing written, and the answer. -/
theorem makes_finish {out : α} (h : Made r db s) :
    Makes till r db ((commitOnly .commit).bind fun _ => .ret out) [] s :=
  fun _ hrely _ _ => ⟨⟨trivial, .inl rfl⟩, h.stable (hrely (some_ne_none _))⟩

theorem redeemResale_makes {body : RedeemIn} {shop resale : Bool} {listing : Listing}
    {user : UserRow} (h : Seen db db.books db.identityAt ws s) (hme : me ∈ db.books.inUse)
    (huser : db.identityAt me = user.identity)
    (hseller : db.books.seller body.uin = some listing.sellerUin) :
    Makes till (.redeem me body shop resale) db (redeemResale till user me listing body) ws s := by
  refine wp_raiseIf_bind fun _ => ?_
  have hfull : (alone (Change till)).wp (.redeem me body shop resale)
      (onlyIf (body.switch = false) (refuseFull .ownedUins me)) (fun _ ws s =>
        Seen db db.books db.identityAt ws s ∧
        (body.switch = false → (db.books.holdings me).encard < maxOwnedUins)) ws s := by
    refine wp_onlyIf (fun _ => ?_) fun hswitch => ⟨h, fun hno => absurd hno hswitch⟩
    refine wp_seq (wp_ownedUins h) ?_
    rintro held ws s ⟨h, hroom⟩
    exact wp_raiseIf fun hfull => ⟨h, fun _ => hroom hfull⟩
  refine wp_seq hfull ?_
  rintro _ ws s ⟨h, hroom⟩
  refine wp_aside (by simp) h fun now ws s h => ?_
  cases hverified : till.verifyResale now body.voucher body.uin with
  | error e => exact trivial
  | ok paid =>
    have hshown : ∀ R, Shown till db R (.redeem me body shop resale) :=
      fun _ => ⟨now, .inr ⟨paid, hverified⟩⟩
    refine wp_raiseIf_bind fun _ => wp_raiseIf_bind fun _ => ?_
    refine wp_aside (by simp [Aside.eq_def]) h fun _ ws s h => ?_
    refine wp_seq (wp_moveDeed h) fun moved ws s h => wp_raiseIf_bind fun hmoved => ?_
    obtain ⟨h, howner⟩ := h (by simpa using hmoved)
    refine wp_seq (wp_dropListing h) fun _ ws s h => ?_
    refine wp_aside (by simp [Aside.eq_def]) h fun _ ws s h => ?_
    cases hswitch : body.switch with
    | true =>
      rw [if_pos rfl]
      exact wp_bind.mpr (wp_switch h rfl huser rfl (fun _ hfresh =>
        .resaleSwitch shop resale hseller howner hme hfresh hswitch) (hshown _)
        fun _ _ => makes_finish)
    | false =>
      rw [if_neg Bool.false_ne_true]
      exact makes_plain h rfl (.resale shop resale hseller howner hme (hroom hswitch) hswitch)
        (hshown _) fun _ h => makes_map (makes_read h)

theorem redeem_makes {body : RedeemIn} {shop resale : Bool} (s : State) :
    Makes till (.redeem me body shop resale) s.db (redeem till me body shop resale) [] s := by
  refine wp_aside (by simp) (.start s) fun _ ws s₁ h => wp_seq (wp_activeUser h) ?_
  rintro user ws s₁ ⟨h, hme, huser⟩
  refine wp_ask h fun s₁ h => ?_
  split
  · rename_i listing hlisting
    refine redeemResale_makes h hme huser ?_
    rw [← h.books, seller_eq, (filter_eq_some_iff.mp hlisting).1]
    rfl
  refine wp_aside (by simp) h fun now ws s₁ h => ?_
  cases hverified : till.verify now body.voucher body.uin with
  | error e => exact trivial
  | ok nonce =>
    have hshown : ∀ R, Shown till s.db R (.redeem me body shop resale) :=
      fun _ => ⟨now, .inl ⟨nonce, hverified⟩⟩
    refine wp_seq (wp_uinIsTaken h _ _ _) ?_
    rintro taken ws s₁ ⟨h, hfree⟩
    refine wp_raiseIf_bind fun htaken => ?_
    have hfree : s.db.books.Free body.uin := hfree (by simpa using htaken)
    refine wp_aside (by simp [Aside.eq_def]) h fun _ ws s₁ h => ?_
    refine wp_aside (by simp [Aside.eq_def]) h fun _ ws s₁ h => ?_
    cases hswitch : body.switch with
    | true =>
      -- the deed is written before the move, which takes it along
      refine wp_seq (wp_onlyIf (fun _ => wp_insertDeed h fun _ => rfl) fun hno =>
        absurd rfl hno) fun _ ws s₁ h => ?_
      exact wp_bind.mpr (wp_switch h rfl huser rfl
        (fun _ _ => .redeemSwitch shop resale hfree hme hswitch) (hshown _)
        fun _ _ => makes_finish)
    | false =>
      refine wp_seq (Q := fun _ ws s₁ => Seen s.db s.db.books s.db.identityAt ws s₁)
        (wp_onlyIf (fun hyes => absurd hyes false_ne_true) fun _ => h) fun _ ws s₁ h => ?_
      exact wp_bind.mpr (wp_hold h (hshown _)
        (fun hroom => .redeem shop resale hfree hme hroom hswitch) fun _ _ => makes_finish)

/-! ## Listings, releases, burns -/

theorem createListing_makes {body : ListingIn} {listingId : String} {shop resale : Bool}
    (s : State) : Makes till (.createListing me body listingId shop resale) s.db
      (createListing me body listingId shop resale) [] s := by
  refine wp_raiseIf_bind fun _ => wp_raiseIf_bind fun _ => wp_raiseIf_bind fun hne => ?_
  refine wp_raiseIf_bind fun _ => wp_raiseIf_bind fun _ => ?_
  refine wp_ask (.start s) fun s₁ h => wp_raiseIf_bind fun hheld => ?_
  have howner := owner_of_held h hheld
  refine wp_ask h fun s₁ h => ?_
  split
  · -- a new price is a new offer of the same seller
    refine wp_ask h fun s₁ h => wp_raiseIf_bind fun _ => ?_
    refine wp_bind.mpr (wp_change h fun s' h => wp_raiseIf_bind fun _ => ?_)
    refine makes_plain (h.put ?_ (by simp)) rfl (.nothing _ _) trivial fun _ h => h
    cases hget : (s'.view ([] : List Write)).uinListings.get body.uin with
    | none => exact h.books
    | some row =>
      have hseller : s.db.books.seller body.uin = some row.sellerUin := by
        rw [← h.books, seller_eq, hget]
        rfl
      refine (books_listing_some _).trans ?_
      rw [h.books]
      exact Registry.ext rfl rfl (update_eq_self_iff.mpr hseller.symm)
  · refine wp_seq (wp_insertListing h fun _ => rfl) fun _ ws s₁ h => ?_
    exact makes_plain h rfl (.list listingId shop resale howner (Ne.symm hne)) trivial fun _ h => h

theorem deleteListing_makes (s : State) :
    Makes till (.deleteListing me n) s.db (deleteListing me n) [] s := by
  refine wp_ask (.start s) fun s₁ h => wp_raiseIf_bind fun _ => ?_
  refine wp_ask h fun s₁ h => wp_raiseIf_bind fun _ => ?_
  refine wp_seq (wp_dropListing h) fun _ ws s₁ h => ?_
  exact makes_plain h rfl (.unlist me n) trivial fun _ h => h

theorem release_makes (s : State) : Makes till (.release me n) s.db (release me n) [] s := by
  refine wp_ask (.start s) fun s₁ h => wp_raiseIf_bind fun hlisted => ?_
  have hseller : s.db.books.seller n = none :=
    h.books ▸ seller_eq_none.mpr (by simpa using hlisted)
  refine wp_raiseIf_bind fun _ => wp_ask h fun s₁ h => wp_raiseIf_bind fun _ => ?_
  refine wp_seq (wp_dropDeed h) fun _ ws s₁ h => ?_
  exact makes_plain h rfl (.release hseller) trivial fun _ h => makes_read h

theorem burn_makes (s : State) : Makes till (.burn me) s.db (burn me) [] s := by
  refine wp_ask (.start s) fun s₁ h => wp_raiseIf_bind fun _ => ?_
  refine wp_seq (wp_dropDeeds h) fun _ ws s₁ h => ?_
  refine wp_seq (wp_dropListings h) fun _ ws s₁ h => ?_
  refine wp_seq (wp_dropUser h) fun _ ws s₁ h => ?_
  exact wp_settle h (.burn me) follows_same.drop trivial fun _ h => h

/-! ## Every request -/

/-- A request makes a deal, or is not about the books. -/
theorem handler_makes (cfg : Config) (till : Till) (r : Request) (s : State) :
    Makes till r s.db (handler cfg till r) [] s ∨
      (handler cfg till r).Within Aside (fun _ _ => True) ∧ ∀ d R, Shown till d R r := by
  cases r with
  | register body env => exact .inl (makes_map (register_makes cfg s))
  | guestSettle me code policy => exact .inl (makes_map (guestSettle_makes s))
  | residencyRedeem me voucher => exact .inl (makes_map (residencyRedeem_makes s))
  | grantUin body => exact .inl (makes_map (grantUin_makes s))
  | claim me body shop => exact .inl (makes_map (claim_makes s))
  | redeem me body shop resale => exact .inl (makes_map (redeem_makes s))
  | activate me uin => exact .inl (makes_map (activate_makes s))
  | migrate me cooldown draw => exact .inl (makes_map (migrate_makes cfg s))
  | createListing me body listingId shop resale => exact .inl (makes_map (createListing_makes s))
  | deleteListing me uin => exact .inl (makes_map (deleteListing_makes s))
  | release me uin => exact .inl (makes_map (release_makes s))
  | burn me => exact .inl (makes_map (burn_makes s))
  | tillHold request shop =>
    have hwhole := tillHold_whole (W := Aside) (E := fun _ _ => True) (fun _ => trivial) till request
      shop fun _ _ => by simp [Aside.eq_def]
    exact .inr ⟨hwhole.1.bind fun _ => trivial, fun _ _ => trivial⟩
  | payoutTarget request sale env =>
    have hwhole := payoutTarget_whole (W := Aside) (E := fun _ _ => True) (fun _ => trivial) till
      request sale env fun _ _ _ => trivial
    exact .inr ⟨hwhole.1.bind fun _ => trivial, fun _ _ => trivial⟩
  | tick seconds =>
    exact .inr ⟨Within.bind (.effect fun _ _ => trivial) fun _ => trivial, fun _ _ => trivial⟩

/-- What is written beside the books changes nothing. -/
private theorem framed_aside (hshown : ∀ d R, Shown till d R r) :
    (alone (Change till) : Outline Db Ext Write Label Request).Framed r Aside (fun _ _ => True)
      fun ws _ => ∀ o ∈ ws, Aside o where
  stable _ _ _ _ h _ _ := h
  stmt l ws s new e h _ hnew _ :=
    ⟨⟨trivial, .inl rfl⟩, fun o ho => (mem_append.mp ho).elim (h o) (hnew o)⟩
  commit l ws s e h _ _ := by
    obtain ⟨-, hbooks, hpeople⟩ :=
      (seen_carried (T := Change till) (v := r)).write [] s ws (.start s) trivial h
    have hchange : Change till r s.db (s.view ws) :=
      ⟨hbooks ▸ .nothing _ _, hbooks ▸ hpeople ▸ follows_same, hshown _ _⟩
    exact ⟨⟨trivial, .inr ⟨cons_ne_self _ _, hchange⟩⟩, forall_mem_nil _⟩
  rollback _ _ _ := forall_mem_nil _

theorem handler_safe (cfg : Config) (till : Till) (r : Request) (s : State) :
    (alone (Change till)).Safe r (handler cfg till r) [] s := by
  rcases handler_makes cfg till r s with hmakes | ⟨haside, hshown⟩
  · exact wp_mono hmakes fun _ _ _ _ => trivial
  · exact safe_within (framed_aside hshown) haside (forall_mem_nil _)

/-- What a request that is served alone makes of the books. -/
theorem deal_exec (cfg : Config) (till : Till) (r : Request) (s : State) :
    Deal r s.db.books ((handler cfg till r).exec s).2.db.books := by
  rcases handler_makes cfg till r s with hmakes | ⟨haside, -⟩
  · refine exec_inv (P := fun s' => Made r s.db s') (wlp_weaken
      (wlp_of_wp (.inl ⟨handler_atomic cfg till r, rfl⟩) hmakes) (fun s' hsame => ?_)
      fun _ _ _ h => h)
    rw [Made, hsame]
    exact .nothing _ _
  · have hsame : ((handler cfg till r).exec s).2.db.books = s.db.books :=
      exec_inv (P := fun s' : State => s'.db.books = s.db.books) (wlp_mono
        (wlp_within (P := fun d : Db => d.books = s.db.books)
          (fun w d hw hd => (books_aside hw d).trans hd) haside (.nil rfl))
        fun _ _ _ h => h.1)
    rw [hsame]
    exact .nothing _ _

end RcqServer.Numbers
