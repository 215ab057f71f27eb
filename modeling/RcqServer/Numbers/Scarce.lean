import RcqServer.Numbers.Tenure
import RcqServer.Numbers.Vouchers
import RcqServer.Numbers.Collections

/-!
# How somebody comes to hold a scarce number

A scarce number leaves the pool through a door that somebody stands at: the operator's grant, an
invite that promises it, a voucher for it, or a registration by somebody who holds it on a trusted
island (`Admitted`).  An identity, which is a signing key here, holds the numbers that its accounts
answer as and those that its accounts have deeds of.

A deed names its owner by number.  A request that writes a deed has read its account long before it
commits, and does not lock it.  If the account leaves its number in between, the deed stays behind
with the number, and whoever takes the number next has the deed.  So the doors hold as long as no
request commits while another one is in flight.
-/

namespace RcqServer.Numbers

open ReadCommitted Prog Outline List Option World

/-! ## Visits -/

/-- What arrives: a request with what is looked up for it, or the mint of a guest. -/
inductive Visit
  | request (r : Request) (q : Lookup)
  | guestMint (identityKey signingKey : KeyText) (status : GuestStatus) (draw : ℕ → ℕ)

/-- Step 10 of `POST /auth/guest`, and the mint by a room: nobody chooses the number of a guest. -/
def mintGuest (cfg : Config) (identityKey signingKey : KeyText) (status : GuestStatus)
    (draw : ℕ → ℕ) : Handler Uin := do
  let uin ← allocateUin cfg draw
  insert (.take .users uin .insertUser) (·.users.get uin) (.user uin)
    (fun now => ⟨identityKey, signingKey, false, some status, none, now, some now⟩) internalError
  .commit (.take .users uin .commit) (·.hand uin .users) (.ret uin)

variable (codec : Codec) (island : Island) (cfg : Config) (till : Till)

/-- What a registration learns from outside, with the lookup made. -/
def lookedUp (q : Lookup) (body : RegisterIn) (env : RegisterEnv) : RegisterEnv :=
  { env with tenure :=
      body.desiredUin.any fun n => holdsElsewhere codec island q n body.signingKey }

def Visit.handler : Visit → Handler Answer
  | .request (.register body env) q =>
    Numbers.handler cfg till (.register body (lookedUp codec island q body env))
  | .request r _ => Numbers.handler cfg till r
  | .guestMint identityKey signingKey status draw => do
    return .number (← mintGuest cfg identityKey signingKey status draw)

/-! ## Holding -/

/-- The identity `who` holds the number, by the accounts `U` and the deeds `D`. -/
def Holding (U : Uin → Option UserRow) (D : Uin → Option Deed) (who : List ℕ) (n : Uin) : Prop :=
  ∃ m row, U m = some row ∧ row.identity = some who ∧
    (m = n ∨ ∃ deed, D n = some deed ∧ deed.ownerUin = m)

/-- The identity holds the number, as an account's or as a deed. -/
def Db.Holds (db : Db) (who : List ℕ) (n : Uin) : Prop :=
  Holding db.users.get db.ownedUins.get who n

/-- The doors through which `who` comes to hold the scarce number `n`. -/
inductive Admitted (v : Visit) (db : Db) (who : List ℕ) (n : Uin) : Prop
  | grant {body : GrantUinIn} {q : Lookup} (hv : v = .request (.grantUin body) q)
      (hn : body.uin = n) (hwho : db.identityAt body.toUin = some who)
  | invite {body : RegisterIn} {env : RegisterEnv} {q : Lookup} {i : Invite} {t : Time}
      (hv : v = .request (.register body env) q) (hwho : decodeKey32 body.signingKey = some who)
      (hi : db.invites.get body.invite = some i) (hlive : i.live t) (hn : i.uin = some n)
  | voucher {me : Uin} {body : RedeemIn} {shop resale : Bool} {q : Lookup} {t : Time}
      {nonce : Nonce} (hv : v = .request (.redeem me body shop resale) q) (hn : body.uin = n)
      (hwho : db.identityAt me = some who) (hverified : till.verify t body.voucher n = .ok nonce)
  | resale {me : Uin} {body : RedeemIn} {shop resale : Bool} {q : Lookup} {t : Time}
      {paid : Nonce × String × ℕ} (hv : v = .request (.redeem me body shop resale) q)
      (hn : body.uin = n) (hwho : db.identityAt me = some who)
      (hverified : till.verifyResale t body.voucher n = .ok paid)
  | tenure {body : RegisterIn} {env : RegisterEnv} {q : Lookup}
      (hv : v = .request (.register body env) q) (hproof : env.proof = .valid)
      (hwho : decodeKey32 body.signingKey = some who) (hn : body.desiredUin = some n)
      (hvouched : VouchedFor codec island q n body.signingKey)

/-- Whoever comes to hold a scarce number has come through one of the doors. -/
def Through (v : Visit) (db db' : Db) : Prop :=
  ∀ n who, isReservedUin n = true → db'.Holds who n →
    db.Holds who n ∨ Admitted codec island till v db who n

/-! ## What a request brings -/

section

variable {codec island cfg till} {r : Request} {db db' : Db} {n : Uin} {who : List ℕ}

theorem holds_iff : db.Holds who n ↔ db.books.HeldBy db.identityAt who n := by
  constructor
  · rintro ⟨m, row, hrow, hwho, hheld⟩
    refine ⟨m, by rw [Db.identityAt, hrow, bind_some, hwho], ?_⟩
    by_cases hnm : n = m
    · exact .inl hnm
    · obtain ⟨deed, hdeed, rfl⟩ := hheld.resolve_left (Ne.symm hnm)
      exact .inr ⟨by rw [owner_eq, hdeed, map_some], hnm⟩
  · rintro ⟨m, hm, hheld⟩
    obtain ⟨row, hrow, hwho⟩ := bind_eq_some_iff.mp hm
    refine ⟨m, row, hrow, hwho, hheld.imp Eq.symm fun hn => ?_⟩
    exact map_eq_some_iff.mp hn.1

/-- By which `who` comes to hold the number. -/
def Gains (till : Till) (db : Db) (who : List ℕ) (n : Uin) : Request → Prop
  | .register body env => decodeKey32 body.signingKey = some who ∧
      (Promised db body.invite n ∨ env.proof = .valid ∧ body.desiredUin = some n ∧
        env.tenure = true)
  | .grantUin body => body.uin = n ∧ db.identityAt body.toUin = some who
  | .redeem me body shop resale => body.uin = n ∧ db.identityAt me = some who ∧
      Shown till db db.books (.redeem me body shop resale)
  | _ => False

theorem Change.gains (h : Change till r db db') (hpeopled : db.books.Peopled) (hn : Scarce n)
    (hheld : db'.books.HeldBy db'.identityAt who n) :
    db.books.HeldBy db.identityAt who n ∨ Gains till db who n r := by
  have hsame : db.books.Follows db.books db.identityAt db.identityAt none := follows_same
  obtain ⟨hdeal, hpeople, hshown⟩ := h
  generalize hR : db.books = R at *
  generalize db'.books = R' at *
  generalize db'.identityAt = I' at *
  cases hdeal with
  | nothing => exact .inl (hheld.of_less hpeople subset_rfl fun _ => subset_rfl)
  | register body env hfree =>
    refine (hheld.of_enter hpeople hpeopled).imp id ?_
    rintro ⟨rfl, hwho⟩
    exact ⟨hwho, hshown n (.inl rfl) (hR ▸ hfree.1) hn⟩
  | grant body hfree hto =>
    exact (hheld.of_give hpeople rfl rfl).imp id fun ⟨hb, hwho⟩ => ⟨hb.symm, hwho⟩
  | claim shop hfree hme hroom hswitch =>
    exact .inl ((hheld.of_give hpeople rfl rfl).resolve_right fun ⟨hb, _⟩ => hshown (hb ▸ hn))
  | claimSwitch shop hfree hme hswitch =>
    refine .inl ((hheld.of_move hpeople hpeopled hfree.1).resolve_right ?_)
    exact fun ⟨hb, _⟩ => hshown (hb ▸ hn)
  | redeem shop resale hfree hme hroom hswitch =>
    exact (hheld.of_give hpeople rfl rfl).imp id fun ⟨hb, hwho⟩ => ⟨hb.symm, hwho, hshown⟩
  | redeemSwitch shop resale hfree hme hswitch =>
    rcases hheld.of_move hpeople (hpeopled.give hme) hfree.1 with hheld | ⟨hb, hwho⟩
    · exact (hheld.of_give hsame rfl rfl).imp id fun ⟨hb, hwho⟩ => ⟨hb.symm, hwho, hshown⟩
    · exact .inr ⟨hb.symm, hwho, hshown⟩
  | resale shop resale hseller howner hme hroom hswitch =>
    exact (hheld.of_give hpeople rfl rfl).imp id fun ⟨hb, hwho⟩ => ⟨hb.symm, hwho, hshown⟩
  | resaleSwitch shop resale hseller howner hme hfresh hswitch =>
    rcases hheld.of_move hpeople (hpeopled.give hme) hfresh with hheld | ⟨hb, hwho⟩
    · exact (hheld.of_give hsame rfl rfl).imp id fun ⟨hb, hwho⟩ => ⟨hb.symm, hwho, hshown⟩
    · exact .inr ⟨hb.symm, hwho, hshown⟩
  | activate hseller howner hme hfresh =>
    refine .inl ((hheld.of_move hpeople hpeopled hfresh).elim id ?_)
    -- the number was the account's by its deed
    rintro ⟨rfl, hwho⟩
    exact ⟨_, hwho, .inr ⟨howner, fun heq => hfresh (heq ▸ hme)⟩⟩
  | migrate cooldown draw hfree hme =>
    refine .inl ((hheld.of_move hpeople hpeopled hfree.1).resolve_right ?_)
    rintro ⟨rfl, -⟩
    exact hshown n ⟨.inl rfl, fun heq => hfree.1 (heq ▸ hme)⟩ (hR ▸ hfree.1) hn
  | list listingId shop resale howner hne =>
    exact .inl (hheld.of_less hpeople subset_rfl fun _ => subset_rfl)
  | unlist me m => exact .inl (hheld.of_less hpeople subset_rfl fun _ => subset_rfl)
  | release hseller =>
    refine .inl (hheld.of_less hpeople subset_rfl fun a m hm => ⟨?_, hm.2⟩)
    have howner := hm.1
    simp only [Registry.release, Function.update_apply] at howner
    split at howner
    · cases howner
    · exact howner
  | burn me =>
    exact .inl (hheld.of_less hpeople Set.sdiff_subset fun _ _ hm =>
      ⟨(filter_eq_some_iff.mp hm.1).1, hm.2⟩)

/-- A request with what is looked up for it. -/
def Request.lookedUp (codec : Codec) (island : Island) (q : Lookup) : Request → Request
  | .register body env => .register body (Numbers.lookedUp codec island q body env)
  | r => r

theorem handler_lookedUp (q : Lookup) : Visit.handler codec island cfg till (.request r q) =
    Numbers.handler cfg till (r.lookedUp codec island q) := by
  cases r with
  | _ => rfl

theorem admitted_of_gains {q : Lookup} (h : Gains till db who n (r.lookedUp codec island q)) :
    Admitted codec island till (.request r q) db who n := by
  cases r with
  | register body env =>
    obtain ⟨hwho, ⟨i, t, hi, hlive, hin⟩ | ⟨hproof, hdesired, htenure⟩⟩ := h
    · exact .invite rfl hwho hi hlive hin
    · refine .tenure rfl hproof hwho hdesired (vouchedFor_of_holdsElsewhere ?_)
      simpa [Numbers.lookedUp, hdesired] using htenure
  | grantUin body => exact .grant rfl h.1 h.2
  | redeem me body shop resale =>
    obtain ⟨rfl, hwho, t, ⟨nonce, hverified⟩ | ⟨paid, hverified⟩⟩ := h
    · exact .voucher rfl rfl hwho hverified
    · exact .resale rfl rfl hwho hverified
  | _ => exact h.elim

variable (codec island till) in
/-- What a visit may commit. -/
def Visit.Keeps (v : Visit) (db db' : Db) : Prop :=
  db.Peopled → db'.Peopled ∧ Through codec island till v db db'

/-- Nobody chooses the number of a guest. -/
theorem mintGuest_safe (cfg : Config) {v : Visit} {identityKey signingKey : KeyText}
    {status : GuestStatus} {draw : ℕ → ℕ} (s : State) :
    (alone (Visit.Keeps codec island till)).Safe v
      (mintGuest cfg identityKey signingKey status draw) [] s := by
  refine wp_seq (wp_allocateUin (.start s) cfg draw) ?_
  rintro m ws s₁ ⟨⟨h, hfree⟩, hordinary⟩
  refine wp_seq (wp_insertUser h (decodeKey32 signingKey) fun _ => rfl) ?_
  rintro _ ws s₁ ⟨-, h⟩ s₂ hrely - -
  obtain ⟨hdb, hbooks, hpeople⟩ := h.stable (hrely (some_ne_none _))
  refine ⟨⟨trivial, .inr ⟨cons_ne_self _ _, fun hpeopled => ?_⟩⟩, trivial⟩
  rw [hdb] at hpeopled ⊢
  refine ⟨peopled_iff.mpr (hbooks ▸ (peopled_iff.mp hpeopled).enter), fun n who hn hheld => ?_⟩
  rw [holds_iff, Shared.commit_db, hbooks, hpeople] at hheld
  refine .inl (holds_iff.mpr ?_)
  refine (hheld.of_enter (follows_same.enter hfree.1) (peopled_iff.mp hpeopled)).resolve_right ?_
  exact fun ⟨hb, _⟩ => hordinary (hb ▸ hn)

theorem visit_safe (cfg : Config) (v : Visit) (s : State) :
    (alone (Visit.Keeps codec island till)).Safe v (v.handler codec island cfg till) [] s := by
  cases v with
  | guestMint identityKey signingKey status draw => exact safe_map (mintGuest_safe cfg s) _
  | request r q =>
    rw [handler_lookedUp]
    refine wp_alone_mono (fun d d' h hpeopled => ?_) (handler_safe cfg till _ s)
    rw [peopled_iff] at hpeopled
    refine ⟨peopled_iff.mpr (h.deal.peopled hpeopled), fun n who hn hheld => ?_⟩
    rw [holds_iff] at hheld ⊢
    exact (h.gains hpeopled hn hheld).imp id admitted_of_gains

end

/-! ## Runs -/

/-- A world of visits. -/
abbrev Visits := ReadCommitted.World Db Ext Write Label HttpError Visit Answer

/-- No request commits while another one is in flight. -/
def CommitsAlone (w : Visits) : Action Visit → Prop
  | .step k => w.committing k → ∀ j < w.sessions.length, j ≠ k → w.upcoming j = none
  | _ => True

instance (w : Visits) (j : ℕ) : Decidable (w.upcoming j = none) :=
  decidable_of_iff _ isNone_iff_eq_none

instance : DecidableRel CommitsAlone := by
  rintro w (_ | _) <;> unfold CommitsAlone <;> infer_instance

/-- **Scarce numbers leave through the doors.**  In every run in which no request commits while
another one is in flight, from a store in which every deed belongs to an account, whoever comes to
hold a scarce number has been granted it, was promised it by a live invite, has a voucher for it,
or proves a key that a trusted island vouches for, whatever the records, the mirror, the headers
and the other islands say. -/
theorem scarce_number_through_door {db : Db} {now : Time} {w w' : Visits} {k : ℕ} {n : Uin}
    {who : List ℕ} (hpeopled : db.Peopled)
    (hrun : Run (Visit.handler codec island cfg till) CommitsAlone
      (.fresh db (.initial now)) w) (halone : CommitsAlone w (.step k))
    (hstep : w.next (Visit.handler codec island cfg till) (.step k) = some w')
    (hn : isReservedUin n = true) (hheld : w'.shared.db.Holds who n) :
    w.shared.db.Holds who n ∨ ∃ v l, w.upcoming k = some (v, l) ∧
      Admitted codec island till v w.shared.db who n := by
  have halone' : ∀ (w : Visits) a, CommitsAlone w a → w.CommitsAlone a := by
    rintro w (_ | j | _) h
    · exact trivial
    · exact fun hcommit i hi hne => isNone_iff_eq_none.mpr (h hcommit i hi hne)
    · exact trivial
  have hrun := Run.mono halone' hrun
  have hbefore : w.shared.db.Peopled := inv_of_alone (visit_safe cfg)
    (fun _ _ _ hpeopled h => (h hpeopled).1) hpeopled hrun
  rcases step_of_alone (visit_safe cfg) hrun (halone' w _ halone) hstep with
    hsame | ⟨v, l, hv, hkeeps⟩
  · rw [hsame] at hheld
    exact .inl hheld
  · exact ((hkeeps hbefore).2 n who hn hheld).imp id fun hadmitted => ⟨v, l, hv, hadmitted⟩

/-! ### A deed that is left behind -/

/-- An island that trusts nobody, and whose signatures never hold. -/
def aloneCodec : Codec := ⟨id, fun _ => none, fun _ => false⟩

def aloneIsland : Island := ⟨[], [], []⟩

/-- Nothing is offered, mirrored or answered. -/
def noLookup : Lookup := ⟨[], none, .error (), fun _ _ => .nothing⟩

/-- An account with an ordinary number and no deeds. -/
abbrev buyer : Visits := .fresh (collector 123456987 []).db (.initial 1000)

/-- A stranger's key. -/
def strangerKey : KeyText := 'B' :: replicate 42 'A'

/-- The account buys the number 777 with a voucher, in so many steps. -/
def buySchedule (taken : ℕ) : List (Action Visit) :=
  .start (Visit.request (Request.redeem 123456987 ⟨777, "voucher", false⟩ true false) noLookup) ::
    steps 0 taken

/-- The account moves to a new number before the deed of 777 is committed, and a stranger registers
with the number that it has left. -/
def inheritSchedule : List (Action Visit) :=
  buySchedule 10 ++
    .start (Visit.request (Request.migrate 123456987 false fun _ => 987654120) noLookup) ::
    steps 1 20 ++ steps 0 9 ++
    .start (Visit.request (Request.register ⟨strangerKey, strangerKey, "", some 123456987⟩
      ⟨.valid, some .openIsland, false, false, fun _ => 0⟩) noLookup) :: steps 2 6

private abbrev frankHandler := Visit.handler aloneCodec aloneIsland defaults frankTill

private abbrev played (schedule : List (Action Visit)) : Visits := buyer.play frankHandler schedule

/-- The number and the invite of a registration. -/
def Visit.asksFor : Visit → Option (Option Uin × InviteCode)
  | .request (.register body _) _ => some (body.desiredUin, body.invite)
  | _ => none

/-- Nobody with this key has an account. -/
private theorem not_holds_of_select {db : Db} {who : List ℕ} (n : Uin)
    (h : db.users.select (fun _ row => row.identity == some who) = []) : ¬db.Holds who n := by
  rintro ⟨m, row, hrow, hwho, -⟩
  have hmem : (m, row) ∈ db.users.select fun _ row => row.identity == some who :=
    Table.mem_select.mpr ⟨hrow, by simpa using hwho⟩
  rw [h] at hmem
  cases hmem

theorem scarce_number_through_till :
    let w := buyer.play (Visit.handler aloneCodec aloneIsland defaults frankTill)
      (buySchedule 10)
    isReservedUin 777 = true ∧ ¬w.shared.db.Holds (List.replicate 32 0) 777 ∧
      ∃ w', w.next (Visit.handler aloneCodec aloneIsland defaults frankTill) (.step 0) = some w' ∧
        w'.shared.db.Holds (List.replicate 32 0) 777 ∧
        (w.shared.db.Holds (List.replicate 32 0) 777 ∨ ∃ v l, w.upcoming 0 = some (v, l) ∧
          Admitted aloneCodec aloneIsland frankTill v w.shared.db (List.replicate 32 0) 777) := by
  have hnext : ((played (buySchedule 10)).next frankHandler (.step 0)).any (fun w' =>
      decide (w'.shared.db.users.get 123456987 =
        some ⟨zeroKey, zeroKey, false, none, none, 0, some 0⟩ ∧
        w'.shared.db.ownedUins.get 777 = some ⟨123456987, .purchase, 1000⟩)) = true := by
    decide +kernel
  obtain ⟨w', hw', hrows⟩ := (any_eq_true _ _).mp hnext
  obtain ⟨huser, hdeed⟩ := of_decide_eq_true hrows
  have hscarce : isReservedUin 777 = true := by decide
  have hheld : w'.shared.db.Holds (List.replicate 32 0) 777 :=
    ⟨123456987, _, huser, by decide +kernel, .inr ⟨_, hdeed, rfl⟩⟩
  have hrun : Run frankHandler CommitsAlone buyer (played (buySchedule 10)) :=
    .of_play _ (by decide +kernel)
  have hbefore : ¬(played (buySchedule 10)).shared.db.Holds (replicate 32 0) 777 := by
    rintro ⟨m, row, hrow, -, rfl | ⟨deed, hdeed, -⟩⟩
    · cases (by decide +kernel :
        (played (buySchedule 10)).shared.db.users.get 777 = none).symm.trans hrow
    · cases (by decide +kernel :
        (played (buySchedule 10)).shared.db.ownedUins.get 777 = none).symm.trans hdeed
  exact ⟨hscarce, hbefore, w', hw', hheld, scarce_number_through_door aloneCodec aloneIsland defaults
    frankTill (collector_peopled []) hrun (by decide +kernel) hw' hscarce hheld⟩

/-- The stranger holds 777: its deed had been written for the number by which the account was known
when it paid. -/
theorem scarce_number_inherited :
    let w := buyer.play (Visit.handler aloneCodec aloneIsland defaults frankTill)
      inheritSchedule
    let stranger := 4 :: List.replicate 31 0
    Run (Visit.handler aloneCodec aloneIsland defaults frankTill) (fun _ _ => True)
      buyer w ∧ buyer.shared.db.Peopled ∧ isReservedUin 777 = true ∧
      ¬w.shared.db.Holds stranger 777 ∧
      (∀ v l, w.upcoming 2 = some (v, l) →
        ¬Admitted aloneCodec aloneIsland frankTill v w.shared.db stranger 777) ∧
      ∃ w', w.next (Visit.handler aloneCodec aloneIsland defaults frankTill) (.step 2) = some w' ∧
        w'.shared.db.Holds stranger 777 := by
  have hnext : ((played inheritSchedule).next frankHandler (.step 2)).any (fun w' =>
      decide (w'.shared.db.users.get 123456987 =
        some ⟨strangerKey, strangerKey, false, none, none, 1000, some 1000⟩ ∧
        w'.shared.db.ownedUins.get 777 = some ⟨123456987, .purchase, 1000⟩)) = true := by
    decide +kernel
  obtain ⟨w', hw', hrows⟩ := (any_eq_true _ _).mp hnext
  obtain ⟨huser, hdeed⟩ := of_decide_eq_true hrows
  refine ⟨.of_play _ (by decide +kernel), collector_peopled [], by decide,
    not_holds_of_select 777 (by decide +kernel), fun v l hv hadmitted => ?_, w', hw', 123456987, _,
    huser, by decide +kernel, .inr ⟨_, hdeed, rfl⟩⟩
  -- the registration is for another number, and shows no invite
  have hvisit : ((played inheritSchedule).upcoming 2).map (fun x => x.1.asksFor) =
      some (some (some 123456987, "")) := by
    decide +kernel
  rw [hv] at hvisit
  cases hadmitted with
  | grant hv' | voucher hv' | resale hv' =>
    cases hv'
    simp [Visit.asksFor] at hvisit
  | invite hv' hwho hi =>
    cases hv'
    simp only [map_some, Visit.asksFor, some.injEq, Prod.mk.injEq] at hvisit
    rw [hvisit.2] at hi
    cases (by decide +kernel : (buyer.play (Visit.handler aloneCodec aloneIsland defaults
      frankTill) inheritSchedule).shared.db.invites.get "" = none).symm.trans hi
  | tenure hv' hproof hwho hn =>
    cases hv'
    simp [Visit.asksFor, hn] at hvisit

end RcqServer.Numbers
